import TockKernel.Bytes
import TockKernel.ProcessTypes

/-!
# Key-value storage with permissions

A model of `capsules/extra/src/kv_store_permissions.rs` and of
`kernel/src/storage_permissions.rs`, on top of a key-value store that behaves as
a map. The store answers asynchronously; a request is a sequence of calls of
the store, each made when the one before has been completed.
-/

namespace TockKernel.KVStorePermissions

/-! ## Storage permissions -/

structure StoragePermissions where
  readCount : ℕ
  readPermissions : List (BitVec 32)
  modifyCount : ℕ
  modifyPermissions : List (BitVec 32)
  writeId : Option { id : BitVec 32 // id ≠ 0 }
  kerneluser : Bool

/-- `permissions.get(0..count).unwrap_or(&[]).contains(id)`, where only the
kernel has access to what is stored with id 0. -/
def allows (kerneluser : Bool) (count : ℕ) (permissions : List (BitVec 32))
    (storageId : BitVec 32) : Bool :=
  if storageId = 0 then
    kerneluser
  else if count ≤ permissions.length then
    (permissions.take count).contains storageId
  else
    false

namespace StoragePermissions

variable (p : StoragePermissions)

def checkReadPermission (storageId : BitVec 32) : Bool :=
  allows p.kerneluser p.readCount p.readPermissions storageId

def checkWritePermission (storageId : BitVec 32) : Bool :=
  allows p.kerneluser p.modifyCount p.modifyPermissions storageId

def getWriteId : Option (BitVec 32) :=
  if p.kerneluser then
    some (p.writeId.elim 0 Subtype.val)
  else
    p.writeId.map Subtype.val

end StoragePermissions

/-! ## The header of an object -/

def headerVersion : Byte := 0

def headerLength : ℕ := 9

structure KeyHeader where
  version : Byte
  length : BitVec 32
  writeId : BitVec 32
  deriving DecidableEq

def leBytes (value : BitVec 32) : List Byte :=
  [value.extractLsb' 0 8, value.extractLsb' 8 8, value.extractLsb' 16 8, value.extractLsb' 24 8]

namespace KeyHeader

/-- Panics, that is `none`, if the buffer is shorter than a header. -/
def newFromBuf : List Byte → Option KeyHeader
  | version :: l0 :: l1 :: l2 :: l3 :: w0 :: w1 :: w2 :: w3 :: _ =>
    some {
      version
      length := l3 ++ l2 ++ l1 ++ l0
      writeId := w3 ++ w2 ++ w1 ++ w0 }
  | _ => none

def bytes (header : KeyHeader) : List Byte :=
  header.version :: (leBytes header.length ++ leBytes header.writeId)

def copyToBuf (header : KeyHeader) (buf : List Byte) : List Byte :=
  header.bytes ++ buf.drop headerLength

end KeyHeader

/-! ## Requests, calls of the store and callbacks -/

abbrev Key := List Byte

inductive Operation where
  | get
  | set
  | add
  | update
  | delete
  deriving DecidableEq

/-- A call of one of the five functions; `delete` takes no value. -/
structure Request where
  operation : Operation
  key : Key
  value : List Byte
  permissions : StoragePermissions

/-- What is stored for a request: a header and the caller's bytes, which come
after the room for the header. -/
def Request.object (r : Request) (writeId : BitVec 32) : List Byte :=
  KeyHeader.copyToBuf
    { version := headerVersion
      length := BitVec.ofNat 32 (r.value.length - headerLength)
      writeId }
    r.value

/-- A call of the store that has not been completed. -/
inductive StoreCall where
  | get (key : Key) (value : List Byte)
  | set (key : Key) (value : List Byte)
  | add (key : Key) (value : List Byte)
  | update (key : Key) (value : List Byte)
  | delete (key : Key)

structure Callback where
  operation : Operation
  result : Except ErrorCode Unit
  key : Key
  /-- The buffer handed back; `delete` has none. -/
  value : List Byte

/-- The capsule and the store under it, with the call that is not completed, the
request it is made for, and the callbacks to the client, the last one first. -/
structure Capsule where
  headerValue : Option (List Byte)
  operation : Option Operation
  value : Option (List Byte)
  validIds : Option StoragePermissions
  store : Key → Option (List Byte)
  pending : Option StoreCall
  request : Option Request
  callbacks : List Callback

/-- The store may refuse a call, or fail later with its contents unchanged, and
may leave any bytes in the buffer of a `get` that does not find its key. -/
structure Behaviour where
  refusal : Option ErrorCode
  failure : Option ErrorCode
  leftover : List Byte
  /-- Whether the buffer of a `get` is cut to the length of the object. -/
  trims : Bool

inductive Event where
  | request (r : Request)
  | complete

namespace Capsule

variable (behaviour : Behaviour) (s : Capsule) (operation : Operation)

def callback (result : Except ErrorCode Unit) (key : Key) (value : List Byte) : Capsule :=
  { s with
    operation := none
    request := none
    callbacks := ⟨operation, result, key, value⟩ :: s.callbacks }

/-! ## Requests -/

def insert (r : Request) : Except ErrorCode Unit × Capsule :=
  match r.permissions.getWriteId with
  | none => (.error .inval, s)
  | some writeId =>
    if s.operation.isSome then
      (.error .busy, s)
    else if r.value.length < headerLength then
      (.error .size, s)
    else
      match r.operation with
      | .set | .update =>
        -- The header is read first, to see if the object may be changed.
        match s.headerValue with
        | some headerValue =>
          match behaviour.refusal with
          | none =>
            (.ok (),
              { s with
                operation := some r.operation
                validIds := some r.permissions
                headerValue := none
                value := some (r.object writeId)
                pending := some (.get r.key headerValue)
                request := some r })
          | some error =>
            (.error error, { s with validIds := some r.permissions })
        | none =>
          (.error .fail,
            { s with
              operation := some r.operation
              validIds := some r.permissions })
      | .add =>
        match behaviour.refusal with
        | none =>
          (.ok (),
            { s with
              operation := some .add
              pending := some (.add r.key (r.object writeId))
              request := some r })
        | some error => (.error error, s)
      | _ => (.error .fail, { s with operation := some r.operation })

def get (r : Request) : Except ErrorCode Unit × Capsule :=
  if s.operation.isSome then
    (.error .busy, s)
  else
    match behaviour.refusal with
    | none =>
      (.ok (),
        { s with
          operation := some .get
          validIds := some r.permissions
          pending := some (.get r.key r.value)
          request := some r })
    | some error => (.error error, { s with validIds := some r.permissions })

def delete (r : Request) : Except ErrorCode Unit × Capsule :=
  if s.operation.isSome then
    (.error .busy, s)
  else
    match s.headerValue with
    | some headerValue =>
      match behaviour.refusal with
      | none =>
        (.ok (),
          { s with
            operation := some .delete
            validIds := some r.permissions
            headerValue := none
            pending := some (.get r.key headerValue)
            request := some r })
      | some error => (.error error, { s with validIds := some r.permissions })
    | none =>
      (.error .fail, { s with operation := some .delete, validIds := some r.permissions })

def make (r : Request) : Except ErrorCode Unit × Capsule :=
  match r.operation with
  | .get => s.get behaviour r
  | .set | .add | .update => s.insert behaviour r
  | .delete => s.delete behaviour r

/-! ## Completions -/

def copied : Except ErrorCode Unit → Bool
  | .ok () => true
  | .error error => error = .size

def notFound : Except ErrorCode Unit → Bool
  | .ok () => false
  | .error error => error = .nosupport

/-- Whether the header that was read passes a check of the permissions. Panics
if what was read is too short for a header. -/
def headerPasses (check : StoragePermissions → BitVec 32 → Bool)
    (result : Except ErrorCode Unit) (value : List Byte) : Option Bool :=
  if copied result then do
    let header ← KeyHeader.newFromBuf value
    return header.version == headerVersion &&
      s.validIds.elim false fun permissions => check permissions header.writeId
  else
    some false

/-- The second call of the store for a `set`, `update` or `delete`, if the
object may be changed. -/
def change (accessAllowed : Bool) (key : Key)
    (value : List Byte) (storeCall : StoreCall) : Capsule :=
  if accessAllowed then
    match behaviour.refusal with
    | none => { s with pending := some storeCall }
    | some error => s.callback operation (.error error) key value
  else
    s.callback operation (.error .nosupport) key value

/-- `set` and `update` need the value that was put aside. -/
def changeValue (accessAllowed : Bool) (key : Key)
    (storeCall : Key → List Byte → StoreCall) : Capsule :=
  match s.value with
  | some value =>
    { s with value := none }.change behaviour operation accessAllowed key value
      (storeCall key value)
  | none =>
    if accessAllowed then s else { s with operation := none, request := none }

def getComplete (result : Except ErrorCode Unit) (key : Key) (value : List Byte) : Option Capsule :=
  match s.operation with
  | some .set => do
      let mayChange ← s.headerPasses StoragePermissions.checkWritePermission result value
      -- A key that is not found can be created.
      return { s with headerValue := some value }.changeValue behaviour .set
        (mayChange || notFound result) key .set
  | some .update => do
      let accessAllowed ← s.headerPasses StoragePermissions.checkWritePermission result value
      return { s with headerValue := some value }.changeValue behaviour .update
        accessAllowed key .update
  | some .delete => do
      let accessAllowed ← s.headerPasses StoragePermissions.checkWritePermission result value
      return { s with headerValue := some value }.change behaviour .delete
        accessAllowed key [] (.delete key)
  | some .get => do
      let readAllowed ← s.headerPasses StoragePermissions.checkReadPermission result value
      return if readAllowed then
        s.callback .get result key (value.drop headerLength)
      else
        s.callback .get (.error .nosupport) key (value.map fun _ => 0)
  | some .add | none => some s

/-- What a `get` of the store brings. -/
def storeGet (key : Key) (buffer : List Byte) : Except ErrorCode Unit × List Byte :=
  let leftover := (behaviour.leftover ++ buffer).take buffer.length
  match behaviour.failure, s.store key with
  | some _, _ => (.error .fail, leftover)
  | none, none => (.error .nosupport, leftover)
  | none, some object =>
    if object.length ≤ buffer.length then
      (.ok (),
        if behaviour.trims then
          object
        else
          object ++ buffer.drop object.length)
    else
      (.error .size, object.take buffer.length)

/-- What storing an object, or removing one, comes to. `add` is for keys that
are not there, `update` and `delete` for keys that are. -/
def storeChange (applies : Option (List Byte) → Bool) (key : Key) (object : Option (List Byte)) :
    Except ErrorCode Unit × (Key → Option (List Byte)) :=
  match behaviour.failure with
  | some error => (.error error, s.store)
  | none =>
    if applies (s.store key) then
      (.ok (), Function.update s.store key object)
    else
      (.error .nosupport, s.store)

def changeComplete (key : Key) (value : List Byte)
    (change : Except ErrorCode Unit × (Key → Option (List Byte))) : Capsule :=
  { s with store := change.2 }.callback operation change.1 key value

def complete : Option Capsule :=
  let done := { s with pending := none }
  match s.pending with
  | none => some s
  | some (.get key buffer) =>
    let (result, value) := s.storeGet behaviour key buffer
    done.getComplete behaviour result key value
  | some (.set key value) =>
    some (done.changeComplete .set key value
      (s.storeChange behaviour (fun _ => true) key (some value)))
  | some (.add key value) =>
    some (done.changeComplete .add key value
      (s.storeChange behaviour Option.isNone key (some value)))
  | some (.update key value) =>
    some (done.changeComplete .update key value
      (s.storeChange behaviour Option.isSome key (some value)))
  | some (.delete key) =>
    some (done.changeComplete .delete key [] (s.storeChange behaviour Option.isSome key none))

/-- A request, or a completion by the store. `none` is a panic. -/
def step : Event → Option Capsule
  | .request r => some (s.make behaviour r).2
  | .complete => s.complete behaviour

end Capsule

end TockKernel.KVStorePermissions

import TockKernel.Loading.ProcessBinary
import TockKernel.ProcessTypes

/-!
# The credential checker

A model of the `ProcessCheckerMachine` of `kernel/src/process_checker.rs`: the
footers of a binary are offered one after the other to the policy, which
answers at once with an error or later with a decision.
-/

namespace TockKernel.Loading

open Tbf List

inductive CheckResult where
  | accept (metadata : Option ℕ)
  | pass
  | reject
  deriving DecidableEq

abbrev CheckAnswer : Type := Except ProcessCheckError (Option AcceptedCredential)

/-- How the policy deals with a footer: `check_credentials` returns an error, or
it starts a check and `check_done` is called later. -/
inductive PolicyAnswer where
  | refused (error : ErrorCode)
  | started (result : Except ErrorCode CheckResult)

/-- A policy, with its answer to each call of `check_credentials`. -/
structure AppCredentialsPolicy where
  requireCredentials : Bool
  answer : ℕ → PolicyAnswer

inductive FooterCheckResult where
  | checking
  | pastLastFooter
  | footerNotCheckable
  | badFooter
  | error
  deriving DecidableEq

structure Offer where
  credentials : TbfFooterV2Credentials
  integrityRegion : List Byte
  answer : PolicyAnswer

/-- The checker with what it has exchanged with the policy and the client since
a check was begun. -/
structure ProcessCheckerMachine where
  processBinary : Option ProcessBinary
  footerIndex : ℕ
  offers : List Offer
  /-- A check that has been started, and what its result will be. -/
  outstanding : Option (TbfFooterV2Credentials × Except ErrorCode CheckResult)
  dones : List (ProcessBinary × CheckAnswer)

/-- The loop of `check_footer`, which starts at the first footer each time. -/
def findFooter : ℕ → List Byte → Except FooterCheckResult TbfFooterV2Credentials
  | nextFooter, footerSlice =>
    match parseTbfFooter footerSlice with
    | .error .notEnoughFlash => .error .pastLastFooter
    | .error _ => .error .badFooter
    | .ok (footer, len) =>
      match sliceFrom footerSlice (len + 4), nextFooter with
      | none, _ => .error .badFooter
      | some _, 0 => .ok footer
      | some rest, nextFooter + 1 => findFooter nextFooter rest

def getIntegrityRegionSlice (pb : ProcessBinary) : List Byte :=
  pb.flash.bytes.take pb.header.getBinaryEnd.toNat

namespace ProcessCheckerMachine

variable (policy : AppCredentialsPolicy) (machine : ProcessCheckerMachine) (pb : ProcessBinary)

def offer (footer : TbfFooterV2Credentials) : FooterCheckResult × ProcessCheckerMachine :=
  let answer := policy.answer machine.offers.length
  let machine :=
    { machine with
      offers := machine.offers ++ [⟨footer, getIntegrityRegionSlice pb, answer⟩] }
  match answer with
  | .started result =>
    (.checking, { machine with outstanding := some (footer, result) })
  | .refused .nosupport => (.footerNotCheckable, machine)
  | .refused .already => (.footerNotCheckable, machine)
  | .refused _ => (.error, machine)

def checkFooter (nextFooter : ℕ) : FooterCheckResult × ProcessCheckerMachine :=
  match findFooter nextFooter pb.footers with
  | .error result => (result, machine)
  | .ok footer => machine.offer policy pb footer

def done (result : CheckAnswer) : ProcessCheckerMachine :=
  { machine with dones := machine.dones ++ [(pb, result)] }

/-- The loop of `next`, with the binary taken out of its cell. -/
def nextLoop (policy : AppCredentialsPolicy) (pb : ProcessBinary) :
    ℕ → ProcessCheckerMachine → ProcessCheckerMachine
  | 0, machine => machine
  | fuel + 1, machine =>
    match machine.checkFooter policy pb machine.footerIndex with
    | (.checking, machine) => { machine with processBinary := some pb }
    | (.pastLastFooter, machine) | (.badFooter, machine) =>
      machine.done pb (if policy.requireCredentials then
          .error .credentialsNotAccepted
        else
          .ok none)
    | (.footerNotCheckable, machine) =>
      nextLoop policy pb fuel { machine with footerIndex := machine.footerIndex + 1 }
    | (.error, machine) => machine.done pb (.error .internalError)

/-- A footer takes eight bytes at least, so that the length of the footers
bounds the number of iterations. -/
def next : ProcessCheckerMachine :=
  match machine.processBinary with
  | none => machine
  | some pb =>
    nextLoop policy pb (pb.footers.length + 1) { machine with processBinary := none }

def check : ProcessCheckerMachine :=
  next policy
    { processBinary := some pb
      footerIndex := 0
      offers := []
      outstanding := none
      dones := [] }

def report (result : CheckAnswer) : ProcessCheckerMachine :=
  match machine.processBinary with
  | some pb => { machine with processBinary := none }.done pb result
  | none => machine

def checkDone (result : Except ErrorCode CheckResult)
    (credentials : TbfFooterV2Credentials) : ProcessCheckerMachine :=
  match result with
  | .ok (.accept metadata) =>
    machine.report (.ok (some { credential := credentials, metadata }))
  | .ok .reject =>
    machine.report (.error (.credentialsRejected (BitVec.ofNat 32 machine.footerIndex)))
  | .ok .pass | .error _ =>
    next policy { machine with footerIndex := machine.footerIndex + 1 }

def answered : ProcessCheckerMachine :=
  match machine.outstanding with
  | some (credentials, result) =>
    { machine with outstanding := none }.checkDone policy result credentials
  | none => machine

def afterAnswers (policy : AppCredentialsPolicy) (pb : ProcessBinary) : ℕ → ProcessCheckerMachine
  | 0 => check policy pb
  | n + 1 => (afterAnswers policy pb n).answered policy

end ProcessCheckerMachine

/-! ## The footers of a region -/

/-- A record of the footers: its type, and what follows its length. -/
structure FooterTlv where
  tipe : ℕ
  payload : List Byte

/-- Two bytes of type, two of length and as many bytes as that, again and again. -/
def tlvsFrom : ℕ → List Byte → List FooterTlv
  | fuel + 1, t0 :: t1 :: l0 :: l1 :: rest =>
    let length := l0.toNat + 256 * l1.toNat
    if length ≤ rest.length then
      ⟨t0.toNat + 256 * t1.toNat, rest.take length⟩ :: tlvsFrom fuel (rest.drop length)
    else
      []
  | _, _ => []

/-- Type 128, a format of four bytes, and the data of that format. -/
def FooterTlv.credentials (tlv : FooterTlv) : Option TbfFooterV2Credentials :=
  match tlv.tipe, tlv.payload with
  | 128, f0 :: f1 :: f2 :: f3 :: data =>
    let sized (format : TbfFooterV2CredentialsType) (size : ℕ) :=
      if size ≤ data.length then some ⟨format, data.take size⟩ else none
    match f0.toNat + 256 * (f1.toNat + 256 * (f2.toNat + 256 * f3.toNat)) with
    | 0 => sized .reserved 0
    | 1 => sized .rsa3072Key 768
    | 2 => sized .rsa4096Key 1024
    | 3 => sized .sha256 32
    | 4 => sized .sha384 48
    | 5 => sized .sha512 64
    | _ => none
  | _, _ => none

variable (region : List Byte)

def tlvsOf : List FooterTlv := tlvsFrom region.length region

def footersOf : List TbfFooterV2Credentials :=
  (tlvsOf region).filterMap FooterTlv.credentials

/-- The footers in front of the first record that is not understood. -/
def understood (tlvs : List FooterTlv) : List TbfFooterV2Credentials :=
  (tlvs.takeWhile fun tlv => tlv.credentials.isSome).filterMap FooterTlv.credentials

/-- No footer stands behind a record that is not understood. -/
def Readable : Prop :=
  ∀ tlv ∈ (tlvsOf region).dropWhile fun tlv => tlv.credentials.isSome, tlv.credentials = none

theorem understood_prefix : understood (tlvsOf region) <+: footersOf region :=
  ( takeWhile_prefix _).filterMap _

theorem understood_eq_footersOf_iff :
    understood (tlvsOf region) = footersOf region ↔ Readable region := by
  unfold understood footersOf Readable
  generalize tlvsOf region = tlvs
  have hsplit : tlvs.filterMap FooterTlv.credentials = _ :=
    congrArg _ (takeWhile_append_dropWhile : _ ++ tlvs.dropWhile (·.credentials.isSome) = tlvs).symm
  rw [hsplit, filterMap_append, self_eq_append_right, filterMap_eq_nil_iff]

theorem toNat_append_byte {n : ℕ} (high : BitVec n) (low : Byte) :
    (high ++ low).toNat = low.toNat + 256 * high.toNat := by
  rw [BitVec.toNat_append, Nat.shiftLeft_eq, mul_comm, ← Nat.two_pow_add_eq_or_of_lt low.isLt,
    add_comm]

theorem toOption_tryFrom (payload : List Byte) :
    (TbfFooterV2Credentials.tryFrom payload).toOption = FooterTlv.credentials ⟨128, payload⟩ := by
  match payload with
  | f0 :: f1 :: f2 :: f3 :: data =>
    have hword : u32At (f0 :: f1 :: f2 :: f3 :: data) 0 TbfParseError.internalError =
        .ok (f3 ++ f2 ++ f1 ++ f0) := by
      simp [u32At, slice]
    have hformat : (f3 ++ f2 ++ f1 ++ f0).toNat =
        f0.toNat + 256 * (f1.toNat + 256 * (f2.toNat + 256 * f3.toNat)) := by
      simp only [toNat_append_byte]
    have hslice (size : ℕ) : slice (f0 :: f1 :: f2 :: f3 :: data) 4 (size + 4) =
        if size ≤ data.length then some (data.take size) else none := by
      simp [slice]
    rw [TbfFooterV2Credentials.tryFrom, hword, FooterTlv.credentials]
    simp only [bind, Except.bind, TbfFooterV2CredentialsType.ofU32, hformat]
    rcases f0.toNat + _ with _ | _ | _ | _ | _ | _ | n
    case succ.succ.succ.succ.succ.succ => rfl
    all_goals
      simp only [TbfFooterV2CredentialsType.length, hslice]
      split_ifs <;> rfl
  | [_, _, _] | [_, _] | [_] | [] => rfl

theorem FooterTlv.credentials_of_ne {tlv : FooterTlv} (h : tlv.tipe ≠ 128) :
    tlv.credentials = none := by
  unfold credentials
  split
  · exact absurd ‹_› h
  · rfl

theorem ofU16_eq_footerCredentials_iff (tipe : BitVec 16) :
    TbfHeaderTypes.ofU16 tipe = .footerCredentials ↔ tipe.toNat = 128 := by
  unfold TbfHeaderTypes.ofU16
  split <;> simp_all

theorem parseTbfFooter_cons (t0 t1 l0 l1 : Byte) (rest : List Byte) :
    (parseTbfFooter (t0 :: t1 :: l0 :: l1 :: rest)).toOption =
      if l0.toNat + 256 * l1.toNat ≤ rest.length then
        (FooterTlv.credentials ⟨t0.toNat + 256 * t1.toNat,
          rest.take (l0.toNat + 256 * l1.toNat)⟩).map (·, l0.toNat + 256 * l1.toNat)
      else
        none := by
  have htake : takeBytes (t0 :: t1 :: l0 :: l1 :: rest) 4 = .ok [t0, t1, l0, l1] := by
    simp [takeBytes, slice]
  have htlv : TbfTlv.tryFrom [t0, t1, l0, l1] = .ok ⟨.ofU16 (t1 ++ t0), l1 ++ l0⟩ := rfl
  have hkind := ofU16_eq_footerCredentials_iff (t1 ++ t0)
  simp only [parseTbfFooter, htake, htlv, bind, Except.bind, toNat_append_byte] at hkind ⊢
  generalize l0.toNat + 256 * l1.toNat = length
  generalize t0.toNat + 256 * t1.toNat = tipe at hkind ⊢
  by_cases htipe : tipe = 128
  · subst htipe
    rw [hkind.mpr rfl]
    by_cases hfits : length ≤ rest.length
    · have hpayload : takeBytes rest length = .ok (rest.take length) := by
        simp [takeBytes, slice, hfits]
      rw [if_pos hfits, ← toOption_tryFrom]
      simp only [drop_succ_cons, drop_zero, hpayload]
      cases TbfFooterV2Credentials.tryFrom (rest.take length) <;> rfl
    · simp [takeBytes, slice, hfits, Except.toOption]
  · rw [FooterTlv.credentials_of_ne htipe, Option.map_none, ite_self]
    split
    · exact absurd (hkind.mp ‹_›) htipe
    · rfl

theorem findFooter_of_toOption_none {region : List Byte} (index : ℕ)
    (h : (parseTbfFooter region).toOption = none) :
    ∃ result, findFooter index region = .error result := by
  unfold findFooter
  cases hparse : parseTbfFooter region with
  | error error => cases error <;> exact ⟨_, rfl⟩
  | ok parsed =>
    rw [hparse] at h
    cases h

theorem findFooter_eq_ok_iff {fuel : ℕ} {region : List Byte} {index : ℕ}
    (hfuel : region.length ≤ fuel) {footer : TbfFooterV2Credentials} :
    findFooter index region = .ok footer ↔
      (understood (tlvsFrom fuel region))[index]? = some footer := by
  have hnone {region : List Byte} {index : ℕ} {tlvs : List FooterTlv}
      (hparse : (parseTbfFooter region).toOption = none) (htlvs : understood tlvs = []) :
      findFooter index region = .ok footer ↔ (understood tlvs)[index]? = some footer := by
    obtain ⟨result, hfind⟩ := findFooter_of_toOption_none index hparse
    simp [hfind, htlvs]
  induction fuel generalizing region index with
  | zero =>
    obtain rfl := eq_nil_of_length_eq_zero (Nat.le_zero.mp hfuel)
    exact hnone rfl rfl
  | succ fuel ih =>
    match region with
    | t0 :: t1 :: l0 :: l1 :: rest =>
      have hparse := parseTbfFooter_cons t0 t1 l0 l1 rest
      rw [tlvsFrom]
      generalize l0.toNat + 256 * l1.toNat = length at hparse ⊢
      split_ifs at hparse ⊢ with hfits
      · cases hcred : FooterTlv.credentials ⟨_, _⟩ with
        | none => exact hnone (hparse.trans (by rw [hcred]; rfl)) (by simp [understood, hcred])
        | some found =>
          rw [hcred] at hparse
          have hok : parseTbfFooter (t0 :: t1 :: l0 :: l1 :: rest) = .ok (found, length) := by
            unfold Except.toOption at hparse
            split at hparse <;> simp_all
          have hslice : sliceFrom (t0 :: t1 :: l0 :: l1 :: rest) (length + 4) =
              some (rest.drop length) := by
            simp [sliceFrom, hfits]
          have hrest : (rest.drop length).length ≤ fuel := by
            rw [length_cons, length_cons, length_cons, length_cons] at hfuel
            rw [length_drop]
            omega
          unfold findFooter
          rw [hok]
          cases index with
          | zero => simp [hslice, understood, hcred]
          | succ index => simpa [hslice, understood, hcred] using ih hrest
      · exact hnone hparse rfl
    | [_, _, _] | [_, _] | [_] | [] => exact hnone rfl rfl

theorem findFooter_eq_error {index : ℕ} {region : List Byte}
    {result : FooterCheckResult} (h : findFooter index region = .error result) :
    result = .pastLastFooter ∨ result = .badFooter := by
  induction index generalizing region with
  | zero =>
    unfold findFooter at h
    cases hparse : parseTbfFooter region with
    | error error => cases error <;> simp_all
    | ok parsed => cases hslice : sliceFrom region (parsed.2 + 4) <;> simp_all
  | succ index ih =>
    unfold findFooter at h
    cases hparse : parseTbfFooter region with
    | error error => cases error <;> simp_all
    | ok parsed =>
      cases hslice : sliceFrom region (parsed.2 + 4) with
      | none => simp_all
      | some rest =>
        simp only [hparse, hslice] at h
        exact ih h

theorem length_understood_le : (understood (tlvsOf region)).length ≤ region.length := by
  have htlvs (fuel : ℕ) (region : List Byte) : (tlvsFrom fuel region).length ≤ fuel := by
    fun_induction tlvsFrom fuel region with
    | case1 fuel t0 t1 l0 l1 rest length hfits ih => exact Nat.succ_le_succ ih
    | case2 | case3 => exact Nat.zero_le _
  exact (length_filterMap_le _ _).trans (( takeWhile_prefix _).length_le.trans (htlvs _ _))

/-! ## What a check comes to -/

def PolicyAnswer.passes : PolicyAnswer → Bool
  | .started (.ok .pass) | .started (.error _) => true
  | .refused .nosupport | .refused .already => true
  | _ => false

def PolicyAnswer.accepts : PolicyAnswer → Bool
  | .started (.ok (.accept _)) => true
  | _ => false

def PolicyAnswer.rejects : PolicyAnswer → Bool
  | .started (.ok .reject) => true
  | _ => false

theorem PolicyAnswer.undecided_of_passes {answer : PolicyAnswer} (h : answer.passes) :
    answer.accepts = false ∧ answer.rejects = false := by
  cases answer with
  | refused error => exact ⟨rfl, rfl⟩
  | started result =>
    cases result with
    | error error => exact ⟨rfl, rfl⟩
    | ok result => cases result <;> simp_all [passes, accepts, rejects]

/-- The policy has decided nothing. -/
def Passed (offers : List Offer) : Prop :=
  ∀ offer ∈ offers, offer.answer.passes = true

/-- The result of a check, from the answers of the policy to the footers it was
offered: all but the last were passed over. -/
inductive Verdict (policy : AppCredentialsPolicy) : List Offer → CheckAnswer → Prop where
  | accepted (earlier : List Offer) (credential : TbfFooterV2Credentials)
      (region : List Byte) (metadata : Option ℕ)
      (hearlier : Passed earlier) : Verdict policy
        (earlier ++ [⟨credential, region, .started (.ok (.accept metadata))⟩])
        (.ok (some ⟨credential, metadata⟩))
  | rejected (earlier : List Offer) (credential : TbfFooterV2Credentials)
      (region : List Byte) (index : BitVec 32)
      (hearlier : Passed earlier) : Verdict policy
        (earlier ++ [⟨credential, region, .started (.ok .reject)⟩])
        (.error (.credentialsRejected index))
  | failed (earlier : List Offer) (credential : TbfFooterV2Credentials)
      (region : List Byte) (error : ErrorCode)
      (hearlier : Passed earlier) :
      Verdict policy (earlier ++ [⟨credential, region, .refused error⟩]) (.error .internalError)
  | exhausted (offers : List Offer) (hoffers : Passed offers) :
      Verdict policy offers (if policy.requireCredentials then
          .error .credentialsNotAccepted
        else
          .ok none)

def ProcessBinary.understood (pb : ProcessBinary) : List TbfFooterV2Credentials :=
  Loading.understood (tlvsOf pb.footers)

namespace ProcessCheckerMachine

variable {policy : AppCredentialsPolicy} {pb : ProcessBinary} {machine : ProcessCheckerMachine}

structure Asking (pb : ProcessBinary) (machine : ProcessCheckerMachine) : Prop where
  offered : machine.offers.map Offer.credentials = pb.understood.take machine.footerIndex
  count : machine.offers.length = machine.footerIndex
  passed : Passed machine.offers
  outstanding : machine.outstanding = none
  dones : machine.dones = []

structure Waiting (pb : ProcessBinary) (machine : ProcessCheckerMachine)
    (earlier : List Offer) (footer : TbfFooterV2Credentials)
    (result : Except ErrorCode CheckResult) : Prop where
  offers : machine.offers = earlier ++ [⟨footer, getIntegrityRegionSlice pb, .started result⟩]
  offered : machine.offers.map Offer.credentials = pb.understood.take (machine.footerIndex + 1)
  count : machine.offers.length = machine.footerIndex + 1
  passed : Passed earlier
  outstanding : machine.outstanding = some (footer, result)
  dones : machine.dones = []
  processBinary : machine.processBinary = some pb

/-- The client has been told. Where no answer has decided, all footers have
been offered. -/
structure Finished (policy : AppCredentialsPolicy) (pb : ProcessBinary)
    (machine : ProcessCheckerMachine) : Prop where
  offered : machine.offers.map Offer.credentials <+: pb.understood
  complete : Passed machine.offers → machine.offers.map Offer.credentials = pb.understood
  outstanding : machine.outstanding = none
  dones : ∃ result, machine.dones = [(pb, result)] ∧ Verdict policy machine.offers result

theorem Asking.footerIndex_le (h : Asking pb machine) :
    machine.footerIndex ≤ pb.understood.length := by
  have hlen := congrArg length h.offered
  rw [length_map, h.count, length_take] at hlen
  omega

theorem checkFooter_cases (policy : AppCredentialsPolicy)
    (machine : ProcessCheckerMachine) (pb : ProcessBinary) (index : ℕ) :
    (∃ footer, pb.understood[index]? = some footer ∧
      machine.checkFooter policy pb index = machine.offer policy pb footer) ∨
    (pb.understood.length ≤ index ∧
      (machine.checkFooter policy pb index = (.pastLastFooter, machine) ∨
        machine.checkFooter policy pb index = (.badFooter, machine))) := by
  unfold checkFooter
  cases hfind : findFooter index pb.footers with
  | ok footer =>
    exact .inl ⟨footer, (findFooter_eq_ok_iff (le_refl _)).mp hfind, rfl⟩
  | error result =>
    have hpast : pb.understood.length ≤ index := by
      by_contra hlt
      have hfooter := getElem?_eq_getElem (not_le.mp hlt)
      rw [(findFooter_eq_ok_iff (le_refl _)).mpr hfooter] at hfind
      cases hfind
    obtain rfl | rfl := findFooter_eq_error hfind
    · exact .inr ⟨hpast, .inl rfl⟩
    · exact .inr ⟨hpast, .inr rfl⟩

def withOffer (policy : AppCredentialsPolicy) (machine : ProcessCheckerMachine)
    (pb : ProcessBinary) (footer : TbfFooterV2Credentials) : ProcessCheckerMachine :=
  { machine with
    offers := machine.offers ++ [⟨footer, getIntegrityRegionSlice pb,
      policy.answer machine.offers.length⟩] }

theorem offer_cases (policy : AppCredentialsPolicy)
    (machine : ProcessCheckerMachine) (pb : ProcessBinary) (footer : TbfFooterV2Credentials) :
    (∃ result, policy.answer machine.offers.length = .started result ∧
      machine.offer policy pb footer =
        (.checking, { machine.withOffer policy pb footer with
          outstanding := some (footer, result) })) ∨
    ((policy.answer machine.offers.length).passes ∧ machine.offer policy pb footer =
        (.footerNotCheckable, machine.withOffer policy pb footer)) ∨
    (∃ error, policy.answer machine.offers.length = .refused error ∧
      (PolicyAnswer.refused error).passes = false ∧ machine.offer policy pb footer =
        (.error, machine.withOffer policy pb footer)) := by
  unfold offer withOffer
  cases policy.answer machine.offers.length with
  | started result => exact .inl ⟨result, rfl, rfl⟩
  | refused error =>
    cases error with
    | nosupport | already => exact .inr (.inl ⟨rfl, rfl⟩)
    | _ => exact .inr (.inr ⟨_, rfl, rfl, rfl⟩)

variable {footer : TbfFooterV2Credentials}

theorem Asking.offered_withOffer (h : Asking pb machine)
    (hfooter : pb.understood[machine.footerIndex]? = some footer) :
    (machine.withOffer policy pb footer).offers.map Offer.credentials =
      pb.understood.take (machine.footerIndex + 1) := by
  rw [take_add_one, hfooter, ← h.offered]
  exact map_append

theorem Asking.count_withOffer (h : Asking pb machine) (footer : TbfFooterV2Credentials) :
    (machine.withOffer policy pb footer).offers.length = machine.footerIndex + 1 := by
  rw [← h.count]
  exact length_append

theorem Asking.passed_withOffer (h : Asking pb machine)
    (hpasses : (policy.answer machine.offers.length).passes) :
    Passed (machine.withOffer policy pb footer).offers := by
  intro offer hmem
  obtain hmem | hmem := mem_append.mp hmem
  · exact h.passed offer hmem
  · obtain rfl := mem_singleton.mp hmem
    exact hpasses

section

variable (h : Asking pb machine)
  (hfooter : pb.understood[machine.footerIndex]? = some footer)
include h hfooter

theorem Asking.skip (hpasses : (policy.answer machine.offers.length).passes) :
    Asking pb { machine.withOffer policy pb footer with
      footerIndex := machine.footerIndex + 1 } where
  offered := h.offered_withOffer hfooter
  count := h.count_withOffer footer
  passed := h.passed_withOffer hpasses
  outstanding := h.outstanding
  dones := h.dones

theorem Asking.wait {result : Except ErrorCode CheckResult}
    (hanswer : policy.answer machine.offers.length = .started result) : Waiting pb
      { machine.withOffer policy pb footer with
        outstanding := some (footer, result)
        processBinary := some pb }
      machine.offers footer result where
  offers := by rw [← hanswer]; rfl
  offered := h.offered_withOffer hfooter
  count := h.count_withOffer footer
  passed := h.passed
  outstanding := rfl
  dones := h.dones
  processBinary := rfl

theorem Asking.fail {error : ErrorCode}
    (hanswer : policy.answer machine.offers.length = .refused error)
    (hfails : (PolicyAnswer.refused error).passes = false) : Finished policy pb
      ((machine.withOffer policy pb footer).done pb (.error .internalError)) where
  offered := h.offered_withOffer hfooter ▸ take_prefix _ _
  complete hpasses := by
    have hlast := hpasses _ (mem_append_right machine.offers (mem_singleton_self _))
    rw [hanswer, hfails] at hlast
    cases hlast
  outstanding := h.outstanding
  dones := by
    refine ⟨.error .internalError, ?_, ?_⟩
    · exact congrArg (· ++ _) h.dones
    · have hverdict : Verdict policy _ _ := .failed machine.offers footer
        (getIntegrityRegionSlice pb) error h.passed
      rw [← hanswer] at hverdict
      exact hverdict

end

theorem Asking.exhaust (h : Asking pb machine) (policy : AppCredentialsPolicy)
    (hpast : pb.understood.length ≤ machine.footerIndex) :
    Finished policy pb (machine.done pb (if policy.requireCredentials then
        .error .credentialsNotAccepted
      else
        .ok none)) where
  offered := h.offered ▸ take_prefix _ _
  complete _ := h.offered.trans (take_of_length_le hpast)
  outstanding := h.outstanding
  dones := ⟨_, congrArg (· ++ _) h.dones, Verdict.exhausted _ h.passed⟩

/-- A check waits for the policy, having offered another footer, or the client
has been told. -/
def Progress (policy : AppCredentialsPolicy) (pb : ProcessBinary) (offered : ℕ)
    (machine : ProcessCheckerMachine) : Prop :=
  (∃ earlier footer result, Waiting pb machine earlier footer result ∧
    offered < machine.offers.length) ∨
  Finished policy pb machine

theorem Progress.mono {offered offered' : ℕ}
    (h : Progress policy pb offered machine) (hle : offered' ≤ offered) :
    Progress policy pb offered' machine :=
  h.imp_left fun ⟨earlier, footer, result, hwaiting, hmore⟩ =>
    ⟨earlier, footer, result, hwaiting, hle.trans_lt hmore⟩

theorem Asking.nextLoop (h : Asking pb machine) {fuel : ℕ}
    (hfuel : pb.understood.length < machine.footerIndex + fuel) :
    Progress policy pb machine.footerIndex (machine.nextLoop policy pb fuel) := by
  induction fuel generalizing machine with
  | zero =>
    have := h.footerIndex_le
    omega
  | succ fuel ih =>
    unfold ProcessCheckerMachine.nextLoop
    obtain ⟨footer, hfooter, hcheck⟩ | ⟨hpast, hcheck | hcheck⟩ :=
      checkFooter_cases policy machine pb machine.footerIndex
    · obtain ⟨_, hanswer, hoffer⟩ | ⟨hpasses, hoffer⟩ |
        ⟨_, hanswer, hfails, hoffer⟩ := offer_cases policy machine pb footer
      · rw [hcheck, hoffer]
        have hwait := h.wait hfooter hanswer
        refine .inl ⟨_, _, _, hwait, ?_⟩
        rw [hwait.count]
        exact Nat.lt_succ_self _
      · rw [hcheck, hoffer]
        exact (ih (h.skip hfooter hpasses) (by simp only; omega)).mono (Nat.le_succ _)
      · rw [hcheck, hoffer]
        exact .inr (h.fail hfooter hanswer hfails)
    all_goals
      rw [hcheck]
      exact .inr (h.exhaust policy hpast)

theorem Asking.next (h : Asking pb machine) (hbinary : machine.processBinary = some pb) :
    Progress policy pb machine.footerIndex (machine.next policy) := by
  have hcount : pb.understood.length ≤ _ := length_understood_le pb.footers
  have hnext : machine.next policy =
      ProcessCheckerMachine.nextLoop policy pb (pb.footers.length + 1)
        { machine with processBinary := none } := by
    rw [ProcessCheckerMachine.next, hbinary]
  rw [hnext]
  have htaken : Asking pb { machine with processBinary := none } :=
    ⟨h.offered, h.count, h.passed, h.outstanding, h.dones⟩
  exact htaken.nextLoop (by dsimp only; omega)

theorem check_progress (policy : AppCredentialsPolicy) (pb : ProcessBinary) :
    Progress policy pb 0 (check policy pb) :=
  Asking.next ⟨rfl, rfl, by simp [Passed], rfl, rfl⟩ rfl

section Answered

variable {earlier : List Offer} {footer : TbfFooterV2Credentials}
  {result : Except ErrorCode CheckResult}

section

variable (h : Waiting pb machine earlier footer result)
include h

theorem Waiting.pass (hpasses : (PolicyAnswer.started result).passes) : Asking pb
      { machine with
        outstanding := none
        footerIndex := machine.footerIndex + 1 } where
  offered := h.offered
  count := h.count
  passed := by
    intro offer hmem
    rw [h.offers] at hmem
    obtain hmem | hmem := mem_append.mp hmem
    · exact h.passed offer hmem
    · obtain rfl := mem_singleton.mp hmem
      exact hpasses
  outstanding := rfl
  dones := h.dones

theorem Waiting.report (hdecides : (PolicyAnswer.started result).passes = false)
    {answer : CheckAnswer} (hverdict : Verdict policy machine.offers answer) :
    Finished policy pb ({ machine with outstanding := none }.report answer) := by
  have hreport : { machine with outstanding := none }.report answer =
      { machine with outstanding := none, processBinary := none }.done pb answer := by
    rw [ProcessCheckerMachine.report, h.processBinary]
  rw [hreport]
  refine ⟨h.offered ▸ take_prefix _ _, ?_, rfl, answer, congrArg (· ++ _) h.dones, hverdict⟩
  intro hpasses
  have hlast := hpasses ⟨footer, getIntegrityRegionSlice pb, .started result⟩ (by
    rw [h.offers]
    exact mem_append_right earlier (mem_singleton_self _))
  rw [hdecides] at hlast
  cases hlast

theorem Waiting.answered (policy : AppCredentialsPolicy) :
    Progress policy pb machine.offers.length (machine.answered policy) := by
  have hanswered : machine.answered policy =
      { machine with outstanding := none }.checkDone policy result footer := by
    rw [ProcessCheckerMachine.answered, h.outstanding]
  rw [hanswered]
  cases result with
  | error error =>
    rw [h.count]
    exact (h.pass rfl).next h.processBinary
  | ok decision =>
    cases decision with
    | pass =>
      rw [h.count]
      exact (h.pass rfl).next h.processBinary
    | accept metadata =>
      exact .inr (h.report rfl (h.offers ▸ .accepted earlier footer _ metadata h.passed))
    | reject =>
      exact .inr (h.report rfl (h.offers ▸ .rejected earlier footer _ _ h.passed))

theorem Waiting.length_le : machine.offers.length ≤ pb.understood.length := by
  have hlen := congrArg length h.offered
  rw [length_map, length_take] at hlen
  omega

end

end Answered

theorem afterAnswers_progress (policy : AppCredentialsPolicy) (pb : ProcessBinary) (n : ℕ) :
    Progress policy pb n (afterAnswers policy pb n) := by
  induction n with
  | zero => exact check_progress policy pb
  | succ n ih =>
    obtain ⟨_, _, _, hwaiting, hmore⟩ | hfinished := ih
    · exact (hwaiting.answered policy).mono hmore
    have hsame : afterAnswers policy pb (n + 1) = afterAnswers policy pb n := by
      rw [afterAnswers, answered, hfinished.outstanding]
    rw [hsame]
    exact .inr hfinished

end ProcessCheckerMachine

/-! ## Soundness -/

/-- What a report may say, given the answers to the footers that were offered. -/
structure Sound (policy : AppCredentialsPolicy) (offers : List Offer)
    (result : CheckAnswer) : Prop where
  /-- The credential is the first that was accepted, and none before it was
  rejected. -/
  accepted : ∀ accepted, result = .ok (some accepted) → ∃ earlier region,
    offers = earlier ++ [⟨accepted.credential, region,
      .started (.ok (.accept accepted.metadata))⟩] ∧
    ∀ offer ∈ earlier, offer.answer.accepts = false ∧ offer.answer.rejects = false
  unneeded : result = .ok none → policy.requireCredentials = false ∧
    ∀ offer ∈ offers, offer.answer.accepts = false ∧ offer.answer.rejects = false
  required : policy.requireCredentials = true → (∀ offer ∈ offers, offer.answer.accepts = false) →
    ∀ credential, result ≠ .ok credential

theorem Verdict.sound {policy : AppCredentialsPolicy} {offers : List Offer}
    {result : CheckAnswer} (h : Verdict policy offers result) : Sound policy offers result := by
  cases h with
  | accepted earlier credential region metadata hearlier =>
    refine ⟨?_, nofun, ?_⟩
    · intro accepted haccepted
      cases haccepted
      exact ⟨earlier, region, rfl, fun offer hoffer =>
        PolicyAnswer.undecided_of_passes (hearlier offer hoffer)⟩
    · intro _ hnone
      have hlast := hnone _ (mem_append_right earlier (mem_singleton_self _))
      cases hlast
  | rejected earlier credential region index hearlier
  | failed earlier credential region error hearlier =>
    exact ⟨nofun, nofun, nofun⟩
  | exhausted offers hoffers =>
    cases hrequire : policy.requireCredentials with
    | true => exact ⟨nofun, nofun, nofun⟩
    | false =>
      have hundecided : ∀ offer ∈ offers, offer.answer.accepts = false ∧
          offer.answer.rejects = false := fun offer hoffer =>
        PolicyAnswer.undecided_of_passes (hoffers offer hoffer)
      refine ⟨nofun, fun _ => ⟨hrequire, hundecided⟩, ?_⟩
      intro hrequired
      rw [hrequire] at hrequired
      cases hrequired

open ProcessCheckerMachine in
/-- A check ends, and then the client has been told once, and soundly; the policy
has been offered footers in their order and, if it has not decided, all of them
exactly if none stands behind a record that is not understood. -/
theorem check_reports_once (policy : AppCredentialsPolicy) (pb : ProcessBinary) :
    (∃ n, (afterAnswers policy pb n).outstanding = none) ∧ ∀ n,
      (afterAnswers policy pb n).offers.map Offer.credentials <+: footersOf pb.footers ∧
      ((afterAnswers policy pb n).outstanding ≠ none → (afterAnswers policy pb n).dones = []) ∧
      ((afterAnswers policy pb n).outstanding = none →
        ((∀ offer ∈ (afterAnswers policy pb n).offers, offer.answer.passes = true) →
          ((afterAnswers policy pb n).offers.map Offer.credentials = footersOf pb.footers ↔
            Readable pb.footers)) ∧
        ∃ result, (afterAnswers policy pb n).dones = [(pb, result)] ∧
          Sound policy (afterAnswers policy pb n).offers result) := by
  have hprefix := understood_prefix pb.footers
  constructor
  · refine ⟨pb.understood.length, ?_⟩
    obtain ⟨earlier, footer, result, hwaiting, hmore⟩ | hfinished :=
      afterAnswers_progress policy pb pb.understood.length
    · exact absurd hwaiting.length_le (not_le.mpr hmore)
    · exact hfinished.outstanding
  · intro n
    obtain ⟨earlier, footer, result, hwaiting, -⟩ | hfinished := afterAnswers_progress policy pb n
    · refine ⟨?_, fun _ => hwaiting.dones, ?_⟩
      · rw [hwaiting.offered]
        exact ( take_prefix _ _).trans hprefix
      · intro hnone
        rw [hwaiting.outstanding] at hnone
        cases hnone
    obtain ⟨result, hdones, hverdict⟩ := hfinished.dones
    refine ⟨hfinished.offered.trans hprefix, fun hsome => absurd hfinished.outstanding hsome,
      fun _ => ⟨fun hpasses => ?_, result, hdones, hverdict.sound⟩⟩
    rw [hfinished.complete hpasses]
    exact understood_eq_footersOf_iff pb.footers

/-- A footer of format 6, which the kernel does not know, and a SHA256 footer. -/
def unknownFormatFooters : List Byte :=
  [0x80, 0, 8, 0, 6, 0, 0, 0, 1, 2, 3, 4] ++ [0x80, 0, 36, 0, 3, 0, 0, 0] ++ .replicate 32 0xab

/-- The policy would accept the second footer, but is not asked. -/
theorem known_footer_not_offered :
    let pb : ProcessBinary := ⟨⟨0, []⟩, unknownFormatFooters, .padding ⟨2, 16, 16, 0, 0⟩, none⟩
    let policy : AppCredentialsPolicy := ⟨true, fun _ => .started (.ok (.accept none))⟩
    footersOf pb.footers = [⟨.sha256, .replicate 32 0xab⟩] ∧
      (ProcessCheckerMachine.check policy pb).offers = [] ∧
      (ProcessCheckerMachine.check policy pb).dones = [(pb, .error .credentialsNotAccepted)] := by
  refine ⟨?_, ?_, ?_⟩ <;> rfl

end TockKernel.Loading

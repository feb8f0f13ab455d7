import TockKernel.AppFlash
import TockKernel.CortexMRegionFaults
import TockKernel.DeferredCall
import TockKernel.Entropy
import TockKernel.KVStorePermissions.Answers
import TockKernel.Loading.Progress
import TockKernel.MpuRegions
import TockKernel.Net.FrameBounds
import TockKernel.Net.TransportChecksum
import TockKernel.NonvolatileStorage.Runs
import TockKernel.Pmp.Contract
import TockKernel.Pmp.Hardware
import TockKernel.ProcessBuffers
import TockKernel.RingBufferFifo
import TockKernel.Tbf.Decoder
import TockKernel.Tbf.Permissions
import TockKernel.TicKV.AppendOutcome
import TockKernel.TicKV.CheckSum
import TockKernel.TicKV.Probing
import TockKernel.TicKV.ReadBuffer
import TockKernel.TicKV.Reinitialise
import TockKernel.VirtualAlarm.Service
import TockKernel.VirtualTimer
import TockKernel.YieldNoWait

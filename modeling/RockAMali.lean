import RockAMali.Library.Transition
import RockAMali.Library.Fairness
import RockAMali.Library.Baton
import RockAMali.Library.ByteOrder
import RockAMali.Library.Loop
import RockAMali.ThreadLock
import RockAMali.DataBuffer
import RockAMali.Programs
import RockAMali.Roster
import RockAMali.Ownership
import RockAMali.DataFlow
import RockAMali.Delivery
import RockAMali.Rosters
import RockAMali.Sequential
import RockAMali.Pipelines
import RockAMali.Progress
import RockAMali.Liveness
import RockAMali.ProcessorShare
import RockAMali.ProcessorObjects
import RockAMali.LockedSections
import RockAMali.LockProgress
import RockAMali.SampleAccess
import RockAMali.Backlog
import RockAMali.UdpReceive
import RockAMali.DropCount
import RockAMali.UdpFrame
import RockAMali.UdpTransfer
import RockAMali.CImg
import RockAMali.DataFilter
import RockAMali.IdealPulse
import RockAMali.TrapezoidProcessor
import RockAMali.GpuDiscri
import RockAMali.AsioReceive
import RockAMali.Transmission
import RockAMali.Completion
import RockAMali.DropLog
import RockAMali.FilterWindows
import RockAMali.Watchdog
import RockAMali.AsioPending
import RockAMali.GpuVMcPc
import RockAMali.PeakGenerator
import RockAMali.PeakProcessor
import RockAMali.UdpIndex
import RockAMali.PeakEnergy
import RockAMali.TrapezoidHistory
import RockAMali.TrapezoidObjects
import RockAMali.Superposition
import RockAMali.DiscriObjects
import RockAMali.PileUp
import RockAMali.NoisyPulse
import RockAMali.PeakAnalysis
import RockAMali.PeakShape
import RockAMali.RandomParameter
import RockAMali.SelfCheck
import RockAMali.UdpWaits
import RockAMali.DataStore
import RockAMali.FilterParameters
import RockAMali.BlockLock
import RockAMali.GeneratorBlock
import RockAMali.RunCalls
import RockAMali.TransferRate
import RockAMali.BlockOwnership
import RockAMali.HandlerMemory

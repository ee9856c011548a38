import DsaStdexec.Lib.Machine
import DsaStdexec.Lib.Segments
import DsaStdexec.Submitter.Ring
import DsaStdexec.Submitter.Lemmas.RingShape
import DsaStdexec.Submitter.Lemmas.RingSteps
import DsaStdexec.Submitter.Lemmas.RingLayout
import DsaStdexec.Submitter.Lemmas.RingDelivery
import DsaStdexec.Submitter.Lemmas.RingAccounting
import DsaStdexec.Submitter.Theorems
import DsaStdexec.Submitter.Lemmas.Staging
import DsaStdexec.Submitter.FixedRing
import DsaStdexec.Submitter.Lemmas.FixedRing
import DsaStdexec.Lib.Memory
import DsaStdexec.Operation.DataMove
import DsaStdexec.Operation.Lemmas.DataMove
import DsaStdexec.Operation.Theorems
import DsaStdexec.Engine.DirectEngine
import DsaStdexec.Engine.Lemmas.DirectEngine
import DsaStdexec.Engine.Lemmas.Accounting
import DsaStdexec.Engine.Theorems
import DsaStdexec.Submitter.Lemmas.Batches
import DsaStdexec.Lib.Tiling
import DsaStdexec.Operation.Mixin
import DsaStdexec.Operation.Resume
import DsaStdexec.Operation.Lemmas.Pattern
import DsaStdexec.Operation.Lemmas.Dualcast
import DsaStdexec.Operation.Lemmas.Crc
import DsaStdexec.Operation.Blocking
import DsaStdexec.Operation.Lemmas.Blocking
import DsaStdexec.Engine.Operations
import DsaStdexec.Engine.Lemmas.Operations
import DsaStdexec.Lib.LinkedList
import DsaStdexec.Queue.Pointers
import DsaStdexec.Queue.Lemmas.Pointers
import DsaStdexec.Queue.Lemmas.Refinement
import DsaStdexec.Queue.System
import DsaStdexec.Queue.Lemmas.System
import DsaStdexec.Queue.Theorems
import DsaStdexec.Queue.RingProtocol
import DsaStdexec.Queue.Lemmas.RingProtocol
import DsaStdexec.Queue.LockFreeProtocol
import DsaStdexec.Queue.Lemmas.LockFreeProtocol
import DsaStdexec.Lib.Program
import DsaStdexec.Submitter.Shared
import DsaStdexec.Engine.Threads
import DsaStdexec.Submitter.Lemmas.Shared
import DsaStdexec.Engine.Lemmas.Threads
import DsaStdexec.Lib.Loans
import DsaStdexec.Submitter.Device
import DsaStdexec.Submitter.Lemmas.Device
import DsaStdexec.Submitter.Lemmas.Lending
import DsaStdexec.Submitter.Lemmas.RingLending
import DsaStdexec.Submitter.Handover
import DsaStdexec.Submitter.Lemmas.Draining
import DsaStdexec.Engine.Batching
import DsaStdexec.Engine.Lemmas.Batching
import DsaStdexec.Engine.Lemmas.Throttle
import DsaStdexec.Ffi.Validation
import DsaStdexec.Ffi.Session
import DsaStdexec.Lib.Peeling
import DsaStdexec.Ffi.Lemmas.Session
import DsaStdexec.Ffi.Theorems
import DsaStdexec.Ffi.Ownership
import DsaStdexec.Ffi.Lemmas.Ownership
import DsaStdexec.Profile.Codec
import DsaStdexec.Profile.Lemmas.Codec
import DsaStdexec.Profile.Theorems
import DsaStdexec.Ffi.AsyncSession
import DsaStdexec.Ffi.Lemmas.AsyncSession
import DsaStdexec.Lib.Wire
import DsaStdexec.Profile.Workload
import DsaStdexec.Profile.Lemmas.Workload
import DsaStdexec.Profile.Runtime
import DsaStdexec.Profile.Lemmas.Runtime
import DsaStdexec.Lib.Shell
import DsaStdexec.Profile.ClaimPackage
import DsaStdexec.Profile.Lemmas.ClaimPackage
import DsaStdexec.Bench.CrossThreadWake
import DsaStdexec.Bench.Lemmas.CrossThreadWake
import DsaStdexec.Bench.Theorems
import DsaStdexec.Engine.Lemmas.RunLoop
import DsaStdexec.Bench.SlotArena
import DsaStdexec.Bench.ThreadedArena
import DsaStdexec.Bench.Lemmas.ThreadedArena
import DsaStdexec.Bench.InlineArena
import DsaStdexec.Bench.Lemmas.InlineArena
import DsaStdexec.Bench.SlidingWindow
import DsaStdexec.Bench.Lemmas.SlidingWindow
import DsaStdexec.Ffi.Lemmas.Report
import DsaStdexec.Lib.Checks
import DsaStdexec.Lib.Paths
import DsaStdexec.Profile.Contract
import DsaStdexec.Profile.Lemmas.Contract
import DsaStdexec.Bench.Crc
import DsaStdexec.Profile.Lemmas.Families
import DsaStdexec.Profile.Lemmas.Summary
import DsaStdexec.Profile.Lemmas.Artifacts
import DsaStdexec.Profile.PackageTheorems
import DsaStdexec.Profile.Evidence
import DsaStdexec.Profile.Lemmas.Evidence
import DsaStdexec.Profile.EvidenceTheorems
import DsaStdexec.Lib.Lock
import DsaStdexec.Queue.Locks
import DsaStdexec.Lib.Gather
import DsaStdexec.Queue.Lemmas.LockedProtocol
import DsaStdexec.Queue.Lemmas.LockedSteps
import DsaStdexec.Queue.Lemmas.LockedRuns
import DsaStdexec.Queue.LockedTheorems
import DsaStdexec.Bench.HwEval
import DsaStdexec.Bench.Lemmas.HwEval
import DsaStdexec.Bench.HwEvalTheorems
import DsaStdexec.Bench.Lemmas.Strategies
import DsaStdexec.Bench.Lemmas.Workers
import DsaStdexec.Bench.StrategyTheorems

import DsaStdexec.Lib.Program
import DsaStdexec.Submitter.Staging

/-!
# The submitters access by access

No member of a submitter is atomic and no call of one takes a lock. Here every load and every store of a
member is a step of its own, in the order in which the source has them, so that two threads can run the
calls at the same time. The 64 bytes of a descriptor are copied in one step.
-/

namespace DsaStdexec.Submitter

open DsaStdexec.Lib Program

/-- What `DsaEngine` uses of a submitter. `record` is the device writing one of the two completion records
that belong to the submitter; it may do so at any time, whatever `completion_addr` it was given. -/
structure SharedSubmitter (D : Type) where
  Memory : Type
  init : Memory
  submitDescriptor : D → Program Memory Unit
  prePoll : Program Memory Unit
  drain : Program Memory Unit
  wqCapacity : Memory → Nat
  inflight : Memory → Nat
  notifyComplete : Nat → Program Memory Unit
  portal : Memory → List (Doorbell D)
  record : Bool → UInt8 → Memory → Memory

/-- The descriptors that the device reads for a doorbell. -/
def Doorbell.executed {D : Type} : Doorbell D → List D
  | .single d => [d]
  | .batch descCount list => list.take descCount

variable {σ D : Type}

/-! ## `DirectSubmitter` -/

namespace SharedDirect

variable (self : Part σ (DirectSubmitter D))

/-- `desc` is what is in the memory behind the pointer at the time of the doorbell. -/
def submitDescriptor (desc : σ → Doorbell D) : Program σ Unit := do
  store fun m => self.modify (fun s => { s with portal := s.portal ++ [desc m] }) m
  let inflight ← load fun m => (self.get m).inflight
  store (self.modify fun s => { s with inflight := inflight + 1 })

/-- The source reads `inflight_` for the comparison and again for the subtraction. -/
def notifyComplete (n : Nat) : Program σ Unit := do
  let inflight ← load fun m => (self.get m).inflight
  if n ≤ inflight then
    let inflight ← load fun m => (self.get m).inflight
    store (self.modify fun s => { s with inflight := subSize inflight n })
  else
    store (self.modify fun s => { s with inflight := 0 })

end SharedDirect

def sharedDirect (D : Type) (mode : WqMode) (wq : Option Wq) : SharedSubmitter D where
  Memory := DirectSubmitter D
  init := DirectSubmitter.init mode wq
  submitDescriptor := fun d => SharedDirect.submitDescriptor .whole fun _ => .single d
  prePoll := return
  drain := return
  wqCapacity := DirectSubmitter.wqCapacity
  inflight := DirectSubmitter.inflight
  notifyComplete := SharedDirect.notifyComplete .whole
  portal := DirectSubmitter.portal
  record := fun _ _ s => s

/-! ## `StagingSubmitter` -/

namespace SharedStaging

/-- `direct_` -/
def direct : Part (StagingSubmitter D) (DirectSubmitter D) where
  get := StagingSubmitter.direct
  modify f s := { s with direct := f s.direct }

/-- The wait for the batch in the other buffer. -/
def release (prev : Bool) : Program (StagingSubmitter D) Unit := do
  let submitted ← load fun s => s.batchSubmitted prev
  if submitted then
    spin fun s => s.batchStatus prev = 0
    store fun s => { s with batchSubmitted := Function.update s.batchSubmitted prev false }
    SharedDirect.notifyComplete direct 1

def ringSingle : Program (StagingSubmitter D) Unit := do
  let activeBuf ← load (·.activeBuf)
  SharedDirect.submitDescriptor direct fun s => .single (s.staged activeBuf 0)

/-- The device reads `descCount` descriptors from the buffer at `descList`. -/
def ringBatch : Program (StagingSubmitter D) Unit := do
  let descList ← load (·.activeBuf)
  let descCount ← load (·.stagedCount)
  let comp ← load (·.activeBuf)
  store fun s => { s with batchStatus := Function.update s.batchStatus comp 0 }
  SharedDirect.submitDescriptor direct fun s =>
    .batch (descCount % 2 ^ 32) ((List.range descCount).map (s.staged descList))
  let activeBuf ← load (·.activeBuf)
  store fun s => { s with batchSubmitted := Function.update s.batchSubmitted activeBuf true }

def ring : Program (StagingSubmitter D) Unit := do
  let stagedCount ← load (·.stagedCount)
  if stagedCount = 1 then ringSingle else ringBatch

def swap : Program (StagingSubmitter D) Unit := do
  let activeBuf ← load (·.activeBuf)
  store fun s => { s with activeBuf := !activeBuf }
  store fun s => { s with stagedCount := 0 }

def flush : Program (StagingSubmitter D) Unit := do
  let stagedCount ← load (·.stagedCount)
  if stagedCount ≠ 0 then
    let activeBuf ← load (·.activeBuf)
    release (!activeBuf)
    ring
    swap

def submitDescriptor (maxBatch : Nat) (d : D) : Program (StagingSubmitter D) Unit := do
  let activeBuf ← load (·.activeBuf)
  let stagedCount ← load (·.stagedCount)
  store fun s =>
    { s with
      staged := Function.update s.staged activeBuf (Function.update (s.staged activeBuf) stagedCount d) }
  let stagedCount ← load (·.stagedCount)
  store fun s => { s with stagedCount := stagedCount + 1 }
  let stagedCount ← load (·.stagedCount)
  if maxBatch ≤ stagedCount then flush

end SharedStaging

def sharedStaging (D : Type) [Inhabited D] (args : InitArgs) : SharedSubmitter D where
  Memory := StagingSubmitter D
  init := StagingSubmitter.init args
  submitDescriptor := SharedStaging.submitDescriptor args.maxBatch
  prePoll := SharedStaging.flush
  drain := SharedStaging.flush
  wqCapacity := fun s => s.direct.wqCapacity
  inflight := fun s => s.direct.inflight
  notifyComplete := fun _ => return -- no-op: batch submitters decrement in reclaim
  portal := fun s => s.direct.portal
  record := fun b status s => s.setStatus b status

end DsaStdexec.Submitter

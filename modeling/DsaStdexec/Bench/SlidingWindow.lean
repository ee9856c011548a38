import DsaStdexec.Lib.Machine

/-!
# `bench_sliding_window`

The sliding window of `hw-eval` for one `concurrency`, for the two accelerators. The device answers a
submission at any time after it, with a success or a page fault. `poll_status` spins until the status
of its record is set; it gives up on a record only if the device has nothing to answer there, since the
device answers everything else in time.

Every operation that the window sets out to run is an issue; the issues are numbered in the order of
their first submission, and a submission after a page fault is one of the same issue.
-/

namespace DsaStdexec.Bench

open DsaStdexec.Lib

def statusMask : UInt8 := 0x7f

/-- `DSA_COMP_NONE` and `IAX_COMP_NONE`: the status of a record that was zeroed. -/
def compNone : UInt8 := 0

/-- The status codes of an accelerator. Those of the `iax` bindings are generated from the kernel's
header. -/
structure Accelerator where
  success : UInt8
  fault : UInt8
  success_masked : success &&& statusMask = success
  fault_masked : fault &&& statusMask = fault
  success_ne : success ≠ compNone
  fault_ne : fault ≠ compNone
  ne : success ≠ fault

def Accelerator.dsa : Accelerator :=
  ⟨1, 3, by decide, by decide, by decide, by decide, by decide⟩

/-- What the device writes: a success or a page fault, perhaps with a bit outside of the mask. -/
def Accelerator.Answers (acc : Accelerator) (status : UInt8) : Prop :=
  status ≠ compNone ∧ (status &&& statusMask = acc.success ∨ status &&& statusMask = acc.fault)

instance (acc : Accelerator) (status : UInt8) : Decidable (acc.Answers status) :=
  inferInstanceAs (Decidable (_ ∧ (_ ∨ _)))

inductive WindowStage where
  /-- Submitting the initial window. -/
  | prefill (i : Nat)
  /-- In `poll_completion(&comps[slot])` of the loop. -/
  | polling
  /-- `drain_completions` before record `i`. -/
  | draining (i : Nat)
  /-- In its `poll_completion`. -/
  | drainPolling (i : Nat)
  | returned
  | panicked
  deriving DecidableEq, Repr

/-- The descriptors and completion records of the slots. -/
structure WindowSlots where
  /-- The status of every record. -/
  comps : Nat → UInt8
  /-- The issue that a descriptor is filled for. -/
  current : Nat → Nat
  /-- The submissions that the device has not answered: slot and issue. -/
  outstanding : List (Nat × Nat)
  /-- The slots that were submitted. -/
  submitted : List Nat
  /-- The slots that were reset and filled while their submission was not answered. -/
  clobbered : List Nat
  /-- The slots whose record holds a page fault that was not yet polled. -/
  faulted : List Nat

structure SlidingWindow where
  slots : WindowSlots
  stage : WindowStage
  issued : Nat
  completed : Nat
  slot : Nat
  /-- The issues that were counted as completed. -/
  counted : List Nat
  /-- The polls that have given up. -/
  gaveUp : List Nat

inductive WindowAction where
  | advance
  | giveUp
  | complete (slot issue : Nat) (status : UInt8)
  deriving DecidableEq, Repr

namespace WindowSlots

/-- The records are zeroed. -/
def new : WindowSlots := ⟨fun _ => compNone, fun _ => 0, [], [], [], []⟩

/-- The device still works on the slot. -/
def Busy (x : WindowSlots) (slot : Nat) : Prop := slot ∈ x.outstanding.map Prod.fst

instance (x : WindowSlots) (slot : Nat) : Decidable (x.Busy slot) :=
  inferInstanceAs (Decidable (slot ∈ x.outstanding.map Prod.fst))

/-- `reset_completion`, `fill_fn`, `set_completion` and `submit`. -/
def submit (x : WindowSlots) (slot issue : Nat) : WindowSlots :=
  { x with
    comps := Function.update x.comps slot compNone
    current := Function.update x.current slot issue
    outstanding := x.outstanding ++ [(slot, issue)]
    submitted := x.submitted ++ [slot]
    clobbered := x.clobbered ++ if x.Busy slot then [slot] else [] }

/-- A submission after a page fault. -/
def resubmit (x : WindowSlots) (slot : Nat) : WindowSlots :=
  { x.submit slot (x.current slot) with faulted := x.faulted.erase slot }

/-- The device answers a submission. -/
def complete (acc : Accelerator) (x : WindowSlots) (slot issue : Nat) (status : UInt8) : WindowSlots :=
  { x with
    comps := Function.update x.comps slot status
    outstanding := x.outstanding.erase (slot, issue)
    faulted := x.faulted ++ if status &&& statusMask = acc.fault then [slot] else [] }

end WindowSlots

namespace SlidingWindow

variable (acc : Accelerator) (concurrency iterations : Nat)

def window : Nat := min concurrency iterations

def new : SlidingWindow := ⟨.new, .prefill 0, 0, 0, 0, [], []⟩

variable (s : SlidingWindow)

/-- `while completed < iterations`. -/
def loop : SlidingWindow :=
  { s with stage := if s.completed < iterations then .polling else .draining 0 }

/-- The polled submission has succeeded. -/
def succeed : SlidingWindow :=
  let s := { s with
    completed := s.completed + 1
    counted := s.counted ++ [s.slots.current s.slot] }
  let s :=
    if s.issued < iterations then
      { s with slots := s.slots.submit s.slot s.issued, issued := s.issued + 1 }
    else s
  loop iterations { s with slot := (s.slot + 1) % window concurrency iterations }

def advance : Option SlidingWindow :=
  match s.stage with
  | .prefill i =>
      if i < window concurrency iterations then
        some { s with slots := s.slots.submit i i, stage := .prefill (i + 1) }
      else some (loop iterations { s with issued := window concurrency iterations })
  | .polling =>
      let status := s.slots.comps s.slot
      -- There are `concurrency` records.
      if concurrency ≤ s.slot then some { s with stage := .panicked }
      else if status = compNone then some s
      else if status &&& statusMask = acc.fault then some { s with slots := s.slots.resubmit s.slot }
      else if status &&& statusMask = acc.success then some (s.succeed concurrency iterations)
      else some { s with stage := .panicked }
  | .draining i =>
      if concurrency ≤ i then some { s with stage := .returned }
      else if s.slots.comps i = compNone then some { s with stage := .drainPolling i }
      else some { s with stage := .draining (i + 1) }
  | .drainPolling i =>
      if s.slots.comps i = compNone then some s else some { s with stage := .draining (i + 1) }
  | .returned | .panicked => none

/-- A poll runs into its timeout. The loop panics on its status, the drain goes on. -/
def giveUp : Option SlidingWindow :=
  match s.stage with
  | .polling =>
      if s.slot < concurrency ∧ s.slots.comps s.slot = compNone ∧ ¬ s.slots.Busy s.slot then
        some { s with stage := .panicked, gaveUp := s.gaveUp ++ [s.slot] }
      else none
  | .drainPolling i =>
      if s.slots.comps i = compNone ∧ ¬ s.slots.Busy i then
        some { s with stage := .draining (i + 1), gaveUp := s.gaveUp ++ [i] }
      else none
  | _ => none

def complete (slot issue : Nat) (status : UInt8) : Option SlidingWindow :=
  if s.slots.outstanding.contains (slot, issue) = true ∧ acc.Answers status then
    some { s with slots := s.slots.complete acc slot issue status }
  else none

def step (s : SlidingWindow) : WindowAction → Option SlidingWindow
  | .advance => s.advance acc concurrency iterations
  | .giveUp => s.giveUp concurrency
  | .complete slot issue status => s.complete acc slot issue status

def machine : Machine SlidingWindow WindowAction := ⟨new, step acc concurrency iterations⟩

/-! ## An exact window -/

/-- The slot whose record is polled. -/
def polled : Option Nat :=
  match s.stage with
  | .polling => some s.slot
  | .drainPolling i => some i
  | _ => none

structure Sound (s : SlidingWindow) : Prop where
  /-- No issue is counted twice. -/
  once : s.counted.Nodup ∧ s.completed = s.counted.length
  exact : s.stage = .returned → s.completed = iterations ∧ s.counted.Perm (List.range iterations)
  intact : s.slots.clobbered = []
  bounded : s.slots.outstanding.length ≤ min concurrency iterations
  polls : ∀ i, s.polled = some i → i ∈ s.slots.submitted
  inTime : s.gaveUp = []
  runs : s.stage ≠ .panicked

/-- The action is the answer of a page fault. -/
def isFault (a : WindowAction) : Bool :=
  match a with
  | .complete _ _ status => decide (status &&& statusMask = acc.fault)
  | _ => false

/-- The step is not a turn of a poll that spins. -/
def Moves (s : SlidingWindow) (a : WindowAction) : Prop :=
  a = .advance → ∀ i, s.polled = some i → s.slots.comps i ≠ compNone

end SlidingWindow

end DsaStdexec.Bench

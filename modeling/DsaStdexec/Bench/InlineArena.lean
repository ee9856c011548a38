import DsaStdexec.Bench.SlotArena
import DsaStdexec.Lib.Machine

/-!
# `sliding_window_direct_impl_inline` and `sliding_window_reusable_impl_inline`

Both strategies are one loop over an arena of slots and differ in what a slot is and in how an operation
is started in it. The engine signals operations while it is called: inside `start` or `submit`, where it
may poll for a free place in the work queue, and inside `poll`. Operations are numbered by `next_op`.
-/

namespace DsaStdexec.Bench

open DsaStdexec.Lib

/-! ## Slots -/

/-- A type of slots: what starting operation `k` does to a slot, and what its destructor does, each with
the operations whose storage is destroyed or overwritten by it. -/
structure SlotType (S : Type) where
  fresh : S
  start : S → Nat → List Nat × S
  destroy : S → List Nat
  /-- The operation that the storage belongs to. -/
  content : S → Option Nat
  content_fresh : content fresh = none
  content_start : ∀ slot k, content (start slot k).2 = some k
  of_start : ∀ slot k, ∀ op ∈ (start slot k).1, content slot = some op
  of_destroy : ∀ slot, ∀ op ∈ destroy slot, content slot = some op

structure OperationSlot where
  storage : Option Nat
  /-- `destroy_fn` is set. -/
  destroyFn : Bool
  deriving DecidableEq, Repr

namespace OperationSlot

/-- The last operation is destroyed, if there is one, and the new one is constructed over what is left. -/
def startOpWith (slot : OperationSlot) (k : Nat) : List Nat × OperationSlot :=
  let destroyed := if slot.destroyFn then slot.storage.toList else []
  let left := if slot.destroyFn then none else slot.storage
  (destroyed ++ left.toList, ⟨some k, true⟩)

def destructor (slot : OperationSlot) : List Nat := if slot.destroyFn then slot.storage.toList else []

def slotType : SlotType OperationSlot where
  fresh := ⟨none, false⟩
  start := startOpWith
  destroy := destructor
  content := storage
  content_fresh := rfl
  content_start _ _ := rfl
  of_start slot k op h := by
    unfold startOpWith at h
    split at h <;> simpa using h
  of_destroy slot op h := by
    unfold destructor at h
    split at h
    · simpa using h
    · cases h

end OperationSlot

/-- The descriptor and the completion record in `op_base` belong to one operation at a time. -/
structure ReusableSlot where
  opBase : Option Nat
  deriving DecidableEq, Repr

namespace ReusableSlot

/-- The descriptor and the completion record are cleared and filled again. -/
def relaunch (slot : ReusableSlot) (k : Nat) : List Nat × ReusableSlot := (slot.opBase.toList, ⟨some k⟩)

/-- The storage goes with the slot. -/
def destructor (slot : ReusableSlot) : List Nat := slot.opBase.toList

def slotType : SlotType ReusableSlot where
  fresh := ⟨none⟩
  start := relaunch
  destroy := destructor
  content := opBase
  content_fresh := rfl
  content_start _ _ := rfl
  of_start slot k op h := by simpa [relaunch] using h
  of_destroy slot op h := by simpa [destructor] using h

end ReusableSlot

/-! ## The loop -/

inductive InlineStage where
  /-- The outer `while (next_op < num_ops)`. -/
  | testing
  /-- The inner one, and `acquire`. -/
  | filling
  /-- Inside the call that starts operation `next_op`. -/
  | starting
  /-- Inside `dsa.poll()` of the outer loop. -/
  | polling
  /-- `while (remaining > 0)`. -/
  | draining
  /-- Inside its `dsa.poll()`. -/
  | drainPolling
  | returned
  deriving DecidableEq, Repr

/-- The engine is called. -/
def InlineStage.inEngine : InlineStage → Bool
  | .starting | .polling | .drainPolling => true
  | _ => false

structure InlineArena (S : Type) where
  arena : SlotArena
  slots : Nat → S
  nextOp : Nat
  remaining : UInt64
  stage : InlineStage
  /-- The operations that were started and not yet signalled, with their slots. -/
  unsignalled : List (Nat × Nat)
  started : List Nat
  signalled : List Nat
  /-- The operations whose storage was destroyed or overwritten. -/
  vacated : List Nat

inductive InlineAction where
  | advance
  | signal (op slot : Nat)
  deriving DecidableEq, Repr

namespace InlineArena

variable {S : Type} (K : SlotType S) (concurrency : Nat) (numOps : UInt64)

def new : InlineArena S where
  arena := SlotArena.new concurrency
  slots _ := K.fresh
  nextOp := 0
  remaining := numOps
  stage := .testing
  unsignalled := []
  started := []
  signalled := []
  vacated := []

variable (s : InlineArena S)

/-- Operation `next_op` is started in a slot that was acquired. -/
def start (slot : Nat) (arena : SlotArena) : InlineArena S :=
  let launched := K.start (s.slots slot) s.nextOp
  { s with
    arena := arena
    slots := Function.update s.slots slot launched.2
    stage := .starting
    unsignalled := s.unsignalled ++ [(s.nextOp, slot)]
    started := s.started ++ [s.nextOp]
    vacated := s.vacated ++ launched.1 }

/-- The arena is destroyed, and every slot of the pool with it. -/
def finish : InlineArena S :=
  { s with
    stage := .returned
    vacated := s.vacated ++ (List.range concurrency).flatMap fun slot => K.destroy (s.slots slot) }

def advance : Option (InlineArena S) :=
  match s.stage with
  | .testing => some { s with stage := if s.nextOp < numOps.toNat then .filling else .draining }
  | .filling =>
      if s.nextOp < numOps.toNat then
        match s.arena.acquire with
        | (none, _) => some { s with stage := .polling }
        | (some slot, arena) => some (s.start K slot arena)
      else some { s with stage := .polling }
  | .starting => some { s with nextOp := s.nextOp + 1, stage := .filling }
  | .polling => some { s with stage := .testing }
  | .draining => some (if 0 < s.remaining then { s with stage := .drainPolling } else s.finish K concurrency)
  | .drainPolling => some { s with stage := .draining }
  | .returned => none

/-- `DirectBenchReceiver` and `ReusableSlot::notify_impl`. -/
def signal (op slot : Nat) : Option (InlineArena S) :=
  if s.stage.inEngine = true ∧ (op, slot) ∈ s.unsignalled then
    some { s with
      remaining := s.remaining - 1
      arena := s.arena.release slot
      unsignalled := s.unsignalled.erase (op, slot)
      signalled := s.signalled ++ [op] }
  else none

def step (s : InlineArena S) : InlineAction → Option (InlineArena S)
  | .advance => s.advance K concurrency numOps
  | .signal op slot => s.signal op slot

def machine : Machine (InlineArena S) InlineAction :=
  ⟨new K concurrency numOps, step K concurrency numOps⟩

/-! ## What the strategies keep -/

structure Sound (concurrency : Nat) (numOps : UInt64) (s : InlineArena S) : Prop where
  order : s.started = List.range s.started.length ∧ s.started.length ≤ numOps.toNat
  /-- Every operation that was started is signalled once, or still to be signalled. -/
  once : (s.signalled ++ s.unsignalled.map Prod.fst).Perm s.started
  bounded : s.unsignalled.length ≤ concurrency
  vacated : ∀ op ∈ s.vacated, op ∈ s.signalled
  /-- The free list has an end, and is the pool without the slots of the operations to be signalled. -/
  free : ∃ free, s.arena.Free free ∧
    ∀ slot, slot ∈ free ↔ slot < concurrency ∧ slot ∉ s.unsignalled.map Prod.snd
  returned : s.stage = .returned → s.signalled.Perm (List.range numOps.toNat)

end InlineArena

end DsaStdexec.Bench

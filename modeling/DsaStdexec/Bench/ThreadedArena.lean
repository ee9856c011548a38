import DsaStdexec.Bench.SlotArena
import DsaStdexec.Lib.Machine

/-!
# `sliding_window_arena_impl_threaded`

The submitting thread tests and takes slots with `empty` and `acquire` and starts an operation in each;
the poller thread signals operations, and their `ArenaReceiver` releases the slot. Every read and every
write of `free_head` and of a field `next_free` is a step of its own, and the steps of the two threads
interleave in any way. The scope, the scheduler and the counter of operations do not touch the arena.
-/

namespace DsaStdexec.Bench

open DsaStdexec.Lib

/-- What the submitting thread does next. -/
inductive SubmitStage where
  /-- `while (arena.empty())`. -/
  | testing
  /-- `if (!free_head)` in `acquire`. -/
  | checking
  /-- `s = free_head`. -/
  | reading
  /-- Reading `s->next_free`. -/
  | loading (slot : Nat)
  /-- Writing it to `free_head`. -/
  | popping (slot : Nat) (next : Option Nat)
  /-- `s->next_free = nullptr`. -/
  | clearing (slot : Nat)
  /-- `start_op_with` in the slot that `acquire` has returned. -/
  | starting (slot : Nat)
  /-- `acquire` has returned a null pointer, which is dereferenced. -/
  | crashed
  | finished
  deriving DecidableEq, Repr

/-- What the poller thread does next. -/
inductive ReleaseStage where
  | idle
  /-- Reading `free_head` in `release`. -/
  | reading (slot : Nat)
  /-- Writing it to `s->next_free`. -/
  | linking (slot : Nat) (head : Option Nat)
  /-- `free_head = s`. -/
  | pushing (slot : Nat) (head : Option Nat)
  deriving DecidableEq, Repr

structure ThreadedArena where
  arena : SlotArena
  opIdx : Nat
  submit : SubmitStage
  poller : ReleaseStage
  /-- The operations that were started and not yet signalled, with their slots. -/
  held : List (Nat × Nat)

inductive ArenaAction where
  | submit
  | signal (op slot : Nat)
  | release
  deriving DecidableEq, Repr

namespace ThreadedArena

variable (numOps : Nat)

/-- The `for` loop before operation `k`. -/
def nextStage (k : Nat) : SubmitStage := if k < numOps then .testing else .finished

def new (concurrency : Nat) : ThreadedArena :=
  ⟨SlotArena.new concurrency, 0, nextStage numOps 0, .idle, []⟩

variable (s : ThreadedArena)

def advance : Option ThreadedArena :=
  match s.submit with
  | .testing => some { s with submit := if s.arena.empty then .testing else .checking }
  | .checking => some { s with submit := if s.arena.freeHead.isNone then .crashed else .reading }
  | .reading =>
      match s.arena.freeHead with
      | some slot => some { s with submit := .loading slot }
      | none => some { s with submit := .crashed }
  | .loading slot => some { s with submit := .popping slot (s.arena.nextFree slot) }
  | .popping slot next =>
      some { s with arena := { s.arena with freeHead := next }, submit := .clearing slot }
  | .clearing slot =>
      some { s with
        arena := { s.arena with nextFree := Function.update s.arena.nextFree slot none }
        submit := .starting slot }
  | .starting slot =>
      some { s with
        held := s.held ++ [(s.opIdx, slot)]
        opIdx := s.opIdx + 1
        submit := nextStage numOps (s.opIdx + 1) }
  | .crashed | .finished => none

/-- The receiver of an operation is called. -/
def signal (op slot : Nat) : Option ThreadedArena :=
  if s.poller = .idle ∧ s.held.contains (op, slot) = true then
    some { s with held := s.held.erase (op, slot), poller := .reading slot }
  else none

def releaseStep : Option ThreadedArena :=
  match s.poller with
  | .reading slot => some { s with poller := .linking slot s.arena.freeHead }
  | .linking slot head =>
      some { s with
        arena := { s.arena with nextFree := Function.update s.arena.nextFree slot head }
        poller := .pushing slot head }
  | .pushing slot _ =>
      some { s with arena := { s.arena with freeHead := some slot }, poller := .idle }
  | .idle => none

def step (s : ThreadedArena) : ArenaAction → Option ThreadedArena
  | .submit => s.advance numOps
  | .signal op slot => s.signal op slot
  | .release => s.releaseStep

def machine (concurrency : Nat) : Machine ThreadedArena ArenaAction :=
  ⟨new numOps concurrency, step numOps⟩

/-! ## Where the slots are -/

end ThreadedArena

/-- The slot that `acquire` has taken off the free list. -/
def SubmitStage.moving : SubmitStage → List Nat
  | .clearing slot | .starting slot => [slot]
  | _ => []

/-- The slot that `release` has not yet put on the free list. -/
def ReleaseStage.moving : ReleaseStage → List Nat
  | .reading slot | .linking slot _ | .pushing slot _ => [slot]
  | .idle => []

namespace ThreadedArena

/-- The slots that are not on the free list. -/
def away (s : ThreadedArena) : List Nat :=
  s.submit.moving ++ (s.poller.moving ++ s.held.map Prod.snd)

/-- Every slot of the pool is on the free list once, or moved by one `acquire` or `release`, or held by
one operation that is not signalled; `acquire` has not returned a null pointer; and while the submitting
thread waits for a slot there is one to come. -/
structure Accounted (concurrency : Nat) (s : ThreadedArena) : Prop where
  slots : ∃ free, s.arena.Free free ∧ (free ++ s.away).Perm (List.range concurrency)
  acquired : s.submit ≠ .crashed
  waits : s.submit = .testing → s.arena.freeHead = none → s.held ≠ [] ∨ s.poller ≠ .idle

/-- A write to `free_head` finds there what the thread has read before. -/
def WritesUnchanged (s : ThreadedArena) : ArenaAction → Prop
  | .submit =>
      match s.submit with
      | .popping slot _ => s.arena.freeHead = some slot
      | _ => True
  | .release =>
      match s.poller with
      | .pushing _ head => s.arena.freeHead = head
      | _ => True
  | .signal _ _ => True

instance (s : ThreadedArena) : ∀ a, Decidable (s.WritesUnchanged a)
  | .submit =>
      match h : s.submit with
      | .popping slot _ =>
          decidable_of_iff (s.arena.freeHead = some slot) (by simp [WritesUnchanged, h])
      | .testing | .checking | .reading | .loading _ | .clearing _ | .starting _ | .crashed
      | .finished => .isTrue (by simp [WritesUnchanged, h])
  | .release =>
      match h : s.poller with
      | .pushing _ head => decidable_of_iff (s.arena.freeHead = head) (by simp [WritesUnchanged, h])
      | .idle | .reading _ | .linking _ _ => .isTrue (by simp [WritesUnchanged, h])
  | .signal _ _ => .isTrue trivial

end ThreadedArena

end DsaStdexec.Bench

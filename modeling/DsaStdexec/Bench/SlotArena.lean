import DsaStdexec.Lib.LinkedList

/-!
# `BasicSlotArena`

The slots of the pool are numbered, and the free list runs through their fields `next_free`.
-/

namespace DsaStdexec.Bench

open DsaStdexec.Lib

structure SlotArena where
  nextFree : Nat → Option Nat
  freeHead : Option Nat

namespace SlotArena

/-- The constructor links every new slot in front of the ones before it. -/
def new : Nat → SlotArena
  | 0 => ⟨fun _ => none, none⟩
  | n + 1 => ⟨Function.update (new n).nextFree n (new n).freeHead, some n⟩

def acquire (a : SlotArena) : Option Nat × SlotArena :=
  match a.freeHead with
  | none => (none, a)
  | some s => (some s, ⟨Function.update a.nextFree s none, a.nextFree s⟩)

def release (a : SlotArena) (s : Nat) : SlotArena :=
  ⟨Function.update a.nextFree s a.freeHead, some s⟩

def empty (a : SlotArena) : Bool := a.freeHead.isNone

/-- The free list consists of the slots `l`. -/
def Free (a : SlotArena) (l : List Nat) : Prop := Chain a.nextFree a.freeHead l

variable {a : SlotArena} {l : List Nat} {s : Nat}

theorem free_new (n : Nat) : (new n).Free (List.range n).reverse := by
  induction n with
  | zero => exact Chain.nil
  | succ n ih =>
      rw [List.range_succ, List.reverse_append]
      exact Chain.cons ih (by simp)

theorem Free.acquire_nil (h : a.Free []) : a.acquire = (none, a) := by
  have hhead : a.freeHead = none := h
  simp [acquire, hhead]

theorem Free.acquire_cons (h : a.Free (s :: l)) :
    ∃ a', a.acquire = (some s, a') ∧ a'.Free l := by
  obtain ⟨hhead, hrest⟩ := chain_cons_iff.mp h
  refine ⟨⟨Function.update a.nextFree s none, a.nextFree s⟩, by simp [acquire, hhead], ?_⟩
  exact hrest.update (List.nodup_cons.mp h.nodup).1

theorem Free.release (h : a.Free l) (hs : s ∉ l) : (a.release s).Free (s :: l) := Chain.cons h hs

end SlotArena

end DsaStdexec.Bench

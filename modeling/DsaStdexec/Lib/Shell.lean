import Mathlib.Data.List.Infix

/-!
# Scripts that stop at the first failure

A command writes something and goes on, or it ends the script with an exit code. A sequence of commands
runs up to the first one that ends it.
-/

namespace DsaStdexec.Lib

/-- What a piece of a script has written, and the code if it has ended the script. -/
structure Shell (ω : Type*) where
  writes : List ω
  exit : Option Nat

namespace Shell

variable {ω : Type*}

def skip : Shell ω := ⟨[], none⟩

def print (ws : List ω) : Shell ω := ⟨ws, none⟩

def andThen (a b : Shell ω) : Shell ω :=
  match a.exit with
  | none => ⟨a.writes ++ b.writes, b.exit⟩
  | some _ => a

def seq : List (Shell ω) → Shell ω
  | [] => skip
  | c :: cs => c.andThen (seq cs)

theorem andThen_of_none {a : Shell ω} (b : Shell ω) (h : a.exit = none) :
    a.andThen b = ⟨a.writes ++ b.writes, b.exit⟩ := by
  rw [andThen, h]

theorem andThen_exit_of_none {a b : Shell ω} (h : a.exit = none) : (a.andThen b).exit = b.exit := by
  rw [andThen_of_none b h]

theorem andThen_exit_none {a b : Shell ω} : (a.andThen b).exit = none ↔ a.exit = none ∧ b.exit = none := by
  cases h : a.exit with
  | none => simp [andThen_of_none b h]
  | some code => simp [andThen, h]

theorem seq_writes {cs : List (Shell ω)} (h : (seq cs).exit = none) :
    (seq cs).writes = cs.flatMap writes := by
  induction cs with
  | nil => rfl
  | cons c cs ih =>
      rw [seq, andThen_exit_none] at h
      rw [seq, andThen_of_none _ h.1, List.flatMap_cons, ih h.2]

/-- What a command of a sequence writes is written in one piece. -/
theorem writes_infix_seq {cs : List (Shell ω)} (h : (seq cs).exit = none) {c : Shell ω} (hc : c ∈ cs) :
    c.writes <:+: (seq cs).writes := by
  obtain ⟨before, after, rfl⟩ := List.append_of_mem hc
  rw [seq_writes h, List.flatMap_append, List.flatMap_cons]
  exact ⟨_, _, List.append_assoc _ _ _⟩

end Shell

end DsaStdexec.Lib

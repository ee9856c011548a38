import Mathlib.Data.Option.Basic

/-!
# Programs that share a memory

The code of one thread as a tree of its accesses to a memory that it does not have for itself. Between two
accesses anything can happen to the memory.
-/

namespace DsaStdexec.Lib

inductive Program (σ α : Type) where
  | ret (a : α)
  | read (k : σ → Program σ α)
  | write (f : σ → σ) (k : Program σ α)
  /-- A loop that reads the memory until `test` is false. -/
  | await (test : σ → Bool) (k : Program σ α)

/-- A part of a memory. -/
structure Part (σ τ : Type) where
  get : σ → τ
  modify : (τ → τ) → σ → σ

namespace Part

variable {σ τ : Type}

def whole : Part σ σ := ⟨id, id⟩

/-- `core` shows the part. -/
structure Lawful (part : Part σ τ) (core : σ → σ) : Prop where
  get_core : ∀ s, part.get (core s) = part.get s
  modify_core : ∀ f s, core (part.modify f s) = part.modify f (core s)
  get_modify : ∀ f s, part.get (part.modify f s) = f (part.get s)
  modify_modify : ∀ f g s, part.modify f (part.modify g s) = part.modify (fun x => f (g x)) s
  modify_congr : ∀ {f g s}, f (part.get s) = g (part.get s) → part.modify f s = part.modify g s

end Part

namespace Program

variable {σ α β κ : Type}

def bind : Program σ α → (α → Program σ β) → Program σ β
  | .ret a, f => f a
  | .read k, f => .read fun s => (k s).bind f
  | .write g k, f => .write g (k.bind f)
  | .await test k, f => .await test (k.bind f)

instance : Monad (Program σ) where
  pure := .ret
  bind := bind

def load (f : σ → β) : Program σ β := .read fun s => .ret (f s)

def store (f : σ → σ) : Program σ Unit := .write f (.ret ())

def spin (test : σ → Bool) : Program σ Unit := .await test (.ret ())

/-- The next access. -/
def step : Program σ α → σ → Program σ α × σ
  | .ret a, s => (.ret a, s)
  | .read k, s => (k s, s)
  | .write f k, s => (k, f s)
  | .await test k, s => (if test s then .await test k else k, s)

def returned : Program σ α → Bool
  | .ret _ => true
  | _ => false

/-! ## Pre- and postconditions -/

/-- What `core` shows of the memory is changed by nobody else while the program runs. From a memory that
shows `c` the program keeps `A` before each of its accesses and ends in `Q`. -/
def Valid (core : σ → κ) (A : κ → Prop) (Q : α → κ → Prop) : Program σ α → κ → Prop
  | .ret a, c => Q a c
  | .read k, c => A c ∧ ∀ s, core s = c → Valid core A Q (k s) c
  | .write f k, c => A c ∧ ∀ s, core s = c → Valid core A Q k (core (f s))
  | .await _ k, c => A c ∧ Valid core A Q k c

variable {core : σ → κ} {A A' : κ → Prop} {Q : β → κ → Prop} {P P' : α → κ → Prop} {c : κ}
  {p : Program σ α} {k : α → Program σ β} {s : σ}

theorem valid_bind :
    Valid core A Q (p >>= k) c ↔ Valid core A (fun a c => Valid core A Q (k a) c) p c := by
  change Valid core A Q (p.bind k) c ↔ _
  induction p generalizing c with
  | ret a => exact Iff.rfl
  | read k' ih => exact and_congr_right fun _ => forall₂_congr fun s _ => ih s
  | write f k' ih => exact and_congr_right fun _ => forall₂_congr fun s _ => ih
  | await test k' ih => exact and_congr_right fun _ => ih

theorem Valid.mono (h : Valid core A P p c) (hA : ∀ c, A c → A' c) (hP : ∀ a c, P a c → P' a c) :
    Valid core A' P' p c := by
  induction p generalizing c with
  | ret a => exact hP a c h
  | read k ih => exact ⟨hA c h.1, fun s hs => ih s (h.2 s hs)⟩
  | write f k ih => exact ⟨hA c h.1, fun s hs => ih (h.2 s hs)⟩
  | await test k ih => exact ⟨hA c h.1, ih h.2⟩

theorem Valid.step (h : Valid core A P p (core s)) :
    Valid core A P (p.step s).1 (core (p.step s).2) := by
  cases p with
  | ret a => exact h
  | read k => exact h.2 s rfl
  | write f k => exact h.2 s rfl
  | await test k =>
      simp only [Program.step]
      split
      · exact h
      · exact h.2

theorem Valid.along (h : Valid core A P p c) (hp : p.returned = false) : A c := by
  cases p with
  | ret a => cases hp
  | read k | write f k | await test k => exact h.1

/-- Reading what `core` shows. -/
theorem valid_load {f : σ → α} (g : κ → α) (hf : ∀ s, f s = g (core s)) (hA : A c)
    (h : Valid core A Q (k (g c)) c) : Valid core A Q (load f >>= k) c := by
  refine ⟨hA, ?_⟩
  rintro s rfl
  change Valid core A Q (k (f s)) (core s)
  rw [hf]
  exact h

/-- Writing to what `core` shows. -/
theorem valid_store {f : σ → σ} {k : Unit → Program σ β} (g : κ → κ) (hf : ∀ s, core (f s) = g (core s))
    (hA : A c) (h : Valid core A Q (k ()) (g c)) : Valid core A Q (store f >>= k) c := by
  refine ⟨hA, ?_⟩
  rintro s rfl
  change Valid core A Q (k ()) (core (f s))
  rw [hf]
  exact h

end Program

end DsaStdexec.Lib

import DsaStdexec.Lib.Machine
import Mathlib.Logic.Function.Basic

/-!
# Locks

The code of a lock, one access to the shared word at a time, and threads that compete for it. What a lock
has to do is stated once (`Lock.Lawful`); exclusion then holds for any number of threads, and it is
available (`Guards`) to any program that keeps its threads in a form of its own.
-/

namespace DsaStdexec.Lib

/-- `Spin` is where a thread is in the loop of `lock`. -/
structure Lock where
  Word : Type
  Spin : Type
  init : Word
  enter : Spin
  /-- The next access of `lock`; with `none` the call returns. -/
  attempt : Word → Spin → Word × Option Spin
  unlock : Word → Word

/-- `held` says that a thread has the lock. While it is free, a thread that is alone gets it after at most
`rank` accesses that fail. -/
structure Lock.Lawful (L : Lock) where
  held : L.Word → Bool
  rank : L.Spin → Nat
  held_init : held L.init = false
  held_attempt : ∀ w i, held (L.attempt w i).1 = (held w || (L.attempt w i).2.isNone)
  busy : ∀ w i, held w = true → (L.attempt w i).2 ≠ none
  held_unlock : ∀ w, held (L.unlock w) = false
  rank_attempt : ∀ w i j, held w = false → (L.attempt w i).2 = some j → rank j < rank i

variable {L : Lock} {T : Type} {w : L.Word} {i j : L.Spin} {inside inside' : T → Prop} {t : T}

/-! ## Exclusion -/

/-- The word says whether a thread is inside, and no two threads are. -/
structure Guards (lawful : L.Lawful) (w : L.Word) (inside : T → Prop) : Prop where
  held_iff : lawful.held w = true ↔ ∃ t, inside t
  unique : ∀ t u, inside t → inside u → t = u

namespace Guards

variable {lawful : L.Lawful}

theorem init : Guards lawful L.init fun _ : T => False where
  held_iff := by simp [lawful.held_init]
  unique _ _ h := h.elim

theorem congr (hg : Guards lawful w inside) (h : ∀ u, inside' u ↔ inside u) :
    Guards lawful w inside' where
  held_iff := hg.held_iff.trans (exists_congr fun u => (h u).symm)
  unique t u ht hu := hg.unique t u ((h t).mp ht) ((h u).mp hu)

/-- An access that fails. -/
theorem spin (hg : Guards lawful w inside) (ha : (L.attempt w i).2 = some j) :
    Guards lawful (L.attempt w i).1 inside where
  held_iff := by rw [lawful.held_attempt, ha, Option.isNone_some, Bool.or_false]; exact hg.held_iff
  unique := hg.unique

theorem nobody_inside (hg : Guards lawful w inside) (ha : (L.attempt w i).2 = none) (u : T) :
    ¬ inside u := by
  intro hu
  exact lawful.busy w i (hg.held_iff.mpr ⟨u, hu⟩) ha

/-- An access that succeeds. -/
theorem enter (ha : (L.attempt w i).2 = none)
    (h : ∀ u, inside' u ↔ u = t) : Guards lawful (L.attempt w i).1 inside' where
  held_iff := by
    rw [lawful.held_attempt, ha]
    simp [h]
  unique u v hu hv := ((h u).mp hu).trans ((h v).mp hv).symm

theorem leave (hg : Guards lawful w inside) (ht : inside t) (h : ∀ u, inside' u → u ≠ t ∧ inside u) :
    Guards lawful (L.unlock w) inside' := by
  have hnone : ∀ u, ¬ inside' u := fun u hu => (h u hu).1 (hg.unique u t (h u hu).2 ht)
  exact ⟨by simp [lawful.held_unlock, hnone], fun u _ hu => (hnone u hu).elim⟩

theorem free_of_nobody (hg : Guards lawful w inside) (h : ∀ u, ¬ inside u) : lawful.held w = false := by
  rw [Bool.eq_false_iff]
  intro hw
  obtain ⟨u, hu⟩ := hg.held_iff.mp hw
  exact h u hu

end Guards

/-! ## Threads that take and release the lock -/

inductive Place (S : Type) where
  | outside
  | waiting (spin : S)
  | inside

/-- The threads of a program that does nothing else. -/
structure Contest (L : Lock) (T : Type) where
  word : L.Word
  place : T → Place L.Spin

inductive ContestAction (T : Type) where
  | lock (t : T)
  | attempt (t : T)
  | unlock (t : T)

namespace Contest

def init : Contest L T := ⟨L.init, fun _ => .outside⟩

variable [DecidableEq T]

def move (s : Contest L T) (t : T) (p : Place L.Spin) : Contest L T :=
  { s with place := Function.update s.place t p }

def step (s : Contest L T) : ContestAction T → Option (Contest L T)
  | .lock t =>
      match s.place t with
      | .outside => some (s.move t (.waiting L.enter))
      | _ => none
  | .attempt t =>
      match s.place t with
      | .waiting spin =>
          match L.attempt s.word spin with
          | (word, some spin) => some ({ s with word := word }.move t (.waiting spin))
          | (word, none) => some ({ s with word := word }.move t .inside)
      | _ => none
  | .unlock t =>
      match s.place t with
      | .inside => some ({ s with word := L.unlock s.word }.move t .outside)
      | _ => none

def machine (L : Lock) (T : Type) [DecidableEq T] : Machine (Contest L T) (ContestAction T) where
  init := init
  step := step

/-- What a step does. -/
inductive Effect (s : Contest L T) : Contest L T → Prop where
  | call {t : T} (ht : s.place t = .outside) : Effect s (s.move t (.waiting L.enter))
  | spin {t : T} {i j : L.Spin} (ht : s.place t = .waiting i) (ha : (L.attempt s.word i).2 = some j) :
      Effect s ({ s with word := (L.attempt s.word i).1 }.move t (.waiting j))
  | enter {t : T} {i : L.Spin} (ht : s.place t = .waiting i) (ha : (L.attempt s.word i).2 = none) :
      Effect s ({ s with word := (L.attempt s.word i).1 }.move t .inside)
  | leave {t : T} (ht : s.place t = .inside) :
      Effect s ({ s with word := L.unlock s.word }.move t .outside)

variable {s s' : Contest L T} {p : Place L.Spin}

theorem step_attempt {i : L.Spin} (ht : s.place t = .waiting i) :
    s.step (.attempt t) =
      match (L.attempt s.word i).2 with
      | some j => some ({ s with word := (L.attempt s.word i).1 }.move t (.waiting j))
      | none => some ({ s with word := (L.attempt s.word i).1 }.move t .inside) := by
  simp only [step, ht]
  split <;> rename_i ha <;> simp [ha]

theorem step_effect {a : ContestAction T} (h : s.step a = some s') : Effect s s' := by
  cases a with
  | lock t =>
      simp only [step] at h
      split at h
      · cases h; exact .call ‹_›
      · cases h
  | attempt t =>
      cases ht : s.place t with
      | waiting i =>
          rw [step_attempt ht] at h
          split at h <;> cases h
          · exact .spin ht ‹_›
          · exact .enter ht ‹_›
      | outside => simp [step, ht] at h
      | inside => simp [step, ht] at h
  | unlock t =>
      simp only [step] at h
      split at h
      · cases h; exact .leave ‹_›
      · cases h

def Inside (s : Contest L T) (t : T) : Prop := s.place t = .inside

theorem inside_move_inside (u : T) : (s.move t .inside).Inside u ↔ u = t ∨ s.Inside u := by
  by_cases h : u = t
  · subst h; simp [Inside, move]
  · simp [Inside, move, h]

theorem inside_move_of_ne (hp : p ≠ .inside) (u : T) :
    (s.move t p).Inside u ↔ u ≠ t ∧ s.Inside u := by
  by_cases h : u = t
  · subst h; simp [Inside, move, hp]
  · simp [Inside, move, h]

/-- Moving a thread that is not inside. -/
theorem inside_move_outside (ht : ¬ s.Inside t) (hp : p ≠ .inside) (u : T) :
    (s.move t p).Inside u ↔ s.Inside u := by
  rw [inside_move_of_ne hp]
  exact ⟨And.right, fun hu => ⟨fun he => ht (he ▸ hu), hu⟩⟩

variable {lawful : L.Lawful}

theorem guards_step (he : Effect s s') (hg : Guards lawful s.word s.Inside) :
    Guards lawful s'.word s'.Inside := by
  cases he with
  | call ht => exact hg.congr (inside_move_outside (by simp [Inside, ht]) (by simp))
  | spin ht ha => exact (hg.spin ha).congr (inside_move_outside (by simp [Inside, ht]) (by simp))
  | @enter t i ht ha =>
      have honly : ∀ u, (({ s with word := (L.attempt s.word i).1 } : Contest L T).move t .inside).Inside u ↔
          u = t := by
        intro u
        rw [inside_move_inside]
        exact or_iff_left (hg.nobody_inside ha u)
      exact .enter ha honly
  | leave ht => exact hg.leave ht fun u hu => (inside_move_of_ne (by simp) u).mp hu

theorem run_guards {as : List (ContestAction T)} (h : (machine L T).run as = some s) :
    Guards lawful s.word s.Inside :=
  Machine.run_invariant (I := fun s : Contest L T => Guards lawful s.word s.Inside)
    (Guards.init.congr fun u => by simp [Inside, machine, init])
    (fun _ _ _ hg hs => guards_step (step_effect hs) hg) h

/-- What `lock` keeps while it spins, whatever the word is. -/
theorem run_spin {P : L.Spin → Prop} (henter : P L.enter)
    (hattempt : ∀ w i j, P i → (L.attempt w i).2 = some j → P j) {as : List (ContestAction T)}
    (h : (machine L T).run as = some s) {i : L.Spin} (ht : s.place t = .waiting i) : P i := by
  refine Machine.run_invariant (I := fun s : Contest L T => ∀ t i, s.place t = .waiting i → P i)
    (by simp [machine, init]) ?_ h t i ht
  intro s a s' hP hs u k hu
  have hmove : ∀ {r : Contest L T} {v p}, (∀ u i, r.place u = .waiting i → P i) →
      (∀ i, p = .waiting i → P i) → (r.move v p).place u = .waiting k → P k := by
    intro r v p hr hp hu
    by_cases hv : u = v
    · subst hv; exact hp k (by simpa [move] using hu)
    · exact hr u k (by simpa [move, hv] using hu)
  cases step_effect hs with
  | call ht => exact hmove hP (by rintro _ ⟨⟩; exact henter) hu
  | spin ht ha => exact hmove hP (by rintro _ ⟨⟩; exact hattempt _ _ _ (hP _ _ ht) ha) hu
  | enter ht ha => exact hmove hP (by rintro _ ⟨⟩) hu
  | leave ht => exact hmove hP (by rintro _ ⟨⟩) hu

/-- A thread that runs alone while nobody is inside gets in. -/
theorem enters_alone {i : L.Spin} (hw : lawful.held s.word = false) (ht : s.place t = .waiting i) :
    ∃ n ≤ lawful.rank i, ∃ s', (machine L T).runFrom s (List.replicate (n + 1) (.attempt t)) = some s' ∧
      s'.Inside t := by
  induction hr : lawful.rank i using Nat.strong_induction_on generalizing s i with
  | _ r ih =>
      subst hr
      have hstep := step_attempt ht
      cases ha : (L.attempt s.word i).2 with
      | none =>
          rw [ha] at hstep
          refine ⟨0, Nat.zero_le _, { s with word := (L.attempt s.word i).1 }.move t .inside, ?_, ?_⟩
          · simp [Machine.runFrom, machine, hstep]
          · exact (inside_move_inside t).mpr (.inl rfl)
      | some j =>
          rw [ha] at hstep
          have hlt := lawful.rank_attempt _ _ _ hw ha
          have hw' : lawful.held (L.attempt s.word i).1 = false := by
            rw [lawful.held_attempt, hw, ha]; rfl
          obtain ⟨n, hn, s', hrun, hin⟩ := ih (lawful.rank j) hlt
            (s := { s with word := (L.attempt s.word i).1 }.move t (.waiting j)) hw'
            (by simp [move]) rfl
          refine ⟨n + 1, by omega, s', ?_, hin⟩
          rw [List.replicate_succ]
          simp only [Machine.runFrom, machine, hstep, Option.bind_some]
          exact hrun

end Contest

end DsaStdexec.Lib

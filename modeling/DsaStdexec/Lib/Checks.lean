import Mathlib.Data.List.Forall2

/-!
# Sequences of checks

A validator is a computation in `Except`: a sequence of checks that stops at the first one that fails.
What it takes to pass is read off by `bind_ok_iff` and `ensure_ok_iff`; which errors it can end with by
`Raises`.
-/

namespace DsaStdexec.Lib

variable {ε α β σ : Type}

/-- The check of a condition. -/
def ensure (p : Prop) [Decidable p] (e : ε) : Except ε Unit := if p then .ok () else .error e

/-- A check for every item of a list, with the index of the item. -/
def checkEach (f : Nat → α → Except ε β) : Nat → List α → Except ε (List β)
  | _, [] => .ok []
  | i, a :: as => do
      let b ← f i a
      let bs ← checkEach f (i + 1) as
      return b :: bs

/-- A loop that carries a state from item to item. -/
def checkLoop (f : σ → Nat → α → Except ε σ) : σ → Nat → List α → Except ε σ
  | s, _, [] => .ok s
  | s, i, a :: as => do
      let s ← f s i a
      checkLoop f s (i + 1) as

/-! ## Passing -/

theorem bind_ok_iff {x : Except ε α} {f : α → Except ε β} {b : β} :
    (x >>= f) = .ok b ↔ ∃ a, x = .ok a ∧ f a = .ok b := by
  cases x with
  | error e => simp [bind, Except.bind]
  | ok a => simp [bind, Except.bind]

theorem bind_error_iff {x : Except ε α} {f : α → Except ε β} {e : ε} :
    (x >>= f) = .error e ↔ x = .error e ∨ ∃ a, x = .ok a ∧ f a = .error e := by
  cases x with
  | error e' => simp [bind, Except.bind]
  | ok a => simp [bind, Except.bind]

theorem map_ok_iff {x : Except ε α} {f : α → β} {b : β} :
    x.map f = .ok b ↔ ∃ a, x = .ok a ∧ f a = b := by
  cases x with
  | ok a => simp [Except.map]
  | error e => simp [Except.map]

theorem pure_ok_iff {a b : α} : (pure a : Except ε α) = .ok b ↔ a = b := by
  simp [pure, Except.pure]

theorem ensure_ok_iff {p : Prop} [Decidable p] {e : ε} {u : Unit} :
    ensure p e = .ok u ↔ p := by
  unfold ensure
  split <;> simp_all

/-- Where the index decides only about the error, a check of every item passes item by item. -/
theorem checkEach_ok_iff {f : Nat → α → Except ε β} {R : α → β → Prop}
    (hR : ∀ i a b, f i a = .ok b ↔ R a b) {i : Nat} {as : List α} {bs : List β} :
    checkEach f i as = .ok bs ↔ List.Forall₂ R as bs := by
  induction as generalizing i bs with
  | nil =>
      rw [checkEach, List.forall₂_nil_left_iff]
      exact ⟨fun h => (Except.ok.inj h).symm, fun h => h ▸ rfl⟩
  | cons a as ih =>
      simp only [checkEach, bind_ok_iff, pure_ok_iff, hR, ih, List.forall₂_cons_left_iff]
      constructor
      · rintro ⟨b, hb, bs', hbs, rfl⟩
        exact ⟨b, bs', hb, hbs, rfl⟩
      · rintro ⟨b, bs', hb, hbs, rfl⟩
        exact ⟨b, hb, bs', hbs, rfl⟩

theorem exists_left_of_forall₂ {R : α → β → Prop} {as : List α} {bs : List β}
    (h : List.Forall₂ R as bs) {b : β} (hb : b ∈ bs) : ∃ a, R a b := by
  induction h with
  | nil => cases hb
  | cons hab _ ih =>
      rcases List.mem_cons.mp hb with rfl | hb
      · exact ⟨_, hab⟩
      · exact ih hb

theorem map_eq_of_forall₂ {g : β → α} {as : List α} {bs : List β}
    (h : List.Forall₂ (fun a b => g b = a) as bs) : bs.map g = as := by
  induction h with
  | nil => rfl
  | cons hab _ ih => rw [List.map_cons, ih, hab]

/-- What every check gives, a sequence of checks gives for every item. -/
theorem checkEach_ok_of_forall {f : Nat → α → Except ε β} {R : α → β → Prop} {as : List α}
    (h : ∀ a ∈ as, ∃ b, (∀ i, f i a = .ok b) ∧ R a b) (i : Nat) :
    ∃ bs, checkEach f i as = .ok bs ∧ List.Forall₂ R as bs := by
  induction as generalizing i with
  | nil => exact ⟨[], rfl, .nil⟩
  | cons a as ih =>
      obtain ⟨b, hb, hR⟩ := h a List.mem_cons_self
      obtain ⟨bs, hbs, hall⟩ := ih (fun a' ha => h a' (List.mem_cons_of_mem _ ha)) (i + 1)
      refine ⟨b :: bs, ?_, .cons hR hall⟩
      simp only [checkEach, bind_ok_iff, pure_ok_iff]
      exact ⟨b, hb i, bs, hbs, rfl⟩

theorem checkEach_ok_mem {f : Nat → α → Except ε β} {i : Nat} {as : List α} {bs : List β}
    (h : checkEach f i as = .ok bs) {a : α} (ha : a ∈ as) : ∃ j b, f j a = .ok b := by
  induction as generalizing i bs with
  | nil => cases ha
  | cons a' as ih =>
      simp only [checkEach, bind_ok_iff] at h
      obtain ⟨b, hb, bs', hbs, -⟩ := h
      rcases List.mem_cons.mp ha with rfl | ha
      · exact ⟨i, b, hb⟩
      · exact ih hbs ha

theorem checkLoop_invariant {f : σ → Nat → α → Except ε σ} {I : σ → Prop}
    (hI : ∀ s i a s', I s → f s i a = .ok s' → I s') {s s' : σ} {i : Nat} {as : List α} (hs : I s)
    (h : checkLoop f s i as = .ok s') : I s' := by
  induction as generalizing s i with
  | nil =>
      cases h
      exact hs
  | cons a as ih =>
      simp only [checkLoop, bind_ok_iff] at h
      obtain ⟨t, ht, h⟩ := h
      exact ih (hI s i a t hs ht) h

/-- A loop that puts in front of its state what it makes of each item. -/
theorem checkLoop_cons {f : List β → Nat → α → Except ε (List β)} {g : α → β} {as : List α}
    (h : ∀ a ∈ as, ∀ bs i, f bs i a = .ok (g a :: bs)) (bs : List β) (i : Nat) :
    checkLoop f bs i as = .ok ((as.map g).reverse ++ bs) := by
  induction as generalizing bs i with
  | nil => rfl
  | cons a as ih =>
      have hrest := ih (fun a' ha => h a' (List.mem_cons_of_mem _ ha)) (g a :: bs) (i + 1)
      simp only [checkLoop, bind_ok_iff]
      refine ⟨_, h a List.mem_cons_self bs i, ?_⟩
      simp [hrest]

/-! ## Failing -/

/-- Every error that the computation can end with meets `P`. -/
def Raises (P : ε → Prop) (x : Except ε α) : Prop := ∀ e, x = .error e → P e

variable {P : ε → Prop}

theorem raises_ok (a : α) : Raises P (.ok a : Except ε α) := fun _ h => nomatch h

theorem raises_error {e : ε} (h : P e) : Raises P (.error e : Except ε α) := by
  rintro _ ⟨⟩
  exact h

theorem raises_ensure {p : Prop} [Decidable p] {e : ε} (h : P e) : Raises P (ensure p e) := by
  unfold ensure
  split
  · exact raises_ok ()
  · exact raises_error h

theorem Raises.bind {x : Except ε α} {f : α → Except ε β} (hx : Raises P x)
    (hf : ∀ a, x = .ok a → Raises P (f a)) : Raises P (x >>= f) := by
  intro e h
  rcases bind_error_iff.mp h with h | ⟨a, ha, h⟩
  · exact hx e h
  · exact hf a ha e h

theorem raises_checkEach {f : Nat → α → Except ε β} (hf : ∀ i a, Raises P (f i a)) (i : Nat)
    (as : List α) : Raises P (checkEach f i as) := by
  induction as generalizing i with
  | nil => exact raises_ok _
  | cons a as ih =>
      exact (hf i a).bind fun b _ => (ih (i + 1)).bind fun bs _ => raises_ok _

theorem raises_checkLoop {f : σ → Nat → α → Except ε σ} (hf : ∀ s i a, Raises P (f s i a)) (s : σ)
    (i : Nat) (as : List α) : Raises P (checkLoop f s i as) := by
  induction as generalizing s i with
  | nil => exact raises_ok _
  | cons a as ih => exact (hf s i a).bind fun s' _ => ih s' (i + 1)

/-- The computation ends with an error that does not meet `P`. -/
def Escapes (P : ε → Prop) (x : Except ε α) : Prop := ∃ e, x = .error e ∧ ¬ P e

theorem raises_iff_not_escapes {x : Except ε α} : Raises P x ↔ ¬ Escapes P x := by
  simp [Raises, Escapes]

theorem Raises.escapes_iff {x : Except ε α} (h : Raises P x) : Escapes P x ↔ False :=
  iff_false_intro (raises_iff_not_escapes.mp h)

theorem escapes_pure_iff {a : α} : Escapes P (pure a : Except ε α) ↔ False := (raises_ok a).escapes_iff

theorem escapes_bind_iff {x : Except ε α} {f : α → Except ε β} :
    Escapes P (x >>= f) ↔ Escapes P x ∨ ∃ a, x = .ok a ∧ Escapes P (f a) := by
  simp only [Escapes, bind_error_iff]
  constructor
  · rintro ⟨e, h | ⟨a, ha, h⟩, hp⟩
    · exact Or.inl ⟨e, h, hp⟩
    · exact Or.inr ⟨a, ha, e, h, hp⟩
  · rintro (⟨e, h, hp⟩ | ⟨a, ha, e, h, hp⟩)
    · exact ⟨e, Or.inl h, hp⟩
    · exact ⟨e, Or.inr ⟨a, ha, h⟩, hp⟩

/-- A loop escapes at an item that it comes to: the items before have passed. -/
theorem checkLoop_escapes_iff {f : σ → Nat → α → Except ε σ} {s : σ} {i : Nat} {as : List α} :
    Escapes P (checkLoop f s i as) ↔ ∃ before a after s', as = before ++ a :: after ∧
      checkLoop f s i before = .ok s' ∧ Escapes P (f s' (i + before.length) a) := by
  induction as generalizing s i with
  | nil =>
      constructor
      · rintro ⟨e, h, -⟩
        cases h
      · rintro ⟨before, a, after, s', h, -, -⟩
        simp at h
  | cons a as ih =>
      simp only [checkLoop, escapes_bind_iff, ih]
      constructor
      · rintro (h | ⟨s', hs, before, b, after, s'', rfl, hloop, h⟩)
        · exact ⟨[], a, as, s, rfl, rfl, h⟩
        · refine ⟨a :: before, b, after, s'', rfl, ?_, ?_⟩
          · simp only [checkLoop, bind_ok_iff]
            exact ⟨s', hs, hloop⟩
          · rwa [List.length_cons, Nat.add_comm before.length, ← Nat.add_assoc]
      · rintro ⟨before, b, after, s'', h, hloop, hesc⟩
        cases before with
        | nil =>
            obtain ⟨rfl, rfl⟩ := List.cons.inj h
            cases hloop
            exact Or.inl hesc
        | cons c before =>
            obtain ⟨rfl, rfl⟩ := List.cons.inj h
            simp only [checkLoop, bind_ok_iff] at hloop
            obtain ⟨s', hs, hloop⟩ := hloop
            refine Or.inr ⟨s', hs, before, b, after, s'', rfl, hloop, ?_⟩
            rwa [List.length_cons, Nat.add_comm before.length, ← Nat.add_assoc] at hesc

/-! ## Sets of what was seen -/

/-- The items of a list are new one after the other. -/
def Fresh (old new : List α) : Prop := new.Nodup ∧ ∀ x ∈ new, x ∉ old

theorem fresh_nil (old : List α) : Fresh old [] := ⟨List.nodup_nil, fun _ h => absurd h List.not_mem_nil⟩

theorem fresh_nil_left {new : List α} : Fresh [] new ↔ new.Nodup :=
  ⟨fun h => h.1, fun h => ⟨h, fun _ _ => List.not_mem_nil⟩⟩

theorem fresh_append_iff {old xs ys : List α} :
    Fresh old (xs ++ ys) ↔ Fresh old xs ∧ Fresh (old ++ xs) ys := by
  simp only [Fresh, List.nodup_append, List.mem_append, not_or]
  constructor
  · rintro ⟨⟨hx, hy, hne⟩, hold⟩
    exact ⟨⟨hx, fun x h => hold x (Or.inl h)⟩, hy, fun y h => ⟨hold y (Or.inr h), fun h' => hne y h' y h rfl⟩⟩
  · rintro ⟨⟨hx, hxold⟩, hy, hyold⟩
    refine ⟨⟨hx, hy, ?_⟩, ?_⟩
    · rintro x h y h' rfl
      exact (hyold x h').2 h
    · rintro x (h | h)
      · exact hxold x h
      · exact (hyold x h).1

theorem fresh_cons_iff {old : List α} {x : α} {new : List α} :
    Fresh old (x :: new) ↔ x ∉ old ∧ Fresh (old ++ [x]) new := by
  have hx : Fresh old [x] ↔ x ∉ old := by simp [Fresh]
  rw [← List.singleton_append, fresh_append_iff, hx]

theorem fresh_concat_iff {old new : List α} {x : α} :
    Fresh old (new ++ [x]) ↔ Fresh old new ∧ x ∉ old ++ new := by
  have hx : Fresh (old ++ new) [x] ↔ x ∉ old ++ new := by simp [Fresh]
  rw [fresh_append_iff, hx]

end DsaStdexec.Lib

import DsaStdexec.Lib.Machine
import Mathlib.Logic.Function.Basic

/-!
# Loans

A machine that lends parts of its memory to somebody who reads them at a pace of his own and gives
them back in any order. The machine is described without the borrower; the market adds him. What the
borrower sees of a loan is what was there when the loan was made, if the machine keeps its hands off
everything that it knows to be lent.
-/

namespace DsaStdexec.Lib

/-- `σ`, `α` are the states and the actions of the machine, `ℓ` names what is lent, `κ` the places inside
a loan, `β` what is read there, and `ρ` the answer with which a loan is given back. -/
structure Lender (σ α ℓ κ β ρ : Type*) where
  machine : Machine σ α
  /-- The loans made by a step between two states, oldest first. -/
  opens : σ → σ → List ℓ
  covers : ℓ → κ → Bool
  look : σ → ℓ → κ → β
  giveBack : σ → ℓ → ρ → σ

/-- `value` is what was lent and `seen` what the borrower has read so far. -/
structure Loan (ℓ κ β : Type*) where
  item : ℓ
  value : κ → β
  seen : κ → Option β
  returned : Bool

/-- The machine with all the loans that it has made. -/
structure Market (σ ℓ κ β : Type*) where
  sys : σ
  loans : List (Loan ℓ κ β)

inductive MarketAction (α κ ρ : Type*) where
  | own (a : α)
  | look (j : Nat) (k : κ)
  | giveBack (j : Nat) (answer : ρ)

def MarketAction.own? {α κ ρ : Type*} : MarketAction α κ ρ → Option α
  | .own a => some a
  | _ => none

namespace Lender

variable {σ α ℓ κ β ρ : Type*} (L : Lender σ α ℓ κ β ρ)

def lend (s : σ) (l : ℓ) : Loan ℓ κ β where
  item := l
  value := L.look s l
  seen := fun _ => none
  returned := false

/-! ## What the machine owes -/

/-- `Lent` is what the machine itself knows about its loans, `Apart` relates two loans that do not
touch each other. Under `C` and the invariant `I` no step of the machine forgets a loan, and a new loan
is apart from the ones that are out. -/
structure Tracks (L : Lender σ α ℓ κ β ρ) (C : σ → α → Prop) (I : σ → Prop) (Lent : σ → ℓ → Prop)
    (Apart : ℓ → ℓ → Prop) : Prop where
  init : I L.machine.init
  step : ∀ {s a s'}, I s → C s a → L.machine.step s a = some s' → I s'
  opens : ∀ {s a s'}, I s → C s a → L.machine.step s a = some s' → ∀ l ∈ L.opens s s', Lent s' l
  fresh : ∀ {s a s'}, I s → C s a → L.machine.step s a = some s' → ∀ l' ∈ L.opens s s',
    ∀ l, Lent s l → Apart l l'
  opens_apart : ∀ {s a s'}, I s → C s a → L.machine.step s a = some s' →
    (L.opens s s').Pairwise Apart
  kept : ∀ {s a s'}, I s → C s a → L.machine.step s a = some s' → ∀ l, Lent s l → Lent s' l
  giveBack_inv : ∀ {s l}, I s → Lent s l → ∀ answer, I (L.giveBack s l answer)
  giveBack : ∀ {s l l'}, I s → Lent s l → Lent s l' → Apart l l' → ∀ answer,
    Lent (L.giveBack s l answer) l'
  symm : ∀ {l l'}, Apart l l' → Apart l' l

/-- The machine does not change what it has lent either. -/
structure Keeps (L : Lender σ α ℓ κ β ρ) (C : σ → α → Prop) (I : σ → Prop) (Lent : σ → ℓ → Prop)
    (Apart : ℓ → ℓ → Prop) : Prop extends Tracks L C I Lent Apart where
  look : ∀ {s a s'}, I s → C s a → L.machine.step s a = some s' → ∀ l, Lent s l →
    ∀ k, L.covers l k = true → L.look s' l k = L.look s l k
  giveBack_look : ∀ {s l l'}, I s → Lent s l → Lent s l' → Apart l l' → ∀ answer,
    ∀ k, L.covers l' k = true → L.look (L.giveBack s l answer) l' k = L.look s l' k

/-- The loans that are out are known to the machine and are apart from each other. -/
structure Tracked (I : σ → Prop) (Lent : σ → ℓ → Prop) (Apart : ℓ → ℓ → Prop) (w : Market σ ℓ κ β) :
    Prop where
  inv : I w.sys
  lent : ∀ l ∈ w.loans, l.returned = false → Lent w.sys l.item
  apart : w.loans.Pairwise fun l l' => l.returned = false → l'.returned = false → Apart l.item l'.item

/-- The loans that are out still hold what was lent, and what was read of any loan is what was lent. -/
structure Unchanged (L : Lender σ α ℓ κ β ρ) (w : Market σ ℓ κ β) : Prop where
  value : ∀ l ∈ w.loans, l.returned = false → ∀ k, L.covers l.item k = true →
    L.look w.sys l.item k = l.value k
  seen : ∀ l ∈ w.loans, ∀ k x, l.seen k = some x → x = l.value k

/-- A loan is replaced by one for the same thing: nothing is taken out again. -/
theorem pairwise_set {P : Loan ℓ κ β → Loan ℓ κ β → Prop} {ls : List (Loan ℓ κ β)} {j : Nat}
    {l l' : Loan ℓ κ β} (hl : ls[j]? = some l) (hP : ls.Pairwise P)
    (h1 : ∀ x, P x l → P x l') (h2 : ∀ x, P l x → P l' x) : (ls.set j l').Pairwise P := by
  induction ls generalizing j with
  | nil => cases hl
  | cons x xs ih =>
      obtain ⟨hx, hxs⟩ := List.pairwise_cons.mp hP
      cases j with
      | zero =>
          cases hl
          exact List.pairwise_cons.mpr ⟨fun y hy => h2 y (hx y hy), hxs⟩
      | succ j =>
          refine List.pairwise_cons.mpr ⟨fun y hy => ?_, ih hl hxs⟩
          rcases List.mem_or_eq_of_mem_set hy with hy | rfl
          · exact hx y hy
          · exact h1 x (hx l (List.mem_of_getElem? hl))

variable {C : σ → α → Prop} {I : σ → Prop} {Lent : σ → ℓ → Prop} {Apart : ℓ → ℓ → Prop}
  {w w' : Market σ ℓ κ β} {a : MarketAction α κ ρ}

/-- The loans that are out after one is given back are apart from it. -/
theorem Tracked.apart_of_set {L : Lender σ α ℓ κ β ρ}
    (hL : L.Tracks C I Lent Apart) (h : Tracked I Lent Apart w) {j : Nat}
    {l m : Loan ℓ κ β} (hl : w.loans[j]? = some l) (hr : l.returned = false)
    (hm : m ∈ w.loans.set j { l with returned := true }) (hr' : m.returned = false) :
    m ∈ w.loans ∧ Apart l.item m.item := by
  obtain ⟨i, hi⟩ := List.mem_iff_getElem?.mp hm
  have hij : i ≠ j := by
    rintro rfl
    rw [List.getElem?_set_self (List.getElem?_eq_some_iff.mp hl).1] at hi
    cases hi
    cases hr'
  rw [List.getElem?_set_ne (Ne.symm hij)] at hi
  refine ⟨List.mem_of_getElem? hi, ?_⟩
  obtain ⟨hjlt, rfl⟩ := List.getElem?_eq_some_iff.mp hl
  obtain ⟨hilt, rfl⟩ := List.getElem?_eq_some_iff.mp hi
  rcases Nat.lt_or_gt_of_ne hij with hlt | hlt
  · exact hL.symm (List.pairwise_iff_getElem.mp h.apart i j hilt hjlt hlt hr' hr)
  · exact List.pairwise_iff_getElem.mp h.apart j i hjlt hilt hlt hr hr'

/-! ## The market -/

variable [DecidableEq κ]

def step (w : Market σ ℓ κ β) : MarketAction α κ ρ → Option (Market σ ℓ κ β)
  | .own a => (L.machine.step w.sys a).map fun s =>
      { sys := s, loans := w.loans ++ (L.opens w.sys s).map (L.lend s) }
  | .look j k => w.loans[j]?.bind fun l =>
      if !l.returned && L.covers l.item k then
        some { w with
          loans := w.loans.set j
            { l with seen := Function.update l.seen k (some (L.look w.sys l.item k)) } }
      else none
  | .giveBack j answer => w.loans[j]?.bind fun l =>
      if l.returned then none
      else
        some { sys := L.giveBack w.sys l.item answer, loans := w.loans.set j { l with returned := true } }

def market : Machine (Market σ ℓ κ β) (MarketAction α κ ρ) where
  init := { sys := L.machine.init, loans := [] }
  step := L.step

/-- A condition on the steps of the machine, as one on the steps of the market. -/
def OnOwn (C : σ → α → Prop) (w : Market σ ℓ κ β) (a : MarketAction α κ ρ) : Prop :=
  ∀ b, a.own? = some b → C w.sys b

instance {C : σ → α → Prop} [∀ s b, Decidable (C s b)] (w : Market σ ℓ κ β) (a : MarketAction α κ ρ) :
    Decidable (OnOwn C w a) :=
  match a with
  | .own b => decidable_of_iff (C w.sys b) (by simp [OnOwn, MarketAction.own?])
  | .look _ _ | .giveBack _ _ => isTrue nofun

inductive Effect (w : Market σ ℓ κ β) : MarketAction α κ ρ → Market σ ℓ κ β → Prop where
  | E_Own {a s} (hst : L.machine.step w.sys a = some s) :
      Effect w (.own a) { sys := s, loans := w.loans ++ (L.opens w.sys s).map (L.lend s) }
  | E_Look {j k l} (hl : w.loans[j]? = some l) (hr : l.returned = false)
      (hk : L.covers l.item k = true) :
      Effect w (.look j k)
        { w with
          loans := w.loans.set j
            { l with seen := Function.update l.seen k (some (L.look w.sys l.item k)) } }
  | E_GiveBack {j answer l} (hl : w.loans[j]? = some l) (hr : l.returned = false) :
      Effect w (.giveBack j answer)
        { sys := L.giveBack w.sys l.item answer, loans := w.loans.set j { l with returned := true } }

variable {L}

theorem meets_onOwn_true (w : Market σ ℓ κ β) (as : List (MarketAction α κ ρ)) :
    L.market.Meets (OnOwn fun _ _ => True) w as :=
  (Machine.meets_of_forall (C := fun _ => True) fun _ _ => trivial).mono fun _ _ _ _ _ => trivial

theorem step_effect {w w' : Market σ ℓ κ β} {a : MarketAction α κ ρ} (h : L.step w a = some w') :
    L.Effect w a w' := by
  cases a with
  | own a =>
      obtain ⟨s, hst, rfl⟩ := Option.map_eq_some_iff.mp h
      exact .E_Own hst
  | look j k =>
      obtain ⟨l, hl, h⟩ := Option.bind_eq_some_iff.mp h
      split at h <;> cases h
      rename_i hc
      simp only [Bool.and_eq_true, Bool.not_eq_eq_eq_not, Bool.not_true] at hc
      exact .E_Look hl hc.1 hc.2
  | giveBack j answer =>
      obtain ⟨l, hl, h⟩ := Option.bind_eq_some_iff.mp h
      split at h <;> cases h
      rename_i hc
      exact .E_GiveBack hl (by simpa using hc)


theorem Tracks.tracked_init (hL : L.Tracks C I Lent Apart) : Tracked I Lent Apart L.market.init where
  inv := hL.init
  lent := nofun
  apart := .nil

theorem Tracked.effect (hL : L.Tracks C I Lent Apart) (h : Tracked I Lent Apart w)
    (hc : OnOwn C w a) (he : L.Effect w a w') : Tracked I Lent Apart w' := by
  cases he with
  | E_Own hst =>
      have hc' := hc _ rfl
      refine ⟨hL.step h.inv hc' hst, ?_, List.pairwise_append.mpr ⟨h.apart, ?_, ?_⟩⟩
      · intro l hl hr
        rcases List.mem_append.mp hl with hl | hl
        · exact hL.kept h.inv hc' hst _ (h.lent l hl hr)
        · obtain ⟨x, hx, rfl⟩ := List.mem_map.mp hl
          exact hL.opens h.inv hc' hst x hx
      · exact List.pairwise_map.mpr ((hL.opens_apart h.inv hc' hst).imp fun hap _ _ => hap)
      · intro l hl l' hl' hr _
        obtain ⟨x, hx, rfl⟩ := List.mem_map.mp hl'
        exact hL.fresh h.inv hc' hst x hx _ (h.lent l hl hr)
  | @E_Look j k l hl hr hk =>
      refine ⟨h.inv, ?_, pairwise_set hl h.apart (fun _ hx => hx) (fun _ hx => hx)⟩
      intro m hm hr'
      rcases List.mem_or_eq_of_mem_set hm with hm | rfl
      · exact h.lent m hm hr'
      · exact h.lent l (List.mem_of_getElem? hl) hr
  | @E_GiveBack j answer l hl hr =>
      have hlent := h.lent l (List.mem_of_getElem? hl) hr
      refine ⟨hL.giveBack_inv h.inv hlent answer, ?_, ?_⟩
      · intro m hm hr'
        obtain ⟨hmem, hap⟩ := h.apart_of_set hL hl hr hm hr'
        exact hL.giveBack h.inv hlent (h.lent m hmem hr') hap answer
      · exact pairwise_set hl h.apart (fun _ _ _ hr' => by cases hr') (fun _ _ hr' => by cases hr')

theorem Unchanged.effect (hL : L.Keeps C I Lent Apart) (ht : Tracked I Lent Apart w)
    (h : L.Unchanged w) (hc : OnOwn C w a) (he : L.Effect w a w') : L.Unchanged w' := by
  cases he with
  | E_Own hst =>
      have hc' := hc _ rfl
      constructor
      · intro l hl hr k hk
        rcases List.mem_append.mp hl with hl | hl
        · exact (hL.look ht.inv hc' hst _ (ht.lent l hl hr) k hk).trans (h.value l hl hr k hk)
        · obtain ⟨x, hx, rfl⟩ := List.mem_map.mp hl
          rfl
      · intro l hl k x hx
        rcases List.mem_append.mp hl with hl | hl
        · exact h.seen l hl k x hx
        · obtain ⟨y, hy, rfl⟩ := List.mem_map.mp hl
          cases hx
  | @E_Look j k l hl hr hk =>
      have hm := List.mem_of_getElem? hl
      constructor
      · intro m hm' hr' k' hk'
        rcases List.mem_or_eq_of_mem_set hm' with hm' | rfl
        · exact h.value m hm' hr' k' hk'
        · exact h.value l hm hr k' hk'
      · intro m hm' k' x hx
        rcases List.mem_or_eq_of_mem_set hm' with hm' | rfl
        · exact h.seen m hm' k' x hx
        · by_cases hkk : k' = k
          · subst hkk
            simp only [Function.update_self, Option.some.injEq] at hx
            exact hx.symm.trans (h.value l hm hr k' hk)
          · simp only [Function.update_of_ne hkk] at hx
            exact h.seen l hm k' x hx
  | @E_GiveBack j answer l hl hr =>
      have hm := List.mem_of_getElem? hl
      constructor
      · intro m hm' hr' k hk
        obtain ⟨hmem, hap⟩ := ht.apart_of_set hL.toTracks hl hr hm' hr'
        exact (hL.giveBack_look ht.inv (ht.lent l hm hr) (ht.lent m hmem hr') hap answer k hk).trans
          (h.value m hmem hr' k hk)
      · intro m hm' k x hx
        rcases List.mem_or_eq_of_mem_set hm' with hm' | rfl
        · exact h.seen m hm' k x hx
        · exact h.seen l hm k x hx

theorem Tracks.tracked_of_run (hL : L.Tracks C I Lent Apart) {as : List (MarketAction α κ ρ)}
    (hc : L.market.Meets (OnOwn C) L.market.init as) (h : L.market.run as = some w) :
    Tracked I Lent Apart w :=
  Machine.runFrom_invariant (fun _ _ _ hs hc hst => hs.effect hL hc (step_effect hst))
    hL.tracked_init hc h

theorem Keeps.unchanged_of_run (hL : L.Keeps C I Lent Apart) {as : List (MarketAction α κ ρ)}
    (hc : L.market.Meets (OnOwn C) L.market.init as) (h : L.market.run as = some w) :
    L.Unchanged w := by
  refine (Machine.runFrom_invariant (I := fun w => Tracked I Lent Apart w ∧ L.Unchanged w) ?_
    ⟨hL.tracked_init, nofun, nofun⟩ hc h).2
  intro w a w' hw hc hst
  have he := step_effect hst
  exact ⟨hw.1.effect hL.toTracks hc he, hw.2.effect hL hw.1 hc he⟩

/-- No step of anybody touches a loan that is out, except that it can be given back. -/
theorem Tracked.untouched (hL : L.Keeps C I Lent Apart) (h : Tracked I Lent Apart w)
    (hc : OnOwn C w a) (hst : L.step w a = some w') {j : Nat} {l : Loan ℓ κ β}
    (hl : w.loans[j]? = some l) (hr : l.returned = false) :
    (∃ answer, a = .giveBack j answer) ∨ Lent w'.sys l.item ∧
      ∀ k, L.covers l.item k = true → L.look w'.sys l.item k = L.look w.sys l.item k := by
  have hm := List.mem_of_getElem? hl
  have he := step_effect hst
  cases he with
  | E_Own hown =>
      have hc' := hc _ rfl
      exact Or.inr ⟨hL.kept h.inv hc' hown _ (h.lent l hm hr),
        hL.look h.inv hc' hown _ (h.lent l hm hr)⟩
  | E_Look _ _ _ => exact Or.inr ⟨h.lent l hm hr, fun _ _ => rfl⟩
  | @E_GiveBack i answer m hi hri =>
      by_cases hij : j = i
      · subst hij; exact Or.inl ⟨answer, rfl⟩
      · have hset : l ∈ w.loans.set i { m with returned := true } :=
          List.mem_of_getElem? (by rw [List.getElem?_set_ne (Ne.symm hij)]; exact hl)
        obtain ⟨_, hap⟩ := h.apart_of_set hL.toTracks hi hri hset hr
        have hlent := h.lent m (List.mem_of_getElem? hi) hri
        exact Or.inr ⟨hL.giveBack h.inv hlent (h.lent l hm hr) hap answer,
          hL.giveBack_look h.inv hlent (h.lent l hm hr) hap answer⟩

end Lender

end DsaStdexec.Lib

import DsaStdexec.Submitter.Device
import DsaStdexec.Submitter.Lemmas.Batches

/-!
# What the submitters owe the device
-/

namespace DsaStdexec.Submitter

open DsaStdexec.Lib

/-- Two doorbells are apart if they have different completion records. -/
def Work.Apart {D A R : Type*} : Work D A R → Work D A R → Prop
  | .batch _ _ r, .batch _ _ r' => r ≠ r'
  | _, _ => True

namespace Port

variable {σ α D A R : Type*} {P : Port σ α D A R}

/-- What a step of a submitter does to the portal. `Lent` is what the submitter knows about the batches
that were not answered: the address of the list, its length and the record. -/
inductive Rings (P : Port σ α D A R) (Lent : σ → A → Nat → R → Prop) (s s' : σ) : Prop where
  | silent (hp : P.portal s' = P.portal s)
  | single (d : D) (hp : P.portal s' = P.portal s ++ [.single d])
  | batch (n : Nat)
      (hp : P.portal s' = P.portal s ++
        [.batch n ((List.range n).map (P.entry s' (P.addresses s s').1))])
      (hlent : Lent s' (P.addresses s s').1 n (P.addresses s s').2)
      (hfresh : ∀ a m, ¬ Lent s a m (P.addresses s s').2)

/-- A submitter under the condition `C` on its steps. -/
structure Lawful (P : Port σ α D A R) (C : σ → α → Prop) (I : σ → Prop)
    (Lent : σ → A → Nat → R → Prop) : Prop where
  init : I P.machine.init
  portal_init : P.portal P.machine.init = []
  step : ∀ {s a s'}, I s → C s a → P.machine.step s a = some s' → I s'
  /-- The device may answer a batch at any time. -/
  answer : ∀ {s a n r x}, I s → Lent s a n r → x ≠ 0 → C s (P.complete r x) ∧
    P.machine.step s (P.complete r x) = some (P.setStatus s r x)
  rings : ∀ {s a s'}, I s → C s a → P.isComplete a = false → P.machine.step s a = some s' →
    P.Rings Lent s s'
  kept : ∀ {s a s'}, I s → C s a → P.isComplete a = false → P.machine.step s a = some s' →
    ∀ b n r, Lent s b n r → Lent s' b n r
  other : ∀ {s a n r b m q x}, Lent s a n r → Lent s b m q → r ≠ q → Lent (P.setStatus s r x) b m q
  setStatus_portal : ∀ {s r x}, P.portal (P.setStatus s r x) = P.portal s
  clear : ∀ {s a n r}, Lent s a n r → P.status s r = 0

/-- A submitter that leaves the lists of the batches in flight alone. -/
structure Careful (P : Port σ α D A R) (C : σ → α → Prop) (I : σ → Prop)
    (Lent : σ → A → Nat → R → Prop) : Prop extends Lawful P C I Lent where
  entry : ∀ {s a s'}, I s → C s a → P.isComplete a = false → P.machine.step s a = some s' →
    ∀ b n r, Lent s b n r → ∀ k, k < n → P.entry s' b k = P.entry s b k
  setStatus_entry : ∀ {s r x b k}, P.entry (P.setStatus s r x) b k = P.entry s b k

def LentWork (Lent : σ → A → Nat → R → Prop) (s : σ) : Work D A R → Prop
  | .single _ => True
  | .batch a n r => Lent s a n r

variable {C : σ → α → Prop} {I : σ → Prop} {Lent : σ → A → Nat → R → Prop}

theorem calls_step {s s' : σ} {a : α} (h : P.calls.step s a = some s') :
    P.isComplete a = false ∧ P.machine.step s a = some s' := by
  simp only [calls] at h
  split at h
  · cases h
  · rename_i hc
    exact ⟨by simpa using hc, h⟩

theorem Lawful.giveBack_portal (h : P.Lawful C I Lent) (s : σ) (l : Work D A R) (answer : Answer) :
    P.portal (P.lender.giveBack s l answer) = P.portal s := by
  cases l with
  | single d => rfl
  | batch a n r => exact h.setStatus_portal

theorem Rings.opens {s s' : σ} (h : P.Rings Lent s s') :
    P.lender.opens s s' = [] ∨ (∃ d, P.lender.opens s s' = [.single d]) ∨
      ∃ n, P.lender.opens s s' = [.batch (P.addresses s s').1 n (P.addresses s s').2] ∧
        Lent s' (P.addresses s s').1 n (P.addresses s s').2 ∧
        ∀ a m, ¬ Lent s a m (P.addresses s s').2 := by
  cases h with
  | silent hp => exact Or.inl (by simp [lender, hp])
  | single d hp => exact Or.inr (Or.inl ⟨d, by simp [lender, hp, work]⟩)
  | batch n hp hlent hfresh =>
      exact Or.inr (Or.inr ⟨n, by simp [lender, hp, work], hlent, hfresh⟩)

theorem Lawful.tracks (h : P.Lawful C I Lent) :
    P.lender.Tracks C I (LentWork Lent) Work.Apart where
  init := h.init
  step hi hc hst := h.step hi hc (calls_step hst).2
  opens hi hc hst l hl := by
    obtain ⟨hn, hst⟩ := calls_step hst
    rcases (h.rings hi hc hn hst).opens with ho | ⟨d, ho⟩ | ⟨n, ho, hlent, _⟩
    · rw [ho] at hl; cases hl
    · rw [ho] at hl; cases List.mem_singleton.mp hl; trivial
    · rw [ho] at hl; cases List.mem_singleton.mp hl; exact hlent
  fresh hi hc hst l' hl' l hl := by
    obtain ⟨hn, hst⟩ := calls_step hst
    rcases (h.rings hi hc hn hst).opens with ho | ⟨d, ho⟩ | ⟨n, ho, _, hfresh⟩
    · rw [ho] at hl'; cases hl'
    · rw [ho] at hl'
      cases List.mem_singleton.mp hl'
      cases l <;> trivial
    · rw [ho] at hl'
      cases List.mem_singleton.mp hl'
      cases l with
      | single d => trivial
      | batch a m r =>
          rintro rfl
          exact hfresh a m hl
  opens_apart hi hc hst := by
    obtain ⟨hn, hst⟩ := calls_step hst
    rcases (h.rings hi hc hn hst).opens with ho | ⟨d, ho⟩ | ⟨n, ho, _⟩
    · rw [ho]; exact .nil
    · rw [ho]; exact List.pairwise_singleton _ _
    · rw [ho]; exact List.pairwise_singleton _ _
  kept hi hc hst l hl := by
    obtain ⟨hn, hst⟩ := calls_step hst
    cases l with
    | single d => trivial
    | batch a n r => exact h.kept hi hc hn hst a n r hl
  giveBack_inv {s l} hi hl answer := by
    cases l with
    | single d => exact hi
    | batch a n r =>
        obtain ⟨hc, hst⟩ := h.answer hi hl answer.2
        exact h.step hi hc hst
  giveBack {s l l'} hi hl hl' hap answer := by
    cases l with
    | single d => exact hl'
    | batch a n r =>
        cases l' with
        | single d => trivial
        | batch b m q => exact h.other hl hl' hap
  symm {l l'} hap := by
    cases l <;> cases l' <;> first | trivial | exact Ne.symm hap

/-- A second invariant, for the runs that meet a condition. -/
theorem Lawful.strengthen (h : P.Lawful (fun _ _ => True) I Lent) {J : σ → Prop}
    (hinit : J P.machine.init)
    (hstep : ∀ {s a s'}, I s → J s → C s a → P.machine.step s a = some s' → J s')
    (hcomplete : ∀ s r x, C s (P.complete r x)) : P.Lawful C (fun s => I s ∧ J s) Lent where
  init := ⟨h.init, hinit⟩
  portal_init := h.portal_init
  step hi hc hst := ⟨h.step hi.1 trivial hst, hstep hi.1 hi.2 hc hst⟩
  answer hi hl hx := ⟨hcomplete _ _ _, (h.answer hi.1 hl hx).2⟩
  rings hi _ hn hst := h.rings hi.1 trivial hn hst
  kept hi _ hn hst := h.kept hi.1 trivial hn hst
  other := h.other
  setStatus_portal := h.setStatus_portal
  clear := h.clear

theorem Careful.keeps (h : P.Careful C I Lent) :
    P.lender.Keeps C I (LentWork Lent) Work.Apart where
  toTracks := h.tracks
  look hi hc hst l hl k hk := by
    obtain ⟨hn, hst⟩ := calls_step hst
    cases l with
    | single d => rfl
    | batch a n r => exact h.entry hi hc hn hst a n r hl k (by simpa [lender] using hk)
  giveBack_look {s l l'} hi hl hl' hap answer k hk := by
    cases l with
    | single d => rfl
    | batch a n r =>
        cases l' with
        | single d => rfl
        | batch b m q => exact h.setStatus_entry

/-! ## The sequence of descriptors -/

/-- What a doorbell asks the device to execute, as it was when the doorbell rang. -/
def contents (l : Loan (Work D A R) Nat D) : List D :=
  match l.item with
  | .single d => [d]
  | .batch _ n _ => (List.range n).map l.value

theorem contents_eq_of_fetched {l : Loan (Work D A R) Nat D}
    (hs : ∀ k x, l.seen k = some x → x = l.value k) {read : List D} (h : Fetched l read) :
    read = contents l := by
  obtain ⟨item, value, seen, returned⟩ := l
  cases item with
  | single d => exact h
  | batch a n r =>
      obtain ⟨hlen, hseen⟩ := h
      simp only [contents]
      refine List.ext_getElem? fun k => ?_
      by_cases hk : k < n
      · have hget := hseen k hk
        rw [List.getElem?_eq_getElem (by omega)] at hget
        rw [List.getElem?_eq_getElem (by omega), hs k _ hget]
        simp [hk]
      · rw [List.getElem?_eq_none (by omega), List.getElem?_eq_none (by simpa using hk)]

theorem flatten_eq_of_fetched {loans : List (Loan (Work D A R) Nat D)} {reads : List (List D)}
    (hs : ∀ l ∈ loans, ∀ k x, l.seen k = some x → x = l.value k)
    (h : List.Forall₂ Fetched loans reads) : reads = loans.map contents := by
  induction h with
  | nil => rfl
  | cons hf _ ih =>
      rw [List.map_cons, contents_eq_of_fetched (hs _ List.mem_cons_self) hf,
        ih fun l hl => hs l (List.mem_cons_of_mem _ hl)]

theorem map_contents_set {loans : List (Loan (Work D A R) Nat D)} {j : Nat}
    {l l' : Loan (Work D A R) Nat D} (hl : loans[j]? = some l) (hc : contents l' = contents l) :
    (loans.set j l').map contents = loans.map contents := by
  obtain ⟨hlt, rfl⟩ := List.getElem?_eq_some_iff.mp hl
  have hlt' : j < (loans.map contents).length := by simpa using hlt
  have hget : contents loans[j] = (loans.map contents)[j] := (List.getElem_map contents).symm
  rw [List.map_set, hc, hget, List.set_getElem_self]

/-- The doorbells that the device was given are those written to the portal. -/
def Matched (P : Port σ α D A R) (w : P.State) : Prop :=
  w.loans.map contents = (P.portal w.sys).map Doorbell.descs

theorem Rings.matched {s s' : σ} (h : P.Rings Lent s s') :
    ((P.lender.opens s s').map (P.lender.lend s')).map contents =
      ((P.portal s').drop (P.portal s).length).map Doorbell.descs := by
  cases h with
  | silent hp => simp [lender, hp]
  | single d hp => simp [lender, hp, work, Lender.lend, contents, Doorbell.descs]
  | batch n hp _ _ => simp [lender, hp, work, Lender.lend, contents, Doorbell.descs]

theorem Rings.portal_eq {s s' : σ} (h : P.Rings Lent s s') :
    P.portal s' = P.portal s ++ (P.portal s').drop (P.portal s).length := by
  cases h with
  | silent hp => simp [hp]
  | single d hp => simp [hp]
  | batch n hp _ _ => simp [hp]

theorem Lawful.matched_effect (h : P.Lawful C I Lent) {w w' : P.State}
    {a : MarketAction α Nat Answer} (hi : I w.sys) (hc : Lender.OnOwn C w a) (hw : P.Matched w)
    (he : P.lender.Effect w a w') : P.Matched w' := by
  cases he with
  | E_Own hst =>
      obtain ⟨hn, hst⟩ := calls_step hst
      have hr := h.rings hi (hc _ rfl) hn hst
      simp only [Matched, List.map_append]
      rw [hr.matched, hr.portal_eq, hw, List.map_append]
      simp
  | E_Look hl _ _ =>
      refine Eq.trans (map_contents_set hl ?_) hw
      rfl
  | E_GiveBack hl _ =>
      refine Eq.trans (map_contents_set hl ?_) (hw.trans ?_)
      · rfl
      · rw [h.giveBack_portal]

/-- The descriptors that were rung, the ones that are staged and the ones still to be stored. -/
def sent (P : Port σ α D A R) (s : σ) : List D :=
  (P.portal s).flatMap Doorbell.descs ++ P.staged s ++ P.pending s

/-- A submitter that keeps the order in which it was given the descriptors. -/
structure Ordered (P : Port σ α D A R) (C : σ → α → Prop) (I : σ → Prop) : Prop where
  init : P.sent P.machine.init = []
  step : ∀ {s a s'}, I s → C s a → P.machine.step s a = some s' →
    P.sent s' = P.sent s ++ (P.desc? a).toList
  complete : ∀ r x, P.desc? (P.complete r x) = none

theorem Ordered.effect (ho : P.Ordered C I) (h : P.Lawful C I Lent) {w w' : P.State}
    {a : MarketAction α Nat Answer} (ht : Lender.Tracked I (LentWork Lent) Work.Apart w)
    (hc : Lender.OnOwn C w a) (he : P.lender.Effect w a w') :
    P.sent w'.sys = P.sent w.sys ++ (a.own?.bind P.desc?).toList := by
  cases he with
  | E_Own hst => exact ho.step ht.inv (hc _ rfl) (calls_step hst).2
  | E_Look _ _ _ => simp [MarketAction.own?]
  | @E_GiveBack j answer l hl hr =>
      have hlent := ht.lent l (List.mem_of_getElem? hl) hr
      simp only [MarketAction.own?, Option.bind_none, Option.toList_none, List.append_nil]
      cases hitem : l.item with
      | single d => rfl
      | batch a n r =>
          rw [hitem] at hlent
          obtain ⟨hca, hst⟩ := h.answer ht.inv hlent answer.2
          have := ho.step ht.inv hca hst
          rw [ho.complete, Option.toList_none, List.append_nil] at this
          exact this

theorem submitted_eq (as : List (MarketAction α Nat Answer)) :
    P.submitted as = as.flatMap fun a => (a.own?.bind P.desc?).toList := by
  induction as with
  | nil => rfl
  | cons a as ih =>
      rw [List.flatMap_cons, ← ih]
      cases ha : a.own? with
      | none => simp [submitted, ha]
      | some b =>
          cases hb : P.desc? b with
          | none => simp [submitted, ha, hb]
          | some d => simp [submitted, ha, hb]

theorem Ordered.sent_of_run (ho : P.Ordered C I) (h : P.Lawful C I Lent) {w : P.State}
    {as : List (MarketAction α Nat Answer)} (hc : P.system.Meets (Lender.OnOwn C) P.system.init as)
    (hr : P.system.run as = some w) : P.sent w.sys = P.submitted as := by
  have := Machine.runFrom_collect (M := P.system) (fun w => P.sent w.sys)
    (I := Lender.Tracked I (LentWork Lent) Work.Apart)
    (fun _ _ _ ht hc hst => ht.effect h.tracks hc (Lender.step_effect hst))
    (fun _ _ _ ht hc hst => ho.effect h ht hc (Lender.step_effect hst)) h.tracks.tracked_init hc hr
  rw [this, ← submitted_eq]
  show P.sent P.machine.init ++ _ = _
  rw [ho.init, List.nil_append]

theorem Lawful.matched_of_run (h : P.Lawful C I Lent) {w : P.State}
    {as : List (MarketAction α Nat Answer)} (hc : P.system.Meets (Lender.OnOwn C) P.system.init as)
    (hr : P.system.run as = some w) : P.Matched w := by
  have hinit : P.Matched P.system.init := by
    show [] = (P.portal P.machine.init).map Doorbell.descs
    rw [h.portal_init]; rfl
  refine (Machine.runFrom_invariant (M := P.system)
    (I := fun w => Lender.Tracked I (LentWork Lent) Work.Apart w ∧ P.Matched w) ?_
    ⟨h.tracks.tracked_init, hinit⟩ hc hr).2
  intro w a w' hw hc hst
  have he := Lender.step_effect hst
  exact ⟨hw.1.effect h.tracks hc he, h.matched_effect hw.1.inv hc hw.2 he⟩


end Port

end DsaStdexec.Submitter

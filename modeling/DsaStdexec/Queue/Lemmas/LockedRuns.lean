import DsaStdexec.Queue.Lemmas.LockedSteps

/-!
# Races, accounts and progress of the locked queue
-/

namespace DsaStdexec.Queue

open DsaStdexec.Lib

/-! ## What an access touches -/

namespace LockedFrame

variable {S O : Type}

theorem inside_of_touchesHead {f : LockedFrame S O} (h : f.touchesHead = true) : f.inside = true := by
  cases f <;> first | rfl | cases h

theorem mem_of_linkAfter {front : List O} {o : O} (h : o ∈ linkOperands (linkAfter front)) : o ∈ front := by
  rcases List.eq_nil_or_concat front with rfl | ⟨front, n, rfl⟩
  · cases h
  · rw [List.concat_eq_append] at h ⊢
    rw [linkAfter_concat] at h
    simpa [linkOperands] using List.mem_append_right front h

end LockedFrame

section Operands

variable {S O : Type} {next : O → Option O} {head : Option O} {ready : O → Bool} {l held : List O}
  {f : LockedFrame S O} {g : Option (BagStage O)} {o : O}

/-- A call touches the list at `head_` with the lock only, and otherwise operations of its own. -/
theorem Matches.operands (hm : Matches next head ready l held (some f) g)
    (hhead : ∀ op, f.pointer = some op → op ∈ held) (ho : o ∈ f.operands) :
    (f.inside = true ∧ o ∈ l) ∨ o ∈ held ∨ o ∈ f.loose := by
  cases hm with
  | linking => exact .inr (.inr ho)
  | @checking front rest _ _ hl hw =>
      cases rest with
      | nil => cases ho
      | cons curr rest => exact .inl ⟨rfl, by simp_all [LockedFrame.operands]⟩
  | detaching hl hw hc => exact .inl ⟨rfl, by simp_all [LockedFrame.operands]⟩
  | storing hl hw hc => exact .inl ⟨rfl, by rw [hl]; exact List.mem_append_left _ (LockedFrame.mem_of_linkAfter ho)⟩
  | chaining hl hw hc => exact .inr (.inr ho)
  | reloading hl hw => exact .inl ⟨rfl, by rw [hl]; exact List.mem_append_left _ (LockedFrame.mem_of_linkAfter ho)⟩
  | passing hl hw hc => exact .inl ⟨rfl, by simp_all [LockedFrame.operands]⟩
  | @notifying completed count =>
      cases completed with
      | none => cases ho
      | some op => exact .inr (.inl (List.mem_singleton.mp ho ▸ hhead op rfl))
  | invoking => exact .inr (.inr ho)
  | _ => cases ho

end Operands

namespace LockedProtocol

variable {L : Lock} {T O : Type} [DecidableEq T] [Fintype T] {lawful : L.Lawful}
  {s s' : LockedProtocol L T O} {b b' : SharedBag T O} {l l' h : List O} {held : T → List O} {t u : T}
  {f g : LockedFrame L.Spin O} {callbacks : List (Option O × Nat)} {o : O}

theorem Represents.operands (hr : Represents lawful s b l held) (hf : (s.threads t).frame = some f)
    (ho : o ∈ f.operands) : (f.inside = true ∧ o ∈ l) ∨ o ∈ held t ∨ o ∈ f.loose := by
  have ht : s.threads t = ⟨some f, (s.threads t).callbacks⟩ := by rw [← hf]
  have hm := hr.stages t
  rw [hf] at hm
  refine hm.operands (fun op hop => ?_) ho
  have hc := (hr.isolate_frame ht).swap.chain _ List.mem_cons_self
  rw [hop] at hc
  obtain ⟨rest, hrest, -⟩ := chain_some_iff.mp hc
  change held t = _ at hrest
  rw [hrest]
  exact List.mem_cons_self

theorem Represents.operands_owned (hr : Represents lawful s b l held)
    (hf : (s.threads t).frame = some f) (ho : o ∈ f.operands) : o ∈ s.heap.owned := by
  have ht : s.threads t = ⟨some f, (s.threads t).callbacks⟩ := by rw [← hf]
  have hc := hr.isolate_frame ht
  refine hc.mem_owned.mpr ?_
  rcases hr.operands hf ho with ⟨-, ho⟩ | ho | ho
  · exact .inl ⟨_, List.mem_cons_self, ho⟩
  · exact .inl ⟨_, List.mem_cons_of_mem _ List.mem_cons_self, ho⟩
  · exact .inr (List.mem_append_left _ ho)

/-- What a call has for itself is in nobody else's hands. -/
theorem Represents.own_disjoint (hr : Represents lawful s b l held) (hf : (s.threads t).frame = some f)
    (hg : (s.threads u).frame = some g) (hu : u ≠ t) (ho : o ∈ l ∨ o ∈ held t ∨ o ∈ f.loose)
    (ho' : o ∈ held u ∨ o ∈ g.loose) : False := by
  have ht : s.threads t = ⟨some f, (s.threads t).callbacks⟩ := by rw [← hf]
  have hc := hr.isolate_frame ht
  have hothers : (∃ x ∈ Represents.restLists s b held t, o ∈ x.2) ∨ o ∈ Represents.restLoose s t := by
    rcases ho' with ho' | ho'
    · refine .inl ⟨(g.pointer, held u), List.mem_append_right _ (mem_gatherOthers hu ?_), ho'⟩
      simp [LockedThread.lists, hg]
    · exact .inr (mem_gatherOthers hu (by simpa [LockedThread.loose, hg] using ho'))
  rcases ho with ho | ho | ho
  · obtain ⟨hlists, hloose⟩ := hc.disjoint ho
    rcases hothers with ⟨x, hx, hox⟩ | hox
    · exact hlists x (List.mem_cons_of_mem _ hx) hox
    · exact hloose (List.mem_append_right _ hox)
  · obtain ⟨hlists, hloose⟩ := hc.swap.disjoint ho
    rcases hothers with ⟨x, hx, hox⟩ | hox
    · exact hlists x (List.mem_cons_of_mem _ hx) hox
    · exact hloose (List.mem_append_right _ hox)
  · rcases hothers with ⟨x, hx, hox⟩ | hox
    · exact hc.loose_ne (List.mem_cons_of_mem _ (List.mem_cons_of_mem _ hx)) hox o
        (List.mem_append_left _ ho) rfl
    · have hnodup := (List.nodup_append.mp hc.nodup_all).2.1
      exact (List.nodup_append.mp hnodup).2.2 o ho o hox rfl

theorem Represents.no_race (hr : Represents lawful s b l held) (hf : (s.threads t).frame = some f)
    (hg : (s.threads u).frame = some g) (hu : t ≠ u) :
    (f.touchesHead = true → g.touchesHead = false) ∧ ∀ o ∈ f.operands, o ∉ g.operands := by
  have hone : f.inside = true → g.inside = true → False := by
    intro hfin hgin
    exact hu (hr.guards.unique t u (by simpa [Inside, LockedThread.inside, hf] using hfin)
      (by simpa [Inside, LockedThread.inside, hg] using hgin))
  refine ⟨fun hhead => ?_, fun o ho ho' => ?_⟩
  · rw [Bool.eq_false_iff]
    exact fun hhead' => hone (LockedFrame.inside_of_touchesHead hhead) (LockedFrame.inside_of_touchesHead hhead')
  · have hof := hr.operands hf ho
    have hog := hr.operands hg ho'
    -- one of the two calls is without the lock
    rcases hog with ⟨hgin, hog⟩ | hog
    · rcases hof with ⟨hfin, -⟩ | hof
      · exact hone hfin hgin
      · exact hr.own_disjoint hg hf hu (.inl hog) hof
    · refine hr.own_disjoint hf hg hu.symm ?_ hog
      rcases hof with ⟨-, hof⟩ | hof
      · exact .inl hof
      · exact .inr hof

variable [DecidableEq O]

/-! ## Accounts -/

omit [DecidableEq T] [Fintype T] in
theorem pushes_append (log log' : List (LockedEvent T O)) :
    pushes o (log ++ log') = pushes o log + pushes o log' := by
  induction log with
  | nil => simp [pushes]
  | cons e log ih =>
      rcases e with ⟨_, _ | _ | _⟩ | _ | _ | _ | _ <;> simp only [List.cons_append, pushes, ih, Nat.add_assoc]

omit [DecidableEq T] [Fintype T] in
theorem notifications_append (log log' : List (LockedEvent T O)) :
    notifications o (log ++ log') = notifications o log + notifications o log' := by
  induction log with
  | nil => simp [notifications]
  | cons e log ih => cases e <;> simp only [List.cons_append, notifications, ih, Nat.add_assoc]

/-- What an access changes of the operations. -/
inductive Keeps (s : LockedProtocol L T O) : LockedProtocol L T O × LockedNext L.Spin O → Prop where
  | goto {s' : LockedProtocol L T O} {f : LockedFrame L.Spin O} (ho : s'.heap.owned = s.heap.owned) (hl : s'.log = s.log)
      (ht : s'.threads = s.threads) : Keeps s (s', .goto f)
  | returns {s' : LockedProtocol L T O} {r : LockedResult} (ho : s'.heap.owned = s.heap.owned) (hl : s'.log = s.log)
      (ht : s'.threads = s.threads) : Keeps s (s', .returns r)
  | callback {op : O} {completed : Option O} {count : Nat} (ho : op ∈ s.heap.owned) :
      Keeps s ({ s with heap := s.heap.release op }, .callback op completed count)

omit [DecidableEq T] [Fintype T] in
theorem access_keeps {r : LockedProtocol L T O × LockedNext L.Spin O} (h : s.access f = some r) :
    Keeps s r := by
  have hwrite : ∀ {n p heap}, s.heap.write n p = some heap → heap.owned = s.heap.owned := by
    intro n p heap hw
    simp only [Heap.write] at hw
    split at hw <;> cases hw
    rfl
  cases f with
  | locking call spin =>
      simp only [access] at h
      split at h <;> cases h <;> exact .goto rfl rfl rfl
  | linking op head =>
      simp only [access, Option.bind_eq_bind, Option.bind_eq_some_iff] at h
      obtain ⟨heap, hw, he⟩ := h
      cases he
      exact .goto (hwrite hw) rfl rfl
  | checking pprev curr completed =>
      cases curr with
      | none => cases h; exact .goto rfl rfl rfl
      | some curr =>
          simp only [access, Option.bind_eq_bind, Option.bind_eq_some_iff] at h
          obtain ⟨ready, -, he⟩ := h
          split at he <;> cases he <;> exact .goto rfl rfl rfl
  | detaching pprev curr completed =>
      simp only [access, Option.bind_eq_bind, Option.bind_eq_some_iff] at h
      obtain ⟨next, -, he⟩ := h
      cases he
      exact .goto rfl rfl rfl
  | storing pprev curr next completed =>
      simp only [access, Option.bind_eq_bind, Option.bind_eq_some_iff] at h
      obtain ⟨⟨heap, head⟩, hs, he⟩ := h
      cases he
      refine .goto ?_ rfl rfl
      cases pprev with
      | head => cases hs; rfl
      | next n =>
          simp only [Heap.store, Option.map_eq_some_iff] at hs
          obtain ⟨heap', hw, he⟩ := hs
          cases he
          exact hwrite hw
  | chaining pprev curr completed =>
      simp only [access, Option.bind_eq_bind, Option.bind_eq_some_iff] at h
      obtain ⟨heap, hw, he⟩ := h
      cases he
      exact .goto (hwrite hw) rfl rfl
  | reloading pprev completed =>
      simp only [access, Option.bind_eq_bind, Option.bind_eq_some_iff] at h
      obtain ⟨curr, -, he⟩ := h
      cases he
      exact .goto rfl rfl rfl
  | passing curr completed =>
      simp only [access, Option.bind_eq_bind, Option.bind_eq_some_iff] at h
      obtain ⟨next, -, he⟩ := h
      cases he
      exact .goto rfl rfl rfl
  | unlocking outcome =>
      cases outcome <;> cases h
      · exact .returns rfl rfl rfl
      · exact .goto rfl rfl rfl
      · exact .returns rfl rfl rfl
  | notifying completed count =>
      cases completed with
      | none => cases h; exact .returns rfl rfl rfl
      | some op =>
          simp only [access, Option.bind_eq_bind, Option.bind_eq_some_iff] at h
          obtain ⟨next, -, he⟩ := h
          cases he
          exact .goto rfl rfl rfl
  | invoking op completed count =>
      simp only [access] at h
      split at h <;> cases h
      exact .callback ‹_›
  | loading op => cases h; exact .goto rfl rfl rfl
  | publishing op => cases h; exact .goto rfl rfl rfl
  | starting => cases h; exact .goto rfl rfl rfl
  | testing => cases h; exact .goto rfl rfl rfl

/-- Every operation in the queue has been pushed once more often than it has been notified. -/
def Accounted (s : LockedProtocol L T O) : Prop :=
  s.heap.owned.Nodup ∧ ∀ o, pushes o s.log = notifications o s.log + if o ∈ s.heap.owned then 1 else 0

omit [DecidableEq T] [Fintype T] in
theorem Accounted.record (h : Accounted s) {r : LockedProtocol L T O} {e : LockedEvent T O}
    (ho : r.heap.owned = s.heap.owned) (hl : r.log = s.log ++ [e]) (he : ∀ o, pushes o [e] = 0)
    (he' : ∀ o, notifications o [e] = 0) : Accounted r := by
  refine ⟨ho ▸ h.1, fun o => ?_⟩
  rw [hl, ho, pushes_append, notifications_append, he, he', h.2 o]
  omega

omit [Fintype T] in
theorem accounted_proceed {next : LockedNext L.Spin O} (h : Accounted s) (hk : Keeps s (s', next)) :
    Accounted (s'.proceed t next) := by
  cases hk with
  | goto ho hl ht => exact ⟨ho ▸ h.1, fun o => by simpa [proceed, setThread, hl, ho] using h.2 o⟩
  | @returns _ r ho hl ht =>
      exact h.record (e := .returned t r) ho (by simp [proceed, LockedProtocol.record, setThread, hl])
        (fun _ => rfl) fun _ => rfl
  | @callback op completed count hop =>
      refine ⟨h.1.erase op, fun o => ?_⟩
      have hlog : pushes o (s.log ++ [.notified t op]) = notifications o (s.log ++ [.notified t op]) +
          if o ∈ s.heap.owned.erase op then 1 else 0 := by
        rw [pushes_append, notifications_append, h.2 o]
        by_cases he : o = op
        · subst he
          simp [pushes, notifications, hop, h.1.not_mem_erase]
        · simp [pushes, notifications, List.mem_erase_of_ne he, Ne.symm he]
      exact hlog

omit [Fintype T] in
theorem accounted_step {a : LockedAction T O} (h : Accounted s) (hs : s.step a = some s') : Accounted s' := by
  cases a with
  | call t call =>
      simp only [step] at hs
      split at hs
      · cases call with
        | push op =>
            simp only [begin] at hs
            split at hs
            · rename_i hnot
              cases hs
              refine ⟨List.nodup_cons.mpr ⟨hnot, h.1⟩, fun o => ?_⟩
              have hlog : pushes o (s.log ++ [.called t (.push op)]) =
                  notifications o (s.log ++ [.called t (.push op)]) +
                    if o ∈ op :: s.heap.owned then 1 else 0 := by
                rw [pushes_append, notifications_append, h.2 o]
                by_cases he : o = op
                · subst he
                  simp [pushes, notifications, hnot]
                · simp [pushes, notifications, he, Ne.symm he]
              exact hlog
            · cases hs
        | poll => cases hs; exact h.record (e := .called t .poll) rfl rfl (fun _ => rfl) fun _ => rfl
        | empty => cases hs; exact h.record (e := .called t .empty) rfl rfl (fun _ => rfl) fun _ => rfl
      · cases hs
  | advance t =>
      simp only [step, Option.bind_eq_bind, Option.bind_eq_some_iff] at hs
      obtain ⟨f, hf, ⟨s₁, next⟩, ha, he⟩ := hs
      cases he
      exact accounted_proceed h (access_keeps ha)
  | callbackReturn t =>
      simp only [step] at hs
      split at hs <;> cases hs
      exact h
  | finish op => cases hs; exact h.record (e := .finished op) rfl rfl (fun _ => rfl) fun _ => rfl
  | reuse op =>
      simp only [step] at hs
      split at hs <;> cases hs
      exact h.record (e := .reused op) rfl rfl (fun _ => rfl) fun _ => rfl

omit [Fintype T] in
theorem run_accounted {as : List (LockedAction T O)} (h : (machine L T O).run as = some s) :
    Accounted s :=
  Machine.run_invariant (I := Accounted) ⟨List.nodup_nil, fun _ => rfl⟩
    (fun _ _ _ hi hs => accounted_step hi hs) h

/-! ## Progress -/

omit [Fintype T] [DecidableEq O] in
theorem proceed_other {next : LockedNext L.Spin O} (hu : u ≠ t) :
    (s.proceed t next).threads u = s.threads u := by
  cases next <;> simp [proceed, record, setThread, hu]

/-- The next access of a call leaves all other threads where they are. -/
theorem advance_fuel (hr : Represents lawful s b l held) (hf : (s.threads t).frame = some f)
    (hfree : f.inside = true ∨ lawful.held s.word = false) :
    ∃ s' b' l' held', s.step (.advance t) = some s' ∧ Represents lawful s' b' l' held' ∧
      fuel lawful s' b' l' held' t < fuel lawful s b l held t ∧ ∀ u ≠ t, s'.threads u = s.threads u := by
  obtain ⟨s₁, next, b', l', held', ha, -, hr', hfuel⟩ := succeeds hr hf
  refine ⟨s₁.proceed t next, b', l', held', ?_, hr', hfuel hfree, fun u hu => ?_⟩
  · simp only [step, hf, Option.bind_eq_bind, Option.bind_some, ha]
  · rw [proceed_other hu]
    cases access_keeps ha with
    | goto _ _ ht => rw [ht]
    | returns _ _ ht => rw [ht]
    | callback => rfl

/-- A thread with the lock can run until it has released it. -/
theorem can_leave (hr : Represents lawful s b l held) :
    ∃ s', (machine L T O).Leads (LockedAction.Of t) s s' ∧ ¬ s'.Inside t ∧
      (∀ u ≠ t, s'.threads u = s.threads u) ∧ ∃ b' l' held', Represents lawful s' b' l' held' := by
  induction hn : fuel lawful s b l held t using Nat.strong_induction_on generalizing s b l held with
  | _ n ih =>
      subst hn
      by_cases hin : s.Inside t
      · rcases hf : (s.threads t).frame with _ | f
        · simp [Inside, LockedThread.inside, hf] at hin
        · have hfin : f.inside = true := by simpa [Inside, LockedThread.inside, hf] using hin
          obtain ⟨s₁, b₁, l₁, held₁, hs, hr₁, hlt, hothers⟩ := advance_fuel hr hf (.inl hfin)
          obtain ⟨s', hleads, hout, hothers', hrep⟩ := ih _ hlt hr₁ rfl
          refine ⟨s', .step (.inl rfl) hs hleads, hout, fun u hu => ?_, hrep⟩
          rw [hothers' u hu, hothers u hu]
      · exact ⟨s, .refl s, hin, fun _ _ => rfl, b, l, held, hr⟩

/-- While no other thread has the lock, a thread can finish all its calls. -/
theorem can_return_alone (hr : Represents lawful s b l held) (hout : ∀ u ≠ t, ¬ s.Inside u) :
    ∃ s', (machine L T O).Leads (LockedAction.Of t) s s' ∧ s'.threads t = ⟨none, []⟩ ∧
      (∀ u ≠ t, s'.threads u = s.threads u) ∧ ∃ b' l' held', Represents lawful s' b' l' held' := by
  induction hn : fuel lawful s b l held t using Nat.strong_induction_on generalizing s b l held with
  | _ n ih =>
      subst hn
      -- one step of the thread, and the rest by induction
      have hgo : ∀ {a s₁ b₁ l₁ held₁}, LockedAction.Of t a → s.step a = some s₁ →
          Represents lawful s₁ b₁ l₁ held₁ → fuel lawful s₁ b₁ l₁ held₁ t < fuel lawful s b l held t →
          (∀ u ≠ t, s₁.threads u = s.threads u) →
          ∃ s', (machine L T O).Leads (LockedAction.Of t) s s' ∧ s'.threads t = ⟨none, []⟩ ∧
            (∀ u ≠ t, s'.threads u = s.threads u) ∧ ∃ b' l' held', Represents lawful s' b' l' held' := by
        intro a s₁ b₁ l₁ held₁ ha hs hr₁ hlt hothers
        have hout₁ : ∀ u ≠ t, ¬ s₁.Inside u := by
          intro u hu
          rw [Inside, hothers u hu]
          exact hout u hu
        obtain ⟨s', hleads, hdone, hothers', hrep⟩ := ih _ hlt hr₁ hout₁ rfl
        refine ⟨s', .step ha hs hleads, hdone, fun u hu => ?_, hrep⟩
        rw [hothers' u hu, hothers u hu]
      rcases ht : s.threads t with ⟨_ | f, callbacks⟩
      · cases callbacks with
        | nil => exact ⟨s, .refl s, ht, fun _ _ => rfl, b, l, held, hr⟩
        | cons c callbacks =>
            obtain ⟨completed, count⟩ := c
            obtain ⟨b₁, l₁, held₁, -, hr₁, hlt⟩ := succeeds_callbackReturn hr ht
            refine hgo (.inr rfl) ?_ hr₁ hlt fun u hu => by simp [setThread, hu]
            simp [step, ht]
      · have hf : (s.threads t).frame = some f := by rw [ht]
        have hfree : f.inside = true ∨ lawful.held s.word = false := by
          cases hfin : f.inside with
          | true => exact .inl rfl
          | false =>
              refine .inr (hr.guards.free_of_nobody fun u hu => ?_)
              by_cases he : u = t
              · subst he
                simp [Inside, LockedThread.inside, hf, hfin] at hu
              · exact hout u he hu
        obtain ⟨s₁, b₁, l₁, held₁, hs, hr₁, hlt, hothers⟩ := advance_fuel hr hf hfree
        exact hgo (.inl rfl) hs hr₁ hlt hothers

/-- While no thread has the lock, all of them can finish, one after the other. -/
theorem can_return_all (hr : Represents lawful s b l held) (hout : ∀ u, ¬ s.Inside u) (ts : List T) :
    ∃ s', (machine L T O).Leads LockedAction.Running s s' ∧ (∀ t ∈ ts, s'.threads t = ⟨none, []⟩) ∧
      (∀ u, ¬ s'.Inside u) ∧ ∃ b' l' held', Represents lawful s' b' l' held' := by
  induction ts with
  | nil => exact ⟨s, .refl s, by simp, hout, b, l, held, hr⟩
  | cons t ts ih =>
      obtain ⟨s₁, hleads₁, hdone₁, hout₁, b₁, l₁, held₁, hr₁⟩ := ih
      obtain ⟨s', hleads, hdone, hothers, hrep⟩ := can_return_alone (t := t) hr₁ fun u _ => hout₁ u
      refine ⟨s', hleads₁.trans (hleads.mono fun a ha => ⟨t, ha⟩), fun u hu => ?_, fun u => ?_, hrep⟩
      · by_cases he : u = t
        · subst he; exact hdone
        · rw [hothers u he]
          exact hdone₁ u ((List.mem_cons.mp hu).resolve_left he)
      · by_cases he : u = t
        · subst he; simp [Inside, LockedThread.inside, hdone]
        · rw [Inside, hothers u he]
          exact hout₁ u

/-- The thread that has the lock goes first. -/
theorem can_finish (hr : Represents lawful s b l held) :
    ∃ s', (machine L T O).Leads LockedAction.Running s s' ∧ ∀ t, s'.threads t = ⟨none, []⟩ := by
  suffices hfree : ∃ s₁, (machine L T O).Leads LockedAction.Running s s₁ ∧ (∀ u, ¬ s₁.Inside u) ∧
      ∃ b' l' held', Represents lawful s₁ b' l' held' by
    obtain ⟨s₁, hleads₁, hout, b₁, l₁, held₁, hr₁⟩ := hfree
    obtain ⟨s', hleads, hdone, -⟩ := can_return_all hr₁ hout Finset.univ.toList
    exact ⟨s', hleads₁.trans hleads, fun t => hdone t (by simp)⟩
  by_cases hin : ∃ t, s.Inside t
  · obtain ⟨t, ht⟩ := hin
    obtain ⟨s₁, hleads, hout, hothers, hrep⟩ := can_leave (t := t) hr
    refine ⟨s₁, hleads.mono fun a ha => ⟨t, ha⟩, fun u hu => ?_, hrep⟩
    by_cases he : u = t
    · exact hout (he ▸ hu)
    · rw [Inside, hothers u he] at hu
      exact he (hr.guards.unique u t hu ht)
  · exact ⟨s, .refl s, not_exists.mp hin, b, l, held, hr⟩

end LockedProtocol

end DsaStdexec.Queue

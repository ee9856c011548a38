import DsaStdexec.Submitter.Lemmas.Draining

/-!
# What the device gets and when it is done
-/

namespace DsaStdexec.Submitter

open DsaStdexec.Lib

variable {D : Type*}

/-! ## Batching is transparent -/

/-- The calls of `submit_descriptor` of a `DirectSubmitter`. -/
def DirectSubmitter.submitAll (s : DirectSubmitter D) (ds : List D) : DirectSubmitter D :=
  ds.foldl (fun s d => s.submitDescriptor (.single d)) s

theorem DirectSubmitter.submitAll_portal (s : DirectSubmitter D) (ds : List D) :
    (s.submitAll ds).portal = s.portal ++ ds.map .single := by
  induction ds generalizing s with
  | nil => simp [submitAll]
  | cons d ds ih =>
      have := ih (s.submitDescriptor (.single d))
      simp only [submitAll, List.foldl_cons] at this ⊢
      rw [this]; simp

namespace Port

variable {σ α A R : Type*} {P : Port σ α D A R} {C : σ → α → Prop} {I : σ → Prop}
  {Lent : σ → A → Nat → R → Prop} {w : P.State} {as : List (MarketAction α Nat Answer)}

/-- `submitted` are the descriptors passed to `submit_descriptor` so far. -/
structure Transparent (P : Port σ α D A R) (C : σ → α → Prop) (args : InitArgs) (submitted : List D)
    (w : P.State) : Prop where
  /-- Whenever the device reads, doorbell by doorbell it gets what a `DirectSubmitter` would have rung,
  up to what is staged and what a call has yet to store. -/
  reads : ∀ reads, List.Forall₂ Fetched w.loans reads →
    reads.flatten ++ P.staged w.sys ++ P.pending w.sys = submitted ∧
      ((DirectSubmitter.init args.mode (some args.wq)).submitAll submitted).portal.flatMap
        Doorbell.descs = submitted
  /-- Until a batch is answered its list holds what it held when the doorbell rang. -/
  lists : ∀ l ∈ w.loans, l.returned = false → ∀ b n r, l.item = .batch b n r →
    (List.range n).map (P.entry w.sys b) = (List.range n).map l.value ∧ P.status w.sys r = 0
  /-- Nobody writes to the list, and only the device writes to the record. -/
  untouched : ∀ a w', Lender.OnOwn C w a → P.system.step w a = some w' →
    ∀ j l, w.loans[j]? = some l → l.returned = false → ∀ b n r, l.item = .batch b n r →
      (∀ k, k < n → P.entry w'.sys b k = P.entry w.sys b k) ∧
        (P.status w'.sys r = P.status w.sys r ∨ ∃ x, a = .giveBack j x)

theorem Careful.transparent (h : P.Careful C I Lent) (ho : P.Ordered C I) (args : InitArgs)
    (hc : P.system.Meets (Lender.OnOwn C) P.system.init as) (hr : P.system.run as = some w) :
    P.Transparent C args (P.submitted as) w := by
  have htracked := h.tracks.tracked_of_run hc hr
  have hsame := h.keeps.unchanged_of_run hc hr
  have hmatched := h.matched_of_run hc hr
  refine ⟨fun reads hf => ⟨?_, ?_⟩, ?_, ?_⟩
  · have hsent := ho.sent_of_run h.toLawful hc hr
    rw [flatten_eq_of_fetched hsame.seen hf, hmatched, ← List.flatMap_def]
    exact hsent
  · rw [DirectSubmitter.submitAll_portal]
    simp [DirectSubmitter.init, List.flatMap_map, Doorbell.descs]
  · intro l hl hret b n r hitem
    have hlent := htracked.lent l hl hret
    rw [hitem] at hlent
    refine ⟨List.map_congr_left fun k hk => ?_, h.clear hlent⟩
    have hval := hsame.value l hl hret k
    rw [hitem] at hval
    exact hval (by simpa [lender] using hk)
  · intro a w' hca hst j l hl hret b n r hitem
    have hlent := htracked.lent l (List.mem_of_getElem? hl) hret
    rcases htracked.untouched h.keeps hca hst hl hret with ⟨x, rfl⟩ | ⟨hlent', hlook⟩
    · refine ⟨fun k _ => ?_, Or.inr ⟨x, rfl⟩⟩
      obtain ⟨l', hl', hst⟩ := Option.bind_eq_some_iff.mp hst
      rw [hl] at hl'
      cases hl'
      rw [if_neg (by simp [hret])] at hst
      cases hst
      simp only [lender, hitem]
      exact h.setStatus_entry
    · rw [hitem] at hlent hlent' hlook
      refine ⟨fun k hk => hlook k (by simpa [lender] using hk), Or.inl ?_⟩
      rw [h.clear hlent', h.clear hlent]

end Port

/-- For `StagingSubmitter`, `FixedRingSubmitter` and, as long as `poll_fn_` does not call it again,
`RingSubmitter` the device gets the descriptors in the order of the calls. -/
theorem batching_transparent [Inhabited D] (args : InitArgs) :
    (∀ as w, (StagingSystem.port args : Port _ _ D _ _).system.run as = some w →
      (StagingSystem.port args).Transparent (fun _ _ => True) args
        ((StagingSystem.port args).submitted as) w) ∧
    (∀ as w, (FixedSystem.port args : Port _ _ D _ _).system.run as = some w →
      (FixedSystem.port args).Transparent (fun _ _ => True) args
        ((FixedSystem.port args).submitted as) w) ∧
    ∀ as w, (RingSystem.port .ring args : Port _ _ D _ _).system.Meets
        (Lender.OnOwn RingSystem.NoReentry) (RingSystem.port .ring args).system.init as →
      (RingSystem.port .ring args : Port _ _ D _ _).system.run as = some w →
      (RingSystem.port .ring args).Transparent RingSystem.NoReentry args
        ((RingSystem.port .ring args).submitted as) w := by
  refine ⟨fun as w hr => ?_, fun as w hr => ?_, fun as w hc hr => ?_⟩
  · exact (StagingSystem.careful args).transparent (StagingSystem.ordered args) args
      (Lender.meets_onOwn_true _ _) hr
  · exact (FixedSystem.careful args).transparent (FixedSystem.ordered args) args
      (Lender.meets_onOwn_true _ _) hr
  · exact (RingSystem.careful args).transparent (RingSystem.ordered args) args hc hr

theorem narrow_size_lt : (1 : Int) < 2 ^ 31 := by decide

/-- Batches of two on a WQ of depth one. -/
def narrowArgs : InitArgs where
  batchSize := 2
  mode := .dedicated
  wq := ⟨1, 6, narrow_size_lt, by decide⟩
  accepted := Or.inl (by decide)

def answered : Answer := ⟨1, by decide⟩

/-- A batch that the device reads while the next descriptor is staged, and then a single descriptor. -/
def overlappingRun : List (MarketAction (StagingAction Nat) Nat Answer) :=
  [.own (.submit 5), .own (.submit 6), .own .advance, .look 0 1, .own (.submit 7), .look 0 0,
    .giveBack 0 answered, .own .flush, .own .advance]

/-- Two batches are with the device at once; the second one is read and answered first. -/
def overtakingRun : List (MarketAction (FixedAction Nat) Nat Answer) :=
  ([5, 6, 7, 8].flatMap fun d => [.own (.submit d), .own .advance]) ++
    [.look 1 1, .look 0 1, .look 1 0, .giveBack 1 answered, .own (.submit 9), .own .advance, .look 0 0]

/-- The same for a ring, with a single descriptor in between. -/
def interleavedRun : List (MarketAction (RingAction Nat) Nat Answer) :=
  ([5, 6, 7].flatMap RingSystem.call).map .own ++ [.own .prePoll] ++
    ([8, 9].flatMap RingSystem.call).map .own ++ [.look 2 1, .look 0 1, .look 2 0, .giveBack 2 answered] ++
    (RingSystem.call 10).map .own ++ [.look 0 0]

theorem Port.exists_fetched {σ α A R : Type*} (P : Port σ α Nat A R) (as : List (MarketAction α Nat Answer))
    (read : List (List Nat))
    (h : (P.system.run as).any (fun w => decide (List.Forall₂ Fetched w.loans read)) = true) :
    ∃ w, P.system.run as = some w ∧ List.Forall₂ Fetched w.loans read := by
  obtain ⟨w, hw, hf⟩ := (Option.any_eq_true _ _).mp h
  exact ⟨w, hw, of_decide_eq_true hf⟩

theorem batching_transparent_overlapping :
    (∃ w, (StagingSystem.port narrowArgs).system.run overlappingRun = some w ∧
      List.Forall₂ Fetched w.loans [[5, 6], [7]] ∧
      [[5, 6], [7]].flatten ++ (StagingSystem.port narrowArgs).staged w.sys ++
        (StagingSystem.port narrowArgs).pending w.sys =
          (StagingSystem.port narrowArgs).submitted overlappingRun) ∧
    (∃ w, (FixedSystem.port narrowArgs).system.run overtakingRun = some w ∧
      List.Forall₂ Fetched w.loans [[5, 6], [7, 8]] ∧
      [[5, 6], [7, 8]].flatten ++ (FixedSystem.port narrowArgs).staged w.sys ++
        (FixedSystem.port narrowArgs).pending w.sys =
          (FixedSystem.port narrowArgs).submitted overtakingRun) ∧
    ∃ w, (RingSystem.port .ring narrowArgs).system.run interleavedRun = some w ∧
      List.Forall₂ Fetched w.loans [[5, 6], [7], [8, 9]] ∧
      [[5, 6], [7], [8, 9]].flatten ++ (RingSystem.port .ring narrowArgs).staged w.sys ++
        (RingSystem.port .ring narrowArgs).pending w.sys =
          (RingSystem.port .ring narrowArgs).submitted interleavedRun := by
  obtain ⟨hstaging, hfixed, hring⟩ := batching_transparent (D := Nat) narrowArgs
  obtain ⟨w₁, hw₁, hf₁⟩ := Port.exists_fetched (StagingSystem.port narrowArgs) overlappingRun [[5, 6], [7]]
    (by decide +kernel)
  obtain ⟨w₂, hw₂, hf₂⟩ := Port.exists_fetched (FixedSystem.port narrowArgs) overtakingRun [[5, 6], [7, 8]]
    (by decide +kernel)
  obtain ⟨w₃, hw₃, hf₃⟩ := Port.exists_fetched (RingSystem.port .ring narrowArgs) interleavedRun
    [[5, 6], [7], [8, 9]] (by decide +kernel)
  exact ⟨⟨w₁, hw₁, hf₁, ((hstaging _ w₁ hw₁).reads _ hf₁).1⟩, ⟨w₂, hw₂, hf₂, ((hfixed _ w₂ hw₂).reads _ hf₂).1⟩,
    w₃, hw₃, hf₃, ((hring _ w₃ (by decide +kernel) hw₃).reads _ hf₃).1⟩

/-! ## `drain` -/

/-- Nothing that `drain` will not wait for: the device has answered the single descriptors, and the batch
that is being filled is not going to be one. -/
structure Port.Awaitable {σ α A R : Type*} (P : Port σ α D A R) (w : P.State) : Prop where
  singles : P.NoSingles w
  staged : (P.staged w.sys).length ≠ 1

/-- When `drain` returns, nothing is staged and no doorbell is outstanding, if it was called in a state
from which this can be reached by waiting for batches alone. The `drain` of a `StagingSubmitter` does not
wait for the batch that it rings or finds in flight. -/
theorem drain_settles [Inhabited D] (args : InitArgs) :
    (∀ as w, (StagingSystem.port args : Port _ _ D _ _).system.run as = some w →
      w.sys.flushing = false → (StagingSystem.port args).Drained w →
      ∀ ws w', Port.Waits .advance ws →
        (StagingSystem.port args).system.runFrom w (.own .drain :: ws) = some w' →
        w'.sys.flushing = false → (StagingSystem.port args).Drained w') ∧
    (∀ as w, (FixedSystem.port args : Port _ _ D _ _).system.run as = some w →
      (FixedSystem.port args).Awaitable w →
      ∀ ws w', Port.Waits .advance ws →
        (FixedSystem.port args).system.runFrom w (.own .drain :: ws) = some w' →
        w'.sys.call = none → (FixedSystem.port args).Drained w') ∧
    ∀ k as w, (RingSystem.port k args : Port _ _ D _ _).system.run as = some w →
      (RingSystem.port k args).Awaitable w →
      ∀ ws w', Port.Waits .advance ws →
        (RingSystem.port k args).system.runFrom w (.own .drain :: ws) = some w' →
        w'.sys.stack = [] → (RingSystem.port k args).Drained w' := by
  refine ⟨fun as w _ hf hd ws w' hws hr _ => ?_, fun as w hrun ha ws w' hws hr hret => ?_,
    fun k as w hrun ha ws w' hws hr hret => ?_⟩
  · exact StagingSystem.drained_of_drain hd hf hws hr
  · obtain ⟨w1, hst, hrest⟩ := Machine.runFrom_cons hr
    have htracked := (FixedSystem.careful args).tracks.tracked_of_run (Lender.meets_onOwn_true _ _) hrun
    refine FixedSystem.Settling.drained (Machine.runFrom_invariant
      (C := fun _ a => ∀ b, a.own? = some b → b = .advance) ?_
      (FixedSystem.settling_of_drain htracked ha.singles ha.staged hst)
      (Machine.meets_of_forall hws) hrest) hret
    exact fun _ _ _ hs ha hst => hs.effect ha (Port.system_effect hst)
  · obtain ⟨w1, hst, hrest⟩ := Machine.runFrom_cons hr
    have htracked := (RingSystem.lawful k args).tracks.tracked_of_run (Lender.meets_onOwn_true _ _) hrun
    refine RingSystem.Settling.drained (Machine.runFrom_invariant
      (C := fun _ a => ∀ b, a.own? = some b → b = .advance) ?_
      (RingSystem.settling_of_drain htracked ha.singles ha.staged hst)
      (Machine.meets_of_forall hws) hrest) hret
    exact fun _ _ _ hs ha hst => hs.effect ha (Port.system_effect hst)

/-- A batch of two is rung and answered while `drain` waits for it. -/
def batchedRun : List (MarketAction (FixedAction Nat) Nat Answer) :=
  [.own (.submit 5), .own .advance, .own (.submit 6), .own .advance]

def answeredWait : List (MarketAction (FixedAction Nat) Nat Answer) :=
  .giveBack 0 answered :: List.replicate 18 (.own .advance)

theorem drain_settles_batch : ∃ w w',
    (FixedSystem.port narrowArgs).system.run batchedRun = some w ∧
      (FixedSystem.port narrowArgs).system.runFrom w (.own .drain :: answeredWait) = some w' ∧
      (FixedSystem.port narrowArgs).Drained w' := by
  have h : ((FixedSystem.port narrowArgs).system.run batchedRun).map (fun w =>
      (w.loans.map Loan.item, ((FixedSystem.port narrowArgs).staged w.sys).length,
        ((FixedSystem.port narrowArgs).system.runFrom w (.own .drain :: answeredWait)).map fun w' =>
          w'.sys.call.isNone)) = some ([.batch 0 2 0], 0, some true) := by decide +kernel
  obtain ⟨w, hw, he⟩ := Option.map_eq_some_iff.mp h
  simp only [Prod.mk.injEq] at he
  obtain ⟨hitems, hstaged, hrest⟩ := he
  obtain ⟨w', hw', hnone⟩ := Option.map_eq_some_iff.mp hrest
  refine ⟨w, w', hw, hw', (drain_settles narrowArgs).2.1 batchedRun w hw ⟨?_, by omega⟩ answeredWait
    w' ?_ hw' (Option.isNone_iff_eq_none.mp hnone)⟩
  · intro l hl _ d hd
    have hmem := List.mem_map_of_mem (f := Loan.item) hl
    rw [hitems, hd] at hmem
    cases List.mem_singleton.mp hmem
  · intro a ha b hb
    rcases List.mem_cons.mp ha with rfl | ha
    · cases hb
    · cases (List.mem_replicate.mp ha).2
      cases hb
      rfl

theorem Port.not_drained {σ α A R : Type*} {P : Port σ α D A R} {w : P.State}
    (h : false ∈ w.loans.map Loan.returned) : ¬ P.Drained w := by
  intro hd
  obtain ⟨l, hl, hr⟩ := List.mem_map.mp h
  rw [hd.answered l hl] at hr
  cases hr

/-- `drain` of a `StagingSubmitter` returns at once although a batch is in flight; the other three do not
wait for the single descriptor that they seal. -/
theorem drain_leaves_doorbells :
    (∃ w, (StagingSystem.port narrowArgs).system.run
        [.own (.submit 5), .own (.submit 6), .own .advance, .own .drain] = some w ∧
      w.sys.flushing = false ∧ ¬ (StagingSystem.port narrowArgs).Drained w) ∧
    (∃ w, (FixedSystem.port narrowArgs).system.run
        ([.own (.submit 5), .own .advance, .own .drain] ++ List.replicate 17 (.own .advance)) = some w ∧
      w.sys.call = none ∧ ¬ (FixedSystem.port narrowArgs).Drained w) ∧
    ∀ k, ∃ w, (RingSystem.port k narrowArgs).system.run
        ([.own (.submit 5), .own .advance, .own .advance, .own .drain] ++
          List.replicate 18 (.own .advance)) = some w ∧
      w.sys.stack = [] ∧ ¬ (RingSystem.port k narrowArgs).Drained w := by
  refine ⟨?_, ?_, fun k => ?_⟩
  · have h : ((StagingSystem.port narrowArgs).system.run
        [.own (.submit 5), .own (.submit 6), .own .advance, .own .drain]).map (fun w =>
        (w.sys.flushing, w.loans.map Loan.returned)) = some (false, [false]) := by decide +kernel
    obtain ⟨w, hw, he⟩ := Option.map_eq_some_iff.mp h
    obtain ⟨hret, hout⟩ := Prod.mk.inj he
    exact ⟨w, hw, hret, Port.not_drained (by rw [hout]; simp)⟩
  · have h : ((FixedSystem.port narrowArgs).system.run
        ([.own (.submit 5), .own .advance, .own .drain] ++
          List.replicate 17 (.own .advance))).map (fun w =>
        (w.sys.call.isNone, w.loans.map Loan.returned)) = some (true, [false]) := by decide +kernel
    obtain ⟨w, hw, he⟩ := Option.map_eq_some_iff.mp h
    obtain ⟨hret, hout⟩ := Prod.mk.inj he
    exact ⟨w, hw, Option.isNone_iff_eq_none.mp hret, Port.not_drained (by rw [hout]; simp)⟩
  · have h : ((RingSystem.port k narrowArgs).system.run
        ([.own (.submit 5), .own .advance, .own .advance, .own .drain] ++
          List.replicate 18 (.own .advance))).map (fun w =>
        (w.sys.stack.isEmpty, w.loans.map Loan.returned)) = some (true, [false]) := by
      cases k <;> decide +kernel
    obtain ⟨w, hw, he⟩ := Option.map_eq_some_iff.mp h
    obtain ⟨hret, hout⟩ := Prod.mk.inj he
    exact ⟨w, hw, List.isEmpty_iff.mp hret, Port.not_drained (by rw [hout]; simp)⟩

end DsaStdexec.Submitter

import DsaStdexec.Engine.Lemmas.DirectEngine
import Mathlib.Data.List.Perm.Subperm

/-!
# What `inflight()` counts

`inflight()` goes up by one for a descriptor that enters and down by the number of notifications when
`poll` returns.
-/

namespace DsaStdexec.Engine

open DsaStdexec.Lib DsaStdexec.Submitter

/-- The operations that an unfinished `poll` has taken out of the queue. -/
def Frame.held : Frame → List Op
  | .polling todo current notified => todo ++ (current.toList ++ notified)
  | _ => []

theorem Frame.counted_eq_held {f : Frame} (h : f.handed = []) : f.counted = f.held := by
  cases f with
  | submitting op => rfl
  | pushing op => cases h
  | polling todo current notified => rfl

namespace DirectEngine

variable {Q : TaskQueue Op} {wq : Wq} {s s' : DirectEngine Q} {a : Action}

def held (s : DirectEngine Q) : Nat := (s.stack.flatMap Frame.held).length

/-- The number of doorbells that `inflight()` should count. -/
def owed (s : DirectEngine Q) : Nat := s.counted.countP Op.hasDescriptor

/-- A `poll` that returns has notified descriptors only, or the counter saturates before it falls
below the descriptors that are left. -/
def Matched (s : DirectEngine Q) (a : Action) : Prop :=
  ∀ notified rest, a = .advance → s.stack = .polling [] none notified :: rest →
    (∀ o ∈ notified, o.hasDescriptor = true) ∨
      s.submitter.inflight ≤ notified.countP Op.hasDescriptor

/-- What a step does to the counter and to what it should count. -/
inductive Tally (s : DirectEngine Q) : Action → DirectEngine Q → Prop where
  | T_Same {b : Action} {s' : DirectEngine Q} (hp : s'.counted.Perm s.counted)
      (hs : s'.submitter = s.submitter) : Tally s b s'
  | T_Schedule {op : Op} {s' : DirectEngine Q} (hd : op.hasDescriptor = false)
      (hp : s'.counted.Perm (op :: s.counted)) (hs : s'.submitter = s.submitter) :
      Tally s (.submit op) s'
  | T_Enter {op : Op} {s' : DirectEngine Q} (hop : .submitting op ∈ s.stack)
      (hg : s.gateClosed = false) (hp : s'.counted.Perm (op :: s.counted))
      (hs : s'.submitter = s.submitter.submitDescriptor (.single op)) : Tally s .advance s'
  | T_Return {notified : List Op} {rest : List Frame} {s' : DirectEngine Q}
      (hst : s.stack = .polling [] none notified :: rest)
      (hp : s.counted.Perm (notified ++ s'.counted))
      (hs : s'.submitter = s.submitter.notifyComplete notified.length) : Tally s .advance s'

theorem Effect.tally (he : Effect s a s') : Tally s a s' := by
  cases he with
  | E_Submit _ _ _ => exact .T_Same (.refl _) rfl
  | E_Schedule hd _ _ => exact .T_Schedule hd List.perm_middle rfl
  | E_Poll _ => exact .T_Same s.counted_startPoll rfl
  | E_Spin _ _ => exact .T_Same s.counted_startPoll rfl
  | E_Enter hst hg =>
      refine .T_Enter (hst ▸ List.mem_cons_self) hg ?_ rfl
      rw [counted, counted, hst]
      exact List.perm_middle
  | E_Push hst hq =>
      refine .T_Same ?_ rfl
      rw [counted, counted, hst]
      exact ((Q.push_perm hq).append_right _).trans List.perm_middle.symm
  | E_Notify hst =>
      refine .T_Same ?_ rfl
      rw [counted, counted, hst]
      refine (List.Perm.append_right _ ?_).append_left _
      exact List.perm_middle
  | E_CallbackReturn hst =>
      refine .T_Same ?_ rfl
      rw [counted, counted, hst]
      refine (List.Perm.append_right _ (List.Perm.append_left _ ?_)).append_left _
      exact List.perm_append_singleton _ _
  | E_PollReturn hst =>
      refine .T_Return hst ?_ rfl
      rw [counted, counted, hst]
      exact List.perm_append_comm_assoc _ _ _
  | E_Complete _ _ => exact .T_Same (.refl _) rfl

/-! ## A balanced engine -/

/-- The counter is right and the work queue is not over-full. -/
structure Balanced (wq : Wq) (s : DirectEngine Q) : Prop where
  top : TopOnly s
  nodup : s.live.Nodup
  served : Served s
  capacity : s.submitter.wqCapacity = wq.size.toNat
  inflight : s.submitter.inflight = s.owed
  inflight_le : s.submitter.inflight ≤ wq.size.toNat

theorem balanced_init (hsize : 0 < wq.size) : Balanced wq (machine Q wq).init := by
  have hlive : (machine Q wq).init.live = [] := by simp [machine, init, live, Q.contents_empty]
  have hhanded : (machine Q wq).init.handed = [] := by simp [machine, init, handed, Q.contents_empty]
  refine ⟨fun _ h => ?_, hlive ▸ List.nodup_nil, ⟨List.nodup_nil, fun _ h => ?_, fun _ h => ?_,
    fun o h => ?_⟩, ?_, ?_, Nat.zero_le _⟩
  · cases h
  · cases h
  · cases h
  · rw [hhanded] at h; cases h
  · simp [machine, init, DirectSubmitter.init, DirectSubmitter.wqCapacity, hsize]
  · simp [machine, init, DirectSubmitter.init, owed, counted, Q.contents_empty]

theorem gate_open (hcap : s.submitter.wqCapacity = wq.size.toNat) (hsize : 0 < wq.size)
    (hg : s.gateClosed = false) : s.submitter.inflight < wq.size.toNat := by
  simp only [gateClosed, hcap, Bool.and_eq_false_iff, decide_eq_false_iff_not] at hg
  omega

theorem Balanced.inflight_effect (h : Balanced wq s) (ht : Tally s a s') (hm : Matched s a) :
    s'.submitter.inflight = s'.owed := by
  have hi := h.inflight
  cases ht with
  | T_Same hp hs => rw [hs, hi, owed, owed, hp.countP_eq]
  | T_Schedule hd hp hs => rw [hs, hi, owed, owed, hp.countP_eq, List.countP_cons_of_neg (by simp [hd])]
  | T_Enter hop _ hp hs =>
      have hd := (h.served.waiting _ hop).1
      rw [hs, DirectSubmitter.submitDescriptor_inflight, hi, owed, owed, hp.countP_eq,
        List.countP_cons_of_pos hd]
  | @T_Return notified rest _ hst hp hs =>
      have hsplit : s.owed = notified.countP Op.hasDescriptor + s'.owed := by
        rw [owed, hp.countP_eq, List.countP_append]; rfl
      have hle := List.countP_le_length (p := Op.hasDescriptor) (l := notified)
      rw [hs, DirectSubmitter.notifyComplete_inflight]
      rcases hm notified rest rfl hst with hall | hsat
      · have := List.countP_eq_length.mpr hall
        omega
      · omega

theorem Balanced.step (hsize : 0 < wq.size) (h : Balanced wq s) (hm : Matched s a)
    (hs : (machine Q wq).step s a = some s') : Balanced wq s' := by
  have he := step_effect hs
  have ht := he.tally
  have hcap : s'.submitter.wqCapacity = wq.size.toNat ∧ s'.submitter.inflight ≤ wq.size.toNat := by
    have hc := h.capacity
    have hle := h.inflight_le
    cases ht with
    | T_Same _ hs => rw [hs]; exact ⟨hc, hle⟩
    | T_Schedule _ _ hs => rw [hs]; exact ⟨hc, hle⟩
    | T_Enter _ hg _ hs => rw [hs]; exact ⟨hc, gate_open hc hsize hg⟩
    | T_Return _ _ hs =>
        rw [hs, DirectSubmitter.notifyComplete_inflight]
        exact ⟨hc, Nat.le_trans (Nat.sub_le _ _) hle⟩
  exact ⟨h.top.effect he, live_nodup_effect h.nodup he, h.served.effect h.nodup he, hcap.1,
    h.inflight_effect ht hm, hcap.2⟩

theorem Balanced.hw_le (h : Balanced wq s) : s.hw.length ≤ s.submitter.inflight := by
  rw [h.inflight, owed, List.countP_eq_length_filter]
  refine (h.served.hw_nodup.subperm fun o ho => ?_).length_le
  obtain ⟨hd, _, hmem⟩ := h.served.hw o ho
  exact List.mem_filter.mpr ⟨s.handed_subset_counted hmem, hd⟩

/-! ## Descriptors only -/

def DescriptorsOnly (a : Action) : Prop := ∀ op, a = .submit op → op.hasDescriptor = true

def AllDescriptors (s : DirectEngine Q) : Prop := ∀ o ∈ s.counted, o.hasDescriptor = true

theorem AllDescriptors.tally (h : AllDescriptors s) (hw : Served s) (ht : Tally s a s')
    (ha : DescriptorsOnly a) : AllDescriptors s' := by
  intro o ho
  cases ht with
  | T_Same hp _ => exact h o (hp.mem_iff.mp ho)
  | T_Schedule hd _ _ => rw [ha _ rfl] at hd; cases hd
  | T_Enter hop _ hp _ =>
      rcases List.mem_cons.mp (hp.mem_iff.mp ho) with rfl | ho
      · exact (hw.waiting o hop).1
      · exact h o ho
  | T_Return _ hp _ => exact h o (hp.mem_iff.mpr (List.mem_append_right _ ho))

theorem AllDescriptors.matched (h : AllDescriptors s) : Matched s a := by
  intro notified rest _ hst
  refine .inl fun o ho => h o ?_
  rw [counted, hst]
  exact List.mem_append_right _ (List.mem_append_left _ ho)

theorem allDescriptors_init : AllDescriptors (machine Q wq).init := by
  simp [AllDescriptors, machine, init, counted, Q.contents_empty]

theorem balanced_descriptors_step (hsize : 0 < wq.size) (h : Balanced wq s ∧ AllDescriptors s)
    (ha : DescriptorsOnly a) (hs : (machine Q wq).step s a = some s') :
    Balanced wq s' ∧ AllDescriptors s' :=
  ⟨h.1.step hsize h.2.matched hs, h.2.tally h.1.served (step_effect hs).tally ha⟩

theorem balanced_of_descriptors (hsize : 0 < wq.size) {as : List Action}
    (hd : ∀ a ∈ as, DescriptorsOnly a) (h : (machine Q wq).run as = some s) :
    Balanced wq s ∧ AllDescriptors s :=
  Machine.runFrom_invariant (fun _ _ _ hi ha hs => balanced_descriptors_step hsize hi ha hs)
    ⟨balanced_init hsize, allDescriptors_init⟩ (Machine.meets_of_forall hd) h

theorem matched_of_descriptors (hsize : 0 < wq.size) {as : List Action}
    (hd : ∀ a ∈ as, DescriptorsOnly a) : (machine Q wq).Meets Matched (init wq) as :=
  (Machine.meets_of_forall hd).of_invariant
    (fun _ _ _ hi ha hs => balanced_descriptors_step hsize hi ha hs) (fun _ _ hi _ => hi.2.matched)
    ⟨balanced_init hsize, allDescriptors_init⟩

theorem counted_length_of_submitting {op : Op} {rest : List Frame} (h : TopOnly s)
    (hst : s.stack = .submitting op :: rest) :
    s.counted.length = (Q.contents s.queue).length + s.held := by
  have hrest : rest.flatMap Frame.counted = rest.flatMap Frame.held :=
    List.flatMap_congr fun f hf => Frame.counted_eq_held (h.of_cons hst f hf)
  rw [counted, held, List.length_append, hst, List.flatMap_cons, List.flatMap_cons, hrest]
  rfl

/-! ## A loop that nothing can end -/

/-- `submit(op, desc)` waits for a queue and a device that have nothing to do. -/
structure Stuck (op : Op) (rest : List Frame) (s : DirectEngine Q) : Prop where
  stack : s.stack = .submitting op :: rest ∨ s.stack = .polling [] none [] :: .submitting op :: rest
  contents : Q.contents s.queue = []
  hw : s.hw = []
  gate : s.gateClosed = true

theorem Stuck.startPoll {op : Op} {rest : List Frame} (h : Stuck op rest s)
    (hst : s.stack = .submitting op :: rest) : Stuck op rest s.startPoll := by
  have hdone := Q.done_perm s.completed s.queue
  have hkept := Q.kept_perm s.completed s.queue
  rw [h.contents] at hdone hkept
  refine ⟨.inr ?_, hkept.eq_nil, h.hw, h.gate⟩
  simp only [DirectEngine.startPoll, hdone.eq_nil, hst]

theorem Stuck.effect {op : Op} {rest : List Frame} (h : Stuck op rest s) (he : Effect s a s') :
    Stuck op rest s' := by
  have hcall : s.callable = false := by
    rcases h.stack with hst | hst <;> simp [callable, hst]
  rcases h.stack with hst | hst
  · cases he with
    | E_Submit _ hc _ => rw [hcall] at hc; cases hc
    | E_Schedule _ hc _ => rw [hcall] at hc; cases hc
    | E_Poll hc => rw [hcall] at hc; cases hc
    | E_Spin _ _ => exact h.startPoll hst
    | E_Enter _ hg => rw [h.gate] at hg; cases hg
    | E_Push hst' _ => rw [hst] at hst'; cases hst'
    | E_Notify hst' => rw [hst] at hst'; cases hst'
    | E_CallbackReturn hst' => rw [hst] at hst'; cases hst'
    | E_PollReturn hst' => rw [hst] at hst'; cases hst'
    | E_Complete ho _ => rw [h.hw] at ho; cases ho
  · cases he with
    | E_Submit _ hc _ => rw [hcall] at hc; cases hc
    | E_Schedule _ hc _ => rw [hcall] at hc; cases hc
    | E_Poll hc => rw [hcall] at hc; cases hc
    | E_Spin hst' _ => rw [hst] at hst'; cases hst'
    | E_Enter hst' _ => rw [hst] at hst'; cases hst'
    | E_Push hst' _ => rw [hst] at hst'; cases hst'
    | E_Notify hst' => rw [hst] at hst'; cases hst'
    | E_CallbackReturn hst' => rw [hst] at hst'; cases hst'
    | E_PollReturn hst' =>
        rw [hst] at hst'; cases hst'
        -- the loop body has notified nobody, so the counter stays
        refine ⟨.inl rfl, h.contents, h.hw, ?_⟩
        simp only [gateClosed, List.length_nil, DirectSubmitter.notifyComplete_zero]
        exact h.gate
    | E_Complete ho _ => rw [h.hw] at ho; cases ho

theorem Stuck.run {op : Op} {rest : List Frame} (h : Stuck op rest s) {as : List Action}
    {t : DirectEngine Q} (hr : (machine Q wq).runFrom s as = some t) : Stuck op rest t :=
  Machine.runFrom_invariant (C := fun _ _ => True) (fun _ _ _ hi _ hs => hi.effect (step_effect hs)) h
    (Machine.meets_of_forall (C := fun _ => True) fun _ _ => True.intro) hr

end DirectEngine

end DsaStdexec.Engine

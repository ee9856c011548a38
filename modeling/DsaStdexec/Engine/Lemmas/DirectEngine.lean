import DsaStdexec.Engine.DirectEngine

/-!
# The steps of the engine, its operations and the device
-/

namespace DsaStdexec.Engine

open DsaStdexec.Lib DsaStdexec.Submitter

/-- The operations of a call whose doorbells have not been taken off `inflight()`. -/
def Frame.counted : Frame → List Op
  | .submitting _ => []
  | .pushing op => [op]
  | .polling todo current notified => todo ++ (current.toList ++ notified)

/-- The operation that a call has handed to the device and not yet to the queue. -/
def Frame.handed : Frame → List Op
  | .pushing op => [op]
  | _ => []

theorem Frame.handed_subset_live (f : Frame) : f.handed ⊆ f.live := by
  cases f <;> simp [handed, live]

theorem Frame.handed_subset_counted (f : Frame) : f.handed ⊆ f.counted := by
  cases f <;> simp [handed, counted]

namespace DirectEngine

variable {Q : TaskQueue Op} {s s' : DirectEngine Q} {a : Action}

def counted (s : DirectEngine Q) : List Op := Q.contents s.queue ++ s.stack.flatMap Frame.counted

def handed (s : DirectEngine Q) : List Op := Q.contents s.queue ++ s.stack.flatMap Frame.handed

theorem flatMap_subset {f g : Frame → List Op} (h : ∀ c, f c ⊆ g c) (l : List Frame) :
    l.flatMap f ⊆ l.flatMap g := by
  intro o ho
  obtain ⟨c, hc, ho⟩ := List.mem_flatMap.mp ho
  exact List.mem_flatMap.mpr ⟨c, hc, h c ho⟩

theorem handed_subset_live (s : DirectEngine Q) : s.handed ⊆ s.live :=
  List.append_subset.mpr ⟨List.subset_append_left _ _,
    List.Subset.trans (flatMap_subset Frame.handed_subset_live _) (List.subset_append_right _ _)⟩

theorem handed_subset_counted (s : DirectEngine Q) : s.handed ⊆ s.counted :=
  List.append_subset.mpr ⟨List.subset_append_left _ _,
    List.Subset.trans (flatMap_subset Frame.handed_subset_counted _) (List.subset_append_right _ _)⟩

theorem mem_live_of_submitting {op : Op} (h : Frame.submitting op ∈ s.stack) : op ∈ s.live :=
  List.mem_append_right _ (List.mem_flatMap.mpr ⟨_, h, List.mem_singleton_self op⟩)

/-! ## Steps -/

inductive Effect (s : DirectEngine Q) : Action → DirectEngine Q → Prop where
  | E_Submit {op} (hd : op.hasDescriptor = true) (hc : s.callable = true) (hl : op ∉ s.live) :
      Effect s (.submit op)
        { s with status := Function.update s.status op 0, stack := .submitting op :: s.stack }
  | E_Schedule {op} (hd : op.hasDescriptor = false) (hc : s.callable = true) (hl : op ∉ s.live) :
      Effect s (.submit op)
        { s with status := Function.update s.status op 1, stack := .pushing op :: s.stack }
  | E_Poll (hc : s.callable = true) : Effect s .poll s.startPoll
  | E_Spin {op rest} (hst : s.stack = .submitting op :: rest) (hg : s.gateClosed = true) :
      Effect s .advance s.startPoll
  | E_Enter {op rest} (hst : s.stack = .submitting op :: rest) (hg : s.gateClosed = false) :
      Effect s .advance
        { s with
          submitter := s.submitter.submitDescriptor (.single op)
          hw := op :: s.hw
          stack := .pushing op :: rest }
  | E_Push {op rest q} (hst : s.stack = .pushing op :: rest) (hq : Q.push s.queue op = some q) :
      Effect s .advance { s with queue := q, stack := rest }
  | E_Notify {op todo notified rest} (hst : s.stack = .polling (op :: todo) none notified :: rest) :
      Effect s .advance { s with stack := .polling todo (some op) notified :: rest }
  | E_CallbackReturn {op todo notified rest}
      (hst : s.stack = .polling todo (some op) notified :: rest) :
      Effect s .callbackReturn { s with stack := .polling todo none (notified ++ [op]) :: rest }
  | E_PollReturn {notified rest} (hst : s.stack = .polling [] none notified :: rest) :
      Effect s .advance
        { s with submitter := s.submitter.notifyComplete notified.length, stack := rest }
  | E_Complete {op status} (ho : op ∈ s.hw) (hs : status ≠ 0) :
      Effect s (.complete op status)
        { s with hw := s.hw.erase op, status := Function.update s.status op status }

theorem step_effect (h : step s a = some s') : Effect s a s' := by
  cases a with
  | submit op =>
      simp only [step] at h
      split at h <;> cases h
      rename_i hc
      cases hd : op.hasDescriptor with
      | true => simpa [submit, hd] using Effect.E_Submit hd hc.1 hc.2
      | false => simpa [submit, hd] using Effect.E_Schedule hd hc.1 hc.2
  | poll =>
      simp only [step] at h
      split at h <;> cases h
      rename_i hc
      exact .E_Poll hc
  | advance =>
      simp only [step, advance] at h
      split at h
      · rename_i op rest hst
        split at h <;> cases h
        · rename_i hg; exact .E_Spin hst hg
        · rename_i hg; exact .E_Enter hst (Bool.eq_false_iff.mpr hg)
      · rename_i op rest hst
        obtain ⟨q, hq, rfl⟩ := Option.map_eq_some_iff.mp h
        exact .E_Push hst hq
      · rename_i hst; cases h; exact .E_PollReturn hst
      · rename_i hst; cases h; exact .E_Notify hst
      · cases h
  | callbackReturn =>
      simp only [step, callbackReturn] at h
      split at h
      · rename_i hst; cases h; exact .E_CallbackReturn hst
      · cases h
  | complete op status =>
      simp only [step] at h
      split at h <;> cases h
      rename_i hc
      exact .E_Complete hc.1 hc.2

/-! ## The sweep -/

theorem contents_sweep (s : DirectEngine Q) :
    (Q.contents (Q.sweep s.completed s.queue).2 ++ (Q.sweep s.completed s.queue).1).Perm
      (Q.contents s.queue) :=
  ((Q.kept_perm _ _).append (Q.done_perm _ _)).trans
    (List.perm_append_comm.trans (List.filter_append_perm _ _))

theorem live_startPoll (s : DirectEngine Q) : s.startPoll.live.Perm s.live := by
  have h := (contents_sweep s).append_right (s.stack.flatMap Frame.live)
  rwa [List.append_assoc] at h

theorem counted_startPoll (s : DirectEngine Q) : s.startPoll.counted.Perm s.counted := by
  have h := (contents_sweep s).append_right (s.stack.flatMap Frame.counted)
  simpa [counted, startPoll, Frame.counted] using h

/-- The operations that stay in the queue are those that have not been answered. -/
theorem mem_handed_startPoll {o : Op} (s : DirectEngine Q) :
    o ∈ s.startPoll.handed ↔
      o ∈ Q.contents s.queue ∧ s.status o = 0 ∨ o ∈ s.stack.flatMap Frame.handed := by
  simp [handed, startPoll, Frame.handed, (Q.kept_perm _ _).mem_iff, completed]

/-! ## Only the innermost call can be about to push -/

def TopOnly (s : DirectEngine Q) : Prop := ∀ f ∈ s.stack.tail, f.handed = []

theorem TopOnly.of_cons {f : Frame} {rest : List Frame} (h : TopOnly s) (hst : s.stack = f :: rest) :
    ∀ g ∈ rest, g.handed = [] := by
  rw [TopOnly, hst] at h
  exact h

theorem TopOnly.stack (h : TopOnly s) (hc : s.callable = true) : ∀ f ∈ s.stack, f.handed = [] := by
  intro f hf
  cases hst : s.stack with
  | nil => rw [hst] at hf; cases hf
  | cons g rest =>
      rw [hst] at hf
      rcases List.mem_cons.mp hf with rfl | hf
      · cases f with
        | submitting op => rfl
        | pushing op => simp [callable, hst] at hc
        | polling todo current notified => rfl
      · exact h.of_cons hst f hf

theorem TopOnly.effect (h : TopOnly s) (he : Effect s a s') : TopOnly s' := by
  cases he with
  | E_Submit _ hc _ => exact h.stack hc
  | E_Schedule _ hc _ => exact h.stack hc
  | E_Poll hc => exact h.stack hc
  | E_Spin hst _ =>
      intro f hf
      change f ∈ s.stack at hf
      rw [hst] at hf
      rcases List.mem_cons.mp hf with rfl | hf
      · rfl
      · exact h.of_cons hst f hf
  | E_Enter hst _ => exact h.of_cons hst
  | E_Push hst _ => exact fun f hf => h.of_cons hst f (List.mem_of_mem_tail hf)
  | E_Notify hst => exact h.of_cons hst
  | E_CallbackReturn hst => exact h.of_cons hst
  | E_PollReturn hst => exact fun f hf => h.of_cons hst f (List.mem_of_mem_tail hf)
  | E_Complete _ _ => exact h

/-! ## No operation is in two places -/

theorem live_nodup_effect (h : s.live.Nodup) (he : Effect s a s') : s'.live.Nodup := by
  cases he with
  | E_Submit _ _ hl =>
      have := List.perm_middle.nodup_iff.mpr (List.nodup_cons.mpr ⟨hl, h⟩)
      exact this
  | E_Schedule _ _ hl =>
      have := List.perm_middle.nodup_iff.mpr (List.nodup_cons.mpr ⟨hl, h⟩)
      exact this
  | E_Poll _ => exact (live_startPoll s).nodup_iff.mpr h
  | E_Spin _ _ => exact (live_startPoll s).nodup_iff.mpr h
  | E_Enter hst _ => rw [live, hst] at h; exact h
  | @E_Push op rest q hst hq =>
      rw [live, hst] at h
      have hp : (Q.contents q ++ rest.flatMap Frame.live).Perm
          (Q.contents s.queue ++ op :: rest.flatMap Frame.live) :=
        ((Q.push_perm hq).append_right _).trans List.perm_middle.symm
      exact hp.nodup_iff.mpr h
  | E_Notify hst =>
      rw [live, hst] at h
      exact h.sublist ((List.sublist_cons_self _ _).append_left _)
  | E_CallbackReturn hst => rw [live, hst] at h; exact h
  | E_PollReturn hst => rw [live, hst] at h; exact h
  | E_Complete _ _ => exact h

/-! ## The device -/

/-- The device works on operations that the queue will find, and every other operation in the queue
has been answered. -/
structure Served (s : DirectEngine Q) : Prop where
  hw_nodup : s.hw.Nodup
  hw : ∀ o ∈ s.hw, o.hasDescriptor = true ∧ s.status o = 0 ∧ o ∈ s.handed
  waiting : ∀ op, .submitting op ∈ s.stack → op.hasDescriptor = true ∧ s.status op = 0
  answered : ∀ o ∈ s.handed, o ∈ s.hw ∨ s.status o ≠ 0

theorem Served.frame (h : Served s) (hhw : s'.hw = s.hw) (hstatus : s'.status = s.status)
    (hhanded : ∀ o, o ∈ s'.handed ↔ o ∈ s.handed)
    (hstack : ∀ op, .submitting op ∈ s'.stack → .submitting op ∈ s.stack) : Served s' where
  hw_nodup := hhw ▸ h.hw_nodup
  hw o ho := by rw [hhw] at ho; rw [hstatus, hhanded]; exact h.hw o ho
  waiting op hop := by rw [hstatus]; exact h.waiting op (hstack op hop)
  answered o ho := by rw [hhw, hstatus]; exact h.answered o ((hhanded o).mp ho)

/-- An operation that is submitted now shares its completion record with no other. -/
theorem status_update {op o : Op} {status : UInt8} (hl : op ∉ s.live) (ho : o ∈ s.live) :
    Function.update s.status op status o = s.status o :=
  Function.update_of_ne (ne_of_mem_of_not_mem ho hl) _ _

theorem Served.submit {op : Op} (h : Served s) (hd : op.hasDescriptor = true) (hl : op ∉ s.live) :
    Served { s with
      status := Function.update s.status op 0
      stack := .submitting op :: s.stack } := by
  have hs := s.handed_subset_live
  refine ⟨h.hw_nodup, fun o ho => ?_, fun o ho => ?_, fun o ho => ?_⟩
  · obtain ⟨h₁, h₂, h₃⟩ := h.hw o ho
    exact ⟨h₁, (status_update hl (hs h₃)).trans h₂, h₃⟩
  · rcases List.mem_cons.mp ho with he | ho
    · cases he
      exact ⟨hd, Function.update_self _ _ _⟩
    · obtain ⟨h₁, h₂⟩ := h.waiting o ho
      exact ⟨h₁, (status_update hl (mem_live_of_submitting ho)).trans h₂⟩
  · exact (h.answered o ho).imp id (status_update hl (hs ho)).trans_ne

theorem mem_handed_pushing {o op : Op} {q : Q.Store} {rest : List Frame} :
    o ∈ Q.contents q ++ op :: rest.flatMap Frame.handed ↔
      o = op ∨ o ∈ Q.contents q ++ rest.flatMap Frame.handed := by
  rw [List.perm_middle.mem_iff, List.mem_cons]

theorem Served.schedule {op : Op} (h : Served s) (hl : op ∉ s.live) :
    Served { s with
      status := Function.update s.status op 1
      stack := .pushing op :: s.stack } := by
  have hs := s.handed_subset_live
  refine ⟨h.hw_nodup, fun o ho => ?_, fun o ho => ?_, fun o ho => ?_⟩
  · obtain ⟨h₁, h₂, h₃⟩ := h.hw o ho
    exact ⟨h₁, (status_update hl (hs h₃)).trans h₂, mem_handed_pushing.mpr (.inr h₃)⟩
  · rcases List.mem_cons.mp ho with he | ho
    · cases he
    · obtain ⟨h₁, h₂⟩ := h.waiting o ho
      exact ⟨h₁, (status_update hl (mem_live_of_submitting ho)).trans h₂⟩
  · rcases mem_handed_pushing.mp ho with rfl | ho
    · exact .inr (by simp)
    · exact (h.answered o ho).imp id (status_update hl (hs ho)).trans_ne

theorem Served.startPoll (h : Served s) : Served s.startPoll := by
  refine ⟨h.hw_nodup, fun o ho => ?_, fun op hop => ?_, fun o ho => ?_⟩
  · obtain ⟨h₁, h₂, h₃⟩ := h.hw o ho
    refine ⟨h₁, h₂, s.mem_handed_startPoll.mpr ?_⟩
    exact (List.mem_append.mp h₃).imp (fun hc => ⟨hc, h₂⟩) id
  · rcases List.mem_cons.mp hop with he | hop
    · cases he
    · exact h.waiting op hop
  · refine h.answered o (List.mem_append.mpr ?_)
    exact (s.mem_handed_startPoll.mp ho).imp And.left id

theorem not_mem_handed {op : Op} (hn : s.live.Nodup) (h : Frame.submitting op ∈ s.stack) :
    op ∉ s.handed := by
  obtain ⟨l₁, l₂, hst⟩ := List.append_of_mem h
  have hlive : s.live.Perm (op :: (Q.contents s.queue ++ (l₁ ++ l₂).flatMap Frame.live)) := by
    rw [live, hst, List.flatMap_append, List.flatMap_append, ← List.append_assoc,
      ← List.append_assoc]
    exact List.perm_middle
  have hhanded : s.handed = Q.contents s.queue ++ (l₁ ++ l₂).flatMap Frame.handed := by
    rw [handed, hst, List.flatMap_append, List.flatMap_append]; rfl
  intro ho
  refine (List.nodup_cons.mp (hlive.nodup_iff.mp hn)).1 ?_
  rw [hhanded] at ho
  exact List.append_subset.mpr ⟨List.subset_append_left _ _,
    List.Subset.trans (flatMap_subset Frame.handed_subset_live _) (List.subset_append_right _ _)⟩ ho

theorem Served.enter {op : Op} {rest : List Frame} (h : Served s) (hn : s.live.Nodup)
    (hst : s.stack = .submitting op :: rest) :
    Served { s with
      submitter := s.submitter.submitDescriptor (.single op)
      hw := op :: s.hw
      stack := .pushing op :: rest } := by
  have hh : s.handed = Q.contents s.queue ++ rest.flatMap Frame.handed := by rw [handed, hst]; rfl
  have hop : Frame.submitting op ∈ s.stack := hst ▸ List.mem_cons_self
  have hnew : op ∉ s.hw := fun ho => not_mem_handed hn hop (h.hw op ho).2.2
  refine ⟨List.nodup_cons.mpr ⟨hnew, h.hw_nodup⟩, fun o ho => ?_, fun o ho => ?_, fun o ho => ?_⟩
  · rcases List.mem_cons.mp ho with rfl | ho
    · exact ⟨(h.waiting o hop).1, (h.waiting o hop).2, mem_handed_pushing.mpr (.inl rfl)⟩
    · obtain ⟨h₁, h₂, h₃⟩ := h.hw o ho
      exact ⟨h₁, h₂, mem_handed_pushing.mpr (.inr (hh ▸ h₃))⟩
  · rcases List.mem_cons.mp ho with he | ho
    · cases he
    · exact h.waiting o (hst ▸ List.mem_cons_of_mem _ ho)
  · rcases mem_handed_pushing.mp ho with rfl | ho
    · exact .inl List.mem_cons_self
    · exact (h.answered o (hh ▸ ho)).imp (List.mem_cons_of_mem _) id

theorem Served.complete {op : Op} {status : UInt8} (h : Served s) (hn : s.live.Nodup) (ho : op ∈ s.hw)
    (hs : status ≠ 0) :
    Served { s with hw := s.hw.erase op, status := Function.update s.status op status } := by
  refine ⟨h.hw_nodup.erase op, fun o ho' => ?_, fun o ho' => ?_, fun o ho' => ?_⟩
  · obtain ⟨hne, hmem⟩ := h.hw_nodup.mem_erase_iff.mp ho'
    obtain ⟨h₁, h₂, h₃⟩ := h.hw o hmem
    exact ⟨h₁, (Function.update_of_ne hne _ _).trans h₂, h₃⟩
  · have hne : o ≠ op := by
      rintro rfl
      exact not_mem_handed hn ho' (h.hw o ho).2.2
    obtain ⟨h₁, h₂⟩ := h.waiting o ho'
    exact ⟨h₁, (Function.update_of_ne hne _ _).trans h₂⟩
  · by_cases he : o = op
    · subst he
      exact .inr (by simpa using hs)
    · exact (h.answered o ho').imp (fun hm => h.hw_nodup.mem_erase_iff.mpr ⟨he, hm⟩)
        (Function.update_of_ne he _ _).trans_ne

theorem Served.effect (h : Served s) (hn : s.live.Nodup) (he : Effect s a s') : Served s' := by
  cases he with
  | E_Submit hd _ hl => exact h.submit hd hl
  | E_Schedule _ _ hl => exact h.schedule hl
  | E_Poll _ => exact h.startPoll
  | E_Spin _ _ => exact h.startPoll
  | E_Enter hst _ => exact h.enter hn hst
  | E_Push hst hq =>
      refine h.frame rfl rfl (fun o => ?_) fun op hop => hst ▸ List.mem_cons_of_mem _ hop
      rw [handed, handed, hst, ((Q.push_perm hq).append_right _).mem_iff, List.flatMap_cons]
      exact (List.perm_middle.mem_iff).symm
  | E_Notify hst =>
      refine h.frame rfl rfl (fun o => by rw [handed, handed, hst]; rfl) fun op hop => ?_
      rw [hst]
      simpa using hop
  | E_CallbackReturn hst =>
      refine h.frame rfl rfl (fun o => by rw [handed, handed, hst]; rfl) fun op hop => ?_
      rw [hst]
      simpa using hop
  | E_PollReturn hst =>
      refine h.frame rfl rfl (fun o => by rw [handed, handed, hst]; rfl) fun op hop => ?_
      exact hst ▸ List.mem_cons_of_mem _ hop
  | E_Complete ho hs => exact h.complete hn ho hs

end DirectEngine

end DsaStdexec.Engine

import DsaStdexec.Submitter.Lemmas.RingShape

/-!
# What a step of a ring submitter does

`Effect` lists what a step can do to the two rings. Every invariant is proved by cases over it.
-/

namespace DsaStdexec.Submitter

open DsaStdexec.Lib RingSubmitter

namespace RingSystem

variable {D : Type*} {g : Geometry}

/-- No call is added, none enters the wait at the end of the ring, and none stores its descriptor. -/
structure Kept (st st' : List (RingFrame D)) : Prop where
  length_le : st'.length ≤ st.length
  wrap : ∀ d p, RingFrame.waitWrap d p ∈ st' → ∃ p', RingFrame.waitWrap d p' ∈ st
  desc : st'.filterMap RingFrame.desc? = st.filterMap RingFrame.desc?

inductive Effect (g : Geometry) (s : RingSystem D) : RingAction D → RingSystem D → Prop where
  | E_Submit {d} : Effect g s (.submit d) { s with stack := .waitSpace d false :: s.stack }
  | E_Idle {a s'} (ha : a.desc? = none) (hr : s'.ring = s.ring) (hl : s'.log = s.log)
      (hk : Kept s.stack s'.stack) : Effect g s a s'
  | E_Reclaim {f rest} (hk : Kept s.stack (f :: rest)) : Effect g s .advance (s.iterate f rest)
  | E_PrePoll : Effect g s .prePoll { s with ring := s.ring.prePoll g }
  | E_Drain (hst : s.stack = []) :
      Effect g s .drain { s with ring := s.ring.sealPartial g, stack := [.drainWait 0] }
  | E_Wrap {d rest} (hst : s.stack = .waitSlot d false :: rest) (hf : s.ring.current.state = .filling)
      (hw : s.ring.atWrap g = true) :
      Effect g s .advance
        { s with ring := s.ring.sealAndSubmitCurrent g, stack := .waitWrap d false :: rest }
  | E_Append {d rest} (hst : s.stack = .waitSlot d false :: rest)
      (hc : s.ring.current.state ≠ .inFlight) (hw : (s.ring.beginBatch g).atWrap g = false) :
      Effect g s .advance (s.finish g (s.ring.beginBatch g) d rest)
  | E_AppendAtZero {d rest} (hst : s.stack = .waitWrap d false :: rest)
      (hc : s.ring.current.state ≠ .inFlight) :
      Effect g s .advance (s.finish g s.ring.beginBatchAtZero d rest)
  | E_Complete {i status} (hi : i < kDefaultNumBatches) (hin : (s.ring.batches i).state = .inFlight)
      (hz : (s.ring.batches i).status = 0) (hs : status ≠ 0) :
      Effect g s (.complete i status)
        { s with ring := s.ring.setStatus i status }

/-- The wrap-around check fires only on a batch that was being filled before the call. -/
theorem atWrap_beginBatch {r : RingSubmitter D} (hc : r.current.state ≠ .inFlight)
    (hw : (r.beginBatch g).atWrap g = true) : r.current.state = .filling ∧ r.beginBatch g = r := by
  cases hst : r.current.state with
  | free =>
      have he : r.beginBatch g = r.setCurrent ⟨0, descIndex g r.descTail, 0, .filling, []⟩ := by
        simp [RingSubmitter.beginBatch, hst]
      rw [he, RingSubmitter.atWrap, setCurrent_current] at hw
      simp at hw
  | filling => exact ⟨rfl, by simp [RingSubmitter.beginBatch, hst]⟩
  | inFlight => exact absurd hst hc

theorem Kept.of_head {f f' : RingFrame D} {rest : List (RingFrame D)}
    (h : ∀ d p, f' ≠ .waitWrap d p) (hd : f'.desc? = f.desc?) : Kept (f :: rest) (f' :: rest) := by
  refine ⟨by simp, fun d p hm => ?_, by simp [List.filterMap_cons, hd]⟩
  rcases List.mem_cons.mp hm with he | hm
  · exact absurd he.symm (h d p)
  · exact ⟨p, List.mem_cons_of_mem _ hm⟩

theorem Kept.of_wrap {d : D} {p p' : Bool} {rest : List (RingFrame D)} :
    Kept (.waitWrap d p :: rest) (.waitWrap d p' :: rest) := by
  refine ⟨by simp, fun d' q hm => ?_, rfl⟩
  rcases List.mem_cons.mp hm with he | hm
  · cases he; exact ⟨p, List.mem_cons_self⟩
  · exact ⟨q, List.mem_cons_of_mem _ hm⟩

theorem advance_effect {s s' : RingSystem D} (h : s.advance g = some s') :
    Effect g s .advance s' := by
  unfold RingSystem.advance at h
  split at h
  · rename_i d rest hst
    split at h <;> cases h
    · exact .E_Reclaim (hst ▸ Kept.of_head (by simp) rfl)
    · exact .E_Idle rfl rfl rfl (hst ▸ Kept.of_head (by simp) rfl)
  · rename_i d rest hst
    split at h
    · cases h; exact .E_Reclaim (hst ▸ Kept.of_head (by simp) rfl)
    · rename_i hc
      simp only at h
      split at h <;> cases h
      · rename_i hw
        obtain ⟨hf, hb⟩ := atWrap_beginBatch hc hw
        rw [hb] at hw ⊢
        exact .E_Wrap hst hf hw
      · rename_i hw
        exact .E_Append hst hc (by simpa using hw)
  · rename_i d rest hst
    split at h <;> cases h
    · exact .E_Reclaim (hst ▸ Kept.of_wrap)
    · rename_i hc
      exact .E_AppendAtZero hst hc
  · rename_i i rest hst
    split at h
    · cases h; exact .E_Idle rfl rfl rfl (hst ▸ ⟨by simp, fun d p hm => ⟨p, by simp [hm]⟩, rfl⟩)
    · split at h <;> cases h
      · exact .E_Reclaim (hst ▸ Kept.of_head (by simp) rfl)
      · exact .E_Idle rfl rfl rfl (hst ▸ Kept.of_head (by simp) rfl)
  · cases h

theorem step_effect {s s' : RingSystem D} {a : RingAction D} (h : step g s a = some s') :
    Effect g s a s' := by
  cases a with
  | submit d =>
      simp only [step] at h
      split at h <;> cases h
      exact .E_Submit
  | prePoll =>
      simp only [step] at h
      split at h <;> cases h
      exact .E_PrePoll
  | drain =>
      simp only [step] at h
      split at h <;> cases h
      rename_i hst
      exact .E_Drain (List.isEmpty_iff.mp hst)
  | advance => exact advance_effect h
  | pollReturn =>
      simp only [step, RingSystem.pollReturn] at h
      split at h
      · rename_i hst; cases h; exact .E_Idle rfl rfl rfl (hst ▸ Kept.of_head (by simp) rfl)
      · rename_i hst; cases h; exact .E_Idle rfl rfl rfl (hst ▸ Kept.of_head (by simp) rfl)
      · rename_i hst; cases h; exact .E_Idle rfl rfl rfl (hst ▸ Kept.of_wrap)
      · cases h
  | complete i status =>
      simp only [step, RingSystem.complete] at h
      split at h <;> cases h
      rename_i hc
      exact .E_Complete hc.1 hc.2.1 hc.2.2.1 hc.2.2.2

/-! ## The descriptors passed to `submit_descriptor` -/

def pending (s : RingSystem D) : List D := s.stack.filterMap RingFrame.desc?

theorem pending_cons {s : RingSystem D} {f : RingFrame D} {d : D} {rest : List (RingFrame D)}
    (hst : s.stack = f :: rest) (hd : f.desc? = some d) :
    s.pending = d :: rest.filterMap RingFrame.desc? := by
  rw [pending, hst, List.filterMap_cons, hd]

theorem finish_perm {s : RingSystem D} {f : RingFrame D} {d : D} {rest : List (RingFrame D)}
    (hst : s.stack = f :: rest) (hd : f.desc? = some d) (r : RingSubmitter D) :
    ((s.finish g r d rest).log ++ (s.finish g r d rest).pending).Perm (s.log ++ s.pending) := by
  rw [pending_cons hst hd]
  simp [finish, pending]

theorem Effect.perm {s s' : RingSystem D} {a : RingAction D} (he : Effect g s a s') :
    (s'.log ++ s'.pending).Perm (s.log ++ s.pending ++ a.desc?.toList) := by
  cases he with
  | @E_Submit d =>
      have : (s.log ++ d :: s.pending).Perm (s.log ++ (s.pending ++ [d])) :=
        (List.perm_append_singleton d s.pending).symm.append_left s.log
      simpa [pending, RingFrame.desc?, RingAction.desc?] using this
  | E_Idle ha _ hl hk => simp only [pending, hk.desc, hl, ha, Option.toList_none, List.append_nil]; rfl
  | E_Reclaim hk =>
      simp only [pending, iterate, hk.desc, RingAction.desc?, Option.toList_none, List.append_nil]; rfl
  | E_PrePoll => simp [RingAction.desc?, pending]
  | E_Drain hst =>
      simp [RingAction.desc?, pending, hst, RingFrame.desc?, List.filterMap_cons]
  | E_Wrap hst _ _ => simp [RingAction.desc?, pending, hst, RingFrame.desc?]
  | E_Append hst _ _ => simpa [RingAction.desc?] using finish_perm hst rfl _
  | E_AppendAtZero hst _ => simpa [RingAction.desc?] using finish_perm hst rfl _
  | E_Complete _ _ _ _ => simp [RingAction.desc?, pending]

/-- Every descriptor passed to `submit_descriptor` is in the log or with a call that still waits. -/
theorem submitted_perm [Inhabited D] {k : RingKind} {args : InitArgs} {as : List (RingAction D)}
    {s t : RingSystem D} (h : (machine k args).runFrom s as = some t) :
    (t.log ++ t.pending).Perm (s.log ++ s.pending ++ as.filterMap RingAction.desc?) := by
  induction as generalizing s with
  | nil => cases h; simp
  | cons a as ih =>
      obtain ⟨s', hs, hr⟩ := Machine.runFrom_cons h
      have hstep := Effect.perm (step_effect hs)
      refine (ih hr).trans ((hstep.append_right _).trans ?_)
      rw [List.append_assoc]
      cases ha : a.desc? with
      | none => simp [ha]
      | some d => simp [ha]

/-! ## The shape of the batch ring -/

/-- The invariant of every run, whatever the nested calls do. -/
def Formed (g : Geometry) (s : RingSystem D) : Prop := Shape g s.ring ∧ Settled g s.ring

theorem formed_init [Inhabited D] (args : InitArgs) : Formed g (init args : RingSystem D) := by
  refine ⟨⟨by simp [init, RingSubmitter.init], by simp [init, RingSubmitter.init], ?_, ?_, ?_, ?_, ?_,
    ?_⟩, ?_⟩
  · intro b h1 h2; simp [init, RingSubmitter.init] at h2
  · intro b h1 h2; simp [init, RingSubmitter.init] at h2
  · intro b h1 h2; simp [init, RingSubmitter.init] at h2
  · simp [init, RingSubmitter.init, RingSubmitter.current]
  · simp [init, RingSubmitter.init, RingSubmitter.current]
  · simp [init, RingSubmitter.init, entry]
  · simp [Settled, init, RingSubmitter.init, RingSubmitter.current]

theorem Formed.reclaimCompleted {r : RingSubmitter D} (h : Shape g r) (hs : Settled g r) :
    Shape g r.reclaimCompleted ∧ Settled g r.reclaimCompleted := by
  obtain ⟨n, hr⟩ := h.reclaimed
  exact ⟨h.of_reclaimed hr, hs.of_reclaimed h hr⟩

theorem Formed.effect {s s' : RingSystem D} {a : RingAction D} (h : Formed g s)
    (he : Effect g s a s') : Formed g s' := by
  obtain ⟨hsh, hse⟩ := h
  cases he with
  | E_Submit => exact ⟨hsh, hse⟩
  | E_Idle _ hr _ _ => rw [Formed, hr]; exact ⟨hsh, hse⟩
  | E_Reclaim _ => exact Formed.reclaimCompleted hsh hse
  | E_PrePoll => exact Formed.reclaimCompleted hsh.sealPartial (hse.sealPartial hsh)
  | E_Drain _ => exact ⟨hsh.sealPartial, hse.sealPartial hsh⟩
  | E_Wrap _ _ _ => exact ⟨hsh.sealAndSubmitCurrent, hse.sealAndSubmitCurrent hsh⟩
  | E_Append _ hc _ =>
      obtain ⟨hb, hr⟩ := hsh.beginBatch hse hc
      exact hb.append hr _
  | E_AppendAtZero _ hc =>
      obtain ⟨hb, hr⟩ := hsh.beginBatchAtZero hc
      exact hb.append hr _
  | @E_Complete i status hi hin hz hs =>
      exact ⟨hsh.setStatus i hs, hse.setStatus hin⟩

theorem Formed.step {s s' : RingSystem D} {a : RingAction D} (h : Formed g s)
    (hs : step g s a = some s') : Formed g s' := h.effect (step_effect hs)

end RingSystem

end DsaStdexec.Submitter

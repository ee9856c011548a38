import DsaStdexec.Submitter.Staging

/-!
# The buffers of `StagingSubmitter`
-/

namespace DsaStdexec.Submitter

open DsaStdexec.Lib

namespace StagingSystem

variable {D : Type*} {n : Nat}

/-- Between two steps the device does not hold the active buffer, and a full buffer is being
flushed. -/
structure Swapped (n : Nat) (s : StagingSystem D) : Prop where
  active : s.sub.batchSubmitted s.sub.activeBuf = false
  count : s.sub.stagedCount ≤ n
  room : s.flushing = false → s.sub.stagedCount < n
  flushing : s.flushing = true → 0 < s.sub.stagedCount

inductive Effect (n : Nat) (s : StagingSystem D) : StagingAction D → StagingSystem D → Prop where
  | E_Submit {d} (hf : s.flushing = false) : Effect n s (.submit d) (s.submit n d)
  | E_Flush {a} (ha : a.desc? = none) (hf : s.flushing = false) : Effect n s a s.flush
  | E_Wait (hw : s.sub.waits = true) : Effect n s .advance s
  | E_Ring (hf : s.flushing = true) (hw : s.sub.waits = false) :
      Effect n s .advance { sub := s.sub.flushTail, flushing := false }
  | E_Complete {b status} : Effect n s (.complete b status) { s with sub := s.sub.setStatus b status }

theorem step_effect {s s' : StagingSystem D} {a : StagingAction D} (h : step n s a = some s') :
    Effect n s a s' := by
  cases a with
  | submit d =>
      simp only [step] at h
      split at h <;> cases h
      rename_i hf
      exact .E_Submit (by simpa using hf)
  | flush =>
      simp only [step] at h
      split at h <;> cases h
      rename_i hf
      exact .E_Flush rfl (by simpa using hf)
  | prePoll =>
      simp only [step] at h
      split at h <;> cases h
      rename_i hf
      exact .E_Flush rfl (by simpa using hf)
  | drain =>
      simp only [step] at h
      split at h <;> cases h
      rename_i hf
      exact .E_Flush rfl (by simpa using hf)
  | advance =>
      simp only [step, advance] at h
      split at h
      · rename_i hf
        split at h <;> cases h
        · rename_i hw
          exact .E_Wait hw
        · rename_i hw
          exact .E_Ring hf (by simpa using hw)
      · cases h
  | complete b status =>
      simp only [step] at h
      split at h <;> cases h
      exact .E_Complete

end StagingSystem

namespace StagingSubmitter

variable {D : Type*} {s : StagingSubmitter D}

@[simp] theorem release_activeBuf : s.release.activeBuf = s.activeBuf := by
  unfold release; split <;> rfl

@[simp] theorem release_stagedCount : s.release.stagedCount = s.stagedCount := by
  unfold release; split <;> rfl

@[simp] theorem release_staged : s.release.staged = s.staged := by
  unfold release; split <;> rfl

@[simp] theorem release_portal : s.release.direct.portal = s.direct.portal := by
  unfold release; split <;> rfl

theorem release_other : s.release.batchSubmitted (!s.activeBuf) = false := by
  unfold release
  split
  · simp
  · rename_i h; simpa using h

theorem release_active : s.release.batchSubmitted s.activeBuf = s.batchSubmitted s.activeBuf := by
  unfold release
  split
  · exact Function.update_of_ne (by simp) _ _
  · rfl

@[simp] theorem flushTail_activeBuf : s.flushTail.activeBuf = !s.activeBuf := by
  simp only [flushTail, swap, ring]; split <;> simp

theorem flushTail_active : s.flushTail.batchSubmitted s.flushTail.activeBuf = false := by
  rw [flushTail_activeBuf]
  simp only [flushTail, swap, ring, release_stagedCount]
  split
  · exact release_other
  · simp only [release_activeBuf]
    rw [Function.update_of_ne (by simp)]
    exact release_other

theorem submittedCount_eq (b : Bool) :
    s.submittedCount = (s.batchSubmitted b).toNat + (s.batchSubmitted (!b)).toNat := by
  cases b with
  | false => rfl
  | true => rw [submittedCount, Nat.add_comm]; rfl

theorem submittedCount_le (s : StagingSubmitter D) : s.submittedCount ≤ 2 := by
  have h1 := Bool.toNat_le (s.batchSubmitted false)
  have h2 := Bool.toNat_le (s.batchSubmitted true)
  unfold submittedCount
  omega

/-- `inflight()` is the number of buffers that the device holds. -/
def Counted (s : StagingSubmitter D) : Prop := s.direct.inflight = s.submittedCount

instance : Decidable s.Counted := inferInstanceAs (Decidable (_ = _))

theorem counted_release (h : Counted s) : Counted s.release := by
  have hs := submittedCount_eq (s := s) s.activeBuf
  have hr := submittedCount_eq (s := s.release) s.activeBuf
  rw [release_other, release_active] at hr
  rw [Counted, hr]
  rw [Counted, hs] at h
  unfold release
  split
  · rename_i hb
    simp only [DirectSubmitter.notifyComplete_inflight, h, hb, Bool.toNat_true, Bool.toNat_false]
    omega
  · rename_i hb
    simp only [h, hb, Bool.toNat_false]

theorem flushTail_inflight : s.flushTail.direct.inflight = s.release.direct.inflight + 1 := by
  simp only [flushTail, swap, ring]; split <;> rfl

theorem flushTail_submittedCount (ha : s.batchSubmitted s.activeBuf = false) :
    s.flushTail.submittedCount = if s.stagedCount = 1 then 0 else 1 := by
  rw [submittedCount_eq s.activeBuf]
  simp only [flushTail, swap, ring, release_stagedCount, release_activeBuf]
  split
  · rw [release_other, release_active, ha]; rfl
  · simp only [Function.update_self, Function.update_of_ne (Bool.not_ne_self s.activeBuf),
      release_other, Bool.toNat_true, Bool.toNat_false]

theorem submittedCount_release (ha : s.batchSubmitted s.activeBuf = false) :
    s.release.submittedCount = 0 := by
  rw [submittedCount_eq s.activeBuf, release_other, release_active, ha]; rfl

/-- A single descriptor is counted and never taken back. -/
theorem counted_flushTail (ha : s.batchSubmitted s.activeBuf = false) (h : Counted s) :
    Counted s.flushTail ↔ s.stagedCount ≠ 1 := by
  have hr := counted_release h
  rw [Counted, submittedCount_release ha] at hr
  rw [Counted, flushTail_inflight, flushTail_submittedCount ha, hr]
  split
  · simp_all
  · simp_all

end StagingSubmitter

/-! ## Runs -/

namespace StagingSystem

open StagingSubmitter

variable {D : Type*} {n : Nat} {s s' : StagingSystem D} {a : StagingAction D}

theorem swapped_init [Inhabited D] (args : InitArgs) :
    Swapped args.maxBatch (init args : StagingSystem D) :=
  ⟨rfl, Nat.zero_le _, fun _ => args.maxBatch_pos, fun h => by cases h⟩

theorem Swapped.effect (h : Swapped n s) (hn : 0 < n) (he : Effect n s a s') : Swapped n s' := by
  cases he with
  | E_Submit hf =>
      have hroom := h.room hf
      refine ⟨h.active, hroom, fun hf' => ?_, fun _ => Nat.succ_pos _⟩
      simpa [submit] using hf'
  | E_Flush _ hf =>
      refine ⟨h.active, h.count, fun _ => h.room hf, fun hf' => ?_⟩
      exact Nat.pos_of_ne_zero (by simpa [flush] using hf')
  | E_Wait _ => exact h
  | E_Ring _ _ => exact ⟨flushTail_active, Nat.zero_le _, fun _ => hn, fun hf' => by cases hf'⟩
  | E_Complete => exact ⟨h.active, h.count, h.room, h.flushing⟩

/-- No step rings the doorbell for exactly one descriptor. -/
def NoSingle (s : StagingSystem D) (a : StagingAction D) : Prop :=
  a = .advance → s.sub.waits = false → s.sub.stagedCount ≠ 1

theorem counted_step (hs : Swapped n s) (hc : Counted s.sub) (hst : step n s a = some s') :
    Counted s'.sub ↔ NoSingle s a := by
  have he := step_effect hst
  cases he with
  | E_Submit _ => exact iff_of_true hc (fun ha => by cases ha)
  | E_Flush ha hf =>
      refine iff_of_true hc fun ha' => ?_
      subst ha'
      simp [step, hf] at hst
  | E_Wait hw => exact iff_of_true hc fun _ hw' => by rw [hw] at hw'; cases hw'
  | E_Ring _ hw =>
      rw [counted_flushTail hs.active hc]
      exact ⟨fun h1 _ _ => h1, fun h => h rfl hw⟩
  | E_Complete => exact iff_of_true hc fun ha => by cases ha

theorem counted_init [Inhabited D] (args : InitArgs) : Counted (init args : StagingSystem D).sub :=
  rfl

theorem swapped_step {args : InitArgs} (h : Swapped args.maxBatch s)
    (hst : step args.maxBatch s a = some s') : Swapped args.maxBatch s' :=
  h.effect args.maxBatch_pos (step_effect hst)

/-- With nothing staged and both buffers released, only `submit_descriptor` changes anything. -/
structure Idle (s : StagingSystem D) : Prop where
  flushing : s.flushing = false
  stagedCount : s.sub.stagedCount = 0
  released : ∀ b, s.sub.batchSubmitted b = false

theorem Idle.step (h : Idle s) (ha : a.desc? = none) (hst : StagingSystem.step n s a = some s') :
    s' = s := by
  have hfl : s.flush = s := by
    obtain ⟨hf, hz, _⟩ := h
    obtain ⟨sub, flushing⟩ := s
    simp only at hf hz
    simp [flush, hf, hz]
  cases a with
  | submit d => cases ha
  | flush => simpa [StagingSystem.step, h.flushing, hfl] using hst.symm
  | prePoll => simpa [StagingSystem.step, h.flushing, hfl] using hst.symm
  | drain => simpa [StagingSystem.step, h.flushing, hfl] using hst.symm
  | advance => simp [StagingSystem.step, h.flushing] at hst
  | complete b status => simp [StagingSystem.step, h.released] at hst

theorem Idle.run [Inhabited D] {args : InitArgs} {as : List (StagingAction D)} (h : Idle s)
    (ha : as.filterMap StagingAction.desc? = []) (hr : (machine args).runFrom s as = some s') :
    s' = s := by
  refine Machine.runFrom_invariant (C := fun _ a => a.desc? = none) (I := fun t => t = s) ?_ rfl
    (Machine.meets_of_forall fun a ha' => List.filterMap_eq_nil_iff.mp ha a ha') hr
  rintro t a t' rfl ha hst
  exact h.step ha hst

end StagingSystem

end DsaStdexec.Submitter

import DsaStdexec.Submitter.Lemmas.Batches
import DsaStdexec.Submitter.Shared

/-!
# A call of a submitter that nobody disturbs
-/

namespace DsaStdexec.Submitter

open DsaStdexec.Lib Program

variable {σ D : Type}

/-! ## `DirectSubmitter` -/

namespace SharedDirect

variable {self : Part σ (DirectSubmitter D)} {core : σ → σ} {A : σ → Prop} {c : σ}

theorem submitDescriptor_valid {desc : σ → Doorbell D} (hl : self.Lawful core)
    (hdesc : ∀ s, desc s = desc (core s)) :
    Valid core (fun _ => True) (fun _ c' => c' = self.modify (·.submitDescriptor (desc c)) c)
      (submitDescriptor self desc) c := by
  refine valid_store (fun c => self.modify (fun s => { s with portal := s.portal ++ [desc c] }) c)
    (fun s => by rw [hl.modify_core, hdesc]) trivial ?_
  refine valid_load (fun c => (self.get c).inflight) (fun s => by rw [hl.get_core]) trivial ?_
  refine ⟨trivial, fun s hs => ?_⟩
  change core (self.modify _ s) = _
  rw [hl.modify_core, hs, hl.modify_modify, hl.get_modify]
  exact hl.modify_congr rfl

theorem notifyComplete_valid {n : Nat} (hl : self.Lawful core) (hA : A c) :
    Valid core A (fun _ c' => c' = self.modify (·.notifyComplete n) c) (notifyComplete self n) c := by
  refine valid_load (fun c => (self.get c).inflight) (fun s => by rw [hl.get_core]) hA ?_
  split
  next hn =>
    refine valid_load (fun c => (self.get c).inflight) (fun s => by rw [hl.get_core]) hA ?_
    refine ⟨hA, fun s hs => ?_⟩
    change core (self.modify _ s) = _
    rw [hl.modify_core, hs]
    refine hl.modify_congr ?_
    simp only [DirectSubmitter.notifyComplete, subSize_eq hn, hn, if_true]
  next hn =>
    refine ⟨hA, fun s hs => ?_⟩
    change core (self.modify _ s) = _
    rw [hl.modify_core, hs]
    refine hl.modify_congr ?_
    simp only [DirectSubmitter.notifyComplete, hn, if_false]

theorem whole_lawful : (Part.whole : Part (DirectSubmitter D) _).Lawful id :=
  ⟨fun _ => rfl, fun _ _ => rfl, fun _ _ => rfl, fun _ _ _ => rfl, fun h => h⟩

end SharedDirect

/-! ## `StagingSubmitter` -/

namespace StagingSubmitter

/-- The device may write the completion records while a call runs. -/
def erase (s : StagingSubmitter D) : StagingSubmitter D := { s with batchStatus := fun _ => 0 }

end StagingSubmitter

namespace SharedStaging

open StagingSubmitter

variable {c : StagingSubmitter D}

theorem direct_lawful : (direct : Part (StagingSubmitter D) _).Lawful erase where
  get_core _ := rfl
  modify_core _ _ := rfl
  get_modify _ _ := rfl
  modify_modify _ _ _ := rfl
  modify_congr {f g s} h := by
    change ({ s with direct := f s.direct } : StagingSubmitter D) = { s with direct := g s.direct }
    rw [show f s.direct = g s.direct from h]

theorem release_valid :
    Valid erase (fun _ => True) (fun _ c' => c' = c.release) (release (!c.activeBuf)) c := by
  refine valid_load (fun c' => c'.batchSubmitted (!c.activeBuf)) (fun _ => rfl) trivial ?_
  unfold StagingSubmitter.release
  split
  next hb =>
    refine ⟨trivial, ?_⟩
    refine valid_store
      (fun c' => { c' with batchSubmitted := Function.update c'.batchSubmitted (!c.activeBuf) false })
      (fun _ => rfl) trivial ?_
    exact (SharedDirect.notifyComplete_valid direct_lawful trivial).mono (fun _ h => h) fun _ _ h => h
  next hb => rfl

theorem ringSingle_valid (hcount : c.stagedCount = 1) :
    Valid erase (fun _ => True) (fun _ c' => c' = c.ring) ringSingle c := by
  refine valid_load (·.activeBuf) (fun _ => rfl) trivial ?_
  rw [StagingSubmitter.ring, if_pos hcount]
  exact SharedDirect.submitDescriptor_valid direct_lawful fun _ => rfl

theorem ringBatch_valid (hcount : c.stagedCount ≠ 1) :
    Valid erase (fun _ => True) (fun _ c' => c'.erase = c.ring.erase) ringBatch c := by
  refine valid_load (·.activeBuf) (fun _ => rfl) trivial ?_
  refine valid_load (·.stagedCount) (fun _ => rfl) trivial ?_
  refine valid_load (·.activeBuf) (fun _ => rfl) trivial ?_
  refine valid_store id (fun _ => rfl) trivial ?_
  refine valid_bind.mpr ((SharedDirect.submitDescriptor_valid direct_lawful fun _ => rfl).mono
    (fun _ h => h) ?_)
  rintro _ c' rfl
  refine valid_load (·.activeBuf) (fun _ => rfl) trivial ?_
  refine ⟨trivial, fun s hs => ?_⟩
  rw [StagingSubmitter.ring, if_neg hcount]
  change erase { erase s with
    batchSubmitted := Function.update (erase s).batchSubmitted c.activeBuf true } = _
  rw [hs]
  rfl

theorem ring_valid :
    Valid erase (fun _ => True) (fun _ c' => c'.erase = c.ring.erase) ring c := by
  refine valid_load (·.stagedCount) (fun _ => rfl) trivial ?_
  split
  next hcount => exact (ringSingle_valid hcount).mono (fun _ h => h) fun _ _ h => congrArg erase h
  next hcount => exact ringBatch_valid hcount

theorem swap_valid : Valid erase (fun _ => True) (fun _ c' => c' = c.swap) swap c := by
  refine valid_load (·.activeBuf) (fun _ => rfl) trivial ?_
  refine valid_store (fun c' => { c' with activeBuf := !c.activeBuf }) (fun _ => rfl) trivial ?_
  refine ⟨trivial, fun s hs => ?_⟩
  change { erase s with stagedCount := 0 } = _
  rw [hs]
  rfl

/-- What `flush` does when it returns. -/
def flushed (c : StagingSubmitter D) : StagingSubmitter D := if c.stagedCount = 0 then c else c.flushTail

theorem flush_valid :
    Valid erase (fun _ => True) (fun _ c' => c'.erase = (flushed c).erase) flush c := by
  refine valid_load (·.stagedCount) (fun _ => rfl) trivial ?_
  by_cases hcount : c.stagedCount = 0
  · simp only [flushed, hcount, ne_eq, not_true_eq_false, if_true, if_false]
    rfl
  · simp only [flushed, hcount, ne_eq, not_false_eq_true, if_true, if_false]
    refine valid_load (·.activeBuf) (fun _ => rfl) trivial ?_
    refine valid_bind.mpr (release_valid.mono (fun _ h => h) ?_)
    rintro _ _ rfl
    refine valid_bind.mpr (ring_valid.mono (fun _ h => h) ?_)
    intro _ c' hc'
    refine swap_valid.mono (fun _ h => h) ?_
    rintro _ _ rfl
    exact congrArg StagingSubmitter.swap hc'

theorem flushed_stagedCount : (flushed c).stagedCount = 0 := by
  unfold flushed
  split
  next hcount => exact hcount
  next => rfl

/-- `flush` rings one doorbell for all that is staged. -/
theorem flushed_executed (hlt : c.stagedCount < 2 ^ 32) :
    (flushed c).direct.portal.flatMap Doorbell.executed =
      c.direct.portal.flatMap Doorbell.executed ++ c.list := by
  unfold flushed
  split
  next hcount => simp [list, hcount]
  next hcount =>
    rw [flushTail_portal, List.flatMap_append, List.flatMap_singleton]
    congr 1
    split
    next hone => simp [Doorbell.executed, list, hone]
    next => rw [Doorbell.executed, Nat.mod_eq_of_lt hlt, ← list_length, List.take_length]

theorem submitDescriptor_valid {maxBatch : Nat} {d : D} :
    Valid erase (fun _ => True) (fun _ c' => c'.erase =
      (if maxBatch ≤ (c.store d).stagedCount then flushed (c.store d) else c.store d).erase)
      (submitDescriptor maxBatch d) c := by
  refine valid_load (·.activeBuf) (fun _ => rfl) trivial ?_
  refine valid_load (·.stagedCount) (fun _ => rfl) trivial ?_
  refine valid_store (fun c' =>
    { c' with
      staged := Function.update c'.staged c.activeBuf
        (Function.update (c'.staged c.activeBuf) c.stagedCount d) })
    (fun _ => rfl) trivial ?_
  refine valid_load (·.stagedCount) (fun _ => rfl) trivial ?_
  refine valid_store (fun c' => { c' with stagedCount := c.stagedCount + 1 }) (fun _ => rfl) trivial ?_
  refine valid_load (·.stagedCount) (fun _ => rfl) trivial ?_
  change Valid _ _ _ (if maxBatch ≤ (c.store d).stagedCount then flush else pure ()) (c.store d)
  by_cases hmax : maxBatch ≤ (c.store d).stagedCount
  · simp only [hmax, if_true]
    exact flush_valid
  · simp only [hmax, if_false]
    rfl

end SharedStaging

end DsaStdexec.Submitter

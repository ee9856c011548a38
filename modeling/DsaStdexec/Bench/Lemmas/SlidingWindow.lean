import DsaStdexec.Bench.SlidingWindow
import DsaStdexec.Lib.Index

/-!
# A window that goes round

The window completes its issues in order: issue `k` has slot `k % window`, and the slot that is polled
is that of the oldest issue. So the slots that hold an issue are as many as the window is wide, and a
slot is filled again only after its issue was completed.
-/

namespace DsaStdexec.Bench

open DsaStdexec.Lib

/-! ## Slots -/

namespace WindowSlots

variable {acc : Accelerator} {w lo hi reach : Nat} {x : WindowSlots} {slot issue : Nat} {status : UInt8}

/-- The issues from `lo` up to `hi` have their slots; the slots below `reach` were submitted. -/
structure Inv (acc : Accelerator) (w lo hi reach : Nat) (x : WindowSlots) : Prop where
  ring : ∀ k, lo ≤ k → k < hi → x.current (k % w) = k
  out : ∀ y ∈ x.outstanding, lo ≤ y.2 ∧ y.2 < hi ∧ y.1 = y.2 % w
  nodup : (x.outstanding.map Prod.fst).Nodup
  submitted : ∀ j, j ∈ x.submitted ↔ j < reach
  busy : ∀ j, x.Busy j → j < reach
  status : ∀ j, j < reach → (x.comps j = compNone ↔ x.Busy j)
  fresh : ∀ j, reach ≤ j → x.comps j = compNone
  answers : ∀ j, x.comps j ≠ compNone → acc.Answers (x.comps j)
  faulted : ∀ j, x.comps j ≠ compNone → x.comps j &&& statusMask = acc.fault → j ∈ x.faulted
  clobbered : x.clobbered = []

theorem inv_new : Inv acc w 0 0 0 new where
  ring k _ hk := by omega
  out y hy := by cases hy
  nodup := List.nodup_nil
  submitted j := by simp [new]
  busy j hj := by simp [Busy, new] at hj
  status j hj := by omega
  fresh j _ := rfl
  answers j hj := absurd rfl hj
  faulted j hj := absurd rfl hj
  clobbered := rfl

theorem busy_submit {j : Nat} : (x.submit slot issue).Busy j ↔ x.Busy j ∨ j = slot := by
  simp [Busy, submit, List.map_append]

namespace Inv

/-- A slot that the device does not work on is filled for an issue of its own. -/
theorem submit {hi' reach' : Nat} (h : Inv acc w lo hi reach x) (hslot : slot = issue % w)
    (hfree : ¬ x.Busy slot) (hlo : lo ≤ issue) (hissue : issue < hi') (hhi : hi ≤ hi')
    (hold : ∀ k, hi ≤ k → k < hi' → k = issue)
    (hown : ∀ k, lo ≤ k → k < hi' → k % w = slot → k = issue)
    (hreach : ∀ j, j < reach' ↔ j < reach ∨ j = slot) :
    Inv acc w lo hi' reach' (x.submit slot issue) where
  ring k hk hk' := by
    by_cases hks : k % w = slot
    · simp only [WindowSlots.submit, hks, Function.update_self]
      exact (hown k hk hk' hks).symm
    · simp only [WindowSlots.submit, Function.update_of_ne hks]
      refine h.ring k hk ?_
      rcases Nat.lt_or_ge k hi with hlt | hge
      · exact hlt
      · exact absurd (hold k hge hk' ▸ hslot.symm) hks
  out y hy := by
    rcases List.mem_append.mp hy with hy | hy
    · obtain ⟨h₁, h₂, h₃⟩ := h.out y hy
      exact ⟨h₁, by omega, h₃⟩
    · cases List.mem_singleton.mp hy
      exact ⟨hlo, hissue, hslot⟩
  nodup := by
    simp only [WindowSlots.submit, List.map_append, List.map_cons, List.map_nil]
    refine List.nodup_append.mpr ⟨h.nodup, by simp, ?_⟩
    rintro a ha b hb rfl
    cases List.mem_singleton.mp hb
    exact hfree ha
  submitted j := by
    simp only [WindowSlots.submit, List.mem_append, List.mem_singleton, h.submitted, hreach]
  busy j hj := by
    rcases busy_submit.mp hj with hj | rfl
    · exact (hreach j).mpr (Or.inl (h.busy j hj))
    · exact (hreach j).mpr (Or.inr rfl)
  status j hj := by
    rw [busy_submit]
    by_cases hjs : j = slot
    · simp [WindowSlots.submit, hjs]
    · have := h.status j (((hreach j).mp hj).resolve_right hjs)
      simpa [WindowSlots.submit, hjs] using this
  fresh j hj := by
    have hn : ¬ j < reach' := by omega
    rw [hreach, not_or] at hn
    simp only [WindowSlots.submit, Function.update_of_ne hn.2]
    exact h.fresh j (by omega)
  answers j hj := by
    have hjs : j ≠ slot := fun he => hj (by simp [WindowSlots.submit, he])
    simp only [WindowSlots.submit, Function.update_of_ne hjs] at hj ⊢
    exact h.answers j hj
  faulted j hj := by
    have hjs : j ≠ slot := fun he => hj (by simp [WindowSlots.submit, he])
    simp only [WindowSlots.submit, Function.update_of_ne hjs] at hj ⊢
    exact h.faulted j hj
  clobbered := by simp [WindowSlots.submit, h.clobbered, hfree]

/-- The records that hold a page fault after a slot was submitted again. -/
theorem forget (h : Inv acc w lo hi reach x) (hslot : x.comps slot = compNone) :
    Inv acc w lo hi reach { x with faulted := x.faulted.erase slot } :=
  { h with
    faulted := fun j hj hf => by
      have hne : j ≠ slot := fun he => hj (he ▸ hslot)
      exact (List.mem_erase_of_ne hne).mpr (h.faulted j hj hf) }

/-- The slot of an issue that the device is done with is free. -/
theorem busy_complete (h : Inv acc w lo hi reach x) (hmem : (slot, issue) ∈ x.outstanding) {j : Nat} :
    (x.complete acc slot issue status).Busy j ↔ x.Busy j ∧ j ≠ slot := by
  have hperm := (List.perm_cons_erase hmem).map Prod.fst
  have hnodup := hperm.nodup_iff.mp h.nodup
  rw [List.map_cons, List.nodup_cons] at hnodup
  simp only [Busy, WindowSlots.complete]
  rw [hperm.mem_iff, List.map_cons, List.mem_cons]
  constructor
  · intro hj
    exact ⟨Or.inr hj, fun he => hnodup.1 (he ▸ hj)⟩
  · rintro ⟨hj | hj, hne⟩
    · exact absurd hj hne
    · exact hj

theorem complete (h : Inv acc w lo hi reach x) (hmem : (slot, issue) ∈ x.outstanding)
    (ha : acc.Answers status) : Inv acc w lo hi reach (x.complete acc slot issue status) where
  ring := h.ring
  out y hy := h.out y (List.mem_of_mem_erase hy)
  nodup := h.nodup.sublist (List.erase_sublist.map Prod.fst)
  submitted := h.submitted
  busy j hj := h.busy j ((h.busy_complete hmem).mp hj).1
  status j hj := by
    rw [h.busy_complete hmem]
    by_cases hjs : j = slot
    · simp [WindowSlots.complete, hjs, ha.1]
    · simpa [WindowSlots.complete, hjs] using h.status j hj
  fresh j hj := by
    have hlt : slot < reach := h.busy slot (List.mem_map.mpr ⟨_, hmem, rfl⟩)
    have hjs : j ≠ slot := by omega
    simpa [WindowSlots.complete, hjs] using h.fresh j hj
  answers j hj := by
    by_cases hjs : j = slot
    · simpa [WindowSlots.complete, hjs] using ha
    · simp only [WindowSlots.complete, Function.update_of_ne hjs] at hj ⊢
      exact h.answers j hj
  faulted j hj hf := by
    simp only [WindowSlots.complete, List.mem_append]
    by_cases hjs : j = slot
    · simp only [WindowSlots.complete, hjs, Function.update_self] at hf
      simp [hjs, hf]
    · simp only [WindowSlots.complete, Function.update_of_ne hjs] at hj hf
      exact Or.inl (h.faulted j hj hf)
  clobbered := h.clobbered

/-- The oldest issue is done with. -/
theorem next (h : Inv acc w lo hi reach x) (hfree : ¬ x.Busy (lo % w)) :
    Inv acc w (lo + 1) hi reach x :=
  { h with
    ring := fun k hk hk' => h.ring k (by omega) hk'
    out := fun y hy => by
      obtain ⟨h₁, h₂, h₃⟩ := h.out y hy
      refine ⟨?_, h₂, h₃⟩
      rcases Nat.lt_or_ge lo y.2 with hlt | hge
      · exact hlt
      · have : y.2 = lo := by omega
        exact absurd (List.mem_map.mpr ⟨y, hy, by rw [h₃, this]⟩) hfree }

theorem length_le (h : Inv acc w lo hi reach x) : x.outstanding.length ≤ reach := by
  have hsub : x.outstanding.map Prod.fst ⊆ List.range reach := fun j hj =>
    List.mem_range.mpr (h.busy j hj)
  have := (List.subperm_of_subset h.nodup hsub).length_le
  rwa [List.length_map, List.length_range] at this

end Inv

end WindowSlots

/-! ## Steps -/

namespace SlidingWindow

variable {acc : Accelerator} {concurrency iterations : Nat} {s s' : SlidingWindow} {a : WindowAction}

variable (acc concurrency iterations) in
/-- What a step can do. -/
inductive Effect (s : SlidingWindow) : WindowAction → SlidingWindow → Prop
  | E_Filled (i : Nat) (h : s.stage = .prefill i) (hi : i < window concurrency iterations) :
      Effect s .advance { s with slots := s.slots.submit i i, stage := .prefill (i + 1) }
  | E_Prefilled (i : Nat) (h : s.stage = .prefill i) (hi : ¬ i < window concurrency iterations) :
      Effect s .advance (loop iterations { s with issued := window concurrency iterations })
  | E_OutOfBounds (h : s.stage = .polling) (hs : concurrency ≤ s.slot) :
      Effect s .advance { s with stage := .panicked }
  | E_Spun (h : s.stage = .polling) (hs : s.slot < concurrency) (hc : s.slots.comps s.slot = compNone) :
      Effect s .advance s
  | E_Retried (h : s.stage = .polling) (hs : s.slot < concurrency)
      (hc : s.slots.comps s.slot ≠ compNone)
      (hf : s.slots.comps s.slot &&& statusMask = acc.fault) :
      Effect s .advance { s with slots := s.slots.resubmit s.slot }
  | E_Succeeded (h : s.stage = .polling) (hs : s.slot < concurrency)
      (hc : s.slots.comps s.slot ≠ compNone)
      (hf : s.slots.comps s.slot &&& statusMask = acc.success) :
      Effect s .advance (s.succeed concurrency iterations)
  | E_Failed (h : s.stage = .polling) (hs : s.slot < concurrency)
      (hc : s.slots.comps s.slot ≠ compNone) (hn : ¬ acc.Answers (s.slots.comps s.slot)) :
      Effect s .advance { s with stage := .panicked }
  | E_Returned (i : Nat) (h : s.stage = .draining i) (hi : concurrency ≤ i) :
      Effect s .advance { s with stage := .returned }
  | E_Drains (i : Nat) (h : s.stage = .draining i) (hi : i < concurrency)
      (hc : s.slots.comps i = compNone) : Effect s .advance { s with stage := .drainPolling i }
  | E_Drained (i : Nat) (h : s.stage = .draining i) (hi : i < concurrency)
      (hc : s.slots.comps i ≠ compNone) : Effect s .advance { s with stage := .draining (i + 1) }
  | E_DrainSpun (i : Nat) (h : s.stage = .drainPolling i) (hc : s.slots.comps i = compNone) :
      Effect s .advance s
  | E_DrainPolled (i : Nat) (h : s.stage = .drainPolling i) (hc : s.slots.comps i ≠ compNone) :
      Effect s .advance { s with stage := .draining (i + 1) }
  | E_GaveUp (h : s.stage = .polling) (hs : s.slot < concurrency)
      (hc : s.slots.comps s.slot = compNone) (hb : ¬ s.slots.Busy s.slot) :
      Effect s .giveUp { s with stage := .panicked, gaveUp := s.gaveUp ++ [s.slot] }
  | E_DrainGaveUp (i : Nat) (h : s.stage = .drainPolling i) (hc : s.slots.comps i = compNone)
      (hb : ¬ s.slots.Busy i) :
      Effect s .giveUp { s with stage := .draining (i + 1), gaveUp := s.gaveUp ++ [i] }
  | E_Completed (slot issue : Nat) (status : UInt8) (hm : (slot, issue) ∈ s.slots.outstanding)
      (ha : acc.Answers status) :
      Effect s (.complete slot issue status)
        { s with slots := s.slots.complete acc slot issue status }

theorem advance_effect (h : s.advance acc concurrency iterations = some s') :
    Effect acc concurrency iterations s .advance s' := by
  unfold advance at h
  split at h
  · next i hst =>
      split at h
      · next hi => cases h; exact .E_Filled i hst hi
      · next hi => cases h; exact .E_Prefilled i hst hi
  · next hst =>
      simp only at h
      split at h
      · next hs => cases h; exact .E_OutOfBounds hst hs
      · next hs =>
          have hs := Nat.lt_of_not_le hs
          split at h
          · next hc => cases h; exact .E_Spun hst hs hc
          · next hc =>
              split at h
              · next hf => cases h; exact .E_Retried hst hs hc hf
              · next hf =>
                  split at h
                  · next hok => cases h; exact .E_Succeeded hst hs hc hok
                  · next hok =>
                      cases h
                      refine .E_Failed hst hs hc ?_
                      rintro ⟨-, ha | ha⟩
                      · exact hok ha
                      · exact hf ha
  · next i hst =>
      split at h
      · next hi => cases h; exact .E_Returned i hst hi
      · next hi =>
          have hi := Nat.lt_of_not_le hi
          split at h
          · next hc => cases h; exact .E_Drains i hst hi hc
          · next hc => cases h; exact .E_Drained i hst hi hc
  · next i hst =>
      split at h
      · next hc => cases h; exact .E_DrainSpun i hst hc
      · next hc => cases h; exact .E_DrainPolled i hst hc
  · cases h
  · cases h

theorem step_effect (h : s.step acc concurrency iterations a = some s') :
    Effect acc concurrency iterations s a s' := by
  cases a with
  | advance => exact advance_effect h
  | giveUp =>
      simp only [step, giveUp] at h
      split at h
      · next hst =>
          split at h
          · next hg => cases h; exact .E_GaveUp hst hg.1 hg.2.1 hg.2.2
          · cases h
      · next i hst =>
          split at h
          · next hg => cases h; exact .E_DrainGaveUp i hst hg.1 hg.2
          · cases h
      · cases h
  | complete slot issue status =>
      simp only [step, complete] at h
      split at h
      · next hm => cases h; exact .E_Completed slot issue status (List.contains_iff_mem.mp hm.1) hm.2
      · cases h

/-! ## The invariant -/

/-- The issues that were submitted. -/
def count (s : SlidingWindow) : Nat :=
  match s.stage with
  | .prefill i => i
  | _ => s.issued

/-- The slots that were submitted. -/
def reach (w : Nat) (s : SlidingWindow) : Nat :=
  match s.stage with
  | .prefill i => i
  | _ => w

variable (concurrency iterations) in
/-- What is known at each stage, `w` being the width of the window. -/
def Place (w : Nat) (s : SlidingWindow) : Prop :=
  match s.stage with
  | .prefill i => i ≤ w ∧ s.completed = 0 ∧ s.slot = 0
  | .polling =>
      s.completed < iterations ∧ s.slot = s.completed % w ∧ s.issued = min iterations (s.completed + w)
  | .draining i =>
      s.completed = iterations ∧ i ≤ concurrency ∧ ∀ j, w ≤ j → j < i → j ∈ s.gaveUp
  | .drainPolling i =>
      s.completed = iterations ∧ i < concurrency ∧ w ≤ i ∧ ∀ j, w ≤ j → j < i → j ∈ s.gaveUp
  | .returned => s.completed = iterations ∧ ∀ j, w ≤ j → j < concurrency → j ∈ s.gaveUp
  | .panicked => False

variable (acc concurrency iterations) in
structure Inv (s : SlidingWindow) : Prop where
  slots : s.slots.Inv acc (window concurrency iterations) s.completed s.count
    (s.reach (window concurrency iterations))
  completed_le : s.completed ≤ s.count
  count_le : s.count ≤ iterations
  span : s.count ≤ s.completed + window concurrency iterations
  counted : s.counted = List.range s.completed
  gaveUp : ∀ i ∈ s.gaveUp, window concurrency iterations ≤ i ∧ i < concurrency
  place : s.Place concurrency iterations (window concurrency iterations)

theorem inv_new : Inv acc concurrency iterations new where
  slots := WindowSlots.inv_new
  completed_le := Nat.le_refl 0
  count_le := Nat.zero_le _
  span := Nat.zero_le _
  counted := rfl
  gaveUp i hi := by cases hi
  place := ⟨Nat.zero_le _, rfl, rfl⟩

/-! ## The steps keep it -/

theorem count_eq_issued (hst : ∀ i, s.stage ≠ .prefill i) : s.count = s.issued := by
  unfold count
  split
  · next i hi => exact absurd hi (hst i)
  · rfl

theorem reach_eq_window {w : Nat} (hst : ∀ i, s.stage ≠ .prefill i) : s.reach w = w := by
  unfold reach
  split
  · next i hi => exact absurd hi (hst i)
  · rfl

theorem loop_stage_ne (i : Nat) : (loop iterations s).stage ≠ .prefill i := by
  unfold loop
  split <;> simp

/-- The loop is entered, or left when everything was completed. -/
theorem inv_loop (hslots : s.slots.Inv acc (window concurrency iterations) s.completed s.issued
      (window concurrency iterations))
    (hcompleted : s.completed ≤ s.issued)
    (hissued : s.issued = min iterations (s.completed + window concurrency iterations))
    (hslot : s.slot = s.completed % window concurrency iterations)
    (hcounted : s.counted = List.range s.completed)
    (hgaveUp : ∀ i ∈ s.gaveUp, window concurrency iterations ≤ i ∧ i < concurrency) :
    Inv acc concurrency iterations (loop iterations s) := by
  have hcount : (loop iterations s).count = s.issued := count_eq_issued loop_stage_ne
  refine ⟨?_, ?_, ?_, ?_, hcounted, hgaveUp, ?_⟩
  · rw [hcount, reach_eq_window loop_stage_ne]
    exact hslots
  · rw [hcount]
    exact hcompleted
  · rw [hcount]
    omega
  · rw [hcount]
    change s.issued ≤ s.completed + _
    omega
  · by_cases hlt : s.completed < iterations
    · simp only [Place, loop, hlt, if_true]
      exact ⟨trivial, hslot, hissued⟩
    · simp only [Place, loop, hlt, if_false]
      exact ⟨by omega, Nat.zero_le _, fun j _ hj => by omega⟩

namespace Inv

theorem fill {i : Nat} (h : Inv acc concurrency iterations s) (hst : s.stage = .prefill i)
    (hi : i < window concurrency iterations) :
    Inv acc concurrency iterations
      { s with slots := s.slots.submit i i, stage := .prefill (i + 1) } := by
  have hplace := h.place
  simp only [Place, hst] at hplace
  obtain ⟨-, hzero, hslot⟩ := hplace
  have hslots := h.slots
  simp only [count, reach, hst, hzero] at hslots
  have hle : window concurrency iterations ≤ iterations := Nat.min_le_right _ _
  refine ⟨?_, ?_, ?_, ?_, h.counted, h.gaveUp, ⟨hi, hzero, hslot⟩⟩
  · simp only [count, reach, hzero]
    refine hslots.submit (Nat.mod_eq_of_lt hi).symm ?_ (Nat.zero_le _) (Nat.lt_succ_self i)
      (Nat.le_succ i) ?_ ?_ ?_
    · exact fun hb => Nat.lt_irrefl i (hslots.busy i hb)
    · intro k hk hk'
      omega
    · intro k _ hk hmod
      rwa [Nat.mod_eq_of_lt (by omega)] at hmod
    · intro j
      omega
  · simp only [count, hzero]
    omega
  · simp only [count]
    omega
  · simp only [count, hzero]
    omega

theorem prefilled {i : Nat} (h : Inv acc concurrency iterations s) (hst : s.stage = .prefill i)
    (hi : ¬ i < window concurrency iterations) :
    Inv acc concurrency iterations
      (loop iterations { s with issued := window concurrency iterations }) := by
  have hplace := h.place
  simp only [Place, hst] at hplace
  obtain ⟨hle, hzero, hslot⟩ := hplace
  obtain rfl : i = window concurrency iterations := by omega
  have hslots := h.slots
  simp only [count, reach, hst, hzero] at hslots
  have hmin : window concurrency iterations ≤ iterations := Nat.min_le_right _ _
  refine inv_loop ?_ ?_ ?_ ?_ h.counted h.gaveUp
  · rw [hzero]
    exact hslots
  · simp only [hzero]
    omega
  · simp only [hzero]
    omega
  · simp only [hzero, hslot, Nat.zero_mod]

/-- What holds when the record of a slot is polled. -/
theorem polling (h : Inv acc concurrency iterations s) (hst : s.stage = .polling) :
    s.slots.Inv acc (window concurrency iterations) s.completed s.issued
        (window concurrency iterations) ∧
      s.completed < iterations ∧ s.slot = s.completed % window concurrency iterations ∧
      s.issued = min iterations (s.completed + window concurrency iterations) := by
  have hslots := h.slots
  have hplace := h.place
  simp only [count, reach, hst] at hslots
  simp only [Place, hst] at hplace
  exact ⟨hslots, hplace⟩

/-- The polled slot is one of the window, and holds the oldest issue. -/
theorem polled_slot (h : Inv acc concurrency iterations s) (hst : s.stage = .polling)
    (hc : 0 < concurrency) :
    0 < window concurrency iterations ∧ s.slot < window concurrency iterations ∧
      s.completed < s.issued ∧ s.slots.current s.slot = s.completed := by
  obtain ⟨hslots, hlt, hslot, hissued⟩ := h.polling hst
  have hpos : 0 < window concurrency iterations := by
    rw [window, Nat.lt_min]
    omega
  have hissued' : s.completed < s.issued := by omega
  refine ⟨hpos, hslot ▸ Nat.mod_lt _ hpos, hissued', ?_⟩
  rw [hslot]
  exact hslots.ring s.completed (Nat.le_refl _) hissued'

/-- The polled slot is not busy once its record is written. -/
theorem not_busy (h : Inv acc concurrency iterations s) (hst : s.stage = .polling)
    (hs : s.slot < concurrency) (hc : s.slots.comps s.slot ≠ compNone) : ¬ s.slots.Busy s.slot := by
  obtain ⟨-, hslot, -, -⟩ := h.polled_slot hst (by omega)
  exact fun hb => hc (((h.polling hst).1.status _ hslot).mpr hb)

theorem retry (h : Inv acc concurrency iterations s) (hst : s.stage = .polling)
    (hs : s.slot < concurrency) (hc : s.slots.comps s.slot ≠ compNone) :
    Inv acc concurrency iterations { s with slots := s.slots.resubmit s.slot } := by
  obtain ⟨hslots, hlt, hslot, hissued⟩ := h.polling hst
  obtain ⟨hpos, hw, hissued', hcurrent⟩ := h.polled_slot hst (by omega)
  refine ⟨?_, h.completed_le, h.count_le, h.span, h.counted, h.gaveUp, h.place⟩
  simp only [count, reach, hst, WindowSlots.resubmit]
  refine WindowSlots.Inv.forget (hslots.submit ?_ (h.not_busy hst hs hc) ?_ ?_ (Nat.le_refl _) ?_ ?_ ?_) ?_
  · rw [hcurrent, hslot]
  · omega
  · omega
  · intro k hk hk'
    omega
  · intro k hk hk' hmod
    rw [hcurrent]
    exact eq_of_mod_eq hk (by omega) (Nat.le_refl _) (by omega) (hmod.trans hslot)
  · intro j
    omega
  · simp [WindowSlots.submit]

theorem succeed (h : Inv acc concurrency iterations s) (hst : s.stage = .polling)
    (hs : s.slot < concurrency) (hc : s.slots.comps s.slot ≠ compNone) :
    Inv acc concurrency iterations (s.succeed concurrency iterations) := by
  obtain ⟨hslots, hlt, hslot, hissued⟩ := h.polling hst
  obtain ⟨hpos, hw, hissued', hcurrent⟩ := h.polled_slot hst (by omega)
  have hfree := h.not_busy hst hs hc
  have hnext := hslots.next (hslot ▸ hfree)
  have hcounted : s.counted ++ [s.slots.current s.slot] = List.range (s.completed + 1) := by
    rw [hcurrent, h.counted, List.range_succ]
  have hround : (s.slot + 1) % window concurrency iterations =
      (s.completed + 1) % window concurrency iterations := by
    rw [hslot, Nat.mod_add_mod]
  unfold SlidingWindow.succeed
  by_cases hmore : s.issued < iterations
  · simp only [hmore, if_true]
    refine inv_loop ?_ ?_ ?_ hround hcounted h.gaveUp
    · -- the next issue goes into the slot of the one that is done with
      have hmod : s.slot = s.issued % window concurrency iterations := by
        rw [hslot, show s.issued = s.completed + window concurrency iterations by omega, Nat.add_mod_right]
      change WindowSlots.Inv acc _ (s.completed + 1) (s.issued + 1) _ _
      refine hnext.submit hmod hfree (by omega) (Nat.lt_succ_self _) (Nat.le_succ _) ?_ ?_ ?_
      · intro k hk hk'
        omega
      · intro k hk hk' hmodk
        exact eq_of_mod_eq hk (by omega) (by omega) (by omega) (hmodk.trans hmod)
      · intro j
        omega
    · change s.completed + 1 ≤ s.issued + 1
      omega
    · change s.issued + 1 = min iterations (s.completed + 1 + _)
      omega
  · simp only [hmore, if_false]
    refine inv_loop hnext hissued' ?_ hround hcounted h.gaveUp
    change s.issued = min iterations (s.completed + 1 + _)
    omega

/-- Once everything was completed, nothing is outstanding, and the records of the window are written. -/
theorem written {i : Nat} (h : Inv acc concurrency iterations s) (hst : ∀ i, s.stage ≠ .prefill i)
    (hall : s.completed = iterations) :
    s.slots.outstanding = [] ∧ (s.slots.comps i = compNone ↔ window concurrency iterations ≤ i) := by
  have hslots := h.slots
  have hcount := h.count_le
  have hnil : s.slots.outstanding = [] := by
    refine List.eq_nil_iff_forall_not_mem.mpr fun y hy => ?_
    obtain ⟨h₁, h₂, -⟩ := hslots.out y hy
    omega
  rw [reach_eq_window hst] at hslots
  refine ⟨hnil, ?_⟩
  constructor
  · intro hc
    by_contra hlt
    have := (hslots.status i (by omega)).mp hc
    rw [WindowSlots.Busy, hnil] at this
    cases this
  · exact hslots.fresh i

/-- A step that only goes on with the drain. -/
theorem drain {stage : WindowStage} {gaveUp : List Nat} (h : Inv acc concurrency iterations s)
    (hst : ∀ i, s.stage ≠ .prefill i) (hst' : ∀ i, stage ≠ .prefill i)
    (hgaveUp : ∀ i ∈ gaveUp, window concurrency iterations ≤ i ∧ i < concurrency)
    (hplace : Place concurrency iterations (window concurrency iterations)
      { s with stage := stage, gaveUp := gaveUp }) :
    Inv acc concurrency iterations { s with stage := stage, gaveUp := gaveUp } := by
  have hcount : count { s with stage := stage, gaveUp := gaveUp } = s.count :=
    (count_eq_issued hst').trans (count_eq_issued hst).symm
  refine ⟨?_, ?_, ?_, ?_, h.counted, hgaveUp, hplace⟩
  · have hslots := h.slots
    rw [reach_eq_window hst] at hslots
    rw [hcount, reach_eq_window hst']
    exact hslots
  · rw [hcount]
    exact h.completed_le
  · rw [hcount]
    exact h.count_le
  · rw [hcount]
    exact h.span

end Inv

theorem inv_step (hcn : concurrency = 0 → iterations = 0) (h : Inv acc concurrency iterations s)
    (hs : s.step acc concurrency iterations a = some s') : Inv acc concurrency iterations s' := by
  have hplace := h.place
  cases step_effect hs with
  | E_Filled i hst hi => exact h.fill hst hi
  | E_Prefilled i hst hi => exact h.prefilled hst hi
  | E_OutOfBounds hst hout =>
      exfalso
      have hlt := (h.polling hst).2.1
      obtain ⟨-, hw, -, -⟩ := h.polled_slot hst (by omega)
      have : window concurrency iterations ≤ concurrency := Nat.min_le_left _ _
      omega
  | E_Spun => exact h
  | E_Retried hst hlt hc hf => exact h.retry hst hlt hc
  | E_Succeeded hst hlt hc hf => exact h.succeed hst hlt hc
  | E_Failed hst hlt hc hn => exact absurd (h.slots.answers _ hc) hn
  | E_Returned i hst hi =>
      simp only [Place, hst] at hplace
      refine h.drain (by simp [hst]) (by simp) h.gaveUp ⟨hplace.1, fun j hj hjc => ?_⟩
      exact hplace.2.2 j hj (by omega)
  | E_Drains i hst hi hc =>
      simp only [Place, hst] at hplace
      have hw := (h.written (by simp [hst]) hplace.1).2.mp hc
      exact h.drain (by simp [hst]) (by simp) h.gaveUp ⟨hplace.1, hi, hw, hplace.2.2⟩
  | E_Drained i hst hi hc =>
      simp only [Place, hst] at hplace
      have hw : ¬ window concurrency iterations ≤ i := fun hle =>
        hc ((h.written (by simp [hst]) hplace.1).2.mpr hle)
      refine h.drain (by simp [hst]) (by simp) h.gaveUp ⟨hplace.1, hi, fun j hj hji => ?_⟩
      exact hplace.2.2 j hj (by omega)
  | E_DrainSpun => exact h
  | E_DrainPolled i hst hc =>
      simp only [Place, hst] at hplace
      exact absurd ((h.written (by simp [hst]) hplace.1).2.mpr hplace.2.2.1) hc
  | E_GaveUp hst hlt hc hb =>
      obtain ⟨-, hw, -, -⟩ := h.polled_slot hst (by omega)
      exact absurd (((h.polling hst).1.status _ hw).mp hc) hb
  | E_DrainGaveUp i hst hc hb =>
      simp only [Place, hst] at hplace
      obtain ⟨hall, hi, hw, hskipped⟩ := hplace
      refine h.drain (by simp [hst]) (by simp) ?_ ⟨hall, hi, fun j hj hji => ?_⟩
      · intro j hj
        rcases List.mem_append.mp hj with hj | hj
        · exact h.gaveUp j hj
        · cases List.mem_singleton.mp hj
          exact ⟨hw, hi⟩
      · rcases Nat.lt_or_ge j i with hlt | hge
        · exact List.mem_append_left _ (hskipped j hj hlt)
        · obtain rfl : j = i := by omega
          exact List.mem_append_right _ List.mem_cons_self
  | E_Completed slot issue status hm ha =>
      exact ⟨h.slots.complete hm ha, h.completed_le, h.count_le, h.span, h.counted, h.gaveUp, h.place⟩

theorem inv_of_run (hcn : concurrency = 0 → iterations = 0) {as : List WindowAction}
    (hs : (machine acc concurrency iterations).run as = some s) : Inv acc concurrency iterations s :=
  Machine.run_invariant (M := machine acc concurrency iterations)
    (I := Inv acc concurrency iterations) inv_new (fun _ _ _ h hst => inv_step hcn h hst) hs

namespace Inv

theorem reach_le (h : Inv acc concurrency iterations s) :
    s.reach (window concurrency iterations) ≤ window concurrency iterations := by
  have hplace := h.place
  unfold reach
  split
  · next i hi =>
      simp only [Place, hi] at hplace
      exact hplace.1
  · exact Nat.le_refl _

/-- A window as wide as the records are many is sound. -/
theorem sound (h : Inv acc concurrency iterations s) (hle : concurrency ≤ iterations)
    (hcn : concurrency = 0 → iterations = 0) : Sound concurrency iterations s := by
  have hwindow : window concurrency iterations = concurrency := Nat.min_eq_left hle
  have hplace := h.place
  refine ⟨⟨?_, ?_⟩, ?_, h.slots.clobbered, ?_, ?_, ?_, ?_⟩
  · rw [h.counted]
    exact List.nodup_range
  · rw [h.counted, List.length_range]
  · intro hst
    simp only [Place, hst] at hplace
    rw [h.counted, hplace.1]
    exact ⟨rfl, List.Perm.refl _⟩
  · exact h.slots.length_le.trans h.reach_le
  · intro i hi
    unfold polled at hi
    split at hi
    · next hst =>
        cases hi
        have hlt := (h.polling hst).2.1
        exact ((h.polling hst).1.submitted _).mpr (h.polled_slot hst (by omega)).2.1
    · next j hst =>
        simp only [Place, hst] at hplace
        omega
    · cases hi
  · refine List.eq_nil_iff_forall_not_mem.mpr fun i hi => ?_
    have := h.gaveUp i hi
    omega
  · intro hst
    simp only [Place, hst] at hplace

end Inv

/-! ## The end of a run -/

/-- What is left to do before the end of a run. -/
def stageWeight (concurrency w : Nat) : WindowStage → Nat
  | .prefill i => 2 * (w - i) + 2 * concurrency + 3
  | .polling => 2 * concurrency + 2
  | .draining i => 2 * (concurrency - i) + 1
  | .drainPolling i => 2 * (concurrency - i)
  | .returned | .panicked => 0

/-- The steps that are left, but for those that page faults add. -/
def potential (concurrency iterations : Nat) (s : SlidingWindow) : Nat :=
  2 * (iterations - s.completed) + s.slots.outstanding.length + 2 * s.slots.faulted.length +
    stageWeight concurrency (window concurrency iterations) s.stage

theorem stageWeight_loop (w : Nat) :
    stageWeight concurrency w (loop iterations s).stage ≤ 2 * concurrency + 2 := by
  unfold loop
  simp only
  split <;> simp only [stageWeight] <;> omega

theorem potential_succeed (hlt : s.completed < iterations) (hst : s.stage = .polling) :
    (s.succeed concurrency iterations).potential concurrency iterations + 1 ≤
      s.potential concurrency iterations := by
  unfold succeed
  simp only [potential, hst, stageWeight]
  split
  · refine Nat.le_trans (Nat.add_le_add_right (Nat.add_le_add_left (stageWeight_loop _) _) 1) ?_
    simp only [loop, WindowSlots.submit, List.length_append, List.length_singleton]
    omega
  · refine Nat.le_trans (Nat.add_le_add_right (Nat.add_le_add_left (stageWeight_loop _) _) 1) ?_
    simp only [loop]
    omega

/-- The answer of a page fault adds two steps: the submission and its answer. -/
def faultCost (acc : Accelerator) (a : WindowAction) : Nat := if isFault acc a then 2 else 0

theorem sum_faultCost (as : List WindowAction) :
    (as.map (faultCost acc)).sum = 2 * as.countP (isFault acc) := by
  induction as with
  | nil => rfl
  | cons a as ih =>
      rw [List.map_cons, List.sum_cons, ih, List.countP_cons, faultCost]
      split <;> omega

theorem potential_step (h : Inv acc concurrency iterations s)
    (hm : s.Moves a) (hs : s.step acc concurrency iterations a = some s') :
    s'.potential concurrency iterations + 1 ≤ s.potential concurrency iterations + faultCost acc a := by
  have hplace := h.place
  cases step_effect hs with
  | E_Filled i hst hi =>
      simp only [potential, hst, stageWeight, WindowSlots.submit, List.length_append, List.length_singleton]
      omega
  | E_Prefilled i hst hi =>
      simp only [potential, hst]
      refine Nat.le_trans (Nat.add_le_add_right (Nat.add_le_add_left (stageWeight_loop _) _) 1) ?_
      simp only [loop, stageWeight]
      omega
  | E_Spun hst hlt hc => exact absurd hc (hm rfl s.slot (by simp only [polled, hst]))
  | E_DrainSpun i hst hc => exact absurd hc (hm rfl i (by simp only [polled, hst]))
  | E_Retried hst hlt hc hf =>
      have hmem := h.slots.faulted _ hc hf
      have hpos := List.length_pos_of_mem hmem
      have herase := List.length_erase_of_mem hmem
      simp only [potential, WindowSlots.resubmit, herase, WindowSlots.submit, List.length_append,
        List.length_singleton]
      omega
  | E_Succeeded hst hlt hc hf => exact Nat.le_add_right_of_le (potential_succeed (h.polling hst).2.1 hst)
  | E_OutOfBounds hst | E_Failed hst | E_GaveUp hst =>
      simp only [potential, hst, stageWeight]
      omega
  | E_Returned i hst hi | E_Drains i hst hi =>
      simp only [potential, hst, stageWeight]
      omega
  | E_Drained i hst hi =>
      simp only [potential, hst, stageWeight]
      omega
  | E_DrainPolled i hst | E_DrainGaveUp i hst =>
      simp only [Place, hst] at hplace
      simp only [potential, hst, stageWeight]
      omega
  | E_Completed slot issue status hmem ha =>
      have hpos := List.length_pos_of_mem hmem
      have herase := List.length_erase_of_mem hmem
      simp only [potential, WindowSlots.complete, herase, List.length_append, faultCost, isFault]
      by_cases hf : status &&& statusMask = acc.fault
      · simp only [hf, if_true, List.length_cons, List.length_nil, decide_true]
        omega
      · simp only [hf, if_false, List.length_nil, decide_false, Bool.false_eq_true]
        omega

theorem advance_isSome (hreturned : s.stage ≠ .returned) (hpanicked : s.stage ≠ .panicked) :
    (s.advance acc concurrency iterations).isSome = true := by
  unfold advance
  split
  · split <;> rfl
  · simp only
    split
    · rfl
    · split
      · rfl
      · split
        · rfl
        · split <;> rfl
  · split
    · rfl
    · split <;> rfl
  · split <;> rfl
  · next hst => exact absurd hst hreturned
  · next hst => exact absurd hst hpanicked

/-- Before its end a run can move on without a page fault. -/
theorem exists_move (hcn : concurrency = 0 → iterations = 0) (h : Inv acc concurrency iterations s)
    (hst : s.stage ≠ .returned) :
    ∃ a s', s.step acc concurrency iterations a = some s' ∧ s.Moves a ∧ isFault acc a = false := by
  have hplace := h.place
  by_cases hspins : ∃ i, s.polled = some i ∧ s.slots.comps i = compNone
  · obtain ⟨i, hi, hc⟩ := hspins
    unfold polled at hi
    split at hi
    · -- the device still works on the slot that the loop polls
      next hstage =>
        cases hi
        obtain ⟨hslots, hlt, -, -⟩ := h.polling hstage
        obtain ⟨-, hw, -, -⟩ := h.polled_slot hstage (by omega)
        obtain ⟨⟨slot, issue⟩, hmem, -⟩ := List.mem_map.mp ((hslots.status _ hw).mp hc)
        have ha : acc.Answers acc.success := ⟨acc.success_ne, Or.inl acc.success_masked⟩
        refine ⟨.complete slot issue acc.success, _, if_pos ⟨List.contains_iff_mem.mpr hmem, ha⟩,
          fun he => (by cases he), ?_⟩
        simp [isFault, acc.success_masked, acc.ne]
    · -- the drain polls a record that was never submitted
      next j hstage =>
        cases hi
        simp only [Place, hstage] at hplace
        have hb : ¬ s.slots.Busy i := by
          simp [WindowSlots.Busy, (h.written (i := i) (by simp [hstage]) hplace.1).1]
        refine ⟨.giveUp, { s with stage := .draining (i + 1), gaveUp := s.gaveUp ++ [i] }, ?_,
          fun he => (by cases he), rfl⟩
        simp only [step, giveUp, hstage, hc, hb, not_false_eq_true, and_self, if_true]
    · cases hi
  · have hp : s.stage ≠ .panicked := by
      intro hp
      simp only [Place, hp] at hplace
    obtain ⟨s', hs⟩ := Option.isSome_iff_exists.mp (advance_isSome hst hp)
    exact ⟨.advance, s', hs, fun _ i hi hc => hspins ⟨i, hi, hc⟩, rfl⟩

theorem canReturn (hcn : concurrency = 0 → iterations = 0) (h : Inv acc concurrency iterations s) :
    (machine acc concurrency iterations).CanReach (fun t => t.stage = .returned) s := by
  induction hn : s.potential concurrency iterations using Nat.strongRecOn generalizing s with
  | ind n ih =>
      by_cases hst : s.stage = .returned
      · exact .here hst
      · obtain ⟨a, s', hs, hm, hf⟩ := exists_move hcn h hst
        have hlt := potential_step h hm hs
        simp only [faultCost, hf, Bool.false_eq_true, if_false] at hlt
        exact .step hs (ih _ (by omega) (inv_step hcn h hs) rfl)

end SlidingWindow

end DsaStdexec.Bench

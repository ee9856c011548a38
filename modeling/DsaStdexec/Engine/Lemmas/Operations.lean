import DsaStdexec.Engine.Operations

/-!
# The life of an operation
-/

namespace DsaStdexec.Engine

open DsaStdexec.Lib DsaStdexec.Operation

variable {ι : Type} {ρ : ι → Type}

/-- What an operation waits for while it is with the queue or with a call. -/
inductive Place where
  /-- A `submit` is going to hand it to the device. -/
  | submitting
  /-- It has been handed to the device, and is in the queue or about to be pushed. -/
  | handed
  /-- A `poll` is going to notify it. -/
  | polled

def Call.places : Call ι → List (ι × Place)
  | .submitting i _ => [(i, .submitting)]
  | .pushing i => [(i, .handed)]
  | .polling todo => todo.map (·, .polled)
  | .receiver => []

theorem Call.places_live (f : Call ι) : f.places.map Prod.fst = f.live := by
  cases f <;> simp [places, live, Function.comp_def]

namespace OperationSystem

variable {Q : TaskQueue ι}

/-- The operations that are with the queue or with a call. -/
def live (s : OperationSystem ρ Q) : List ι := Q.contents s.queue ++ s.stack.flatMap Call.live

def places (s : OperationSystem ρ Q) : List (ι × Place) :=
  (Q.contents s.queue).map (·, .handed) ++ s.stack.flatMap Call.places

variable {s s' : OperationSystem ρ Q}

theorem places_live (s : OperationSystem ρ Q) : s.places.map Prod.fst = s.live := by
  simp only [places, live, List.map_append, List.map_map, List.map_flatMap, Call.places_live,
    Function.comp_def, List.map_id']

theorem live_of_stack {f : Call ι} {rest : List (Call ι)} (hst : s.stack = f :: rest) :
    s.live = Q.contents s.queue ++ (f.live ++ rest.flatMap Call.live) := by
  rw [live, hst, List.flatMap_cons]

theorem places_of_stack {f : Call ι} {rest : List (Call ι)} (hst : s.stack = f :: rest) :
    s.places = (Q.contents s.queue).map (·, .handed) ++ (f.places ++ rest.flatMap Call.places) := by
  rw [places, hst, List.flatMap_cons]

theorem live_startPoll (s : OperationSystem ρ Q) : s.startPoll.live.Perm s.live := by
  have hsweep : (Q.contents (Q.sweep s.completed s.queue).2 ++ (Q.sweep s.completed s.queue).1).Perm
      (Q.contents s.queue) :=
    ((Q.kept_perm _ _).append (Q.done_perm _ _)).trans
      (List.perm_append_comm.trans (List.filter_append_perm _ _))
  have := hsweep.append_right (s.stack.flatMap Call.live)
  rwa [List.append_assoc] at this

/-- A poll moves the answered operations of the queue and leaves everything else where it is. -/
theorem mem_places_startPoll {i : ι} {p : Place} (s : OperationSystem ρ Q) :
    (i, p) ∈ s.startPoll.places ↔
      (i ∈ Q.contents s.queue ∧ p = if s.completed i then .polled else .handed) ∨
      (i, p) ∈ s.stack.flatMap Call.places := by
  have hkept := (Q.kept_perm s.completed s.queue).mem_iff (a := i)
  have hdone := (Q.done_perm s.completed s.queue).mem_iff (a := i)
  rw [List.mem_filter] at hkept hdone
  simp only [places, startPoll, List.flatMap_cons, Call.places, List.mem_append, List.mem_map,
    Prod.mk.injEq, ← or_assoc]
  cases hc : s.completed i <;> cases p <;> simp_all

variable [DecidableEq ι] {ops : (i : ι) → DsaOperation (ρ i)} {a : OperationAction ι}

/-! ## Steps -/

/-- `start` up to the check. -/
def prepare (s : OperationSystem ρ Q) (i : ι) : OperationSystem ρ Q :=
  { s with
    desc := Function.update s.desc i HwDesc.zero
    comp := Function.update s.comp i zeroRecord
    started := Function.update s.started i true }

inductive Effect (ops : (i : ι) → DsaOperation (ρ i)) (s : OperationSystem ρ Q) :
    OperationAction ι → OperationSystem ρ Q → Prop where
  | E_Reject {i e} (hc : s.callable = true) (hnew : s.started i = false) :
      Effect ops s (.start i) ((s.prepare i).signal i (.setError (.dsa e)) .rejected s.stack)
  | E_Start {i d} (hc : s.callable = true) (hnew : s.started i = false) :
      Effect ops s (.start i)
        { s.prepare i with
          desc := Function.update (s.prepare i).desc i d
          stack := .submitting i true :: s.stack }
  | E_Poll (hc : s.callable = true) : Effect ops s .poll s.startPoll
  | E_Throw {i b rest e x} (hst : s.stack = .submitting i b :: rest) :
      Effect ops s (.throw e) (s.signal i (.setError x) .thrown rest)
  | E_SubmitPoll {i b rest} (hst : s.stack = .submitting i b :: rest) :
      Effect ops s .submitPoll s.startPoll
  | E_Ring {i b rest} (hst : s.stack = .submitting i b :: rest) :
      Effect ops s .ring
        { s with
          history := Function.update s.history i (s.history i ++ [.rung (s.comp i)])
          hw := i :: s.hw
          stack := .pushing i :: rest }
  | E_Push {i rest q} (hst : s.stack = .pushing i :: rest) (hq : Q.push s.queue i = some q) :
      Effect ops s .advance { s with queue := q, stack := rest }
  | E_Signal {i todo rest c} (hst : s.stack = .polling (i :: todo) :: rest)
      (hf : (s.comp i).code ≠ compPageFaultNobof) :
      Effect ops s .advance (s.signal i c (.polled (s.comp i)) (.polling todo :: rest))
  | E_Retry {i todo rest d} (hst : s.stack = .polling (i :: todo) :: rest)
      (hf : (s.comp i).code = compPageFaultNobof) :
      Effect ops s .advance
        { s with
          desc := Function.update s.desc i d
          comp := Function.update s.comp i zeroRecord
          history := Function.update s.history i (s.history i ++ [.polled (s.comp i)])
          stack := .submitting i false :: .polling todo :: rest }
  | E_PollReturn {rest} (hst : s.stack = .polling [] :: rest) :
      Effect ops s .advance { s with stack := rest }
  | E_ReceiverReturn {rest} (hst : s.stack = .receiver :: rest) :
      Effect ops s .receiverReturn { s with stack := rest }
  | E_Complete {i record} (hi : i ∈ s.hw) (hr : record.status ≠ 0) :
      Effect ops s (.complete i record)
        { s with
          hw := s.hw.erase i
          comp := Function.update s.comp i record
          history := Function.update s.history i (s.history i ++ [.answered record]) }

theorem notify_effect {i : ι} {todo : List ι} {rest : List (Call ι)}
    (hst : s.stack = .polling (i :: todo) :: rest) :
    Effect ops s .advance (s.notify ops i (.polling todo :: rest)) := by
  unfold notify
  cases hn : (ops i).notify (s.desc i) (s.comp i) with
  | value r =>
      refine .E_Signal hst fun hf => ?_
      simp [DsaOperation.notify, DsaOperation.succeeds, hf, compPageFaultNobof, compSuccess,
        compSuccessPred] at hn
  | error e =>
      refine .E_Signal hst fun hf => ?_
      simp [DsaOperation.notify, DsaOperation.succeeds, hf, compPageFaultNobof, compSuccess,
        compSuccessPred] at hn
  | resubmit d =>
      refine .E_Retry hst ?_
      by_contra hf
      simp only [DsaOperation.notify, hf, if_false] at hn
      split at hn <;> cases hn

theorem step_effect (h : step ops s a = some s') : Effect ops s a s' := by
  cases a with
  | start i =>
      simp only [step] at h
      split at h <;> cases h
      rename_i hc
      unfold start
      cases hv : (ops i).preStartValidate with
      | some e => exact .E_Reject hc.1 hc.2
      | none => exact .E_Start hc.1 hc.2
  | poll =>
      simp only [step] at h
      split at h <;> cases h
      rename_i hc
      exact .E_Poll hc
  | throw e =>
      simp only [step, submitting] at h
      split at h <;> cases h
      rename_i hst
      exact .E_Throw hst
  | submitPoll =>
      simp only [step, submitting] at h
      split at h <;> cases h
      rename_i hst
      exact .E_SubmitPoll hst
  | ring =>
      simp only [step, submitting] at h
      split at h <;> cases h
      rename_i hst
      exact .E_Ring hst
  | advance =>
      simp only [step, advance] at h
      split at h
      · rename_i hst
        obtain ⟨q, hq, rfl⟩ := Option.map_eq_some_iff.mp h
        exact .E_Push hst hq
      · rename_i hst; cases h; exact .E_PollReturn hst
      · rename_i hst; cases h; exact notify_effect hst
      · cases h
  | receiverReturn =>
      simp only [step] at h
      split at h <;> cases h
      rename_i hst
      exact .E_ReceiverReturn hst
  | complete i record =>
      simp only [step] at h
      split at h <;> cases h
      rename_i hc
      exact .E_Complete hc.1 hc.2

/-! ## Every operation in one place, and every receiver signalled once -/

/-- An operation is with the queue or with a call, once, from its start until its receiver is
signalled. -/
structure Custody (s : OperationSystem ρ Q) : Prop where
  nodup : s.live.Nodup
  live_iff : ∀ i, i ∈ s.live ↔ s.started i = true ∧ s.signals i = []
  fresh : ∀ i, s.started i = false → s.signals i = []
  once : ∀ i, (s.signals i).length ≤ 1

omit [DecidableEq ι] in
theorem Custody.of_perm (h : Custody s) (hl : s'.live.Perm s.live) (hs : s'.signals = s.signals)
    (hst : s'.started = s.started) : Custody s' where
  nodup := hl.nodup_iff.mpr h.nodup
  live_iff i := by rw [hl.mem_iff, hs, hst]; exact h.live_iff i
  fresh i := by rw [hs, hst]; exact h.fresh i
  once i := by rw [hs]; exact h.once i

/-- A receiver is signalled while its operation is with a call, which then lets it go. -/
theorem Custody.signal {i : ι} {c : Completion (ρ i)} {e : Event} {stack : List (Call ι)}
    (h : Custody s) (hl : s.live.Perm (i :: (Q.contents s.queue ++ stack.flatMap Call.live))) :
    Custody (s.signal i c e stack) := by
  have hlive : (s.signal i c e stack).live = Q.contents s.queue ++ stack.flatMap Call.live := rfl
  have hi := (h.live_iff i).mp (hl.mem_iff.mpr List.mem_cons_self)
  obtain ⟨hnot, hnodup⟩ := List.nodup_cons.mp (hl.nodup_iff.mp h.nodup)
  refine ⟨hlive ▸ hnodup, fun j => ?_, fun j hj => ?_, fun j => ?_⟩
  · rw [hlive]
    by_cases hj : j = i
    · subst hj
      simp only [OperationSystem.signal, Function.update_self]
      exact iff_of_false hnot (by simp)
    · have := h.live_iff j
      rw [hl.mem_iff, List.mem_cons] at this
      simpa [OperationSystem.signal, hj] using this
  · have hne : j ≠ i := by
      rintro rfl
      rw [show s.started j = false from hj] at hi
      cases hi.1
    simpa [OperationSystem.signal, hne] using h.fresh j hj
  · by_cases hj : j = i
    · subst hj
      simp [OperationSystem.signal, hi.2]
    · simpa [OperationSystem.signal, hj] using h.once j

theorem Custody.start {i : ι} {d : HwDesc} (h : Custody s) (hnew : s.started i = false) :
    Custody { s.prepare i with
      desc := Function.update (s.prepare i).desc i d
      stack := .submitting i true :: s.stack } := by
  have hnot : i ∉ s.live := fun hi => by
    rw [((h.live_iff i).mp hi).1] at hnew
    cases hnew
  have hl : (Q.contents s.queue ++ i :: s.stack.flatMap Call.live).Perm (i :: s.live) :=
    List.perm_middle
  refine ⟨hl.nodup_iff.mpr (List.nodup_cons.mpr ⟨hnot, h.nodup⟩), fun j => ?_, fun j hj => ?_, h.once⟩
  · change j ∈ Q.contents s.queue ++ i :: s.stack.flatMap Call.live ↔ _
    rw [hl.mem_iff, List.mem_cons]
    by_cases hj : j = i
    · subst hj
      simp [prepare, h.fresh j hnew]
    · simpa [prepare, hj] using h.live_iff j
  · have hne : j ≠ i := by
      rintro rfl
      simp [prepare] at hj
    exact h.fresh j (by simpa [prepare, hne] using hj)

theorem Custody.reject {i : ι} {c : Completion (ρ i)} {e : Event} (h : Custody s)
    (hnew : s.started i = false) : Custody ((s.prepare i).signal i c e s.stack) := by
  have hnot : i ∉ s.live := fun hi => by
    rw [((h.live_iff i).mp hi).1] at hnew
    cases hnew
  refine ⟨h.nodup, fun j => ?_, fun j hj => ?_, fun j => ?_⟩
  · by_cases hj : j = i
    · subst hj
      exact iff_of_false hnot (by simp [OperationSystem.signal, prepare])
    · change j ∈ s.live ↔ _
      simpa [OperationSystem.signal, prepare, hj] using h.live_iff j
  · have hne : j ≠ i := by
      rintro rfl
      simp [OperationSystem.signal, prepare] at hj
    simpa [OperationSystem.signal, prepare, hne] using
      h.fresh j (by simpa [OperationSystem.signal, prepare, hne] using hj)
  · by_cases hj : j = i
    · subst hj
      simp [OperationSystem.signal, prepare, h.fresh j hnew]
    · simpa [OperationSystem.signal, prepare, hj] using h.once j

theorem Custody.effect (h : Custody s) (he : Effect ops s a s') : Custody s' := by
  cases he with
  | E_Reject _ hnew => exact h.reject hnew
  | E_Start _ hnew => exact h.start hnew
  | E_Poll _ => exact h.of_perm (live_startPoll s) rfl rfl
  | E_Throw hst => exact h.signal (by rw [live_of_stack hst]; exact List.perm_middle)
  | E_SubmitPoll _ => exact h.of_perm (live_startPoll s) rfl rfl
  | E_Ring hst => exact h.of_perm (by rw [live_of_stack hst]; exact .refl _) rfl rfl
  | E_Push hst hq =>
      refine h.of_perm ?_ rfl rfl
      rw [live_of_stack hst]
      exact ((Q.push_perm hq).append_right _).trans List.perm_middle.symm
  | E_Signal hst _ => exact h.signal (by rw [live_of_stack hst]; exact List.perm_middle)
  | E_Retry hst _ => exact h.of_perm (by rw [live_of_stack hst]; exact .refl _) rfl rfl
  | E_PollReturn hst => exact h.of_perm (by rw [live_of_stack hst]; exact .refl _) rfl rfl
  | E_ReceiverReturn hst => exact h.of_perm (by rw [live_of_stack hst]; exact .refl _) rfl rfl
  | E_Complete _ _ => exact h.of_perm (.refl _) rfl rfl

/-! ## The completion records -/

/-- The device has written the completion record since the last submission. -/
def Answered (s : OperationSystem ρ Q) (i : ι) : Prop :=
  i ∉ s.hw ∧ (s.comp i).status ≠ 0 ∧
    ∃ past, s.history i = past ++ [.rung zeroRecord, .answered (s.comp i)]

def AtDevice (s : OperationSystem ρ Q) (i : ι) : Prop :=
  i ∈ s.hw ∧ s.comp i = zeroRecord ∧ ∃ past, s.history i = past ++ [.rung zeroRecord]

def Fits (s : OperationSystem ρ Q) (i : ι) : Place → Prop
  | .submitting => i ∉ s.hw ∧ s.comp i = zeroRecord
  | .handed => s.AtDevice i ∨ s.Answered i
  | .polled => s.Answered i

structure Served (s : OperationSystem ρ Q) : Prop where
  hw_nodup : s.hw.Nodup
  hw_handed : ∀ i ∈ s.hw, (i, .handed) ∈ s.places
  fits : ∀ i p, (i, p) ∈ s.places → s.Fits i p

/-- The step leaves what the device and the records say of `i` as it is. -/
structure Same (s s' : OperationSystem ρ Q) (i : ι) : Prop where
  hw : i ∈ s'.hw ↔ i ∈ s.hw
  comp : s'.comp i = s.comp i
  history : s'.history i = s.history i

section

omit [DecidableEq ι]

theorem Fits.same {i : ι} {p : Place} (h : s.Fits i p) (hs : Same s s' i) : s'.Fits i p := by
  cases p <;> simpa [Fits, AtDevice, Answered, hs.hw, hs.comp, hs.history] using h

theorem Served.of_perm (h : Served s) (hl : s'.places.Perm s.places) (hhw : s'.hw = s.hw)
    (hcomp : s'.comp = s.comp) (hhist : s'.history = s.history) : Served s' where
  hw_nodup := hhw ▸ h.hw_nodup
  hw_handed i hi := hl.mem_iff.mpr (h.hw_handed i (hhw ▸ hi))
  fits i p hi := (h.fits i p (hl.mem_iff.mp hi)).same ⟨by rw [hhw], by rw [hcomp], by rw [hhist]⟩

/-- One operation moves from place to place, or in or out; nothing else changes. -/
theorem Served.move {i : ι} {others : List (ι × Place)} (h : Served s) (before after : List Place)
    (hl : s.places.Perm (before.map (i, ·) ++ others))
    (hl' : s'.places.Perm (after.map (i, ·) ++ others)) (hi : i ∉ others.map Prod.fst)
    (hsame : ∀ j ≠ i, Same s s' j) (hn : s'.hw.Nodup) (hhw : i ∈ s'.hw → .handed ∈ after)
    (hfit : ∀ p ∈ after, s'.Fits i p) : Served s' := by
  have hne : ∀ {j p}, (j, p) ∈ others → j ≠ i := by
    rintro j p hj rfl
    exact hi (List.mem_map_of_mem hj)
  refine ⟨hn, fun j hj => hl'.mem_iff.mpr ?_, fun j p hj => ?_⟩
  · by_cases hji : j = i
    · subst hji
      exact List.mem_append_left _ (List.mem_map_of_mem (hhw hj))
    · refine List.mem_append_right _ ?_
      have := hl.mem_iff.mp (h.hw_handed j ((hsame j hji).hw.mp hj))
      simpa [Ne.symm hji] using this
  · rcases List.mem_append.mp (hl'.mem_iff.mp hj) with hj | hj
    · obtain ⟨q, hq, heq⟩ := List.mem_map.mp hj
      cases heq
      exact hfit p hq
    · exact (h.fits j p (hl.mem_iff.mpr (List.mem_append_right _ hj))).same (hsame j (hne hj))

theorem Served.startPoll (h : Served s) : Served s.startPoll := by
  refine ⟨h.hw_nodup, fun i hi => (mem_places_startPoll s).mpr ?_, fun i p hp => ?_⟩
  · have hfit := h.fits i _ (h.hw_handed i hi)
    have hcomp : s.completed i = false := by
      rcases hfit with hd | ha
      · simp [completed, hd.2.1, zeroRecord]
      · exact absurd hi ha.1
    rcases List.mem_append.mp (h.hw_handed i hi) with hq | hq
    · exact Or.inl ⟨by simpa using hq, by simp [hcomp]⟩
    · exact Or.inr hq
  · suffices s.Fits i p from this.same ⟨Iff.rfl, rfl, rfl⟩
    rcases (mem_places_startPoll s).mp hp with ⟨hq, rfl⟩ | hq
    · have hfit : s.Fits i .handed := h.fits i _ (List.mem_append_left _ (List.mem_map_of_mem hq))
      cases hc : s.completed i with
      | false => exact hfit
      | true =>
          rcases hfit with hd | ha
          · simp [completed, hd.2.1, zeroRecord] at hc
          · exact ha
    · exact h.fits i p (List.mem_append_right _ hq)

/-- An operation is in one place. -/
theorem Custody.not_mem_others {i : ι} {p : Place} {others : List (ι × Place)} (hc : Custody s)
    (hl : s.places.Perm ((i, p) :: others)) : i ∉ others.map Prod.fst := by
  have hn := hc.nodup
  rw [← places_live, (hl.map Prod.fst).nodup_iff] at hn
  exact (List.nodup_cons.mp hn).1

theorem Served.at {i : ι} {p : Place} {others : List (ι × Place)} (h : Served s)
    (hl : s.places.Perm ((i, p) :: others)) : s.Fits i p :=
  h.fits i p (hl.mem_iff.mpr List.mem_cons_self)

end

theorem Served.start {i : ι} (h : Served s) (hc : Custody s) (hnew : s.started i = false)
    (after : List Place) (hafter : ∀ p ∈ after, p = .submitting)
    (hl : s'.places.Perm (after.map (i, ·) ++ s.places)) (hhw : s'.hw = s.hw)
    (hcomp : s'.comp = Function.update s.comp i zeroRecord)
    (hsame : ∀ j ≠ i, s'.history j = s.history j) : Served s' := by
  have hi : i ∉ s.places.map Prod.fst := by
    rw [places_live]
    intro hi
    rw [((hc.live_iff i).mp hi).1] at hnew
    cases hnew
  have hnot : i ∉ s.hw := fun hm => hi (List.mem_map_of_mem (h.hw_handed i hm))
  refine h.move [] after (.refl _) hl hi (fun j hj => ⟨by rw [hhw], ?_, hsame j hj⟩)
    (hhw ▸ h.hw_nodup) (fun hm => absurd (hhw ▸ hm) hnot) fun p hp => ?_
  · rw [hcomp, Function.update_of_ne hj]
  · rw [hafter p hp]
    exact ⟨hhw ▸ hnot, by rw [hcomp, Function.update_self]⟩

/-- A receiver is signalled when its operation is not with the device. -/
theorem Served.signal {i : ι} {p : Place} {c : Completion (ρ i)} {e : Event} {stack : List (Call ι)}
    (h : Served s) (hc : Custody s)
    (hl : s.places.Perm
      ((i, p) :: ((Q.contents s.queue).map (·, .handed) ++ stack.flatMap Call.places)))
    (hp : i ∉ s.hw) : Served (s.signal i c e stack) := by
  refine h.move [p] [] hl (.refl _) (hc.not_mem_others hl) (fun j hj => ?_)
    h.hw_nodup (fun hm => absurd hm hp) (by simp)
  exact ⟨Iff.rfl, rfl, Function.update_of_ne hj _ _⟩

theorem Served.ring {i : ι} {b : Bool} {rest : List (Call ι)} (h : Served s) (hc : Custody s)
    (hst : s.stack = .submitting i b :: rest) : Served
      { s with
        history := Function.update s.history i (s.history i ++ [.rung (s.comp i)])
        hw := i :: s.hw
        stack := .pushing i :: rest } := by
  have hl : s.places.Perm ((i, .submitting) ::
      ((Q.contents s.queue).map (·, .handed) ++ rest.flatMap Call.places)) := by
    rw [places_of_stack hst]
    exact List.perm_middle
  obtain ⟨hhw, hz⟩ := h.at hl
  refine h.move [.submitting] [.handed] hl List.perm_middle
    (hc.not_mem_others hl) (fun j hj => ?_) (List.nodup_cons.mpr ⟨hhw, h.hw_nodup⟩) (by simp) ?_
  · exact ⟨by simp [hj], rfl, Function.update_of_ne hj _ _⟩
  · intro p hp
    cases List.mem_singleton.mp hp
    exact Or.inl ⟨List.mem_cons_self, hz, s.history i, by simp [hz]⟩

theorem Served.retry {i : ι} {todo : List ι} {rest : List (Call ι)} {d : HwDesc} (h : Served s)
    (hc : Custody s) (hst : s.stack = .polling (i :: todo) :: rest) : Served
      { s with
        desc := Function.update s.desc i d
        comp := Function.update s.comp i zeroRecord
        history := Function.update s.history i (s.history i ++ [.polled (s.comp i)])
        stack := .submitting i false :: .polling todo :: rest } := by
  have hl : s.places.Perm ((i, .polled) :: ((Q.contents s.queue).map (·, .handed) ++
      (Call.polling todo :: rest).flatMap Call.places)) := by
    rw [places_of_stack hst]
    exact List.perm_middle
  have hhw : i ∉ s.hw := (h.at hl).1
  refine h.move [.polled] [.submitting] hl List.perm_middle
    (hc.not_mem_others hl) (fun j hj => ?_) h.hw_nodup (fun hm => absurd hm hhw) ?_
  · exact ⟨Iff.rfl, Function.update_of_ne hj _ _, Function.update_of_ne hj _ _⟩
  · intro p hp
    cases List.mem_singleton.mp hp
    exact ⟨hhw, Function.update_self _ _ _⟩

theorem Served.complete {i : ι} {record : CompletionRecord} (h : Served s) (hc : Custody s)
    (hi : i ∈ s.hw) (hr : record.status ≠ 0) : Served
      { s with
        hw := s.hw.erase i
        comp := Function.update s.comp i record
        history := Function.update s.history i (s.history i ++ [.answered record]) } := by
  obtain ⟨as, bs, hplaces⟩ := List.append_of_mem (h.hw_handed i hi)
  have hl : s.places.Perm ((i, .handed) :: (as ++ bs)) := hplaces ▸ List.perm_middle
  have hnot : i ∉ s.hw.erase i := h.hw_nodup.not_mem_erase
  refine h.move [.handed] [.handed] hl hl
    (hc.not_mem_others hl) (fun j hj => ?_) (h.hw_nodup.erase i) (by simp) ?_
  · exact ⟨List.mem_erase_of_ne hj, Function.update_of_ne hj _ _, Function.update_of_ne hj _ _⟩
  · intro p hp
    cases List.mem_singleton.mp hp
    rcases h.at hl with ⟨-, -, past, hpast⟩ | ha
    · exact Or.inr ⟨hnot, by simpa using hr, past, by simp [hpast]⟩
    · exact absurd hi ha.1

theorem Served.effect (h : Served s) (hc : Custody s) (he : Effect ops s a s') : Served s' := by
  cases he with
  | E_Reject _ hnew =>
      exact h.start hc hnew [] (by simp) (.refl _) rfl rfl fun j hj => Function.update_of_ne hj _ _
  | E_Start _ hnew =>
      exact h.start hc hnew [.submitting] (by simp) List.perm_middle rfl rfl fun _ _ => rfl
  | E_Poll _ => exact h.startPoll
  | E_Throw hst =>
      have hl := places_of_stack hst ▸ List.perm_middle
      exact h.signal hc hl (h.at hl).1
  | E_SubmitPoll _ => exact h.startPoll
  | E_Ring hst => exact h.ring hc hst
  | E_Push hst hq =>
      refine h.of_perm ?_ rfl rfl rfl
      rw [places_of_stack hst]
      exact (((Q.push_perm hq).map _).append_right _).trans List.perm_middle.symm
  | E_Signal hst _ =>
      have hl := places_of_stack hst ▸ List.perm_middle
      exact h.signal hc hl (h.at hl).1
  | E_Retry hst _ => exact h.retry hc hst
  | E_PollReturn hst => exact h.of_perm (by rw [places_of_stack hst]; exact .refl _) rfl rfl rfl
  | E_ReceiverReturn hst => exact h.of_perm (by rw [places_of_stack hst]; exact .refl _) rfl rfl rfl
  | E_Complete hi hr => exact h.complete hc hi hr

/-! ## The history -/

/-- What the history of an operation says. -/
structure Told {α : Type} (signals : List α) (history : List Event) : Prop where
  ended : signals ≠ [] ↔ ∃ e ∈ history, e.final = true
  rung : ∀ c, .rung c ∈ history → c = zeroRecord
  polled : ∀ past c later, history = past ++ .polled c :: later →
    ∃ earlier, past = earlier ++ [.rung zeroRecord, .answered c]

/-- The events that may come next. -/
def Follows (history : List Event) : Event → Prop
  | .rung c => c = zeroRecord
  | .polled c => ∃ earlier, history = earlier ++ [.rung zeroRecord, .answered c]
  | _ => True

theorem Told.snoc {α : Type} {signals signals' : List α} {history : List Event} {e : Event}
    (h : Told signals history) (hf : Follows history e)
    (hs : signals' ≠ [] ↔ signals ≠ [] ∨ e.final = true) : Told signals' (history ++ [e]) where
  ended := by
    rw [hs, h.ended]
    simp [or_and_right, exists_or]
  rung c hc := by
    rcases List.mem_append.mp hc with hc | hc
    · exact h.rung c hc
    · cases List.mem_singleton.mp hc
      exact hf
  polled past c later heq := by
    rcases List.eq_nil_or_concat later with rfl | ⟨later, e', rfl⟩
    · obtain ⟨rfl, rfl⟩ := List.append_inj' heq rfl |>.imp_right List.singleton_inj.mp
      exact hf
    · rw [List.concat_eq_append, ← List.cons_append, ← List.append_assoc] at heq
      exact h.polled past c later (List.append_inj' heq rfl).1

def Recorded (s : OperationSystem ρ Q) : Prop := ∀ i, Told (s.signals i) (s.history i)

/-- An event of one operation, with or without a signal. -/
theorem Recorded.event {i : ι} {e : Event} {signals : List (Completion (ρ i))} (h : Recorded s)
    (hsignals : s'.signals = Function.update s.signals i signals)
    (hhistory : s'.history = Function.update s.history i (s.history i ++ [e]))
    (hf : Follows (s.history i) e)
    (hs : signals ≠ [] ↔ s.signals i ≠ [] ∨ e.final = true) : Recorded s' := by
  intro j
  by_cases hj : j = i
  · subst hj
    rw [hsignals, hhistory, Function.update_self, Function.update_self]
    exact (h j).snoc hf hs
  · rw [hsignals, hhistory, Function.update_of_ne hj, Function.update_of_ne hj]
    exact h j

theorem Recorded.silent {i : ι} {e : Event} (h : Recorded s) (hsignals : s'.signals = s.signals)
    (hhistory : s'.history = Function.update s.history i (s.history i ++ [e]))
    (hf : Follows (s.history i) e) (he : e.final = false) : Recorded s' :=
  h.event (i := i) (by rw [hsignals, Function.update_eq_self]) hhistory hf (by simp [he])

theorem Recorded.effect (h : Recorded s) (hs : Served s) (he : Effect ops s a s') : Recorded s' := by
  cases he with
  | E_Reject _ _ => exact h.event rfl rfl True.intro (by simp [Event.final])
  | E_Start _ _ => exact h
  | E_Poll _ => exact h
  | E_Throw _ => exact h.event rfl rfl True.intro (by simp [Event.final])
  | E_SubmitPoll _ => exact h
  | E_Ring hst =>
      have hl := places_of_stack hst ▸ List.perm_middle
      exact h.silent rfl rfl (hs.at hl).2 rfl
  | E_Push _ _ => exact h
  | E_Signal hst hf =>
      have hl := places_of_stack hst ▸ List.perm_middle
      refine h.event rfl rfl (hs.at hl).2.2 ?_
      simp [Event.final, hf]
  | E_Retry hst hf =>
      have hl := places_of_stack hst ▸ List.perm_middle
      refine h.silent rfl rfl (hs.at hl).2.2 ?_
      simp [Event.final, hf]
  | E_PollReturn _ => exact h
  | E_ReceiverReturn _ => exact h
  | E_Complete _ _ => exact h.silent rfl rfl True.intro rfl

/-! ## Runs -/

structure Sound (s : OperationSystem ρ Q) : Prop where
  custody : Custody s
  served : Served s
  recorded : Recorded s

omit [DecidableEq ι] in
theorem Sound.init : Sound (OperationSystem.init : OperationSystem ρ Q) where
  custody := by constructor <;> simp [OperationSystem.init, live, Q.contents_empty]
  served := by constructor <;> simp [OperationSystem.init, places, Q.contents_empty]
  recorded := fun i => by constructor <;> simp [OperationSystem.init]

theorem Sound.effect (h : Sound s) (he : Effect ops s a s') : Sound s' where
  custody := h.custody.effect he
  served := h.served.effect h.custody he
  recorded := h.recorded.effect h.served he

theorem sound_of_run {as : List (OperationAction ι)} (h : (machine ops Q).run as = some s) : Sound s :=
  Machine.run_invariant Sound.init (fun _ _ _ hs hst => hs.effect (step_effect hst)) h

end OperationSystem

end DsaStdexec.Engine

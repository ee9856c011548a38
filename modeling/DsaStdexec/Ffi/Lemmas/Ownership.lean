import DsaStdexec.Ffi.Ownership

/-!
# Descriptors that the device has not completed

While a call polls, the descriptors before the last one are completed, and the record tells whether the
last one is.
-/

namespace DsaStdexec.Ffi.MemmoveCall

open DsaStdexec.Lib DsaStdexec.Operation

variable {args : MemmoveArgs} {c c' : MemmoveCall} {a : MemmoveAction}

/-- Every descriptor that the call has submitted is completed. -/
def Released (c : MemmoveCall) : Prop := ∀ x ∈ c.submissions, x.completed = true

/-- The device is done once the call has returned. -/
def ReleasedAtReturn (c : MemmoveCall) : Prop :=
  ∀ result, c.control = .returned result → c.Released

/-- The last of the reads that `poll_completion` makes finds the record written. -/
def Prompt (c : MemmoveCall) : MemmoveAction → Prop
  | .read =>
      match c.control with
      | .polling _ _ _ spins => c.record.status = compNone → spins + 1 < maxSpins
      | .returned _ => True
  | _ => True

instance (c : MemmoveCall) (a : MemmoveAction) : Decidable (Prompt c a) :=
  match a with
  | .read =>
      match h : c.control with
      | .polling _ _ _ spins =>
          decidable_of_iff (c.record.status = compNone → spins + 1 < maxSpins) (by simp only [Prompt, h])
      | .returned _ => isTrue (by simp only [Prompt, h])
  | .write _ _ _ | .complete _ _ => isTrue trivial

/-- What a polling call knows of its descriptors. -/
def Watched (c : MemmoveCall) : Prop :=
  ∀ request state retries spins, c.control = .polling request state retries spins →
    ∃ before last, c.submissions = before ++ [last] ∧ (∀ x ∈ before, x.completed = true) ∧
      (last.completed = true ↔ c.record.status ≠ compNone)

theorem Watched.released (h : Watched c) {request : MemmoveRequest} {state : PendingMemmove}
    {retries : BitVec 32} {spins : Nat} (hp : c.control = .polling request state retries spins) :
    c.Released ↔ c.record.status ≠ compNone := by
  obtain ⟨before, last, hsub, hbefore, hlast⟩ := h _ _ _ _ hp
  rw [← hlast, Released, hsub]
  constructor
  · exact fun hall => hall last (List.mem_append_right _ (List.mem_singleton.mpr rfl))
  · intro hdone x hx
    rcases List.mem_append.mp hx with hx | hx
    · exact hbefore x hx
    · cases List.mem_singleton.mp hx
      exact hdone

/-! ## Steps -/

theorem settle_cases (args : MemmoveArgs) (c : MemmoveCall) (request : MemmoveRequest)
    (state : PendingMemmove) (retries : BitVec 32) (status : BitVec 8) :
    (∃ result, c.settle args request state retries status = { c with control := .returned result }) ∨
    ∃ state' retries', c.settle args request state retries status =
      submit args request state' retries' c.submissions c.dst := by
  unfold settle
  split
  · exact Or.inl ⟨_, rfl⟩
  · exact Or.inl ⟨_, rfl⟩
  · exact Or.inr ⟨_, _, rfl⟩

theorem settle_timeout (args : MemmoveArgs) (c : MemmoveCall) (request : MemmoveRequest)
    (state : PendingMemmove) (retries : BitVec 32) :
    c.settle args request state retries completionTimeoutStatus =
      { c with control := .returned (.error (.completionTimeout args.session.config.devicePath
        .completionPoll retries)) } := by
  simp [settle, resume, classifyMemmoveCompletion, CompletionSnapshot.fromRecord]

theorem watched_submit {request : MemmoveRequest} {state : PendingMemmove} {retries : BitVec 32}
    {submissions : List Submission} {dst : List UInt8} (h : ∀ x ∈ submissions, x.completed = true) :
    Watched (submit args request state retries submissions dst) :=
  fun _ _ _ _ _ => ⟨submissions, _, rfl, h, by simp [submit, blank, compNone]⟩

theorem watched_init (args : MemmoveArgs) : Watched (init args) := by
  unfold init
  split
  · exact fun _ _ _ _ h => by cases h
  · exact watched_submit nofun

theorem Watched.complete (h : Watched c) {j : Nat} {x : Submission} {record : CompletionRecord}
    (hx : c.submissions[j]? = some x) (hopen : x.completed = false) (hs : record.status ≠ compNone) :
    Watched { c with record := record, submissions := c.submissions.set j { x with completed := true } }
    := by
  intro request state retries spins hp
  obtain ⟨before, last, hsub, hbefore, _⟩ := h request state retries spins hp
  -- only the last descriptor can be open
  have hj : j = before.length := by
    rw [hsub] at hx
    rcases Nat.lt_trichotomy j before.length with hlt | heq | hgt
    · rw [List.getElem?_append_left hlt] at hx
      have := hbefore x (List.mem_of_getElem? hx)
      rw [hopen] at this
      cases this
    · exact heq
    · rw [List.getElem?_append_right (by omega), List.getElem?_eq_none (by simp; omega)] at hx
      cases hx
  refine ⟨before, { x with completed := true }, ?_, hbefore, by simp [hs]⟩
  simp only [hsub, hj]
  rw [List.set_append_right _ _ (Nat.le_refl _), Nat.sub_self]
  rfl

theorem Watched.step (h : Watched c) (hst : step args c a = some c') : Watched c' := by
  cases a with
  | read =>
      simp only [MemmoveCall.step] at hst
      split at hst
      · cases hst
      · rename_i request state retries spins hp
        have hrel := h.released hp
        split at hst
        · rename_i hdone
          cases hst
          rcases settle_cases args c request state retries _ with ⟨result, he⟩ | ⟨state', retries', he⟩
          · rw [he]; exact fun _ _ _ _ hc => by cases hc
          · rw [he]; exact watched_submit (hrel.mpr hdone)
        · split at hst <;> cases hst
          · intro _ _ _ _ _
            exact h _ _ _ _ hp
          · rw [settle_timeout]; exact fun _ _ _ _ hc => by cases hc
  | write j k byte =>
      obtain ⟨x, _, hst⟩ := Option.bind_eq_some_iff.mp hst
      split at hst <;> cases hst
      exact h
  | complete j record =>
      obtain ⟨x, hx, hst⟩ := Option.bind_eq_some_iff.mp hst
      split at hst <;> cases hst
      rename_i hc
      exact h.complete hx hc.1 hc.2

/-- Nothing happens any more after a return with all descriptors completed. -/
theorem Released.quiet (h : c.Released) {result : Except MemmoveError MemmoveValidationReport}
    (hr : c.control = .returned result) (a : MemmoveAction) : step args c a = none := by
  cases a with
  | read => simp [MemmoveCall.step, hr]
  | write j k byte =>
      refine Option.bind_eq_none_iff.mpr fun x hx => if_neg fun hc => ?_
      rw [h x (List.mem_of_getElem? hx)] at hc
      cases hc.1
  | complete j record =>
      refine Option.bind_eq_none_iff.mpr fun x hx => if_neg fun hc => ?_
      rw [h x (List.mem_of_getElem? hx)] at hc
      cases hc.1

/-- A step keeps the promise exactly when it is not the read that gives up. -/
theorem releasedAtReturn_step (h : Watched c) (hp : ReleasedAtReturn c)
    (hst : step args c a = some c') : ReleasedAtReturn c' ↔ Prompt c a := by
  cases hctl : c.control with
  | returned result =>
      rw [(hp result hctl).quiet hctl] at hst
      cases hst
  | polling request state retries spins =>
      have hrel := h.released hctl
      cases a with
      | read =>
          simp only [MemmoveCall.step, hctl] at hst
          simp only [Prompt, hctl]
          split at hst
          · rename_i hdone
            cases hst
            refine ⟨fun _ hn => absurd hn hdone, fun _ => ?_⟩
            rcases settle_cases args c request state retries _ with ⟨result, he⟩ | ⟨state', retries', he⟩
            · rw [he]; exact fun _ _ => hrel.mpr hdone
            · rw [he]; exact fun _ hc => by cases hc
          · rename_i hnone
            split at hst <;> cases hst
            · rename_i hlt
              exact ⟨fun _ _ => hlt, fun _ _ hc => by cases hc⟩
            · rename_i hlt
              rw [settle_timeout]
              exact ⟨fun hall => absurd (hrel.mp (hall _ rfl)) hnone,
                fun hprompt => absurd (hprompt (not_not.mp hnone)) hlt⟩
      | write j k byte =>
          obtain ⟨x, _, hst⟩ := Option.bind_eq_some_iff.mp hst
          split at hst <;> cases hst
          exact ⟨fun _ => trivial, fun _ result hr => by rw [hctl] at hr; cases hr⟩
      | complete j record =>
          obtain ⟨x, _, hst⟩ := Option.bind_eq_some_iff.mp hst
          split at hst <;> cases hst
          exact ⟨fun _ => trivial, fun _ result hr => by rw [hctl] at hr; cases hr⟩

/-! ## Polling without an answer -/

theorem run_reads {request : MemmoveRequest} {state : PendingMemmove} {retries : BitVec 32} (k : Nat) :
    ∀ {spins : Nat} {c : MemmoveCall}, c.control = .polling request state retries spins →
      c.record.status = compNone → spins + k < maxSpins →
      (machine args).runFrom c (List.replicate k .read) =
        some { c with control := .polling request state retries (spins + k) } := by
  induction k with
  | zero =>
      intro spins c hp _ _
      rw [Nat.add_zero, ← hp]
      rfl
  | succ k ih =>
      intro spins c hp hs hlt
      have hst : (machine args).step c .read =
          some { c with control := .polling request state retries (spins + 1) } := by
        simp only [machine, MemmoveCall.step, hp, hs]
        rw [if_neg (by simp), if_pos (by omega)]
      have hrest := ih (c := { c with control := .polling request state retries (spins + 1) }) rfl hs
        (by omega)
      rw [List.replicate_succ, Machine.runFrom, hst, Option.bind_some, hrest, Nat.add_right_comm,
        Nat.add_assoc]

/-- A poll that never sees a record ends the call. -/
theorem run_timeout {request : MemmoveRequest} {state : PendingMemmove} {retries : BitVec 32}
    (hp : c.control = .polling request state retries 0) (hs : c.record.status = compNone) :
    (machine args).runFrom c (List.replicate maxSpins .read) =
      some { c with control := .returned (.error (.completionTimeout args.session.config.devicePath
        .completionPoll retries)) } := by
  have hlast : maxSpins = maxSpins - 1 + 1 := rfl
  rw [hlast, List.replicate_succ']
  refine Machine.runFrom_append (run_reads (maxSpins - 1) hp hs (by omega)) ?_
  simp only [Machine.runFrom, machine, MemmoveCall.step, hs]
  rw [if_neg (by simp), if_neg (by omega), settle_timeout]
  rfl

end DsaStdexec.Ffi.MemmoveCall

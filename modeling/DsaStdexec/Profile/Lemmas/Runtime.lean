import DsaStdexec.Profile.Runtime

/-!
# What the server has counted

Without a warm-up every counted request is a measured one. With a warm-up a task can make any number of
requests before the deadline.
-/

namespace DsaStdexec.Profile.ProfileRun

open DsaStdexec.Lib

variable {args : RunArgs} {s s' : ProfileRun} {a : RunAction}

/-! ## Steps -/

variable (args) in
/-- What a step can do. -/
inductive Effect (s : ProfileRun) : ProfileRun → Prop
  | E_Tick (ms : Nat) : Effect s { s with now := s.now + ms }
  | E_Expired (w : Nat) (h : s.tasks w = .loop) (hd : s.deadline ≤ s.now) :
      Effect s (s.setTask w .finished)
  | E_Checked (w : Nat) (h : s.tasks w = .loop) (hd : s.now < s.deadline) :
      Effect s (s.setTask w .checked)
  | E_Finished (w : Nat) (h : s.tasks w = .checked) :
      Effect s { s.setTask w .finished with counter := s.counter + 1 }
  | E_Requested (w : Nat) (h : s.tasks w = .checked) :
      Effect s { s.setTask w (.waiting s.handlers.length) with
        counter := s.counter + 1
        handlers := s.handlers ++ [⟨s.phase, .received⟩] }
  | E_Received (w h : Nat) (hw : s.tasks w = .waiting h) : Effect s (s.setTask w .loop)
  | E_Failed (w h : Nat) (hw : s.tasks w = .waiting h) : Effect s (s.setTask w .failed)
  | E_Measured (h : s.phase = .warmup) :
      Effect s { s with
        phase := .measured
        deadline := s.now + args.measureMs
        counter := 0
        tasks := fun _ => .loop }
  | E_Recorded (h : Nat) (phase : Phase) (hh : s.handlers[h]? = some ⟨phase, .received⟩) :
      Effect s { s.setHandler h ⟨phase, .recorded (s.completed + 1)⟩ with
        completed := s.completed + 1
        measured := if phase = .measured then s.measured + 1 else s.measured }
  | E_Loaded (h own completed : Nat) (phase : Phase)
      (hh : s.handlers[h]? = some ⟨phase, .recorded own⟩) (hc : completed ≤ s.completed) :
      Effect s (s.setHandler h ⟨phase, .loaded completed⟩)
  | E_Notified (h completed target : Nat) (phase : Phase)
      (hh : s.handlers[h]? = some ⟨phase, .loaded completed⟩)
      (ht : args.shutdownAfterRequests = some target) (hc : target ≤ completed) :
      Effect s { s.setHandler h ⟨phase, .returned⟩ with notified := true }
  | E_Returned (h completed : Nat) (phase : Phase)
      (hh : s.handlers[h]? = some ⟨phase, .loaded completed⟩) :
      Effect s (s.setHandler h ⟨phase, .returned⟩)
  | E_Dropped (h own : Nat) (phase : Phase) (hh : s.handlers[h]? = some ⟨phase, .recorded own⟩) :
      Effect s (s.setHandler h ⟨phase, .dropped⟩)

theorem step_effect (h : s.step args a = some s') : Effect args s s' := by
  cases a with
  | tick ms =>
      cases h
      exact .E_Tick ms
  | check w =>
      simp only [step, check] at h
      split at h
      · split at h
        · rename_i hw
          cases h
          split
          · exact .E_Expired w hw ‹_›
          · exact .E_Checked w hw (Nat.lt_of_not_le ‹_›)
        · cases h
      · cases h
  | request w =>
      simp only [step, request] at h
      split at h
      · split at h
        · rename_i hw
          split at h
          · cases h
            exact .E_Finished w hw
          · cases h
            exact .E_Requested w hw
        · cases h
      · cases h
  | receive w =>
      simp only [step, receive] at h
      split at h
      · split at h
        · rename_i k hw
          split at h
          · cases h
            exact .E_Received w k hw
          · cases h
        · cases h
      · cases h
  | fail w =>
      simp only [step, fail] at h
      split at h
      · split at h
        · rename_i k hw
          cases h
          exact .E_Failed w k hw
        · cases h
      · cases h
  | beginMeasured =>
      simp only [step, beginMeasured] at h
      split at h
      · rename_i hw
        cases h
        exact .E_Measured hw.1
      · cases h
  | record k =>
      simp only [step, record] at h
      split at h
      · rename_i phase hh
        cases h
        exact .E_Recorded k phase hh
      · cases h
  | load k completed =>
      simp only [step, load] at h
      split at h
      · rename_i phase own hh
        split at h
        · rename_i hc
          cases h
          exact .E_Loaded k own completed phase hh hc.2
        · cases h
      · cases h
  | respond k =>
      simp only [step, respond] at h
      split at h
      · rename_i phase completed hh
        split at h
        · rename_i hc
          obtain ⟨target, ht, hc⟩ := hc
          cases h
          exact .E_Notified k completed target phase hh ht hc
        · cases h
          exact .E_Returned k completed phase hh
      · cases h
  | drop k =>
      simp only [step, drop] at h
      split at h
      · rename_i phase own hh
        cases h
        exact .E_Dropped k own phase hh
      · cases h

/-! ## Runs without a warm-up -/

/-- No request was made before the measured phase. -/
structure Unwarmed (args : RunArgs) (s : ProfileRun) : Prop where
  quiet : s.phase = .warmup → s.deadline ≤ s.now ∧ ∀ w, s.tasks w ≠ .checked
  tagged : ∀ x ∈ s.handlers, x.phase = .measured
  counted : s.completed = s.measured
  loads : ∀ x ∈ s.handlers, ∀ completed, x.stage = .loaded completed → completed ≤ s.completed
  notified : s.notified = true →
    ∃ target, args.shutdownAfterRequests = some target ∧ target ≤ s.completed

theorem unwarmed_new (h : args.warmupMs = 0) : Unwarmed args (new args) where
  quiet _ := ⟨Nat.le_of_eq h, fun _ => nofun⟩
  tagged := nofun
  counted := rfl
  loads := nofun
  notified := nofun

/-- A handler moves on without counting. -/
theorem Unwarmed.setHandler (h : Unwarmed args s) {k : Nat} {x y : Handler}
    (hx : s.handlers[k]? = some x) (hphase : y.phase = x.phase)
    (hy : ∀ completed, y.stage = .loaded completed → completed ≤ s.completed) :
    Unwarmed args (s.setHandler k y) := by
  refine ⟨h.quiet, fun z hz => ?_, h.counted, fun z hz => ?_, h.notified⟩
  · rcases List.mem_or_eq_of_mem_set hz with hz | rfl
    · exact h.tagged z hz
    · rw [hphase]
      exact h.tagged x (List.mem_of_getElem? hx)
  · rcases List.mem_or_eq_of_mem_set hz with hz | rfl
    · exact h.loads z hz
    · exact hy

/-- A task moves on; in the warm-up it does not get past the deadline. -/
theorem Unwarmed.setTask (h : Unwarmed args s) {w : Nat} {stage : TaskStage}
    (hstage : s.phase = .warmup → stage ≠ .checked) : Unwarmed args (s.setTask w stage) := by
  refine ⟨fun hp => ⟨(h.quiet hp).1, fun v => ?_⟩, h.tagged, h.counted, h.loads, h.notified⟩
  by_cases hv : v = w
  · subst hv
    simpa [ProfileRun.setTask] using hstage hp
  · simpa [ProfileRun.setTask, Function.update_of_ne hv] using (h.quiet hp).2 v

theorem Unwarmed.effect (h : Unwarmed args s) (he : Effect args s s') : Unwarmed args s' := by
  cases he with
  | E_Tick ms =>
      exact ⟨fun hp => ⟨Nat.le_add_right_of_le (h.quiet hp).1, (h.quiet hp).2⟩, h.tagged, h.counted,
        h.loads, h.notified⟩
  | E_Expired w hw hd => exact h.setTask fun _ => nofun
  | E_Checked w hw hd => exact h.setTask fun hp => absurd (h.quiet hp).1 (Nat.not_le.mpr hd)
  | E_Finished w hw =>
      have ht : Unwarmed args (s.setTask w .finished) := h.setTask fun _ => nofun
      exact ⟨ht.quiet, ht.tagged, ht.counted, ht.loads, ht.notified⟩
  | E_Requested w hw =>
      -- The task has passed the deadline, so the phase is the measured one.
      have hphase : s.phase = .measured := by
        cases hp : s.phase with
        | warmup => exact absurd hw ((h.quiet hp).2 w)
        | measured => rfl
      refine ⟨fun hp => ?_, fun x hx => ?_, h.counted, fun x hx => ?_, h.notified⟩
      · exact absurd (hphase.symm.trans hp) (by decide)
      · rcases List.mem_append.mp hx with hx | hx
        · exact h.tagged x hx
        · cases List.mem_singleton.mp hx
          exact hphase
      · rcases List.mem_append.mp hx with hx | hx
        · exact h.loads x hx
        · cases List.mem_singleton.mp hx
          nofun
  | E_Received w k hw => exact h.setTask fun _ => nofun
  | E_Failed w k hw => exact h.setTask fun _ => nofun
  | E_Measured hp => exact ⟨nofun, h.tagged, h.counted, h.loads, h.notified⟩
  | E_Recorded k phase hh =>
      have hm : phase = .measured := h.tagged _ (List.mem_of_getElem? hh)
      have hset := h.setHandler (y := ⟨phase, .recorded (s.completed + 1)⟩) hh rfl nofun
      refine ⟨hset.quiet, hset.tagged, ?_, fun x hx completed hc => ?_, fun hn => ?_⟩
      · rw [if_pos hm, h.counted]
      · exact Nat.le_succ_of_le (hset.loads x hx completed hc)
      · obtain ⟨target, ht, hle⟩ := h.notified hn
        exact ⟨target, ht, Nat.le_succ_of_le hle⟩
  | E_Loaded k own completed phase hh hc =>
      refine h.setHandler hh rfl fun c hstage => ?_
      cases hstage
      exact hc
  | E_Notified k completed target phase hh ht hc =>
      have hset := h.setHandler (y := ⟨phase, .returned⟩) hh rfl nofun
      refine ⟨hset.quiet, hset.tagged, hset.counted, hset.loads, fun _ => ⟨target, ht, ?_⟩⟩
      exact Nat.le_trans hc (h.loads _ (List.mem_of_getElem? hh) completed rfl)
  | E_Returned k completed phase hh => exact h.setHandler hh rfl nofun
  | E_Dropped k own phase hh => exact h.setHandler hh rfl nofun

theorem unwarmed_of_run (hw : args.warmupMs = 0) {as : List RunAction}
    (h : (machine args).run as = some s) : Unwarmed args s :=
  Machine.run_invariant (unwarmed_new hw) (fun _ _ _ hu hst => hu.effect (step_effect hst)) h

/-! ## Runs with a warm-up -/

/-- The first task is at the head of its loop before the deadline of the warm-up. -/
structure Warming (s : ProfileRun) : Prop where
  phase : s.phase = .warmup
  deadline : s.now < s.deadline
  task : s.tasks 0 = .loop
  measured : s.measured = 0

theorem warming_new (h : 0 < args.warmupMs) : Warming (new args) := ⟨rfl, h, rfl, rfl⟩

/-- The first task waits for its next reply, and the handler is at `stage`. -/
def warmed (s : ProfileRun) (stage : HandlerStage) (completed : Nat) (notified : Bool) : ProfileRun :=
  { s with
    counter := s.counter + 1
    tasks := Function.update s.tasks 0 (.waiting s.handlers.length)
    handlers := s.handlers ++ [⟨.warmup, stage⟩]
    completed := completed
    notified := notified }

theorem Warming.request (h : Warming s) :
    (machine args).runFrom s [.check 0, .request 0] =
      some (s.warmed .received s.completed s.notified) := by
  have hpos := args.concurrency_pos
  have hd : ¬ s.deadline ≤ s.now := Nat.not_le.mpr h.deadline
  simp [Machine.runFrom, machine, step, hpos, check, h.task, hd, ProfileRun.request, ProfileRun.setTask,
    requestsTarget, h.phase, warmed]

theorem runFrom_record_load (s : ProfileRun) (notified : Bool) :
    (machine args).runFrom (s.warmed .received s.completed notified)
        [.record s.handlers.length, .load s.handlers.length (s.completed + 1)] =
      some (s.warmed (.loaded (s.completed + 1)) (s.completed + 1) notified) := by
  simp [Machine.runFrom, machine, step, record, load, ProfileRun.setHandler, warmed]

/-- The decision about the notification. -/
def notifies (args : RunArgs) (completed : Nat) : Bool :=
  args.shutdownAfterRequests.any (decide <| · ≤ completed)

theorem runFrom_respond_receive (s : ProfileRun) (completed : Nat) (notified : Bool) :
    (machine args).runFrom (s.warmed (.loaded completed) completed notified)
        [.respond s.handlers.length, .receive 0] =
      some ((s.warmed .returned completed (notified || notifies args completed)).setTask 0 .loop) := by
  have hpos := args.concurrency_pos
  cases hn : args.shutdownAfterRequests with
  | none =>
      simp [Machine.runFrom, machine, step, respond, receive, hpos, ProfileRun.setHandler,
        ProfileRun.setTask, warmed, notifies, hn]
  | some target =>
      by_cases hle : target ≤ completed <;>
        simp [Machine.runFrom, machine, step, respond, receive, hpos, ProfileRun.setHandler,
          ProfileRun.setTask, warmed, notifies, hn, hle]

/-- The first task makes one more request. -/
theorem Warming.round (h : Warming s) (args : RunArgs) : ∃ as t, (machine args).runFrom s as = some t ∧ Warming t ∧
    t.completed = s.completed + 1 ∧ t.notified = (s.notified || notifies args (s.completed + 1)) := by
  refine ⟨_, _, Machine.runFrom_append h.request (Machine.runFrom_append (runFrom_record_load s _)
    (runFrom_respond_receive s _ _)), ⟨h.phase, h.deadline, ?_, h.measured⟩, rfl, rfl⟩
  simp [ProfileRun.setTask]

/-- Any number of requests can be counted in a warm-up. -/
theorem exists_warming (hw : 0 < args.warmupMs) (n : Nat) :
    ∃ as t, (machine args).run as = some t ∧ Warming t ∧ t.completed = n := by
  induction n with
  | zero => exact ⟨[], _, rfl, warming_new hw, rfl⟩
  | succ n ih =>
      obtain ⟨as, t, ht, hwarm, hn⟩ := ih
      obtain ⟨bs, u, hu, hwarm', hc, -⟩ := hwarm.round args
      exact ⟨as ++ bs, u, Machine.runFrom_append ht hu, hwarm', hc.trans (congrArg (· + 1) hn)⟩

theorem exists_early_notification {target : Nat} (hw : 0 < args.warmupMs)
    (ht : args.shutdownAfterRequests = some target) (hpos : 0 < target) :
    ∃ as t, (machine args).run as = some t ∧ t.notified = true ∧ t.measured = 0 := by
  obtain ⟨as, t, hrun, hwarm, hn⟩ := exists_warming hw (target - 1)
  obtain ⟨bs, u, hu, hwarm', -, hnot⟩ := hwarm.round args
  refine ⟨as ++ bs, u, Machine.runFrom_append hrun hu, ?_, hwarm'.measured⟩
  rw [hnot, hn, Nat.sub_add_cancel hpos]
  simp [notifies, ht]

end DsaStdexec.Profile.ProfileRun

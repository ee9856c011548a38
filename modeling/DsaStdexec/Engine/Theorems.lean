import DsaStdexec.Engine.Lemmas.Accounting
import DsaStdexec.Engine.Lemmas.Operations
import DsaStdexec.Engine.Lemmas.RunLoop
import DsaStdexec.Engine.Lemmas.Threads
import DsaStdexec.Engine.Lemmas.Throttle
import DsaStdexec.Submitter.Handover

/-!
# Back-pressure and completions over whole runs
-/

namespace DsaStdexec.Engine.DirectEngine

open DsaStdexec.Lib DsaStdexec.Submitter

variable {Q : TaskQueue Op} {wq : Wq} {s : DirectEngine Q} {as : List Action}

/-! ## The work queue does not overflow -/

/-- The descriptors that the device has not answered fit into the work queue, and the loop in `submit`
never sees a counter below their number. -/
structure WithinCapacity (wq : Wq) (s : DirectEngine Q) : Prop where
  hw_le : s.hw.length ≤ wq.size.toNat
  test : ∀ op rest, s.stack = .submitting op :: rest → s.hw.length ≤ s.submitter.inflight

/-- As long as no `poll` takes more off the counter than descriptors it has notified, a dedicated work
queue does not overflow. -/
theorem directEngine_within_capacity (hsize : 0 < wq.size)
    (hm : (machine Q wq).Meets Matched (init wq) as) (h : (machine Q wq).run as = some s) :
    WithinCapacity wq s := by
  have hb : Balanced wq s := Machine.runFrom_invariant
    (fun _ _ _ hi hm hs => hi.step hsize hm hs) (balanced_init hsize) hm h
  exact ⟨Nat.le_trans hb.hw_le hb.inflight_le, fun _ _ _ => hb.hw_le⟩

def oneWq : Wq := ⟨1, 0, by decide, by decide⟩

def copyOp (id : Nat) : Op := ⟨id, true⟩

def scheduleOp (id : Nat) : Op := ⟨id, false⟩

def enter (op : Op) : List Action := [.submit op, .advance, .advance]

def turnRun : List Action :=
  enter (copyOp 0) ++ [.complete (copyOp 0) 1, .poll, .advance, .callbackReturn, .advance] ++
    enter (copyOp 1)

theorem directEngine_within_capacity_turn :
    ∃ s, (machine (singleThreadTaskQueue Op) oneWq).run turnRun = some s ∧ WithinCapacity oneWq s := by
  have hd : ∀ a ∈ turnRun, DescriptorsOnly a := by simp [turnRun, enter, copyOp, DescriptorsOnly]
  exact ⟨_, rfl, directEngine_within_capacity (by decide) (matched_of_descriptors (by decide) hd) rfl⟩

/-- The notification of a `ScheduleOperation` is taken off the counter of a copy that the device still
works on. -/
def driftingRun : List Action :=
  enter (copyOp 0) ++ [.submit (scheduleOp 1), .advance, .poll, .advance, .callbackReturn, .advance] ++
    [.submit (copyOp 2)]

theorem directEngine_overflows :
    ∃ s, (machine (singleThreadTaskQueue Op) oneWq).run driftingRun = some s ∧
      s.stack = [.submitting (copyOp 2)] ∧ s.submitter.inflight < s.hw.length ∧
      ∃ t, (machine (singleThreadTaskQueue Op) oneWq).runFrom s [.advance] = some t ∧
        oneWq.size.toNat < t.hw.length :=
  ⟨_, rfl, rfl, by decide, _, rfl, by decide⟩

/-! ## The loop in `submit` has something to wait for -/

/-- The queue has an operation that the device will answer or has answered, so a `poll` can lower the
counter. -/
def Awaits (s : DirectEngine Q) : Prop :=
  ∃ o ∈ Q.contents s.queue, o.hasDescriptor = true ∧ (o ∈ s.hw ∨ s.status o ≠ 0)

/-- Where every operation carries a descriptor, the loop has something to wait for exactly if the
unfinished calls of `poll` hold fewer operations than the work queue has entries. -/
theorem backpressure_awaits_iff (hsize : 0 < wq.size) (hd : ∀ a ∈ as, DescriptorsOnly a)
    (h : (machine Q wq).run as = some s) {op : Op} {rest : List Frame}
    (hst : s.stack = .submitting op :: rest) :
    (s.gateClosed = true → Awaits s) ↔ s.held < wq.size.toNat := by
  obtain ⟨hb, hall⟩ := balanced_of_descriptors hsize hd h
  have hcount : s.submitter.inflight = (Q.contents s.queue).length + s.held := by
    rw [hb.inflight, owed, List.countP_eq_length.mpr hall, counted_length_of_submitting hb.top hst]
  have hgate : s.gateClosed = true ↔ s.submitter.inflight = wq.size.toNat := by
    have := hb.inflight_le
    simp only [gateClosed, hb.capacity, Bool.and_eq_true, decide_eq_true_eq]
    omega
  have hle := hb.inflight_le
  constructor
  · intro hw
    by_contra hheld
    obtain ⟨o, ho, _⟩ := hw (hgate.mpr (by omega))
    have := List.length_pos_of_mem ho
    omega
  · intro hheld hg
    have hpos : 0 < (Q.contents s.queue).length := by have := hgate.mp hg; omega
    obtain ⟨o, ho⟩ := List.exists_mem_of_length_pos hpos
    exact ⟨o, ho, hall o (List.mem_append_left _ ho),
      hb.served.answered o (List.mem_append_left _ ho)⟩

theorem backpressure_awaits_iff_second :
    ∃ s, (machine (singleThreadTaskQueue Op) oneWq).run
        (enter (copyOp 0) ++ [.submit (copyOp 1)]) = some s ∧ s.gateClosed = true ∧
      ((s.gateClosed = true → Awaits s) ↔ s.held < oneWq.size.toNat) := by
  have hd : ∀ a ∈ enter (copyOp 0) ++ [.submit (copyOp 1)], DescriptorsOnly a := by
    simp [enter, copyOp, DescriptorsOnly]
  exact ⟨_, rfl, rfl, backpressure_awaits_iff (by decide) hd rfl rfl⟩

/-- The device answers a copy with a page fault, and the callback submits it again. -/
def retryingRun : List Action :=
  enter (copyOp 0) ++ [.complete (copyOp 0) 3, .poll, .advance, .submit (copyOp 0)]

/-- The copy still counts against the work queue, so its retry waits for itself. -/
theorem backpressure_spins :
    ∃ s, (machine (singleThreadTaskQueue Op) oneWq).run retryingRun = some s ∧
      s.gateClosed = true ∧ ¬ Awaits s ∧
      ∀ bs t, (machine (singleThreadTaskQueue Op) oneWq).runFrom s bs = some t →
        Stuck (copyOp 0) [.polling [] (some (copyOp 0)) []] t := by
  refine ⟨_, rfl, rfl, ?_, fun bs t ht => Stuck.run ⟨.inl rfl, rfl, rfl, rfl⟩ ht⟩
  rintro ⟨o, ho, _⟩
  cases ho

end DsaStdexec.Engine.DirectEngine

namespace DsaStdexec.Engine.OperationSystem

open DsaStdexec.Lib DsaStdexec.Operation

/-! ## Every receiver is signalled once -/

variable {ι : Type} {ρ : ι → Type} {Q : TaskQueue ι}

/-- The receiver of `i` is signalled when a check, a `submit` or the device has ended the operation, and
only then. Until then the operation is with the queue or with a call, and afterwards it is in no queue.
Every submission finds a zero completion record, and every `poll` finds what the device has written
since. -/
structure ExactlyOnce (s : OperationSystem ρ Q) (i : ι) : Prop where
  atMostOnce : (s.signals i).length ≤ 1
  signalled_iff : s.signals i ≠ [] ↔ ∃ e ∈ s.history i, e.final = true
  kept : s.started i = true → s.signals i = [] → i ∈ s.live
  released : s.signals i ≠ [] → i ∉ Q.contents s.queue
  submitted_zero : ∀ c, .rung c ∈ s.history i → c = zeroRecord
  polled_answer : ∀ past c later, s.history i = past ++ .polled c :: later →
    ∃ earlier, past = earlier ++ [.rung zeroRecord, .answered c]

variable [DecidableEq ι] {ops : (i : ι) → DsaOperation (ρ i)} {s : OperationSystem ρ Q}
  {as : List (OperationAction ι)}

theorem receiver_signalled_once (h : (machine ops Q).run as = some s) (i : ι) : ExactlyOnce s i where
  atMostOnce := (sound_of_run h).custody.once i
  signalled_iff := ((sound_of_run h).recorded i).ended
  kept hst hs := ((sound_of_run h).custody.live_iff i).mpr ⟨hst, hs⟩
  released hs hq :=
    hs (((sound_of_run h).custody.live_iff i).mp (List.mem_append_left _ hq)).2
  submitted_zero := ((sound_of_run h).recorded i).rung
  polled_answer := ((sound_of_run h).recorded i).polled

def copies : (i : Nat) → DsaOperation Unit := fun _ => dataMoveOperation 0x1000 0x2000 16

/-- A copy whose first submission meets a page fault. -/
def faultingRun : List (OperationAction Nat) :=
  ([.start 0, .ring, .advance, .complete 0 ⟨3, 0, 4, 0x1004, 0⟩] : List (OperationAction Nat)) ++
    ([.poll, .advance, .ring, .advance, .advance, .complete 0 ⟨1, 0, 0, 0, 0⟩, .poll, .advance] :
      List (OperationAction Nat))

theorem receiver_signalled_once_copy :
    ∃ s, (machine copies (singleThreadTaskQueue Nat)).run faultingRun = some s ∧
      s.signals 0 = [.setValue ()] ∧ ExactlyOnce s 0 := by
  have hall : ∀ s, (machine copies (singleThreadTaskQueue Nat)).run faultingRun = some s →
      ExactlyOnce s 0 := fun _ h => receiver_signalled_once h 0
  exact ⟨_, rfl, rfl, hall _ rfl⟩

end DsaStdexec.Engine.OperationSystem

namespace DsaStdexec.Engine.ThreadedEngine

open DsaStdexec.Lib DsaStdexec.Submitter

/-! ## The background poller -/

variable {S : SharedSubmitter Op}

/-- After the final `drain` the doorbells have every descriptor that was handed over, each once. -/
def Drained (s : ThreadedEngine S) : Prop :=
  (s.threads .user).stage = .finished → s.rung = s.handed

/-- The user thread is in `submit_descriptor`, where it does not call `inflight()`. -/
def inSubmit (s : ThreadedEngine S) : Prop :=
  (∃ op, (s.threads .user).stage = .submitting op) ∧ (s.threads .user).call ≠ none

/-- `inflight()` is not below the number of descriptors that are rung and not reported. -/
def Covered (s : ThreadedEngine S) : Prop :=
  ¬ s.inSubmit → s.rung.length ≤ s.reported.length + S.inflight s.sub

/-- Where no call of the submitter overlaps another one, no descriptor is lost, and none is forgotten by
the counter. -/
theorem background_poller_safe {args : InitArgs} {mode : WqMode} {wq : Option Wq}
    {as as' : List ThreadAction} {s : ThreadedEngine (sharedStaging Op args)}
    {s' : ThreadedEngine (sharedDirect Op mode wq)}
    (hm : (machine (sharedStaging Op args)).Meets (fun s a => s.Exclusive a = true) (init _) as)
    (h : (machine (sharedStaging Op args)).run as = some s)
    (hm' : (machine (sharedDirect Op mode wq)).Meets
      (fun s a => s.Exclusive a = true ∧ Supplied a = true) (init _) as')
    (h' : (machine (sharedDirect Op mode wq)).run as' = some s') : Drained s ∧ Covered s' := by
  constructor
  · intro hf
    obtain ⟨-, -, hg⟩ := sound_of_run (staging_contract args)
      (hm.mono fun _ _ hx => ⟨hx, Or.inr (staging_indifferent args)⟩) h
    exact hg.delivered hf
  · intro hsubmit
    obtain ⟨hr, ht, hg⟩ := sound_of_run (direct_contract mode wq)
      (hm'.mono fun _ _ hx => ⟨hx.1, Or.inl hx.2⟩) h'
    have hbound := hg.along (direct_contract mode wq) hr fun op hop => by
      by_contra hcall
      exact hsubmit ⟨⟨op, hop⟩, hcall⟩
    rw [show s'.rung = s'.handed from hbound.1]
    exact ht.handed_le.trans (Nat.add_le_add_left hbound.2 _)

def wideWq : Wq := ⟨128, 0, by decide, by decide⟩

def wideArgs : InitArgs := ⟨0, .dedicated, wideWq, Or.inr (by decide)⟩

def steps (t : Thread) (n : Nat) : List ThreadAction := List.replicate n (.step t)

def copy (id : Nat) : Op := ⟨id, true⟩

/-- Two calls of `submit`, with a whole `poll` between them, and the destructor. -/
def stagingTurns : List ThreadAction :=
  .submit (copy 1) :: steps .user 9 ++ .poll :: steps .poller 14 ++
    .submit (copy 2) :: steps .user 9 ++ .drain :: steps .user 12

/-- The second `submit` comes after the `notify_complete` for the first one. -/
def directTurns : List ThreadAction :=
  .submit (copy 1) :: steps .user 6 ++ .complete (copy 1) 1 :: .poll :: .step .poller ::
    .take .poller (copy 1) :: steps .poller 5 ++ .submit (copy 2) :: steps .user 6

theorem background_poller_safe_turns :
    (∃ s, (machine (sharedStaging Op wideArgs)).run stagingTurns = some s ∧
      (s.threads .user).stage = .finished ∧ Drained s) ∧
    ∃ s, (machine (sharedDirect Op .dedicated (some wideWq))).run directTurns = some s ∧
      s.rung.length = 2 ∧ s.reported.length = 1 ∧ Covered s := by
  have hstaging : (machine (sharedStaging Op wideArgs)).Meets (fun s a => s.Exclusive a = true)
      (init _) stagingTurns := by decide +kernel
  have hdirect : (machine (sharedDirect Op .dedicated (some wideWq))).Meets
      (fun s a => s.Exclusive a = true ∧ Supplied a = true) (init _) directTurns := by decide +kernel
  have hsafe : ∀ s s', (machine (sharedStaging Op wideArgs)).run stagingTurns = some s →
      (machine (sharedDirect Op .dedicated (some wideWq))).run directTurns = some s' →
      Drained s ∧ Covered s' := fun _ _ h h' => background_poller_safe hstaging h hdirect h'
  exact ⟨⟨_, rfl, rfl, (hsafe _ _ rfl rfl).1⟩, _, rfl, rfl, rfl, (hsafe _ _ rfl rfl).2⟩

/-- `pre_poll` flushes between the `memcpy` of a descriptor and the `staged_count_++` for it. -/
def lostRun : List ThreadAction :=
  .submit (copy 1) :: steps .user 9 ++ .submit (copy 2) :: steps .user 5 ++ .poll :: steps .poller 14 ++
    steps .user 4 ++ .drain :: steps .user 12

/-- The `notify_complete` for the first operation has read `inflight_`, and writes it after the second
`submit`. -/
def forgottenRun : List ThreadAction :=
  .submit (copy 1) :: steps .user 6 ++ .complete (copy 1) 1 :: .poll :: .step .poller ::
    .take .poller (copy 1) :: steps .poller 4 ++ .submit (copy 2) :: steps .user 6 ++ [.step .poller]

theorem background_poller_races :
    (∃ s, (machine (sharedStaging Op wideArgs)).run lostRun = some s ∧
      (s.threads .user).stage = .finished ∧ copy 2 ∈ s.handed ∧ copy 2 ∉ s.rung) ∧
    ∃ s, (machine (sharedDirect Op .dedicated (some wideWq))).run forgottenRun = some s ∧
      (s.threads .user).stage = .idle ∧ (s.threads .poller).stage = .idle ∧
      s.reported.length + s.sub.inflight < s.rung.length :=
  ⟨⟨_, rfl, rfl, by decide, by decide⟩, _, rfl, rfl, rfl, by decide⟩

end DsaStdexec.Engine.ThreadedEngine

/-! ## The work queue of the batching engines -/

namespace DsaStdexec.Engine

open DsaStdexec.Lib DsaStdexec.Submitter

/-- Every call that a run makes of its submitter meets `C`. -/
def CallsMeet {σ α D A R : Type*} (P : Driven σ α D A R) (C : σ → α → Prop)
    (as : List (QueueAction (EngineAction D R))) : Prop :=
  (WorkQueue.machine (BatchingEngine.port P)).Meets (WorkQueue.OnOwn (BatchingEngine.OnCalls P C))
    (WorkQueue.machine (BatchingEngine.port P)).init as

instance {σ α D A R : Type*} (P : Driven σ α D A R) (C : σ → α → Prop) [∀ s b, Decidable (C s b)]
    (as : List (QueueAction (EngineAction D R))) : Decidable (CallsMeet P C as) :=
  Machine.decidableMeets _ _

/-- The number of doorbells in the work queue at the end of a run. -/
def occupancyAfter {σ α D A R : Type*} (P : Driven σ α D A R) (as : List (QueueAction (EngineAction D R))) :
    Option Nat := ((WorkQueue.machine (BatchingEngine.port P)).run as).map WorkQueue.occupancy

/-- A dedicated work queue does not overflow as long as no batch of one is sealed: neither by a `pre_poll`
nor at the end of the ring, and not because the batches are of size one. -/
theorem batching_within_capacity {D : Type*} [Inhabited D] (args : InitArgs)
    (hmode : args.mode = .dedicated) (hsize : 0 < args.wq.size) (hn : 2 ≤ args.maxBatch) :
    (∀ as n, CallsMeet (fixedDriven (D := D) args) FixedSystem.Paired as →
      occupancyAfter (fixedDriven args) as = some n → n ≤ args.wq.size.toNat) ∧
    ∀ k as n, CallsMeet (ringDriven (D := D) k args) (RingSystem.Paired (Geometry.ofArgs k args)) as →
      occupancyAfter (ringDriven k args) as = some n → n ≤ args.wq.size.toNat := by
  have hpos : 0 < args.wq.size.toNat := by omega
  refine ⟨fun as n hm h => ?_, fun k as n hm h => ?_⟩
  · obtain ⟨q, hrun, rfl⟩ := Option.map_eq_some_iff.mp h
    exact fixed_occupancy hn hpos (wqDepth_init hmode hsize) hm hrun
  · obtain ⟨q, hrun, rfl⟩ := Option.map_eq_some_iff.mp h
    exact ring_occupancy hn hpos (wqDepth_init hmode hsize) hm hrun

def engineSteps (as : List (EngineAction Nat Nat)) : List (QueueAction (EngineAction Nat Nat)) :=
  as.map fun a => .act (.own a)

/-- A batch of two fills the work queue, and the next `submit` waits. -/
def filledRun : List (QueueAction (EngineAction Nat Nat)) :=
  engineSteps [.submit 5, .advance, .advance, .advance, .submit 6, .advance, .advance, .advance,
    .submit 7, .advance, .pollReturn, .advance]

theorem batching_within_capacity_filled :
    CallsMeet (ringDriven .ring narrowArgs) (RingSystem.Paired (Geometry.ofArgs .ring narrowArgs))
      filledRun ∧
    ∃ n, occupancyAfter (ringDriven .ring narrowArgs) filledRun = some n ∧ n = 1 ∧
      n ≤ narrowArgs.wq.size.toNat := by
  have hm : CallsMeet (ringDriven .ring narrowArgs)
      (RingSystem.Paired (Geometry.ofArgs .ring narrowArgs)) filledRun := by decide +kernel
  have h : occupancyAfter (ringDriven .ring narrowArgs) filledRun = some 1 := by decide +kernel
  exact ⟨hm, 1, h, rfl, (batching_within_capacity narrowArgs rfl (by decide) (by decide)).2 .ring
    filledRun 1 hm h⟩

/-- Two descriptors, with a `poll` after each of them; a call takes `n` steps. -/
def polledRun (n : Nat) : List (QueueAction (EngineAction Nat Nat)) :=
  engineSteps ((.submit 5 :: List.replicate n .advance : List (EngineAction Nat Nat)) ++
    ([.poll, .pollReturn] : List (EngineAction Nat Nat)) ++
    (.submit 6 :: List.replicate n .advance : List (EngineAction Nat Nat)) ++
    ([.poll] : List (EngineAction Nat Nat)))

/-- `pre_poll` seals a batch of one twice, and neither doorbell is counted. -/
theorem batching_overflows : narrowArgs.wq.size.toNat = 1 ∧
    occupancyAfter (fixedDriven narrowArgs) (polledRun 2) = some 2 ∧
    ∀ k, occupancyAfter (ringDriven k narrowArgs) (polledRun 3) = some 2 := by
  refine ⟨rfl, by decide +kernel, fun k => ?_⟩
  cases k with
  | ring => decide +kernel
  | mirrored => decide +kernel

/-! ## The run loop -/

namespace PollingRunLoop

variable {T : Type*} [DecidableEq T]

/-- The loop over the circle and the loop over a queue take the same runs, the circle being the queue
after each of them. What was pushed was executed, is in the hands of `run` or is queued, in this order.
What is queued when `run` stops is what is executed first from there on, and the next `run` does execute
it. -/
theorem run_loop_fifo (next : T → Option T) (as : List (RunAction T))
    (hC : (FifoLoop.machine T).Meets FifoLoop.PushesUnqueued (FifoLoop.machine T).init as) :
    Option.Rel Refines ((machine next).run as) ((FifoLoop.machine T).run as) ∧
    ∀ s q, (machine next).run as = some s → (FifoLoop.machine T).run as = some q →
      s.pushed = s.ran ++ s.stage.inHand ++ q.queue ∧ Circle s.nodes q.queue ∧
      (s.stage = .stopped →
        (∀ bs t, (FifoLoop.machine T).Meets FifoLoop.PushesUnqueued q bs →
          (machine next).runFrom s bs = some t →
            ∃ ran new, t.ran = s.ran ++ ran ∧ t.pushed = s.pushed ++ new ∧ ran <+: q.queue ++ new) ∧
        ∀ first rest, q.queue = first :: rest →
          ∃ t, (machine next).runFrom s [.reset, .run, .test, .pop, .execute] = some t ∧
            t.ran = s.ran ++ [first]) := by
  have hrel := run_refines next hC
  refine ⟨hrel, fun s q hs hq => ?_⟩
  rw [hs, hq] at hrel
  cases hrel with
  | some hrefines =>
      have hordered := FifoLoop.ordered_of_run hq
      refine ⟨?_, hrefines.circle, fun hstopped => ⟨fun bs t hm ht => ?_, fun first rest hqueue => ?_⟩⟩
      · rw [hrefines.pushed, hrefines.ran, hrefines.stage]
        exact hordered
      · obtain ⟨q', hq', hrefines'⟩ := runFrom_refines hrefines hm ht
        obtain ⟨⟨new, hnew⟩, ⟨ran, hran⟩⟩ := FifoLoop.history_of_runFrom hq'
        refine ⟨ran, new, ?_, ?_, ?_⟩
        · rw [hrefines'.ran, hrefines.ran, hran]
        · rw [hrefines'.pushed, hrefines.pushed, hnew]
        · exact FifoLoop.ran_of_stopped hordered (FifoLoop.ordered_of_run (Machine.runFrom_append hq hq'))
            (hrefines.stage ▸ hstopped) hran.symm hnew.symm
      · obtain ⟨t, ht, hrefines'⟩ := exists_runFrom_of_fifo hrefines
          (FifoLoop.runFrom_first (hrefines.stage ▸ hstopped) hqueue) FifoLoop.meets_first
        exact ⟨t, ht, by rw [hrefines'.ran, hrefines.ran]⟩

/-- The first task pushes itself and two others and calls `finish`. -/
def finishedRun : List (RunAction Nat) :=
  [.push 0, .run, .test, .pop, .execute, .push 1, .push 0, .finish, .executed, .push 2, .polled, .test]

theorem run_loop_fifo_finished : ∃ s, (machine fun _ : Nat => none).run finishedRun = some s ∧
    s.stage = .stopped ∧ s.pushed = [0, 1, 0, 2] ∧ s.ran = [0] ∧ Circle s.nodes [1, 0, 2] ∧
    ∃ t, (machine fun _ : Nat => none).runFrom s [.reset, .run, .test, .pop, .execute] = some t ∧
      t.ran = [0, 1] := by
  have h := run_loop_fifo (fun _ : Nat => none) finishedRun (by decide)
  have hs : ((machine fun _ : Nat => none).run finishedRun).map (fun s => (s.stage, s.pushed, s.ran)) =
      some (.stopped, [0, 1, 0, 2], [0]) := by decide
  have hq : ((FifoLoop.machine Nat).run finishedRun).map FifoLoop.queue = some [1, 0, 2] := by decide
  obtain ⟨s, hs, heq⟩ := Option.map_eq_some_iff.mp hs
  obtain ⟨q, hq, hqueue⟩ := Option.map_eq_some_iff.mp hq
  simp only [Prod.mk.injEq] at heq
  obtain ⟨hstage, hpushed, hran⟩ := heq
  obtain ⟨-, hcircle, hstopped⟩ := h.2 s q hs hq
  obtain ⟨t, ht, htran⟩ := (hstopped hstage).2 1 [0, 2] hqueue
  exact ⟨s, hs, hstage, hpushed, hran, hqueue ▸ hcircle, t, ht, by rw [htran, hran]; rfl⟩

end PollingRunLoop

end DsaStdexec.Engine

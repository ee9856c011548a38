import DsaStdexec.Engine.RunLoop
import DsaStdexec.Lib.LinkedList

/-!
# The circle of a run loop is a queue
-/

namespace DsaStdexec.Engine

open DsaStdexec.Lib

variable {T : Type*}

namespace PollingRunLoop

variable {nodes nodes' : Option T → Task T} {queue : List T} {t : T}

/-! ## The memory -/

/-- The circle leads through `queue` back to `head_`, and the tail is the last one of the queue or
`head_`. -/
structure Circle (nodes : Option T → Task T) (queue : List T) : Prop where
  chain : Chain (fun t => (nodes (some t)).next) (nodes none).next queue
  tail : (nodes none).overlay = .tail queue.getLast?
  callable : ∀ t, (nodes (some t)).overlay = .executeFn

theorem circle_new (next : T → Option T) : Circle (new next).nodes [] :=
  ⟨Chain.nil, rfl, fun _ => rfl⟩

theorem Circle.tail_eq (h : Circle nodes queue) : PollingRunLoop.tail nodes = some queue.getLast? := by
  unfold PollingRunLoop.tail
  rw [h.tail]

variable [DecidableEq T]

/-- Setting a pointer of a task that is not queued changes nothing. -/
theorem Circle.setNext_loose (h : Circle nodes queue) (ht : t ∉ queue) (p : Option T) :
    Circle (setNext nodes (some t) p) queue where
  chain := by
    have hhead : (setNext nodes (some t) p none).next = (nodes none).next := by simp [setNext]
    rw [hhead]
    refine h.chain.congr fun u hu => ?_
    have hne : u ≠ t := fun he => ht (he ▸ hu)
    simp [setNext, hne]
  tail := by simpa [setNext] using h.tail
  callable u := by
    by_cases hu : u = t
    · subst hu
      simpa [setNext] using h.callable u
    · simpa [setNext, hu] using h.callable u

/-- The pointer behind the last task, which is that of `head_` when there is none. -/
theorem Circle.append (h : Circle nodes queue) (ht : t ∉ queue) (hnext : (nodes (some t)).next = none) :
    Circle (setTail (setNext nodes queue.getLast? (some t)) (some t)) (queue ++ [t]) where
  chain := by
    rcases List.eq_nil_or_concat queue with rfl | ⟨front, n, rfl⟩
    · simp [setTail, setNext, chain_cons_iff, chain_nil_iff, hnext]
    · rw [List.concat_eq_append] at h ht ⊢
      have hlinked := h.chain.concat ht hnext
      simp only [List.getLast?_append, List.getLast?_singleton, Option.some_or]
      have hhead : (setTail (setNext nodes (some n) (some t)) (some t) none).next = (nodes none).next := by
        simp [setTail, setNext]
      rw [hhead]
      refine hlinked.congr fun u _ => ?_
      by_cases hu : u = n
      · subst hu
        simp [setTail, setNext]
      · simp [setTail, setNext, hu]
  tail := by simp [setTail]
  callable u := by
    have hset : ∀ p, (setNext nodes p (some t) (some u)).overlay = .executeFn := by
      intro p
      by_cases hu : some u = p
      · subst hu
        simpa [setNext] using h.callable u
      · simpa [setNext, Function.update_of_ne hu] using h.callable u
    simpa [setTail] using hset queue.getLast?

theorem Circle.pushBack (h : Circle nodes queue) (ht : t ∉ queue) :
    ∃ nodes', pushBack nodes t = some nodes' ∧ Circle nodes' (queue ++ [t]) := by
  have hloose := h.setNext_loose ht none
  refine ⟨_, ?_, hloose.append ht (by simp [setNext])⟩
  simp only [PollingRunLoop.pushBack, hloose.tail_eq, Option.map_some]

theorem Circle.tryPopFront_nil (h : Circle nodes []) : tryPopFront nodes = some (none, nodes) := by
  have hhead : (nodes none).next = none := h.chain
  simp [tryPopFront, hhead]

/-- The tail is moved back to `head_` with the last task. -/
theorem Circle.tryPopFront_cons (h : Circle nodes (t :: queue)) :
    ∃ nodes', tryPopFront nodes = some (some t, nodes') ∧ Circle nodes' queue := by
  obtain ⟨hhead, hrest⟩ := chain_cons_iff.mp h.chain
  have ht : t ∉ queue := (List.nodup_cons.mp h.chain.nodup).1
  simp only [tryPopFront, hhead, h.tail_eq, Option.map_some]
  refine ⟨_, rfl, ?_, ?_, ?_⟩
  · split
    · simpa [setNext, setTail] using hrest
    · simpa [setNext] using hrest
  · rcases List.eq_nil_or_concat queue with rfl | ⟨front, n, rfl⟩
    · simp [setNext, setTail]
    · -- the last task is another one than the first
      have hne : n ≠ t := fun he => ht (by simp [he])
      have hlast : (t :: front.concat n).getLast? = some n := by
        rw [List.concat_eq_append, ← List.cons_append, List.getLast?_concat]
      have htail := h.tail
      rw [hlast] at htail ⊢
      simpa [setNext, hne] using htail
  · intro u
    split
    · simpa [setNext, setTail] using h.callable u
    · simpa [setNext] using h.callable u

/-! ## Refinement -/

/-- The loop is at the same place and its circle is the queue. -/
structure Refines (s : PollingRunLoop T) (q : FifoLoop T) : Prop where
  circle : Circle s.nodes q.queue
  stop : s.stop = q.stop
  stage : s.stage = q.stage
  pushed : s.pushed = q.pushed
  ran : s.ran = q.ran

variable {s : PollingRunLoop T} {q : FifoLoop T} {a : RunAction T}

theorem step_refines (h : Refines s q) (hC : q.PushesUnqueued a) :
    Option.Rel Refines (s.step a) (q.step a) := by
  obtain ⟨nodes, stop, stage, pushed, ran⟩ := s
  obtain ⟨queue, stop', stage', pushed', ran'⟩ := q
  obtain ⟨hcircle, rfl, rfl, rfl, rfl⟩ := h
  cases a with
  | push t =>
      obtain ⟨nodes', hpush, hcircle'⟩ := Circle.pushBack hcircle hC
      simp only [step, FifoLoop.step, hpush, Option.map_some]
      exact .some ⟨hcircle', rfl, rfl, rfl, rfl⟩
  | finish | reset => exact .some ⟨hcircle, rfl, rfl, rfl, rfl⟩
  | run =>
      cases stage with
      | stopped => exact .some ⟨hcircle, rfl, rfl, rfl, rfl⟩
      | testing | popping | popped _ | executing _ | polling => exact .none
  | test =>
      cases stage with
      | testing => exact .some ⟨hcircle, rfl, rfl, rfl, rfl⟩
      | stopped | popping | popped _ | executing _ | polling => exact .none
  | pop =>
      cases stage with
      | popping =>
          cases queue with
          | nil =>
              simp only [step, FifoLoop.step, Circle.tryPopFront_nil hcircle, Option.map_some]
              exact .some ⟨hcircle, rfl, rfl, rfl, rfl⟩
          | cons t queue =>
              obtain ⟨nodes', hpop, hcircle'⟩ := Circle.tryPopFront_cons hcircle
              simp only [step, FifoLoop.step, hpop, Option.map_some]
              exact .some ⟨hcircle', rfl, rfl, rfl, rfl⟩
      | stopped | testing | popped _ | executing _ | polling => exact .none
  | execute =>
      cases stage with
      | popped t =>
          have hcall : (nodes (some t)).overlay = .executeFn := hcircle.callable t
          simp only [step, FifoLoop.step, hcall]
          exact .some ⟨hcircle, rfl, rfl, rfl, rfl⟩
      | stopped | testing | popping | executing _ | polling => exact .none
  | executed =>
      cases stage with
      | executing t => exact .some ⟨hcircle, rfl, rfl, rfl, rfl⟩
      | stopped | testing | popping | popped _ | polling => exact .none
  | polled =>
      cases stage with
      | polling => exact .some ⟨hcircle, rfl, rfl, rfl, rfl⟩
      | stopped | testing | popping | popped _ | executing _ => exact .none

theorem run_refines (next : T → Option T) {as : List (RunAction T)}
    (hC : (FifoLoop.machine T).Meets FifoLoop.PushesUnqueued (FifoLoop.machine T).init as) :
    Option.Rel Refines ((machine next).run as) ((FifoLoop.machine T).run as) :=
  Machine.runFrom_rel (fun _ _ _ => step_refines) ⟨circle_new next, rfl, rfl, rfl, rfl⟩ hC

theorem runFrom_refines {next : T → Option T} {t : PollingRunLoop T} {as : List (RunAction T)}
    (h : Refines s q) (hC : (FifoLoop.machine T).Meets FifoLoop.PushesUnqueued q as)
    (hs : (machine next).runFrom s as = some t) :
    ∃ q', (FifoLoop.machine T).runFrom q as = some q' ∧ Refines t q' := by
  have hrel := Machine.runFrom_rel (M := machine next) (fun _ _ _ => step_refines) h hC
  rw [hs] at hrel
  cases hq : (FifoLoop.machine T).runFrom q as with
  | none => rw [hq] at hrel; cases hrel
  | some q' =>
      rw [hq] at hrel
      cases hrel with
      | some h => exact ⟨q', rfl, h⟩

/-- The circle is never stuck where the queue is not. -/
theorem exists_runFrom_of_fifo {next : T → Option T} {q' : FifoLoop T} {as : List (RunAction T)}
    (h : Refines s q) (hq : (FifoLoop.machine T).runFrom q as = some q')
    (hC : (FifoLoop.machine T).Meets FifoLoop.PushesUnqueued q as) :
    ∃ t, (machine next).runFrom s as = some t ∧ Refines t q' := by
  have hrel := Machine.runFrom_rel (M := machine next) (fun _ _ _ => step_refines) h hC
  rw [hq] at hrel
  cases hs : (machine next).runFrom s as with
  | none => rw [hs] at hrel; cases hrel
  | some t =>
      rw [hs] at hrel
      cases hrel with
      | some h => exact ⟨t, rfl, h⟩

end PollingRunLoop

/-! ## The queue -/

/-- The task that `run` has popped and not yet executed. -/
def RunStage.inHand : RunStage T → List T
  | .popped t => [t]
  | _ => []

namespace FifoLoop

variable {q q' : FifoLoop T} {a : RunAction T}

/-- What was pushed was executed, is in the hands of `run`, or is queued, in this order. -/
def Ordered (q : FifoLoop T) : Prop := q.pushed = q.ran ++ q.stage.inHand ++ q.queue

theorem ordered_step (h : q.Ordered) (hs : q.step a = some q') : q'.Ordered := by
  unfold Ordered at h ⊢
  cases a with
  | push t =>
      cases hs
      simp [h]
  | finish | reset => cases hs; exact h
  | run =>
      simp only [step] at hs
      split at hs
      · next hst => cases hs; simpa [hst, RunStage.inHand] using h
      · cases hs
  | test =>
      simp only [step] at hs
      split at hs
      · next hst =>
          cases hs
          rw [hst] at h
          split <;> exact h
      · cases hs
  | pop =>
      simp only [step] at hs
      split at hs
      · next hst hq => cases hs; simpa [hst, RunStage.inHand] using h
      · next t rest hst hq => cases hs; simpa [hst, hq, RunStage.inHand] using h
      · cases hs
  | execute =>
      simp only [step] at hs
      split at hs
      · next hst => cases hs; simpa [hst, RunStage.inHand] using h
      · cases hs
  | executed =>
      simp only [step] at hs
      split at hs
      · next hst => cases hs; simpa [hst, RunStage.inHand] using h
      · cases hs
  | polled =>
      simp only [step] at hs
      split at hs
      · next hst => cases hs; simpa [hst, RunStage.inHand] using h
      · cases hs

theorem history_step (hs : q.step a = some q') : q.pushed <+: q'.pushed ∧ q.ran <+: q'.ran := by
  cases a with
  | push t => cases hs; exact ⟨List.prefix_append _ _, List.prefix_rfl⟩
  | finish | reset => cases hs; exact ⟨List.prefix_rfl, List.prefix_rfl⟩
  | execute =>
      simp only [step] at hs
      split at hs
      · cases hs; exact ⟨List.prefix_rfl, List.prefix_append _ _⟩
      · cases hs
  | run | test | pop | executed | polled =>
      simp only [step] at hs
      split at hs <;> cases hs <;> exact ⟨List.prefix_rfl, List.prefix_rfl⟩

/-- The histories only grow. -/
theorem history_of_runFrom {as : List (RunAction T)} (h : (machine T).runFrom q as = some q') :
    q.pushed <+: q'.pushed ∧ q.ran <+: q'.ran := by
  refine Machine.runFrom_keeps (I := fun x => q.pushed <+: x.pushed ∧ q.ran <+: x.ran) ?_
    ⟨List.prefix_rfl, List.prefix_rfl⟩ h
  intro x a x' hx hs
  have := history_step hs
  exact ⟨hx.1.trans this.1, hx.2.trans this.2⟩

theorem ordered_of_run {as : List (RunAction T)} (h : (machine T).run as = some q) : q.Ordered :=
  Machine.run_invariant (M := machine T) (I := Ordered) rfl (fun _ _ _ => ordered_step) h

/-- Whatever is executed after a stop is what was queued then, and after it what was pushed since. -/
theorem ran_of_stopped (hq : q.Ordered) (hq' : q'.Ordered) (hstage : q.stage = .stopped) {ran new : List T}
    (hran : q'.ran = q.ran ++ ran) (hnew : q'.pushed = q.pushed ++ new) : ran <+: q.queue ++ new := by
  unfold Ordered at hq hq'
  rw [hstage] at hq
  rw [hnew, hq, hran] at hq'
  simp only [RunStage.inHand, List.append_nil, List.append_assoc, List.append_cancel_left_eq] at hq'
  exact ⟨_, hq'.symm⟩

/-- A loop that is reset and run executes the first of its queue. -/
theorem runFrom_first {first : T} {rest : List T} (hstage : q.stage = .stopped)
    (hqueue : q.queue = first :: rest) :
    (machine T).runFrom q [.reset, .run, .test, .pop, .execute] =
      some { q with queue := rest, stop := false, stage := .executing first, ran := q.ran ++ [first] } := by
  simp [Machine.runFrom, machine, step, hstage, hqueue]

theorem meets_first : (machine T).Meets PushesUnqueued q [.reset, .run, .test, .pop, .execute] := by
  simp [Machine.Meets, PushesUnqueued]

end FifoLoop

end DsaStdexec.Engine

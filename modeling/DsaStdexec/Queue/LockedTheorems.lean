import DsaStdexec.Queue.Lemmas.LockedRuns
import DsaStdexec.Queue.Locks

/-!
# The locks and the locked queue under any interleaving
-/

namespace DsaStdexec.Queue

open DsaStdexec.Lib

variable {T O : Type} [DecidableEq T] [DecidableEq O]

/-- Whatever the threads do, at most one of them has the lock, and the flag is set exactly while one has it.
A thread that waits while nobody has the lock gets it with its next two accesses, and the pauses of the
lock with backoff double from 1 to at most 1024. -/
theorem locks_exclude (k : LockKind) (as : List (ContestAction T)) (s : Contest k.lock T)
    (h : (Contest.machine k.lock T).run as = some s) :
    (∀ t u, s.Inside t → s.Inside u → t = u) ∧
    (k.lawful.held s.word = true ↔ ∃ t, s.Inside t) ∧
    (∀ t spin, s.place t = .waiting spin → (∀ u, ¬ s.Inside u) →
      ∃ n ≤ 1, ∃ s', (Contest.machine k.lock T).runFrom s (List.replicate (n + 1) (.attempt t)) = some s' ∧
        s'.Inside t) ∧
    ∀ t spin, s.place t = .waiting spin → BackoffOk (k.backoff spin) := by
  have hg : Guards k.lawful s.word s.Inside := Contest.run_guards h
  refine ⟨hg.unique, hg.held_iff, fun t spin ht hnone => ?_, fun t spin ht => ?_⟩
  · obtain ⟨n, hn, hrun⟩ := Contest.enters_alone (hg.free_of_nobody hnone) ht
    exact ⟨n, hn.trans (k.rank_le spin), hrun⟩
  · exact Contest.run_spin (P := fun spin => BackoffOk (k.backoff spin)) k.backoff_enter
      k.backoff_attempt h ht

/-- Two threads compete for the lock with backoff; the second one fails its exchange. -/
def contestExample : List (ContestAction (Fin 2)) :=
  [.lock 0, .lock 1, .attempt 0, .attempt 1, .attempt 0, .attempt 1, .attempt 1, .attempt 1]

theorem locks_exclude_contest : ∃ s : Contest LockKind.ttasBackoff.lock (Fin 2),
    (Contest.machine LockKind.ttasBackoff.lock (Fin 2)).run contestExample = some s ∧ s.Inside 0 ∧
      ∀ t u, s.Inside t → s.Inside u → t = u :=
  ⟨_, rfl, rfl, (locks_exclude .ttasBackoff contestExample _ rfl).1⟩

variable [Fintype T]

/-- Under any interleaving of the accesses of any number of threads, no call comes to an access that it
cannot make: it touches only operations that have been pushed and not yet notified. No two threads are
about to touch `head_`, or the same operation. -/
theorem locked_queue_race_free (k : LockKind) (as : List (LockedAction T O)) (s : LockedProtocol k.lock T O)
    (h : (LockedProtocol.machine k.lock T O).run as = some s) :
    (∀ t f, (s.threads t).frame = some f →
      (∃ s', s.step (.advance t) = some s') ∧ ∀ o ∈ f.operands, o ∈ s.heap.owned) ∧
    ∀ t u f g, t ≠ u → (s.threads t).frame = some f → (s.threads u).frame = some g →
      (f.touchesHead = true → g.touchesHead = false) ∧ ∀ o ∈ f.operands, o ∉ g.operands := by
  obtain ⟨b, l, held, -, hr⟩ := LockedProtocol.run_represents k.lawful h
  refine ⟨fun t f hf => ⟨?_, fun o ho => hr.operands_owned hf ho⟩, fun t u f g hu hf hg => hr.no_race hf hg hu⟩
  obtain ⟨s₁, next, b', l', held', ha, -, -, -⟩ := LockedProtocol.succeeds hr hf
  exact ⟨s₁.proceed t next, by simp [LockedProtocol.step, hf, ha]⟩

/-- Thread 0 pushes two operations; while it waits for the lock for the second one, thread 1 is in the
middle of `poll`. -/
def lockedExample : List (LockedAction (Fin 2) (Fin 2)) :=
  [.call 0 (.push 0), .advance 0, .advance 0, .advance 0, .advance 0, .advance 0, .finish 0, .call 1 .poll,
    .call 0 (.push 1), .advance 1, .advance 0, .advance 1, .advance 1, .advance 1, .advance 0]

theorem locked_queue_race_free_poll : ∃ s : LockedProtocol LockKind.tas.lock (Fin 2) (Fin 2),
    (LockedProtocol.machine LockKind.tas.lock (Fin 2) (Fin 2)).run lockedExample = some s ∧
      ((s.threads 1).frame.any (·.touchesHead)) = true ∧
      ∀ f, (s.threads 1).frame = some f → ∃ s', s.step (.advance 1) = some s' := by
  have h : (((LockedProtocol.machine LockKind.tas.lock (Fin 2) (Fin 2)).run lockedExample).any
      fun s => (s.threads 1).frame.any (·.touchesHead)) = true := by decide +kernel
  obtain ⟨s, hs, hhead⟩ := Option.any_eq_true _ _ |>.mp h
  exact ⟨s, hs, hhead, fun f hf => ((locked_queue_race_free .tas lockedExample s hs).1 1 f hf).1⟩

/-- Every history of calls, notifications and returns is one of a bag whose operations take effect in one
step. In particular `poll` takes all operations that were in the queue and completed when it was called,
unless another call took them, and nothing else than completed operations; it notifies each of them once
and returns their number. Every operation in the queue has been pushed once more often than it has been
notified, and any other one as often. -/
theorem locked_queue_linearizable (k : LockKind) (as : List (LockedAction T O))
    (s : LockedProtocol k.lock T O) (h : (LockedProtocol.machine k.lock T O).run as = some s) :
    (∃ b : SharedBag T O, b.Reachable ∧ b.log = s.log ∧ ∀ o ∈ b.pending, o ∈ s.heap.owned) ∧
    ∀ o, pushes o s.log = notifications o s.log + if o ∈ s.heap.owned then 1 else 0 := by
  obtain ⟨b, l, held, hreach, hr⟩ := LockedProtocol.run_represents k.lawful h
  exact ⟨⟨b, hreach, hr.log, fun o ho => hr.pending_owned ho⟩, (LockedProtocol.run_accounted h).2⟩

theorem locked_queue_linearizable_poll : ∃ s : LockedProtocol LockKind.tas.lock (Fin 2) (Fin 2),
    (LockedProtocol.machine LockKind.tas.lock (Fin 2) (Fin 2)).run lockedExample = some s ∧
      s.heap.owned = [1, 0] ∧ ∃ b : SharedBag (Fin 2) (Fin 2), b.Reachable ∧ b.log = s.log := by
  have h : (((LockedProtocol.machine LockKind.tas.lock (Fin 2) (Fin 2)).run lockedExample).any
      fun s => decide (s.heap.owned = [1, 0])) = true := by decide +kernel
  obtain ⟨s, hs, howned⟩ := Option.any_eq_true _ _ |>.mp h
  obtain ⟨⟨b, hreach, hlog, -⟩, -⟩ := locked_queue_linearizable .tas lockedExample s hs
  exact ⟨s, hs, of_decide_eq_true howned, b, hreach, hlog⟩

/-- The queue never deadlocks: from every state that the threads can come to, with calls nested in
callbacks, they can return from all their calls without making another one. -/
theorem locked_queue_deadlock_free (k : LockKind) (as : List (LockedAction T O))
    (s : LockedProtocol k.lock T O) (h : (LockedProtocol.machine k.lock T O).run as = some s) :
    ∃ s', (LockedProtocol.machine k.lock T O).Leads LockedAction.Running s s' ∧
      ∀ t, s'.threads t = ⟨none, []⟩ := by
  obtain ⟨b, l, held, -, hr⟩ := LockedProtocol.run_represents k.lawful h
  exact LockedProtocol.can_finish hr

theorem locked_queue_deadlock_free_poll : ∃ s s' : LockedProtocol LockKind.tas.lock (Fin 2) (Fin 2),
    (LockedProtocol.machine LockKind.tas.lock (Fin 2) (Fin 2)).run lockedExample = some s ∧
      (LockedProtocol.machine LockKind.tas.lock (Fin 2) (Fin 2)).Leads LockedAction.Running s s' ∧
      ∀ t, s'.threads t = ⟨none, []⟩ := by
  have h : ((LockedProtocol.machine LockKind.tas.lock (Fin 2) (Fin 2)).run lockedExample).isSome = true := by
    decide +kernel
  obtain ⟨s, hs⟩ := Option.isSome_iff_exists.mp h
  obtain ⟨s', hleads, hdone⟩ := locked_queue_deadlock_free .tas lockedExample s hs
  exact ⟨s, s', hs, hleads, hdone⟩

end DsaStdexec.Queue

import DsaStdexec.Bench.CrossThreadWake

/-!
# The way of a waker

A waker that is in the slot before the worker takes it is the one the worker wakes. The command is sent
once, so the worker takes the waker once.
-/

namespace DsaStdexec.Bench

open DsaStdexec.Lib

/-- The worker is at the command of the future. -/
def WorkerStage.busy : WorkerStage → Bool
  | .received | .stored | .taken _ => true
  | .receiving | .exited => false

/-- The waker that the last poll has stored, if it has. -/
def PollStage.registered : PollStage → Option Nat
  | .stored k | .requested k | .pending k => some k
  | _ => none

namespace CrossThreadWake

variable {s s' t : CrossThreadWake} {a : WakeAction} {k : Nat}

/-! ## Steps -/

/-- What a step can do. -/
inductive Effect (s : CrossThreadWake) : WakeAction → CrossThreadWake → Prop
  | E_Ready (h : s.poll.returned = true) (hr : s.ready = true) :
      Effect s .load { s with polls := s.polls + 1, poll := .ready }
  | E_Loaded (h : s.poll.returned = true) (hr : s.ready = false) :
      Effect s .load { s with polls := s.polls + 1, poll := .loaded s.polls }
  | E_Stored (k : Nat) (h : s.poll = .loaded k) :
      Effect s .storeWaker { s with waker := some k, poll := .stored k }
  | E_Again (k : Nat) (h : s.poll = .stored k) (hr : s.requested = true) :
      Effect s .sendWake { s with poll := .requested k }
  | E_Unavailable (k : Nat) (h : s.poll = .stored k) :
      Effect s .sendWake { s with poll := .unavailable }
  | E_Sent (k : Nat) (h : s.poll = .stored k) (hr : s.requested = false) (hw : s.worker ≠ .exited) :
      Effect s .sendWake
        { s with requested := true, channel := s.channel ++ [.wake], poll := .requested k }
  | E_Pending (k : Nat) (h : s.poll = .requested k) : Effect s .returnPending { s with poll := .pending k }
  | E_Shutdown : Effect s .sendShutdown { s with channel := s.channel ++ [.shutdown] }
  | E_Received (rest : List WorkerCommand) (h : s.worker = .receiving) (hc : s.channel = .wake :: rest) :
      Effect s .receive { s with worker := .received, channel := rest }
  | E_Exited (h : s.worker = .receiving) :
      Effect s .receive { s with worker := .exited, channel := [] }
  | E_ReadyStored (h : s.worker = .received) :
      Effect s .storeReady { s with ready := true, worker := .stored }
  | E_Taken (h : s.worker = .stored) :
      Effect s .takeWaker { s with waker := none, worker := .taken s.waker }
  | E_Woken (w : Option Nat) (h : s.worker = .taken w) :
      Effect s .wakeWaker
        { s with worker := .receiving, processed := true, woken := s.woken ++ w.toList }

theorem step_effect (h : s.step a = some s') : Effect s a s' := by
  cases a with
  | load =>
      simp only [step, load] at h
      split at h
      · next hret =>
          split at h
          · next hr => cases h; exact .E_Ready hret hr
          · next hr => cases h; exact .E_Loaded hret (Bool.not_eq_true _ ▸ hr)
      · cases h
  | storeWaker =>
      simp only [step, storeWaker] at h
      split at h
      · next k hk => cases h; exact .E_Stored k hk
      · cases h
  | sendWake =>
      simp only [step, sendWake] at h
      split at h
      · next k hk =>
          split at h
          · next hr => cases h; exact .E_Again k hk hr
          · next hr =>
              split at h
              · cases h; exact .E_Unavailable k hk
              · next hw => cases h; exact .E_Sent k hk (Bool.not_eq_true _ ▸ hr) hw
      · cases h
  | returnPending =>
      simp only [step, returnPending] at h
      split at h
      · next k hk => cases h; exact .E_Pending k hk
      · cases h
  | sendShutdown => cases h; exact .E_Shutdown
  | receive =>
      simp only [step, receive] at h
      split at h
      · next rest hw hc => cases h; exact .E_Received rest hw hc
      · next hw _ => cases h; exact .E_Exited hw
      · cases h
  | storeReady =>
      simp only [step, storeReady] at h
      split at h
      · next hw => cases h; exact .E_ReadyStored hw
      · cases h
  | takeWaker =>
      simp only [step, takeWaker] at h
      split at h
      · next hw => cases h; exact .E_Taken hw
      · cases h
  | wakeWaker =>
      simp only [step, wakeWaker] at h
      split at h
      · next w hw => cases h; exact .E_Woken w hw
      · cases h

/-! ## The command is sent once -/

/-- How often the command of the future is in the channel, at the worker, or done with. -/
def commands (s : CrossThreadWake) : Nat :=
  s.channel.count .wake + (if s.worker.busy then 1 else 0) + if s.processed then 1 else 0

/-- The command is sent at most once, and the flag says so. -/
def SentOnce (s : CrossThreadWake) : Prop := s.commands ≤ if s.requested then 1 else 0

theorem sentOnce_new : new.SentOnce := Nat.le_refl 0

theorem sentOnce_step (hs : s.SentOnce) (h : s.step a = some s') : s'.SentOnce := by
  unfold SentOnce commands at hs ⊢
  cases step_effect h with
  | E_Ready | E_Loaded | E_Stored | E_Again | E_Unavailable | E_Pending => exact hs
  | E_Sent k hk hr hw =>
      simp only [hr, Bool.false_eq_true, if_false, Nat.le_zero] at hs
      simp only [List.count_append, List.count_singleton_self, if_true]
      omega
  | E_Shutdown => simpa using hs
  | E_Received rest hw hc =>
      rw [hc, hw] at hs
      simp only [List.count_cons_self, WorkerStage.busy, Bool.false_eq_true, if_false] at hs
      simp only [WorkerStage.busy, if_true]
      omega
  | E_Exited hw =>
      simp only [List.count_nil, WorkerStage.busy, Bool.false_eq_true, if_false]
      omega
  | E_ReadyStored hw | E_Taken hw =>
      rw [hw] at hs
      exact hs
  | E_Woken w hw =>
      rw [hw] at hs
      simp only [WorkerStage.busy, if_true] at hs
      simp only [WorkerStage.busy, Bool.false_eq_true, if_false, if_true]
      omega

/-- Nothing takes the waker after the command was processed. -/
theorem SentOnce.not_busy (hs : s.SentOnce) (hp : s.processed = true) :
    s.worker.busy = false := by
  unfold SentOnce commands at hs
  rw [hp, if_pos rfl] at hs
  cases hb : s.worker.busy with
  | false => rfl
  | true =>
      rw [hb, if_pos rfl] at hs
      split at hs <;> omega

/-! ## The waker of the last poll -/

/-- Where the waker of a poll can be once it was stored. -/
inductive Underway (s : CrossThreadWake) (k : Nat) : Prop
  | inSlot (h : s.waker = some k) (ht : s.hasTaken = false)
  | taken (h : s.worker = .taken (some k))
  | woken (h : k ∈ s.woken)

def Registered (s : CrossThreadWake) : Prop := ∀ k, s.poll.registered = some k → s.Underway k

theorem registered_new : new.Registered := by
  intro k hk
  cases hk

/-- A step that leaves the slot and the worker alone. -/
theorem Underway.congr (h : s.Underway k) (hw : s'.waker = s.waker) (hp : s'.processed = s.processed)
    (hk : s'.worker = s.worker) (hn : s'.woken = s.woken) : s'.Underway k := by
  cases h with
  | inSlot h ht => exact .inSlot (hw.trans h) (by unfold hasTaken at ht ⊢; rwa [hp, hk])
  | taken h => exact .taken (hk.trans h)
  | woken h => exact .woken (hn ▸ h)

/-- A step of the worker before it takes the waker. -/
theorem Underway.worker_step (h : s.Underway k) (hw : s'.waker = s.waker)
    (hp : s'.processed = s.processed) (hn : s'.woken = s.woken) (hk : s.worker.hasTaken = false)
    (hk' : s'.worker.hasTaken = false) : s'.Underway k := by
  cases h with
  | inSlot h ht =>
      unfold hasTaken at ht
      rw [hk] at ht
      exact .inSlot (hw.trans h) (by unfold hasTaken; rwa [hp, hk'])
  | taken h => rw [h] at hk; cases hk
  | woken h => exact .woken (hn ▸ h)

theorem registered_step (hs : s.Registered) (h : s.step a = some s') (hC : StoresBeforeTake s a) :
    s'.Registered := by
  intro k hk
  cases step_effect h with
  | E_Ready hret hr => cases hk
  | E_Loaded hret hr => cases hk
  | E_Stored j hj =>
      obtain rfl : j = k := Option.some.inj hk
      exact .inSlot rfl (hC rfl)
  | E_Again j hj hr =>
      obtain rfl : j = k := Option.some.inj hk
      exact (hs j (by rw [hj]; rfl)).congr rfl rfl rfl rfl
  | E_Unavailable j hj => cases hk
  | E_Sent j hj hr hw =>
      obtain rfl : j = k := Option.some.inj hk
      exact (hs j (by rw [hj]; rfl)).congr rfl rfl rfl rfl
  | E_Pending j hj =>
      obtain rfl : j = k := Option.some.inj hk
      exact (hs j (by rw [hj]; rfl)).congr rfl rfl rfl rfl
  | E_Shutdown => exact (hs k hk).congr rfl rfl rfl rfl
  | E_Received rest hw hc => exact (hs k hk).worker_step rfl rfl rfl (by rw [hw]; rfl) rfl
  | E_Exited hw => exact (hs k hk).worker_step rfl rfl rfl (by rw [hw]; rfl) rfl
  | E_ReadyStored hw => exact (hs k hk).worker_step rfl rfl rfl (by rw [hw]; rfl) rfl
  | E_Taken hw =>
      -- the waker in the slot is now in the hands of the worker
      cases hs k hk with
      | inSlot h ht => exact .taken (congrArg WorkerStage.taken h)
      | taken h => rw [hw] at h; cases h
      | woken h => exact .woken h
  | E_Woken w hw =>
      cases hs k hk with
      | inSlot h ht => simp [hasTaken, WorkerStage.hasTaken, hw] at ht
      | taken h =>
          rw [hw] at h
          cases h
          exact .woken (by simp)
      | woken h => exact .woken (List.mem_append_left _ h)

theorem Registered.noLostWake (hs : s.Registered) (ho : s.SentOnce) : s.NoLostWake := by
  intro hp k hk
  cases hs k (by rw [hk]; rfl) with
  | inSlot h ht => simp [hasTaken, hp] at ht
  | taken h =>
      have := ho.not_busy hp
      rw [h] at this
      cases this
  | woken h => exact h

end CrossThreadWake

end DsaStdexec.Bench

import DsaStdexec.Ffi.AsyncSession

/-!
# The commands of an asynchronous session

The worker goes through the channel in order, so what it has executed is what was sent, up to the
command it is at. A call that has ended without its reply has left no command, or one that was dropped
with the receiver.
-/

namespace DsaStdexec.Ffi

open DsaStdexec.Lib

/-! ## Views of the state -/

def WorkerCommand.call : WorkerCommand → Option Nat
  | .memmove i => some i
  | .shutdown => none

/-- The calls that have sent the commands. -/
def callsOf (cs : List WorkerCommand) : List Nat := cs.filterMap WorkerCommand.call

def WorkerEvent.execution : WorkerEvent → Option (Nat × WorkerReply)
  | .started _ => none
  | .finished i reply => some (i, reply)

/-- The call that the worker is at. -/
def WorkerStage.current : WorkerStage → List Nat
  | .running i => [i]
  | _ => []

/-- The value of the lifecycle at each stage of the owner. -/
def OwnerStage.lifecycle : OwnerStage → UInt8
  | .running => lifecycleRunning
  | .requested | .stopping | .joined => lifecycleShutdownRequested
  | .completed | .dropped => lifecycleShutdownComplete

/-- The `Shutdown` command was sent. -/
def OwnerStage.hasSent : OwnerStage → Bool
  | .running | .requested => false
  | _ => true

/-- The worker was joined; `shutdown` has not returned before. -/
def OwnerStage.hasJoined : OwnerStage → Bool
  | .running | .requested | .stopping => false
  | _ => true

theorem OwnerStage.requested_of_ne {o : OwnerStage} (h : o ≠ .running) :
    lifecycleShutdownRequested ≤ o.lifecycle := by
  cases o with
  | running => exact absurd rfl h
  | requested | stopping | joined | completed | dropped => decide

theorem mem_callsOf {cs : List WorkerCommand} {i : Nat} : i ∈ callsOf cs ↔ .memmove i ∈ cs := by
  rw [callsOf, List.mem_filterMap]
  constructor
  · rintro ⟨c, hc, hi⟩
    cases c with
    | memmove j => cases hi; exact hc
    | shutdown => cases hi
  · exact fun h => ⟨_, h, rfl⟩

theorem callsOf_append (cs ds : List WorkerCommand) : callsOf (cs ++ ds) = callsOf cs ++ callsOf ds :=
  List.filterMap_append

theorem getElem?_push {cs : List WorkerCommand} {c d : WorkerCommand} (hne : c ≠ d) {k : Nat} :
    (cs ++ [c])[k]? = some d ↔ cs[k]? = some d := by
  constructor
  · intro h
    rcases Nat.lt_or_ge k cs.length with hk | hk
    · rwa [List.getElem?_append_left hk] at h
    · rw [List.getElem?_append_right hk, List.getElem?_singleton] at h
      split at h
      · exact absurd (Option.some.inj h) hne
      · cases h
  · intro h
    have hk : k < cs.length := (List.getElem?_eq_some_iff.mp h).1
    rwa [List.getElem?_append_left hk]

namespace AsyncDsaSession

variable {W E : Type*} {worker : AsyncMemmoveWorker W E} {requests : Nat → AsyncMemmoveRequest}
  {s s' t : AsyncDsaSession W} {a : AsyncAction E} {i : Nat}

/-- The calls that the worker has executed, with its replies. -/
def executed (s : AsyncDsaSession W) : List (Nat × WorkerReply) := s.log.filterMap WorkerEvent.execution

/-- The command of the call was dropped with the receiver. -/
def Discarded (s : AsyncDsaSession W) (i : Nat) : Prop :=
  s.stage = .exited ∧ .memmove i ∈ s.undelivered

@[simp] theorem setCall_calls_self (s : AsyncDsaSession W) (i : Nat) (stage : CallStage) :
    (s.setCall i stage).calls i = stage := Function.update_self _ _ _

theorem setCall_calls_of_ne {j : Nat} (h : j ≠ i) {stage : CallStage} :
    (s.setCall i stage).calls j = s.calls j := Function.update_of_ne h _ _

/-! ## Steps -/

/-- A step of call `i` that changes nothing but the call. -/
inductive CallMove (s : AsyncDsaSession W) (i : Nat) : CallStage → CallStage → Prop
  | M_Refused (h : s.isShutdownRequested = true) :
      CallMove s i .unstarted (.ended (.error ownerShutdown))
  | M_Checked : CallMove s i .unstarted .checked
  | M_SendFailed (h : s.stage = .exited) : CallMove s i .checked .sendFailed
  | M_Delivered (reply : WorkerReply) (h : s.replies i = .sent reply) :
      CallMove s i .awaiting (.ended reply.outcome)
  | M_ReplyFailed (h : s.replies i = .dropped) : CallMove s i .awaiting .replyFailed
  | M_SendClassified : CallMove s i .sendFailed (.ended (.error s.classifySendFailure))
  | M_ReplyClassified : CallMove s i .replyFailed (.ended (.error s.classifyReplyFailure))
  | M_Aborted : CallMove s i .awaiting .aborted

/-- A step of the owner that sends nothing: the lifecycle and the stage after it. -/
inductive OwnerMove (s : AsyncDsaSession W) : UInt8 → OwnerStage → Prop
  | M_Requested (h : s.owner = .running) : OwnerMove s lifecycleShutdownRequested .requested
  | M_SendIgnored (h : s.owner = .requested) (hx : s.stage = .exited) :
      OwnerMove s s.lifecycle .stopping
  | M_Joined (h : s.owner = .stopping) (hx : s.stage = .exited) : OwnerMove s s.lifecycle .joined
  | M_Completed (h : s.owner = .joined) : OwnerMove s lifecycleShutdownComplete .completed
  | M_Dropped (h : s.owner = .completed) : OwnerMove s lifecycleShutdownComplete .dropped

variable (worker requests) in
/-- What a step can do. -/
inductive Effect (s : AsyncDsaSession W) : AsyncDsaSession W → Prop
  | E_Call (i : Nat) (stage : CallStage) (h : CallMove s i (s.calls i) stage) :
      Effect s (s.setCall i stage)
  | E_Sent (i : Nat) (h : s.calls i = .checked) (hx : s.stage ≠ .exited) :
      Effect s { s.setCall i .awaiting with channel := s.channel ++ [.memmove i] }
  | E_Received (i : Nat) (h : s.stage = .receiving) (hc : s.channel[s.received]? = some (.memmove i)) :
      Effect s { s with
        stage := .running i, received := s.received + 1, log := s.log ++ [.started i] }
  | E_Stopped (h : s.stage = .receiving) (hc : s.channel[s.received]? = some .shutdown) :
      Effect s { s with stage := .stopped, received := s.received + 1 }
  | E_Finished (i : Nat) (env : E) (w : W) (reply : WorkerReply) (h : s.stage = .running i)
      (hr : runMemmove worker s.worker env (requests i) = some (w, reply)) :
      Effect s { s with
        worker := w
        stage := .receiving
        replies := Function.update s.replies i (.sent reply)
        log := s.log ++ [.finished i reply] }
  | E_Exited (h : s.stage = .stopped) :
      Effect s { s with
        stage := .exited
        replies := fun i => if .memmove i ∈ s.undelivered then .dropped else s.replies i }
  | E_Owner (l : UInt8) (o : OwnerStage) (h : OwnerMove s l o) :
      Effect s { s with lifecycle := l, owner := o }
  | E_ShutdownSent (h : s.owner = .requested) (hx : s.stage ≠ .exited) :
      Effect s { s with owner := .stopping, channel := s.channel ++ [.shutdown] }

theorem step_effect (h : s.step worker requests a = some s') : Effect worker requests s s' := by
  cases a with
  | check i =>
      simp only [step, check] at h
      split at h
      · rename_i hi
        split at h
        · rename_i hreq
          cases h
          exact .E_Call i _ (hi ▸ .M_Refused hreq)
        · cases h
          exact .E_Call i _ (hi ▸ .M_Checked)
      · cases h
  | send i =>
      simp only [step, send] at h
      split at h
      · rename_i hi
        split at h
        · rename_i hx
          cases h
          exact .E_Call i _ (hi ▸ .M_SendFailed hx)
        · rename_i hx
          cases h
          exact .E_Sent i hi hx
      · cases h
  | await i =>
      simp only [step, await] at h
      split at h
      · rename_i reply hi hr
        cases h
        exact .E_Call i _ (hi ▸ .M_Delivered reply hr)
      · rename_i hi hr
        cases h
        exact .E_Call i _ (hi ▸ .M_ReplyFailed hr)
      · cases h
  | classify i =>
      simp only [step, classify] at h
      split at h
      · rename_i hi
        cases h
        exact .E_Call i _ (hi ▸ .M_SendClassified)
      · rename_i hi
        cases h
        exact .E_Call i _ (hi ▸ .M_ReplyClassified)
      · cases h
  | abort i =>
      simp only [step, abort] at h
      split at h
      · rename_i hi
        cases h
        exact .E_Call i _ (hi ▸ .M_Aborted)
      · cases h
  | receive =>
      simp only [step, receive] at h
      split at h
      · rename_i i hs hc
        cases h
        exact .E_Received i hs hc
      · rename_i hs hc
        cases h
        exact .E_Stopped hs hc
      · cases h
  | finish env =>
      simp only [step, finish] at h
      split at h
      · rename_i i hs
        obtain ⟨⟨w, reply⟩, hr, rfl⟩ := Option.map_eq_some_iff.mp h
        exact .E_Finished i env w reply hs hr
      · cases h
  | dropReceiver =>
      simp only [step, dropReceiver] at h
      split at h
      · rename_i hs
        cases h
        exact .E_Exited hs
      · cases h
  | markShutdownRequested =>
      simp only [step] at h
      split at h
      · rename_i ho
        cases h
        exact .E_Owner _ _ (.M_Requested ho)
      · cases h
  | sendShutdown =>
      simp only [step] at h
      split at h
      · rename_i ho
        split at h
        · rename_i hx
          cases h
          exact .E_Owner _ _ (.M_SendIgnored ho hx)
        · rename_i hx
          cases h
          exact .E_ShutdownSent ho hx
      · cases h
  | join =>
      simp only [step] at h
      split at h
      · rename_i ho
        cases h
        exact .E_Owner _ _ (.M_Joined ho.1 ho.2)
      · cases h
  | markShutdownComplete =>
      simp only [step] at h
      split at h
      · rename_i ho
        cases h
        exact .E_Owner _ _ (.M_Completed ho)
      · cases h
  | dropOwner =>
      simp only [step] at h
      split at h
      · rename_i ho
        cases h
        exact .E_Owner _ _ (.M_Dropped ho)
      · cases h

/-! ## The owner and the `Shutdown` command -/

structure Control (s : AsyncDsaSession W) : Prop where
  lifecycle : s.lifecycle = s.owner.lifecycle
  unsent : s.owner.hasSent = false → .shutdown ∉ s.channel
  unique : ∀ k l : Nat, s.channel[k]? = some .shutdown → s.channel[l]? = some .shutdown → k = l
  closed : s.stage = .stopped ∨ s.stage = .exited →
    ∃ k : Nat, s.received = k + 1 ∧ s.channel[k]? = some .shutdown
  joined : s.owner.hasJoined = true → s.stage = .exited

theorem control_new (w : W) : Control (new w) :=
  ⟨rfl, fun _ => List.not_mem_nil, by simp [new], by simp [new], by simp [new, OwnerStage.hasJoined]⟩

theorem Control.sent (h : Control s) (hs : s.stage = .stopped ∨ s.stage = .exited) :
    s.owner.hasSent = true := by
  obtain ⟨k, -, hk⟩ := h.closed hs
  by_contra hn
  exact h.unsent (Bool.eq_false_iff.mpr hn) (List.mem_of_getElem? hk)

theorem Control.requested (h : Control s) (hs : s.stage = .exited) : s.isShutdownRequested = true := by
  have hsent := h.sent (.inr hs)
  rw [isShutdownRequested, h.lifecycle, decide_eq_true_iff]
  refine OwnerStage.requested_of_ne fun ho => ?_
  rw [ho] at hsent
  cases hsent

theorem Control.owner (h : Control s) {l : UInt8} {o : OwnerStage} (hm : OwnerMove s l o) :
    Control { s with lifecycle := l, owner := o } := by
  cases hm with
  | M_Requested ho =>
      exact ⟨rfl, fun _ => h.unsent (by rw [ho]; rfl), h.unique, h.closed, by simp [OwnerStage.hasJoined]⟩
  | M_SendIgnored ho hx =>
      have := h.sent (.inr hx)
      rw [ho] at this
      cases this
  | M_Joined ho hx =>
      exact ⟨by rw [h.lifecycle, ho]; rfl, by simp [OwnerStage.hasSent], h.unique, h.closed, fun _ => hx⟩
  | M_Completed ho =>
      exact ⟨rfl, by simp [OwnerStage.hasSent], h.unique, h.closed, fun _ => h.joined (by rw [ho]; rfl)⟩
  | M_Dropped ho =>
      exact ⟨rfl, by simp [OwnerStage.hasSent], h.unique, h.closed, fun _ => h.joined (by rw [ho]; rfl)⟩

theorem Control.effect (h : Control s) (he : Effect worker requests s s') : Control s' := by
  cases he with
  | E_Call i stage hm => exact ⟨h.lifecycle, h.unsent, h.unique, h.closed, h.joined⟩
  | E_Sent i hi hx =>
      have hne : WorkerCommand.memmove i ≠ .shutdown := nofun
      refine ⟨h.lifecycle, fun ho hm => ?_, fun k l hk hl => ?_, fun hs => ?_, h.joined⟩
      · rcases List.mem_append.mp hm with hm | hm
        · exact h.unsent ho hm
        · cases List.mem_singleton.mp hm
      · exact h.unique k l ((getElem?_push hne).mp hk) ((getElem?_push hne).mp hl)
      · obtain ⟨k, hr, hk⟩ := h.closed hs
        exact ⟨k, hr, (getElem?_push hne).mpr hk⟩
  | E_Received i hs hc =>
      refine ⟨h.lifecycle, h.unsent, h.unique, by simp, fun hj => ?_⟩
      rw [h.joined hj] at hs
      cases hs
  | E_Stopped hs hc =>
      refine ⟨h.lifecycle, h.unsent, h.unique, fun _ => ⟨s.received, rfl, hc⟩, fun hj => ?_⟩
      rw [h.joined hj] at hs
      cases hs
  | E_Finished i env w reply hs hr =>
      refine ⟨h.lifecycle, h.unsent, h.unique, by simp, fun hj => ?_⟩
      rw [h.joined hj] at hs
      cases hs
  | E_Exited hs =>
      exact ⟨h.lifecycle, h.unsent, h.unique, fun _ => h.closed (.inl hs), fun _ => rfl⟩
  | E_Owner l o hm => exact h.owner hm
  | E_ShutdownSent ho hx =>
      have hnone : .shutdown ∉ s.channel := h.unsent (by rw [ho]; rfl)
      -- The command that is sent now is the only one.
      have hlast : ∀ k : Nat, (s.channel ++ [WorkerCommand.shutdown])[k]? = some .shutdown →
          k = s.channel.length := by
        intro k hk
        rcases Nat.lt_trichotomy k s.channel.length with hlt | heq | hgt
        · rw [List.getElem?_append_left hlt] at hk
          exact absurd (List.mem_of_getElem? hk) hnone
        · exact heq
        · rw [List.getElem?_eq_none (by simpa using Nat.succ_le_of_lt hgt)] at hk
          cases hk
      refine ⟨by rw [h.lifecycle, ho]; rfl, by simp [OwnerStage.hasSent],
        fun k l hk hl => (hlast k hk).trans (hlast l hl).symm, fun hs => ?_, by
          simp [OwnerStage.hasJoined]⟩
      have := h.sent hs
      rw [ho] at this
      cases this

/-! ## The log of the worker -/

variable (worker requests) in
structure Serial (s : AsyncDsaSession W) : Prop where
  /-- Nothing starts before the execution before it has finished. -/
  log : s.log = s.executed.flatMap (fun x => [.started x.1, .finished x.1 x.2]) ++
    s.stage.current.map .started
  order : callsOf (s.channel.take s.received) = s.executed.map Prod.fst ++ s.stage.current
  own : ∀ x ∈ s.executed, ∃ w env w', runMemmove worker w env (requests x.1) = some (w', x.2)
  bounded : s.received ≤ s.channel.length

theorem serial_new (w : W) : Serial worker requests (new w) :=
  ⟨rfl, rfl, by simp [new, executed], Nat.le_refl _⟩

theorem Serial.push (h : Serial worker requests s) (c : WorkerCommand) {t : AsyncDsaSession W}
    (hlog : t.log = s.log) (hstage : t.stage = s.stage) (hreceived : t.received = s.received)
    (hchannel : t.channel = s.channel ++ [c]) : Serial worker requests t := by
  have hexec : t.executed = s.executed := by rw [executed, executed, hlog]
  refine ⟨by rw [hlog, hexec, hstage]; exact h.log, ?_, by rw [hexec]; exact h.own, ?_⟩
  · rw [hchannel, hreceived, hexec, hstage, List.take_append_of_le_length h.bounded]
    exact h.order
  · rw [hreceived, hchannel, List.length_append]
    exact Nat.le_add_right_of_le h.bounded

theorem callsOf_take_succ {cs : List WorkerCommand} {n : Nat} {c : WorkerCommand} (h : cs[n]? = some c) :
    callsOf (cs.take (n + 1)) = callsOf (cs.take n) ++ callsOf [c] := by
  rw [List.take_add_one, h, callsOf_append]
  rfl

theorem Serial.effect (h : Serial worker requests s) (he : Effect worker requests s s') :
    Serial worker requests s' := by
  cases he with
  | E_Call i stage hm => exact ⟨h.log, h.order, h.own, h.bounded⟩
  | E_Sent i hi hx => exact h.push (.memmove i) rfl rfl rfl rfl
  | E_Received i hs hc =>
      have hexec : executed { s with
          stage := .running i, received := s.received + 1, log := s.log ++ [.started i] } =
          s.executed := by
        simp [executed, List.filterMap_append, WorkerEvent.execution]
      have hlog := h.log
      have horder := h.order
      rw [hs] at hlog horder
      refine ⟨?_, ?_, by rw [hexec]; exact h.own, (List.getElem?_eq_some_iff.mp hc).1⟩
      · rw [hexec]
        show s.log ++ _ = _
        rw [hlog]
        simp [WorkerStage.current]
      · rw [hexec]
        show callsOf (s.channel.take (s.received + 1)) = _
        rw [callsOf_take_succ hc, horder]
        simp [WorkerStage.current, callsOf, WorkerCommand.call]
  | E_Stopped hs hc =>
      have hlog := h.log
      have horder := h.order
      rw [hs] at hlog horder
      refine ⟨hlog, ?_, h.own, (List.getElem?_eq_some_iff.mp hc).1⟩
      show callsOf (s.channel.take (s.received + 1)) = _
      rw [callsOf_take_succ hc, horder]
      simp [callsOf, WorkerCommand.call, WorkerStage.current, executed]
  | E_Finished i env w reply hs hr =>
      have hexec : executed { s with
          worker := w
          stage := .receiving
          replies := Function.update s.replies i (.sent reply)
          log := s.log ++ [.finished i reply] } = s.executed ++ [(i, reply)] := by
        simp [executed, List.filterMap_append, WorkerEvent.execution]
      have hlog := h.log
      have horder := h.order
      rw [hs] at hlog horder
      refine ⟨?_, ?_, fun x hx => ?_, h.bounded⟩
      · rw [hexec]
        show s.log ++ _ = _
        rw [hlog]
        simp [WorkerStage.current]
      · rw [hexec]
        exact horder.trans (by simp [WorkerStage.current])
      · rw [hexec] at hx
        rcases List.mem_append.mp hx with hx | hx
        · exact h.own x hx
        · cases List.mem_singleton.mp hx
          exact ⟨_, env, w, hr⟩
  | E_Exited hs =>
      have hlog := h.log
      have horder := h.order
      rw [hs] at hlog horder
      exact ⟨hlog, horder, h.own, h.bounded⟩
  | E_Owner l o hm => exact ⟨h.log, h.order, h.own, h.bounded⟩
  | E_ShutdownSent ho hx => exact h.push .shutdown rfl rfl rfl rfl

/-! ## Calls and their replies -/

/-- What the stage of a call says about its command. -/
def CallOK (s : AsyncDsaSession W) (i : Nat) : CallStage → Prop
  | .unstarted | .checked => .memmove i ∉ s.channel
  | .sendFailed => .memmove i ∉ s.channel ∧ s.stage = .exited
  | .awaiting | .aborted => .memmove i ∈ s.channel
  | .replyFailed => s.Discarded i
  | .ended outcome =>
      (∃ reply, (i, reply) ∈ s.executed ∧ outcome = reply.outcome) ∨
        (outcome = .error ownerShutdown ∧ (.memmove i ∉ s.channel ∨ s.Discarded i))

structure Accounted (s : AsyncDsaSession W) : Prop where
  once : (callsOf s.channel).Nodup
  calls : ∀ i, CallOK s i (s.calls i)
  pending : ∀ i, s.replies i = .pending → i ∉ s.executed.map Prod.fst ∧ ¬ s.Discarded i
  sent : ∀ i reply, s.replies i = .sent reply → (i, reply) ∈ s.executed
  dropped : ∀ i, s.replies i = .dropped → s.Discarded i

theorem accounted_new (w : W) : Accounted (new w) := by
  refine ⟨List.nodup_nil, fun i => List.not_mem_nil, fun i _ => ⟨?_, ?_⟩, nofun, nofun⟩
  · simp [new, executed]
  · simp [new, Discarded]

theorem CallOK.mono {stage : CallStage} (h : CallOK s i stage)
    (hc : .memmove i ∈ t.channel ↔ .memmove i ∈ s.channel)
    (hx : s.stage = .exited → t.stage = .exited) (he : ∀ x ∈ s.executed, x ∈ t.executed)
    (hd : s.Discarded i → t.Discarded i) : CallOK t i stage := by
  cases stage with
  | unstarted | checked => exact fun hm => h (hc.mp hm)
  | sendFailed => exact ⟨fun hm => h.1 (hc.mp hm), hx h.2⟩
  | awaiting | aborted => exact hc.mpr h
  | replyFailed => exact hd h
  | ended outcome =>
      rcases h with ⟨reply, hr, ho⟩ | ⟨ho, hn | hdisc⟩
      · exact .inl ⟨reply, he _ hr, ho⟩
      · exact .inr ⟨ho, .inl fun hm => hn (hc.mp hm)⟩
      · exact .inr ⟨ho, .inr (hd hdisc)⟩

/-- Before the worker has exited, a step keeps the stages that it does not touch. -/
theorem CallOK.live {stage : CallStage} (h : CallOK s i stage) (hx : s.stage ≠ .exited)
    (hc : .memmove i ∈ t.channel ↔ .memmove i ∈ s.channel) (he : ∀ x ∈ s.executed, x ∈ t.executed) :
    CallOK t i stage :=
  h.mono hc (fun hs => absurd hs hx) he fun hd => absurd hd.1 hx

theorem CallOK.move (h : Accounted s) (hcontrol : Control s) {stage : CallStage}
    (hm : CallMove s i (s.calls i) stage) : CallOK s i stage := by
  have hi := h.calls i
  generalize s.calls i = old at hm hi
  cases hm with
  | M_Refused hr => exact .inr ⟨rfl, .inl hi⟩
  | M_Checked => exact hi
  | M_SendFailed hx => exact ⟨hi, hx⟩
  | M_Delivered reply hr => exact .inl ⟨reply, h.sent i reply hr, rfl⟩
  | M_ReplyFailed hr => exact h.dropped i hr
  | M_SendClassified =>
      refine .inr ⟨?_, .inl hi.1⟩
      rw [classifySendFailure, if_pos (hcontrol.requested hi.2)]
  | M_ReplyClassified =>
      refine .inr ⟨?_, .inr hi⟩
      rw [classifyReplyFailure, if_pos (hcontrol.requested hi.1)]
  | M_Aborted => exact hi

theorem Accounted.setCall (h : Accounted s) {stage : CallStage} (hi : CallOK s i stage) :
    Accounted (s.setCall i stage) := by
  refine ⟨h.once, fun j => ?_, h.pending, h.sent, h.dropped⟩
  by_cases hj : j = i
  · subst hj
    rw [setCall_calls_self]
    exact hi.mono .rfl id (fun _ => id) id
  · rw [setCall_calls_of_ne hj]
    exact (h.calls j).mono .rfl id (fun _ => id) id

/-- Before the worker has exited, no reply channel is dropped. -/
theorem Accounted.live (h : Accounted s) (hx : s.stage ≠ .exited) (ht : t.stage ≠ .exited)
    (hcalls : ∀ j, CallOK t j (t.calls j)) (honce : (callsOf t.channel).Nodup)
    (hreplies : t.replies = s.replies) (hexec : t.executed = s.executed) : Accounted t := by
  refine ⟨honce, hcalls, fun j hj => ?_, fun j reply hj => ?_, fun j hj => ?_⟩
  · rw [hreplies] at hj
    rw [hexec]
    exact ⟨(h.pending j hj).1, fun hd => ht hd.1⟩
  · rw [hreplies] at hj
    rw [hexec]
    exact h.sent j reply hj
  · rw [hreplies] at hj
    exact absurd (h.dropped j hj).1 hx

theorem Accounted.effect (h : Accounted s) (hcontrol : Control s) (he : Effect worker requests s s') :
    Accounted s' := by
  cases he with
  | E_Call i stage hm => exact h.setCall (CallOK.move h hcontrol hm)
  | E_Sent i hi hx =>
      have hnew : .memmove i ∉ s.channel := by
        have := h.calls i
        rwa [hi] at this
      refine h.live hx hx (fun j => ?_) ?_ rfl rfl
      · by_cases hj : j = i
        · subst hj
          show CallOK _ j ((s.setCall j .awaiting).calls j)
          rw [setCall_calls_self]
          exact List.mem_append_right _ (List.mem_singleton.mpr rfl)
        · show CallOK _ j ((s.setCall i .awaiting).calls j)
          rw [setCall_calls_of_ne hj]
          refine (h.calls j).live hx ?_ fun _ => id
          simp [hj]
      · rw [callsOf_append, List.nodup_append]
        refine ⟨h.once, by simp [callsOf, WorkerCommand.call], fun j hj k hk => ?_⟩
        rintro rfl
        have : j = i := by simpa [callsOf, WorkerCommand.call] using hk
        subst this
        exact hnew (mem_callsOf.mp hj)
  | E_Received i hs hc =>
      have hx : s.stage ≠ .exited := by rw [hs]; nofun
      have hexec : executed { s with
          stage := .running i, received := s.received + 1, log := s.log ++ [.started i] } =
          s.executed := by
        simp [executed, List.filterMap_append, WorkerEvent.execution]
      refine h.live hx nofun (fun j => ?_) h.once rfl hexec
      exact (h.calls j).live hx .rfl fun x hm => by rwa [hexec]
  | E_Stopped hs hc =>
      have hx : s.stage ≠ .exited := by rw [hs]; nofun
      exact h.live hx nofun (fun j => (h.calls j).live hx .rfl fun _ => id) h.once rfl rfl
  | E_Finished i env w reply hs hr =>
      have hx : s.stage ≠ .exited := by rw [hs]; nofun
      have hexec : executed { s with
          worker := w
          stage := .receiving
          replies := Function.update s.replies i (.sent reply)
          log := s.log ++ [.finished i reply] } = s.executed ++ [(i, reply)] := by
        simp [executed, List.filterMap_append, WorkerEvent.execution]
      refine ⟨h.once, fun j => ?_, fun j hj => ?_, fun j r hj => ?_, fun j hj => ?_⟩
      · refine (h.calls j).live hx .rfl fun x hm => ?_
        rw [hexec]
        exact List.mem_append_left _ hm
      all_goals by_cases hji : j = i
      · subst hji
        simp at hj
      · simp only [ne_eq, hji, not_false_eq_true, Function.update_of_ne] at hj
        refine ⟨?_, fun hd => nomatch hd.1⟩
        rw [hexec, List.map_append, List.mem_append, not_or]
        exact ⟨(h.pending j hj).1, by simpa using hji⟩
      · subst hji
        simp only [Function.update_self, ReplySlot.sent.injEq] at hj
        rw [hexec, ← hj]
        exact List.mem_append_right _ (List.mem_singleton.mpr rfl)
      · simp only [ne_eq, hji, not_false_eq_true, Function.update_of_ne] at hj
        rw [hexec]
        exact List.mem_append_left _ (h.sent j r hj)
      · subst hji
        simp at hj
      · simp only [ne_eq, hji, not_false_eq_true, Function.update_of_ne] at hj
        exact absurd (h.dropped j hj).1 hx
  | E_Exited hs =>
      have hx : s.stage ≠ .exited := by rw [hs]; nofun
      refine ⟨h.once, fun j => (h.calls j).live hx .rfl fun _ => id, fun j hj => ?_, fun j r hj => ?_,
        fun j hj => ?_⟩
      · simp only at hj
        split at hj
        · cases hj
        · rename_i hm
          exact ⟨(h.pending j hj).1, fun hd => hm hd.2⟩
      · simp only at hj
        split at hj
        · cases hj
        · exact h.sent j r hj
      · simp only at hj
        split at hj
        · rename_i hm
          exact ⟨rfl, hm⟩
        · exact absurd (h.dropped j hj).1 hx
  | E_Owner l o hm =>
      exact ⟨h.once, fun j => (h.calls j).mono .rfl id (fun _ => id) id, h.pending, h.sent, h.dropped⟩
  | E_ShutdownSent ho hx =>
      refine h.live hx hx (fun j => (h.calls j).live hx ?_ fun _ => id) ?_ rfl rfl
      · simp
      · rw [callsOf_append]
        exact (List.append_nil (callsOf s.channel)).symm ▸ h.once

/-! ## Reachable states -/

variable (worker requests) in
structure Inv (s : AsyncDsaSession W) : Prop where
  control : Control s
  serial : Serial worker requests s
  accounted : Accounted s

theorem inv_new (w : W) : Inv worker requests (new w) := ⟨control_new w, serial_new w, accounted_new w⟩

theorem Inv.effect (h : Inv worker requests s) (he : Effect worker requests s s') :
    Inv worker requests s' :=
  ⟨h.control.effect he, h.serial.effect he, h.accounted.effect h.control he⟩

theorem Inv.step (h : Inv worker requests s) (hst : s.step worker requests a = some s') :
    Inv worker requests s' := h.effect (step_effect hst)

theorem inv_of_run {w : W} {as : List (AsyncAction E)} (h : (machine worker requests w).run as = some s) :
    Inv worker requests s :=
  Machine.run_invariant (inv_new w) (fun _ _ _ hi hst => hi.step hst) h

theorem Inv.started_iff (h : Inv worker requests s) :
    .started i ∈ s.log ↔ .memmove i ∈ s.channel.take s.received := by
  rw [← mem_callsOf, h.serial.order, h.serial.log]
  simp [WorkerEvent.started.injEq]

/-- The worker has received what was executed. -/
theorem Inv.executed_or_current (h : Inv worker requests s)
    (hm : .memmove i ∈ s.channel.take s.received) :
    i ∈ s.executed.map Prod.fst ∨ i ∈ s.stage.current := by
  rw [← mem_callsOf, h.serial.order] at hm
  exact List.mem_append.mp hm

theorem Inv.not_started_of_discarded (h : Inv worker requests s) (hd : s.Discarded i) :
    .started i ∉ s.log := by
  intro hs
  have htake := mem_callsOf.mpr (h.started_iff.mp hs)
  have hdrop := mem_callsOf.mpr hd.2
  have honce := h.accounted.once
  rw [← List.take_append_drop s.received s.channel, callsOf_append] at honce
  exact (List.nodup_append.mp honce).2.2 i htake i hdrop rfl

theorem Inv.outcome (h : Inv worker requests s) {outcome : Except AsyncMemmoveError AsyncMemmoveResult}
    (hi : s.calls i = .ended outcome) :
    (∃ reply, (i, reply) ∈ s.executed ∧ outcome = reply.outcome) ∨
      (outcome = .error ownerShutdown ∧ .started i ∉ s.log) := by
  have hok := h.accounted.calls i
  rw [hi] at hok
  rcases hok with hex | ⟨ho, hn | hd⟩
  · exact .inl hex
  · exact .inr ⟨ho, fun hs => hn (List.mem_of_mem_take (h.started_iff.mp hs))⟩
  · exact .inr ⟨ho, h.not_started_of_discarded hd⟩

/-- The worker has nothing to do: it waits for a command, or it is gone. -/
def Idle (s : AsyncDsaSession W) : Prop :=
  (s.stage = .receiving ∧ s.undelivered = []) ∨ s.stage = .exited

theorem Inv.answered (h : Inv worker requests s) (hidle : s.Idle) (hi : s.calls i = .awaiting) :
    s.replies i ≠ .pending := by
  intro hp
  obtain ⟨hnot, hdisc⟩ := h.accounted.pending i hp
  have hm : .memmove i ∈ s.channel := by
    have := h.accounted.calls i
    rwa [hi] at this
  have hcurrent : i ∉ s.stage.current := by
    rcases hidle with ⟨hs, -⟩ | hs <;> rw [hs] <;> exact List.not_mem_nil
  rw [← List.take_append_drop s.received s.channel] at hm
  rcases List.mem_append.mp hm with hm | hm
  · exact (h.executed_or_current hm).elim hnot hcurrent
  · rcases hidle with ⟨-, hu⟩ | hs
    · rw [undelivered] at hu
      rw [hu] at hm
      cases hm
    · exact hdisc ⟨hs, hm⟩

theorem Inv.drained (h : Inv worker requests s) (hj : s.owner.hasJoined = true)
    {before after : List WorkerCommand} (hc : s.channel = before ++ .shutdown :: after)
    (hm : .memmove i ∈ before) : i ∈ s.executed.map Prod.fst := by
  have hs := h.control.joined hj
  obtain ⟨k, hk, hshut⟩ := h.control.closed (.inr hs)
  have hlen : s.channel[before.length]? = some .shutdown := by rw [hc]; simp
  -- The worker has stopped at the only `Shutdown`.
  have heq := h.control.unique _ _ hlen hshut
  have htake : .memmove i ∈ s.channel.take s.received := by
    rw [hk, ← heq, hc, List.take_append, List.take_of_length_le (Nat.le_succ _)]
    exact List.mem_append_left _ hm
  refine (h.executed_or_current htake).resolve_right ?_
  rw [hs]
  exact List.not_mem_nil

/-! ## What later steps keep -/

end AsyncDsaSession

end DsaStdexec.Ffi

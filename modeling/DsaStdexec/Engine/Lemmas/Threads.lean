import DsaStdexec.Engine.Threads
import DsaStdexec.Submitter.Lemmas.Shared

/-!
# Two threads that take turns with the submitter
-/

namespace DsaStdexec.Engine

open DsaStdexec.Lib DsaStdexec.Submitter Program

/-! ## Steps -/

namespace ThreadedEngine

variable {S : SharedSubmitter Op} {s s' : ThreadedEngine S} {a : ThreadAction}

inductive Effect (s : ThreadedEngine S) : ThreadAction → ThreadedEngine S → Prop where
  | E_Submit {op} (hu : (s.threads .user).stage = .idle) : Effect s (.submit op) (s.submit op)
  | E_Poll (hp : (s.threads .poller).stage = .idle) (hu : (s.threads .user).stage.closing = false) :
      Effect s .poll (s.setControl .poller ⟨.prePolling none, none⟩)
  | E_Drain (hu : (s.threads .user).stage = .idle) (hp : (s.threads .poller).stage = .idle) :
      Effect s .drain (s.setControl .user ⟨.draining, none⟩)
  | E_Access {t p} (hc : (s.threads t).call = some p) : Effect s (.step t) (s.access t p)
  | E_Enter {t p} (hc : (s.threads t).call = none) (hp : (s.threads t).stage.code S = some p) :
      Effect s (.step t) (s.enter t p)
  | E_Gate {t op stage} (ht : s.threads t = ⟨.gating op, none⟩)
      (hstage : stage = .prePolling (some op) ∨ stage = .submitting op) :
      Effect s (.step t) (s.setControl t ⟨stage, none⟩)
  | E_Push {t op} (ht : s.threads t = ⟨.pushing op, none⟩) :
      Effect s (.step t) { s.setControl t ⟨.idle, none⟩ with queue := op :: s.queue }
  | E_Report {t caller taken} (ht : s.threads t = ⟨.taking caller taken, none⟩) :
      Effect s (.step t)
        { s.setControl t ⟨.reporting caller taken, none⟩ with reported := s.reported ++ taken }
  | E_Take {t op caller taken} (ht : (s.threads t).stage = .taking caller taken) (hq : op ∈ s.queue) :
      Effect s (.take t op)
        { s.setControl t ⟨.taking caller (taken ++ [op]), none⟩ with queue := s.queue.erase op }
  | E_Complete {op status} :
      Effect s (.complete op status)
        { s with status := Function.update s.status op status, answered := s.answered ++ [op] }
  | E_Record {b status} : Effect s (.record b status) { s with sub := S.record b status s.sub }

theorem advance_effect {t : Thread} (h : s.advance t = some s') : Effect s (.step t) s' := by
  simp only [advance] at h
  split at h
  next hc => cases h; exact .E_Access hc
  next p hc hp => cases h; exact .E_Enter hc hp
  next hc hp =>
    have ht : ∀ stage, (s.threads t).stage = stage → s.threads t = ⟨stage, none⟩ := by
      rintro _ rfl
      rw [← hc]
    cases hstage : (s.threads t).stage with
    | gating op =>
        rw [hstage] at h
        cases h
        refine .E_Gate (ht _ hstage) ?_
        split
        · exact Or.inl rfl
        · exact Or.inr rfl
    | pushing op => rw [hstage] at h; cases h; exact .E_Push (ht _ hstage)
    | taking caller taken => rw [hstage] at h; cases h; exact .E_Report (ht _ hstage)
    | _ => rw [hstage] at h; cases h

theorem step_effect (h : s.step a = some s') : Effect s a s' := by
  cases a with
  | submit op =>
      simp only [step] at h
      split at h
      next hu =>
        split at h <;> cases h
        exact .E_Submit hu
      next => cases h
  | poll =>
      simp only [step] at h
      split at h
      next hp =>
        split at h <;> cases h
        next hu => exact .E_Poll hp (Bool.eq_false_iff.mpr hu)
      next => cases h
  | drain =>
      simp only [step] at h
      split at h <;> cases h
      next hu hp => exact .E_Drain hu hp
  | step t => exact advance_effect h
  | take t op =>
      simp only [step, take] at h
      split at h
      next ht =>
        split at h <;> cases h
        next hq => exact .E_Take ht hq.1
      next => cases h
  | complete op status =>
      simp only [step] at h
      split at h <;> cases h
      exact .E_Complete
  | record b status => cases h; exact .E_Record

end ThreadedEngine

/-! ## Where the threads are -/

theorem Thread.eq_or_eq_other (t u : Thread) : u = t ∨ u = t.other := by
  cases t <;> cases u <;> simp [Thread.other]

theorem Thread.other_ne (t : Thread) : t.other ≠ t := by
  cases t <;> simp [Thread.other]

namespace Stage

/-- The stages of the background thread. -/
def polls : Stage → Bool
  | .idle => true
  | .prePolling caller | .taking caller _ | .reporting caller _ => caller.isNone
  | _ => false

theorem polls_next {stage : Stage} (h : stage.polls = true) : stage.next.polls = true := by
  cases stage with
  | idle | taking _ _ | prePolling _ => exact h
  | reporting caller _ =>
      cases caller with
      | none => rfl
      | some op => cases h
  | _ => cases h

theorem closing_next (stage : Stage) : stage.next.closing = stage.closing := by
  cases stage with
  | reporting caller taken => cases caller <;> rfl
  | _ => rfl

end Stage

section

variable {S : SharedSubmitter Op} {threads : Thread → Control S.Memory} {t : Thread}
  {c : Control S.Memory} {stage : Stage} {p : Program S.Memory Unit}

structure Proper (S : SharedSubmitter Op) (t : Thread) (c : Control S.Memory) : Prop where
  called : ∀ p, c.call = some p → (c.stage.code S).isSome = true ∧ p.returned = false
  polls : t = .poller → c.stage.polls = true

theorem Proper.of_stage (h : t = .poller → stage.polls = true) : Proper S t ⟨stage, none⟩ :=
  ⟨fun _ hc => (nomatch hc), h⟩

theorem Proper.settle (hcode : (stage.code S).isSome = true) (h : t = .poller → stage.polls = true) :
    Proper S t (.settle stage p) := by
  unfold Control.settle
  split
  next => exact .of_stage fun ht => Stage.polls_next (h ht)
  next hp =>
    refine ⟨fun q hq => ?_, h⟩
    cases hq
    exact ⟨hcode, Bool.eq_false_iff.mpr hp⟩

/-- The background thread has been joined when the destructor calls `drain`. -/
structure Roles (S : SharedSubmitter Op) (threads : Thread → Control S.Memory) : Prop where
  proper : ∀ t, Proper S t (threads t)
  closed : (threads .user).stage.closing = true → (threads .poller).stage = .idle

namespace Roles

theorem eq_of_stage (h : Roles S threads) (hs : (threads t).stage = stage) (hcode : stage.code S = none) :
    threads t = ⟨stage, none⟩ := by
  subst hs
  have hcall : (threads t).call = none := by
    cases hc : (threads t).call with
    | none => rfl
    | some p =>
        have := ((h.proper t).called p hc).1
        rw [hcode] at this
        cases this
  rw [← hcall]

theorem polls_of (h : Roles S threads) (ht : (threads t).stage = stage) :
    t = .poller → stage.polls = true :=
  ht ▸ (h.proper t).polls

theorem set (h : Roles S threads) (hc : Proper S t c)
    (hclosed : (Function.update threads t c .user).stage.closing = true →
      (Function.update threads t c .poller).stage = .idle) :
    Roles S (Function.update threads t c) := by
  refine ⟨fun u => ?_, hclosed⟩
  by_cases hu : u = t
  · subst hu
    rw [Function.update_self]
    exact hc
  · rw [Function.update_of_ne hu]
    exact h.proper u

/-- A thread goes on from a stage where it is not idle. -/
theorem move (h : Roles S threads) (hidle : (threads t).stage ≠ .idle) (hc : Proper S t c)
    (hclosing : c.stage.closing = (threads t).stage.closing) :
    Roles S (Function.update threads t c) := by
  refine h.set hc ?_
  cases t with
  | user => simpa [hclosing] using h.closed
  | poller => simpa using fun hcl => absurd (h.closed hcl) hidle

theorem not_finished (h : Roles S threads) (hcode : ((threads t).stage.code S).isSome = true) :
    t = .poller → (threads .user).stage ≠ .finished := by
  rintro rfl hf
  have hidle : (threads .poller).stage = .idle := h.closed (by rw [hf]; rfl)
  rw [hidle] at hcode
  cases hcode

theorem alone_draining (h : Roles S threads) (hs : (threads t).stage = .draining) :
    (threads t.other).call = none := by
  cases t with
  | user =>
      have hidle : (threads .poller).stage = .idle := h.closed (by rw [hs]; rfl)
      exact congrArg Control.call (h.eq_of_stage hidle rfl)
  | poller => exact nomatch h.polls_of hs rfl

/-- A thread goes on in a call of the submitter. -/
theorem settle (h : Roles S threads) (hcode : ((threads t).stage.code S).isSome = true) :
    Roles S (Function.update threads t (.settle (threads t).stage p)) := by
  have hidle : (threads t).stage ≠ .idle := by
    intro hidle
    rw [hidle] at hcode
    cases hcode
  refine h.move hidle (.settle hcode (h.proper t).polls) ?_
  unfold Control.settle
  split
  · exact Stage.closing_next _
  · rfl

end Roles

end

namespace ThreadedEngine

variable {S : SharedSubmitter Op} {s s' : ThreadedEngine S} {a : ThreadAction}

theorem roles_effect (h : Roles S s.threads) (he : Effect s a s') : Roles S s'.threads := by
  cases he with
  | E_Submit hu =>
      refine h.set (.of_stage fun ht => nomatch ht) ?_
      simp only [Function.update_self]
      split <;> exact fun hcl => nomatch hcl
  | E_Poll hp hu =>
      refine h.set (.of_stage fun _ => rfl) ?_
      simp [hu]
  | E_Drain hu hp =>
      refine h.set (.of_stage fun ht => nomatch ht) ?_
      simp [hp]
  | E_Access hc => exact h.settle ((h.proper _).called _ hc).1
  | E_Enter hc hp => exact h.settle (by rw [hp]; rfl)
  | E_Gate ht hstage =>
      have hpolls := h.polls_of (congrArg Control.stage ht)
      refine h.move (by simp [ht]) (.of_stage fun htp => nomatch hpolls htp) ?_
      rw [ht]
      rcases hstage with rfl | rfl <;> rfl
  | E_Push ht => exact h.move (by simp [ht]) (.of_stage fun _ => rfl) (by rw [ht]; rfl)
  | E_Report ht =>
      have hpolls := h.polls_of (congrArg Control.stage ht)
      exact h.move (by simp [ht]) (.of_stage hpolls) (by rw [ht]; rfl)
  | E_Take ht _ =>
      have hpolls := h.polls_of ht
      exact h.move (by simp [ht]) (.of_stage hpolls) (by rw [ht]; rfl)
  | E_Complete => exact h
  | E_Record => exact h

end ThreadedEngine

/-! ## What the threads still owe -/

/-- The operations that a thread has and that are to be taken off the counter of the submitter. -/
def Stage.weight : Stage → Nat
  | .pushing _ => 1
  | .taking _ taken | .reporting _ taken => taken.length
  | _ => 0

/-- During a call of the submitter the thread counts as if the call had returned. -/
def Control.owed {σ : Type} (c : Control σ) : Nat :=
  if c.call.isSome then c.stage.next.weight else c.stage.weight

/-- The operations that are to be reported. -/
def Control.due {σ : Type} (c : Control σ) : Nat :=
  match c.stage with
  | .reporting _ _ => 0
  | _ => c.owed

theorem Control.settle_owed {σ : Type} (stage : Stage) (p : Program σ Unit) :
    (Control.settle stage p).owed = stage.next.weight := by
  unfold Control.settle
  split <;> rfl

theorem sum_update {σ : Type} (f : Control σ → Nat) (threads : Thread → Control σ) (t : Thread)
    (c : Control σ) :
    f (Function.update threads t c .user) + f (Function.update threads t c .poller) + f (threads t) =
      f (threads .user) + f (threads .poller) + f c := by
  cases t with
  | user => simp; omega
  | poller => simp; omega

theorem Control.due_le_owed {σ : Type} (c : Control σ) : c.due ≤ c.owed := by
  unfold Control.due
  split
  · exact Nat.zero_le _
  · exact Nat.le_refl _

theorem Control.due_of_call {σ : Type} {c : Control σ} {p : Program σ Unit} (hc : c.call = some p) :
    c.due = c.stage.next.weight := by
  obtain ⟨stage, call⟩ := c
  cases hc
  cases stage with
  | reporting caller taken => cases caller <;> rfl
  | _ => rfl

theorem Control.settle_due {σ : Type} (stage : Stage) (p : Program σ Unit) :
    (Control.settle stage p).due = stage.next.weight := by
  unfold Control.settle
  split
  · cases stage with
    | reporting caller taken => cases caller <;> rfl
    | _ => rfl
  · exact due_of_call rfl

/-- Only `submit_descriptor` is called with something new. -/
theorem Control.due_of_code {S : SharedSubmitter Op} {c : Control S.Memory} {p : Program S.Memory Unit}
    (hc : c.call = none) (hp : c.stage.code S = some p) :
    c.due + c.stage.hands.length = c.stage.next.weight := by
  obtain ⟨stage, call⟩ := c
  cases hc
  cases stage with
  | submitting op | prePolling caller | draining => rfl
  | reporting caller taken => cases caller <;> rfl
  | _ => cases hp

namespace ThreadedEngine

variable {S : SharedSubmitter Op} {s s' : ThreadedEngine S} {a : ThreadAction}

/-- What `inflight_` of a `DirectSubmitter` is when no call is running. -/
def total (s : ThreadedEngine S) : Nat :=
  s.queue.length + ((s.threads .user).owed + (s.threads .poller).owed)

/-- Every descriptor that was handed over is reported or will be. -/
def Traced (s : ThreadedEngine S) : Prop :=
  s.handed.length ≤ s.reported.length +
    (s.queue.length + ((s.threads .user).due + (s.threads .poller).due))

theorem Traced.move {t : Thread} {c : Control S.Memory} (h : Traced s)
    (hthreads : s'.threads = Function.update s.threads t c)
    (hle : s'.handed.length + (s.reported.length + (s.queue.length + (s.threads t).due)) ≤
      s.handed.length + (s'.reported.length + (s'.queue.length + c.due))) : Traced s' := by
  have hsum := sum_update Control.due s.threads t c
  unfold Traced at h ⊢
  rw [hthreads]
  omega

theorem traced_effect (hr : Roles S s.threads) (h : Traced s) (he : Effect s a s') : Traced s' := by
  cases he with
  | E_Submit hu =>
      refine h.move rfl ?_
      rw [hr.eq_of_stage hu rfl]
      exact Nat.add_le_add_left (Nat.add_le_add_left (Nat.add_le_add_left (Nat.zero_le _) _) _) _
  | E_Poll hp hu =>
      refine h.move rfl ?_
      rw [hr.eq_of_stage hp rfl]
      exact Nat.le_refl _
  | E_Drain hu hp =>
      refine h.move rfl ?_
      rw [hr.eq_of_stage hu rfl]
      exact Nat.le_refl _
  | E_Access hc =>
      refine h.move rfl ?_
      rw [Control.settle_due, Control.due_of_call hc]
      exact Nat.le_refl _
  | E_Enter hc hp =>
      refine h.move rfl ?_
      have := Control.due_of_code hc hp
      change (s.handed ++ (s.threads _).stage.hands).length + _ ≤ _
      rw [Control.settle_due, List.length_append]
      simp only [setControl, enter]
      omega
  | E_Gate ht hstage =>
      refine h.move rfl ?_
      rw [ht]
      rcases hstage with rfl | rfl <;> exact Nat.le_refl _
  | @E_Push t op ht =>
      refine h.move rfl ?_
      rw [ht]
      change _ + (_ + (s.queue.length + 1)) ≤ _ + (_ + ((op :: s.queue).length + 0))
      exact Nat.le_refl _
  | @E_Report t caller taken ht =>
      refine h.move rfl ?_
      rw [ht]
      change s.handed.length + (_ + (_ + taken.length)) ≤
        s.handed.length + ((s.reported ++ taken).length + (s.queue.length + 0))
      rw [List.length_append]
      omega
  | @E_Take t op caller taken ht hq =>
      refine h.move rfl ?_
      have hpos := List.length_pos_of_mem hq
      rw [hr.eq_of_stage ht rfl]
      change s.handed.length + (_ + (_ + taken.length)) ≤
        s.handed.length + (s.reported.length + ((s.queue.erase op).length + (taken ++ [op]).length))
      rw [List.length_append, List.length_erase_of_mem hq, List.length_singleton]
      omega
  | E_Complete => exact h
  | E_Record => exact h

/-! ## Calls that do not overlap -/

end ThreadedEngine

/-- `h` is part of exactly one doorbell each. -/
def Delivered (S : SharedSubmitter Op) (h : List Op) (m : S.Memory) : Prop :=
  (S.portal m).flatMap Doorbell.executed = h

/-- What each call of a submitter does to its members when nobody else uses them. `J` is what holds between
two calls, after the descriptors `h` have been handed over and with `n` left to be taken off the counter;
`A` holds also during the calls of `poll`. -/
structure Contract (S : SharedSubmitter Op) (core : S.Memory → S.Memory)
    (J A : List Op → Nat → S.Memory → Prop) : Prop where
  core_record : ∀ b status m, core (S.record b status m) = core m
  portal_core : ∀ m, S.portal (core m) = S.portal m
  init : J [] 0 (core S.init)
  submit_accesses : ∀ op, (S.submitDescriptor op).returned = false
  submit : ∀ {h n c} op, J h n c →
    Valid core (fun _ => True) (fun _ => J (h ++ [op]) (n + 1)) (S.submitDescriptor op) c
  prePoll : ∀ {h n c}, J h n c → Valid core (A h n) (fun _ => J h n) S.prePoll c
  notify : ∀ {h n c} k, J h (n + k) c → Valid core (A h n) (fun _ => J h n) (S.notifyComplete k) c
  drain : ∀ {h n c}, J h n c → Valid core (A h n) (fun _ c => J h n c ∧ Delivered S h c) S.drain c
  along : ∀ {h n c}, J h n c → A h n c
  weaken : ∀ {h n c} k, A h (n + k) c → A h n c

namespace ThreadedEngine

variable {S : SharedSubmitter Op} {s s' : ThreadedEngine S} {a : ThreadAction}
  {core : S.Memory → S.Memory} {J A : List Op → Nat → S.Memory → Prop}

/-- What holds while thread `t` is in a call. -/
def During (A : List Op → Nat → S.Memory → Prop) (s : ThreadedEngine S) (t : Thread) (c : S.Memory) : Prop :=
  (∃ op, (s.threads t).stage = .submitting op) ∨ A s.handed s.total c

/-- What holds when the call of thread `t` returns. -/
def After (J : List Op → Nat → S.Memory → Prop) (s : ThreadedEngine S) (t : Thread) (_ : Unit)
    (c : S.Memory) : Prop :=
  J s.handed s.total c ∧ ((s.threads t).stage = .draining → Delivered S s.handed c)

structure Guarded (core : S.Memory → S.Memory) (J A : List Op → Nat → S.Memory → Prop)
    (s : ThreadedEngine S) : Prop where
  alone : ∀ t p, (s.threads t).call = some p → (s.threads t.other).call = none
  quiet : (∀ t, (s.threads t).call = none) → J s.handed s.total (core s.sub)
  busy : ∀ t p, (s.threads t).call = some p → Valid core (During A s t) (After J s t) p (core s.sub)
  delivered : (s.threads .user).stage = .finished → Delivered S s.handed (core s.sub)

/-- A step outside the calls. -/
theorem Guarded.keep (h : Guarded core J A s) (hhanded : s'.handed = s.handed)
    (hcore : core s'.sub = core s.sub)
    (hJ : ∀ c, J s.handed s.total c → J s.handed s'.total c)
    (hA : ∀ c, A s.handed s.total c → A s.handed s'.total c)
    (hcall : ∀ t, (s'.threads t).call = (s.threads t).call)
    (hstage : ∀ t p, (s.threads t).call = some p → (s'.threads t).stage = (s.threads t).stage)
    (hfinished : (s'.threads .user).stage = .finished → (s.threads .user).stage = .finished) :
    Guarded core J A s' := by
  constructor
  · intro t p hp
    rw [hcall] at hp ⊢
    exact h.alone t p hp
  · intro hnone
    rw [hhanded, hcore]
    exact hJ _ (h.quiet fun t => hcall t ▸ hnone t)
  · intro t p hp
    rw [hcall] at hp
    rw [hcore]
    refine (h.busy t p hp).mono (fun c hd => ?_) fun _ c hd => ?_
    · rw [During, hstage t p hp, hhanded]
      exact hd.imp_right (hA c)
    · rw [After, hstage t p hp, hhanded]
      exact ⟨hJ c hd.1, hd.2⟩
  · intro hf
    rw [hhanded, hcore]
    exact h.delivered (hfinished hf)

theorem total_balance {t : Thread} {c : Control S.Memory}
    (hthreads : s'.threads = Function.update s.threads t c) :
    s'.total + (s.queue.length + (s.threads t).owed) = s.total + (s'.queue.length + c.owed) := by
  have hsum := sum_update Control.owed s.threads t c
  unfold total
  rw [hthreads]
  omega

theorem total_move {t : Thread} {c : Control S.Memory} (k : Nat)
    (hthreads : s'.threads = Function.update s.threads t c)
    (howed : s'.queue.length + c.owed = s.queue.length + (s.threads t).owed + k) :
    s'.total = s.total + k := by
  have := total_balance hthreads
  omega

/-- The thread counts from the beginning of the call as if the call had returned. -/
theorem total_enter {t : Thread} {p : Program S.Memory Unit} (hc : (s.threads t).call = none) :
    (s.enter t p).total + (s.threads t).stage.weight = s.total + (s.threads t).stage.next.weight := by
  have hbalance : (s.enter t p).total + (s.queue.length + (s.threads t).owed) =
      s.total + (s.queue.length + (Control.settle (s.threads t).stage p).owed) := total_balance rfl
  have howed : (s.threads t).owed = (s.threads t).stage.weight := by
    rw [Control.owed, hc]
    rfl
  rw [Control.settle_owed, howed] at hbalance
  omega

/-- A thread that is in no call goes on without calling the submitter. -/
theorem Guarded.move {t : Thread} {c : Control S.Memory} (h : Guarded core J A s)
    (hhanded : s'.handed = s.handed) (hsub : s'.sub = s.sub)
    (hthreads : s'.threads = Function.update s.threads t c) (hcall : (s.threads t).call = none)
    (hc : c.call = none) (hf : c.stage ≠ .finished)
    (hJ : ∀ c, J s.handed s.total c → J s.handed s'.total c)
    (hA : ∀ c, A s.handed s.total c → A s.handed s'.total c) : Guarded core J A s' := by
  refine h.keep hhanded (congrArg core hsub) hJ hA (fun u => ?_) (fun u p hu => ?_) fun hfin => ?_
  · rw [hthreads]
    by_cases hut : u = t
    · subst hut
      rw [Function.update_self, hc, hcall]
    · rw [Function.update_of_ne hut]
  · have hut : u ≠ t := by
      rintro rfl
      rw [hcall] at hu
      cases hu
    rw [hthreads, Function.update_of_ne hut]
  · rw [hthreads] at hfin
    by_cases hut : Thread.user = t
    · subst hut
      rw [Function.update_self] at hfin
      exact absurd hfin hf
    · rwa [Function.update_of_ne hut] at hfin

theorem Guarded.walk {t : Thread} {c : Control S.Memory} (h : Guarded core J A s)
    (hhanded : s'.handed = s.handed) (hsub : s'.sub = s.sub)
    (hthreads : s'.threads = Function.update s.threads t c) (hcall : (s.threads t).call = none)
    (hc : c.call = none) (hf : c.stage ≠ .finished)
    (howed : s'.queue.length + c.owed = s.queue.length + (s.threads t).owed) : Guarded core J A s' := by
  have htotal : s'.total = s.total := total_move 0 hthreads howed
  exact h.move hhanded hsub hthreads hcall hc hf (fun _ hJ => htotal ▸ hJ) fun _ hA => htotal ▸ hA

/-- The counter does not matter. -/
def Indifferent (J A : List Op → Nat → S.Memory → Prop) : Prop :=
  ∀ h n c, (J h n c → J h (n + 1) c) ∧ (A h n c → A h (n + 1) c)

theorem Guarded.submit {op : Op} (hr : Roles S s.threads) (h : Guarded core J A s)
    (hu : (s.threads .user).stage = .idle) (hop : op.hasDescriptor = true ∨ Indifferent J A) :
    Guarded core J A (s.submit op) := by
  have hidle := hr.eq_of_stage hu rfl
  have hcall : (s.threads .user).call = none := by rw [hidle]
  cases hd : op.hasDescriptor with
  | true =>
      refine h.walk rfl rfl rfl hcall rfl ?_ ?_
      · simp [hd]
      · rw [hidle]
        simp [hd, ThreadedEngine.submit, setControl, Control.owed, Stage.weight]
  | false =>
      have hind : Indifferent J A := hop.resolve_left (by simp [hd])
      have htotal : (s.submit op).total = s.total + 1 := by
        refine total_move 1 rfl ?_
        rw [hidle]
        simp [hd, ThreadedEngine.submit, setControl, Control.owed, Stage.weight]
      exact h.move rfl rfl rfl hcall rfl (by simp [hd]) (fun c hJ => htotal ▸ (hind _ _ c).1 hJ)
        fun c hA => htotal ▸ (hind _ _ c).2 hA

/-- A thread is in a call that the other one cannot disturb. -/
theorem guarded_settle {t : Thread} {stage : Stage} {p : Program S.Memory Unit}
    (hthreads : s'.threads = Function.update s.threads t (.settle stage p))
    (hother : (s.threads t.other).call = none) (hcode : (stage.code S).isSome = true)
    (hvalid : Valid core (fun c => (∃ op, stage = .submitting op) ∨ A s'.handed s'.total c)
      (fun _ c => J s'.handed s'.total c ∧ (stage = .draining → Delivered S s'.handed c)) p (core s'.sub))
    (hfinished : t = .poller → (s.threads .user).stage ≠ .finished) : Guarded core J A s' := by
  have hnot : ∀ u, u ≠ t → (s'.threads u).call = none := by
    intro u hu
    rw [hthreads, Function.update_of_ne hu]
    rcases Thread.eq_or_eq_other t u with rfl | rfl
    · exact absurd rfl hu
    · exact hother
  have hself : s'.threads t = .settle stage p := by rw [hthreads, Function.update_self]
  have huser : t = .poller → (s'.threads .user).stage ≠ .finished := by
    rintro rfl
    rw [hthreads, Function.update_of_ne (by simp)]
    exact hfinished rfl
  cases p with
  | ret a =>
      have hnone : ∀ u, (s'.threads u).call = none := by
        intro u
        by_cases hu : u = t
        · subst hu
          rw [hself]
          rfl
        · exact hnot u hu
      refine ⟨fun u q hq => ?_, fun _ => hvalid.1, fun u q hq => ?_, fun hf => ?_⟩
      · exact nomatch (hnone u).symm.trans hq
      · exact nomatch (hnone u).symm.trans hq
      · cases t with
        | user =>
            rw [hself] at hf
            refine hvalid.2 ?_
            cases stage with
            | draining => rfl
            | reporting caller taken => cases caller <;> cases hf
            | finished => cases hcode
            | _ => cases hf
        | poller => exact absurd hf (huser rfl)
  | read k | write f k | await test k =>
      have hcall : ∀ u q, (s'.threads u).call = some q → u = t := by
        intro u q hq
        by_contra hu
        exact nomatch (hnot u hu).symm.trans hq
      refine ⟨fun u q hq => ?_, fun hnone => ?_, fun u q hq => ?_, fun hf => ?_⟩
      · obtain rfl := hcall u q hq
        exact hnot _ (Thread.other_ne u)
      · have := hnone t
        rw [hself] at this
        cases this
      · obtain rfl := hcall u q hq
        rw [hself] at hq
        cases hq
        refine hvalid.mono (fun c hd => ?_) fun _ c hd => ?_
        · rw [During, hself]
          exact hd
        · rw [After, hself]
          exact hd
      · cases t with
        | user =>
            rw [hself] at hf
            cases hf
            cases hcode
        | poller => exact absurd hf (huser rfl)

/-- The next access of a call. -/
theorem Guarded.access {t : Thread} {p : Program S.Memory Unit} (hr : Roles S s.threads)
    (h : Guarded core J A s) (hc : (s.threads t).call = some p) :
    Guarded core J A (s.access t p) := by
  have hcode := ((hr.proper t).called p hc).1
  have htotal : (s.access t p).total = s.total := by
    refine total_move 0 rfl ?_
    rw [Control.settle_owed, Control.owed, hc]
    rfl
  refine guarded_settle rfl (h.alone t p hc) hcode ?_ (hr.not_finished hcode)
  rw [htotal]
  exact (h.busy t p hc).step

/-- A call begins. -/
theorem enter_valid {stage : Stage} {p : Program S.Memory Unit} {h : List Op} {n n' : Nat}
    {c : S.Memory} (K : Contract S core J A) (hp : stage.code S = some p) (hJ : J h n c)
    (hn : n' + stage.weight = n + stage.next.weight) :
    Valid core (fun c => (∃ op, stage = .submitting op) ∨ A (h ++ stage.hands) n' c)
      (fun _ c => J (h ++ stage.hands) n' c ∧ (stage = .draining → Delivered S (h ++ stage.hands) c)) p c := by
  cases stage with
  | submitting op =>
      cases hp
      obtain rfl : n' = n + 1 := hn
      exact (K.submit op hJ).mono (fun _ _ => Or.inl ⟨op, rfl⟩) fun _ _ hJ => ⟨hJ, fun hd => nomatch hd⟩
  | prePolling caller =>
      cases hp
      obtain rfl : n' = n := hn
      simp only [Stage.hands, List.append_nil]
      exact (K.prePoll hJ).mono (fun _ => Or.inr) fun _ _ hJ => ⟨hJ, fun hd => nomatch hd⟩
  | reporting caller taken =>
      cases hp
      obtain rfl : n = n' + taken.length := by
        cases caller <;> exact hn.symm
      simp only [Stage.hands, List.append_nil]
      exact (K.notify _ hJ).mono (fun _ => Or.inr) fun _ _ hJ => ⟨hJ, fun hd => nomatch hd⟩
  | draining =>
      cases hp
      obtain rfl : n' = n := hn
      simp only [Stage.hands, List.append_nil]
      exact (K.drain hJ).mono (fun _ => Or.inr) fun _ _ hJ => ⟨hJ.1, fun _ => hJ.2⟩
  | _ => cases hp

theorem Guarded.enter {t : Thread} {p : Program S.Memory Unit} (K : Contract S core J A)
    (hr : Roles S s.threads) (h : Guarded core J A s) (hc : (s.threads t).call = none)
    (hp : (s.threads t).stage.code S = some p)
    (hx : p.returned = true ∨ (s.threads t.other).call = none) :
    Guarded core J A (s.enter t p) := by
  have hcode : ((s.threads t).stage.code S).isSome = true := by
    rw [hp]
    rfl
  have htotal := total_enter (p := p) hc
  by_cases hother : (s.threads t.other).call = none
  · refine guarded_settle rfl hother hcode (enter_valid K hp (h.quiet fun u => ?_) htotal)
      (hr.not_finished hcode)
    rcases Thread.eq_or_eq_other t u with rfl | rfl
    · exact hc
    · exact hother
  · -- the call is empty, and the other thread is in the middle of one
    have hret : p.returned = true := hx.resolve_right hother
    have hstage : (s.threads t).stage.hands = [] ∧ (s.threads t).stage.next.weight = 0 ∧
        (s.threads t).stage.next ≠ .finished := by
      cases hs : (s.threads t).stage with
      | submitting op =>
          rw [hs] at hp
          cases hp
          rw [K.submit_accesses] at hret
          cases hret
      | draining => exact absurd (hr.alone_draining hs) hother
      | prePolling caller => exact ⟨rfl, rfl, fun hf => nomatch hf⟩
      | reporting caller taken => cases caller <;> exact ⟨rfl, rfl, fun hf => nomatch hf⟩
      | _ =>
          rw [hs] at hp
          cases hp
    obtain ⟨hhands, hweight, hnext⟩ := hstage
    have hhanded : s.handed ++ (s.threads t).stage.hands = s.handed := by rw [hhands, List.append_nil]
    rw [hweight, Nat.add_zero] at htotal
    cases p with
    | ret a =>
        refine h.move hhanded rfl rfl hc rfl hnext (fun c hJ => ?_) fun c hA => ?_
        · have hafter := (enter_valid K hp hJ (by rw [hweight]; exact htotal)).1
          rw [hhanded] at hafter
          exact hafter
        · rw [← htotal] at hA
          exact K.weaken _ hA
    | _ => cases hret

theorem guarded_effect (K : Contract S core J A) (hr : Roles S s.threads) (h : Guarded core J A s)
    (hx : s.Exclusive a = true) (hnull : Supplied a = true ∨ Indifferent J A) (he : Effect s a s') :
    Guarded core J A s' := by
  cases he with
  | E_Submit hu => exact h.submit hr hu hnull
  | E_Poll hp hu =>
      have hidle := hr.eq_of_stage hp rfl
      exact h.walk rfl rfl rfl (by rw [hidle]) rfl (by simp) (by rw [hidle]; rfl)
  | E_Drain hu hp =>
      have hidle := hr.eq_of_stage hu rfl
      exact h.walk rfl rfl rfl (by rw [hidle]) rfl (by simp) (by rw [hidle]; rfl)
  | E_Access hc => exact h.access hr hc
  | E_Enter hc hp =>
      refine h.enter K hr hc hp ?_
      simpa [Exclusive, hc, hp] using hx
  | E_Gate ht hstage =>
      refine h.walk rfl rfl rfl (by rw [ht]) rfl ?_ ?_
      · rcases hstage with rfl | rfl <;> simp
      · rw [ht]
        rcases hstage with rfl | rfl <;> rfl
  | E_Push ht =>
      refine h.walk rfl rfl rfl (by rw [ht]) rfl (by simp) ?_
      rw [ht]
      rfl
  | E_Report ht =>
      refine h.walk rfl rfl rfl (by rw [ht]) rfl (by simp) ?_
      rw [ht]
      rfl
  | @E_Take t op caller taken ht hq =>
      have htaking := hr.eq_of_stage ht rfl
      refine h.walk rfl rfl rfl (by rw [htaking]) rfl (by simp) ?_
      have hpos := List.length_pos_of_mem hq
      rw [htaking]
      change (s.queue.erase op).length + (taken ++ [op]).length = s.queue.length + taken.length
      rw [List.length_append, List.length_erase_of_mem hq, List.length_singleton]
      omega
  | E_Complete => exact h.keep rfl rfl (fun _ hJ => hJ) (fun _ hA => hA) (fun _ => rfl) (fun _ _ _ => rfl) id
  | E_Record =>
      exact h.keep rfl (K.core_record _ _ _) (fun _ hJ => hJ) (fun _ hA => hA) (fun _ => rfl)
        (fun _ _ _ => rfl) id

theorem Traced.handed_le (h : Traced s) : s.handed.length ≤ s.reported.length + s.total := by
  have hu := Control.due_le_owed (s.threads .user)
  have hp := Control.due_le_owed (s.threads .poller)
  unfold Traced at h
  unfold total
  omega

/-- Outside `submit_descriptor` the bound holds whatever call is running. -/
theorem Guarded.along (K : Contract S core J A) (hr : Roles S s.threads) (h : Guarded core J A s)
    (hsubmit : ∀ op, (s.threads .user).stage = .submitting op → (s.threads .user).call = none) :
    A s.handed s.total (core s.sub) := by
  by_cases hnone : ∀ t, (s.threads t).call = none
  · exact K.along (h.quiet hnone)
  · obtain ⟨t, ht⟩ := not_forall.mp hnone
    obtain ⟨p, hp⟩ := Option.ne_none_iff_exists'.mp ht
    rcases (h.busy t p hp).along ((hr.proper t).called p hp).2 with ⟨op, hop⟩ | hA
    · cases t with
      | user => exact absurd (hsubmit op hop) ht
      | poller => exact nomatch hr.polls_of hop rfl
    · exact hA

/-- Every run in which no two calls of the submitter overlap. -/
theorem sound_of_run {as : List ThreadAction} (K : Contract S core J A)
    (hm : (machine S).Meets
      (fun s a => s.Exclusive a = true ∧ (Supplied a = true ∨ Indifferent J A)) (init S) as)
    (h : (machine S).run as = some s) : Roles S s.threads ∧ Traced s ∧ Guarded core J A s := by
  refine Machine.runFrom_invariant (I := fun s => Roles S s.threads ∧ Traced s ∧ Guarded core J A s)
    ?_ ⟨?_, ?_, ?_⟩ hm h
  · rintro s a s' ⟨hr, ht, hg⟩ ⟨hx, hnull⟩ hs
    have he := step_effect hs
    exact ⟨roles_effect hr he, traced_effect hr ht he, guarded_effect K hr hg hx hnull he⟩
  · exact ⟨fun t => .of_stage fun _ => rfl, fun _ => rfl⟩
  · exact Nat.le_refl _
  · exact ⟨fun _ _ hc => (nomatch hc), fun _ => K.init, fun _ _ hc => (nomatch hc), fun hf => nomatch hf⟩

end ThreadedEngine

/-! ## The contracts of the submitters -/

/-- `inflight_` is what is left to be taken off. -/
def DirectCount (h : List Op) (n : Nat) (m : DirectSubmitter Op) : Prop :=
  m.portal.flatMap Doorbell.executed = h ∧ m.inflight = n

def DirectBound (h : List Op) (n : Nat) (m : DirectSubmitter Op) : Prop :=
  m.portal.flatMap Doorbell.executed = h ∧ n ≤ m.inflight

theorem DirectCount.submit {h : List Op} {n : Nat} {m : DirectSubmitter Op} (hm : DirectCount h n m)
    (op : Op) : DirectCount (h ++ [op]) (n + 1) (m.submitDescriptor (.single op)) := by
  refine ⟨?_, congrArg (· + 1) hm.2⟩
  rw [DirectSubmitter.submitDescriptor_portal, List.flatMap_append, hm.1]
  rfl

theorem DirectCount.notify {h : List Op} {n k : Nat} {m : DirectSubmitter Op}
    (hm : DirectCount h (n + k) m) : DirectCount h n (m.notifyComplete k) := by
  refine ⟨hm.1, ?_⟩
  rw [DirectSubmitter.notifyComplete_inflight, hm.2, Nat.add_sub_cancel]

theorem direct_contract (mode : WqMode) (wq : Option Wq) :
    Contract (sharedDirect Op mode wq) id DirectCount DirectBound where
  core_record _ _ _ := rfl
  portal_core _ := rfl
  init := ⟨rfl, rfl⟩
  submit_accesses _ := rfl
  submit op hJ := by
    refine (SharedDirect.submitDescriptor_valid SharedDirect.whole_lawful fun _ => rfl).mono
      (fun _ h => h) ?_
    rintro _ _ rfl
    exact hJ.submit op
  prePoll hJ := hJ
  notify k hJ := by
    have hA : DirectBound _ _ _ := ⟨hJ.1, (Nat.le_add_right _ k).trans hJ.2.ge⟩
    refine (SharedDirect.notifyComplete_valid SharedDirect.whole_lawful hA).mono (fun _ h => h) ?_
    rintro _ _ rfl
    exact hJ.notify
  drain hJ := ⟨hJ, hJ.1⟩
  along hJ := ⟨hJ.1, hJ.2.ge⟩
  weaken k hA := ⟨hA.1, (Nat.le_add_right _ k).trans hA.2⟩

/-- What has been handed over is rung or staged. -/
def StagingTrace (args : InitArgs) (h : List Op) (_ : Nat) (m : StagingSubmitter Op) : Prop :=
  m.direct.portal.flatMap Doorbell.executed ++ m.list = h ∧ m.stagedCount < args.maxBatch

section

open SharedStaging

variable {args : InitArgs} {h : List Op} {n : Nat} {m m' : StagingSubmitter Op}

theorem StagingTrace.congr (hm : StagingTrace args h n m) (he : m'.erase = m.erase) :
    StagingTrace args h n m' := by
  change StagingTrace args h n m'.erase
  rw [he]
  exact hm

theorem StagingTrace.flushed (htrace : m.direct.portal.flatMap Doorbell.executed ++ m.list = h)
    (hcount : m.stagedCount ≤ args.maxBatch) :
    StagingTrace args h n (SharedStaging.flushed m) ∧
      Delivered (sharedStaging Op args) h (SharedStaging.flushed m) := by
  have hrung := flushed_executed (Nat.lt_of_le_of_lt hcount args.maxBatch_lt)
  rw [htrace] at hrung
  refine ⟨⟨?_, ?_⟩, hrung⟩
  · rw [hrung, StagingSubmitter.list, flushed_stagedCount]
    exact List.append_nil _
  · rw [flushed_stagedCount]
    exact args.maxBatch_pos

theorem StagingTrace.submit (hm : StagingTrace args h n m) (op : Op) :
    StagingTrace args (h ++ [op]) (n + 1)
      (if args.maxBatch ≤ (m.store op).stagedCount then SharedStaging.flushed (m.store op)
        else m.store op) := by
  have htrace : (m.store op).direct.portal.flatMap Doorbell.executed ++ (m.store op).list = h ++ [op] := by
    rw [StagingSubmitter.store_list, ← List.append_assoc]
    exact congrArg (· ++ [op]) hm.1
  split
  next => exact (StagingTrace.flushed htrace hm.2).1
  next hlt => exact ⟨htrace, Nat.lt_of_not_le hlt⟩

theorem staging_contract (args : InitArgs) :
    Contract (sharedStaging Op args) StagingSubmitter.erase (StagingTrace args) fun _ _ _ => True where
  core_record _ _ _ := rfl
  portal_core _ := rfl
  init := ⟨rfl, args.maxBatch_pos⟩
  submit_accesses _ := rfl
  submit op hJ := submitDescriptor_valid.mono (fun _ h => h) fun _ _ he => (hJ.submit op).congr he
  prePoll hJ :=
    flush_valid.mono (fun _ h => h) fun _ _ he => (StagingTrace.flushed hJ.1 hJ.2.le).1.congr he
  notify _ hJ := hJ
  drain {h n c} hJ := by
    have hflushed := StagingTrace.flushed (n := n) hJ.1 hJ.2.le
    refine flush_valid.mono (fun _ h => h) fun _ c' he => ⟨hflushed.1.congr he, ?_⟩
    change Delivered (sharedStaging Op args) h (StagingSubmitter.erase c')
    rw [he]
    exact hflushed.2
  along _ := trivial
  weaken _ _ := trivial

theorem staging_indifferent (args : InitArgs) :
    ThreadedEngine.Indifferent (S := sharedStaging Op args) (StagingTrace args) fun _ _ _ => True :=
  fun _ _ _ => ⟨fun h => h, fun h => h⟩

end

end DsaStdexec.Engine

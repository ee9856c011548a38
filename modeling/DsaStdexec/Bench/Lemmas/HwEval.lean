import DsaStdexec.Bench.HwEval
import Mathlib.Data.Nat.ModEq

/-! # Pre- and postconditions of the benchmarks of `hw-eval` -/

namespace DsaStdexec.Bench

open DsaStdexec.Lib Driver

variable {acc : Accelerator} {v v' : View Unit UInt8} {n : Nat}

/-! ## Submitting and polling -/

theorem valid_submitAll (hn : n ≤ v.size) (hq : ∀ i < n, v.cells i ≠ .pending) :
    (submitAll n).Valid acc.statuses True (fun _ v' => v'.size = v.size ∧ v'.log = v.log ++ submissions n ∧
      ∀ i, v'.cells i = if i < n then .pending else v.cells i) v := by
  refine valid_forRange (fun m v' => v'.size = v.size ∧ v'.log = v.log ++ submissions m ∧
    ∀ i, v'.cells i = if i < m then .pending else v.cells i) ?_ (fun _ h => h) (by simp [submissions])
  rintro m v' hm ⟨hsize, hlog, hcells⟩
  refine valid_submitSlot.mpr ⟨by omega, by simpa [hcells] using hq m hm, hsize, ?_, fun i => ?_⟩
  · simp [View.submit, hlog, submissions, List.range_succ]
  · by_cases hi : i = m
    · simp [View.submit, View.set, hi]
    · have hlt : i < m + 1 ↔ i < m := by omega
      simp [View.submit, View.set, hi, hcells, hlt]

theorem valid_pollAll (hn : n ≤ v.size) (hset : ∀ i < n, v.cells i ≠ .quiet compNone) :
    (pollAll n).Valid acc.statuses True (fun _ v' => v'.size = v.size ∧
      (∃ polls, PollsAll n polls ∧ v'.log = v.log ++ pollsOf polls) ∧
      (∀ i < n, v'.Answered acc.statuses i) ∧ ∀ i, n ≤ i → v'.cells i = v.cells i) v := by
  refine valid_forRange (fun m v' => v'.size = v.size ∧
      (∃ polls, PollsAll m polls ∧ v'.log = v.log ++ pollsOf polls) ∧
      (∀ i < m, v'.Answered acc.statuses i) ∧ ∀ i, m ≤ i → v'.cells i = v.cells i) ?_ (fun _ h => h)
    ⟨rfl, ⟨[], by simp [PollsAll], by simp [pollsOf]⟩, by simp, by simp⟩
  rintro m v₁ hm ⟨hsize, ⟨polls, hpolls, hlog⟩, hdone, hkept⟩
  refine valid_bind.mpr ((valid_pollSlot (by omega) (by rw [hkept m le_rfl]; exact hset m hm)).mono
    fun status v' h => valid_pure.mpr ⟨h.size.trans hsize, ⟨polls ++ [(m, status)], ?_, ?_⟩, ?_, ?_⟩)
  · rw [PollsAll, List.map_append, hpolls, List.range_succ]
    rfl
  · simp [h.log, hlog, pollsOf]
  · intro i hi
    by_cases e : i = m
    · exact e ▸ h.answered
    · obtain ⟨a, ha, hc⟩ := hdone i (by omega)
      exact ⟨a, ha, (h.others i e).trans hc⟩
  · intro i hi
    rw [h.others i (by omega), hkept i (by omega)]

/-- A submission that was polled. -/
structure Ran (acc : Accelerator) (v : View Unit UInt8) (slot : Nat) (status : UInt8) (v' : View Unit UInt8) : Prop where
  size : v'.size = v.size
  log : v'.log = v.log ++ [.submitted slot (), .polled slot status]
  answered : v'.Answered acc.statuses slot
  others : ∀ i, i ≠ slot → v'.cells i = v.cells i

theorem valid_submitAndPoll {slot : Nat} (hlt : slot < v.size) (hq : v.cells slot ≠ .pending) :
    (submitAndPoll slot).Valid acc.statuses True (Ran acc v slot) v := by
  refine valid_bind.mpr (valid_submitSlot.mpr ⟨hlt, hq, ?_⟩)
  refine (valid_pollSlot (v := v.submit slot ()) hlt (by simp [View.submit, View.set])).mono fun status v' h => ?_
  exact ⟨h.size, by simp [h.log, View.submit], h.answered, fun i hi => by
    simp [h.others i hi, View.submit, View.set, hi]⟩

theorem Ran.idle {slot : Nat} {status : UInt8} (h : Ran acc v slot status v')
    (hidle : ∀ i, i ≠ slot → v.cells i ≠ .pending) : v'.Idle := by
  intro i
  by_cases e : i = slot
  · exact e ▸ h.answered.ne_pending
  · rw [h.others i e]
    exact hidle i e

theorem valid_latencies {count : Nat} (hsize : 0 < v.size) (hidle : v.Idle) :
    (latencies count).Valid acc.statuses True (fun _ v' => v'.size = v.size ∧ v'.Idle ∧
      ∃ statuses : List UInt8, statuses.length = count ∧ v'.log = v.log ++ latencyLog statuses) v := by
  refine valid_forRange (fun m v' => v'.size = v.size ∧ v'.Idle ∧
      ∃ statuses : List UInt8, statuses.length = m ∧ v'.log = v.log ++ latencyLog statuses) ?_ (fun _ h => h)
    ⟨rfl, hidle, [], rfl, by simp [latencyLog]⟩
  rintro m v₁ - ⟨hsize₁, hidle₁, statuses, hlen, hlog⟩
  refine valid_bind.mpr ((valid_submitAndPoll (by omega) (hidle₁ 0)).mono fun status v' h => ?_)
  refine valid_pure.mpr ⟨h.size.trans hsize₁, h.idle fun i _ => hidle₁ i, statuses ++ [status], ?_, ?_⟩
  · simp [hlen]
  · simp [h.log, hlog, latencyLog]

theorem valid_latencyLoop {warmup iterations : Nat} (hsize : 0 < v.size) (hidle : v.Idle) :
    (latencyLoop warmup iterations).Valid acc.statuses True (fun res v' => v'.Idle ∧ res = .ok () ∧
      ∃ statuses : List UInt8, statuses.length = warmup + iterations ∧
        v'.log = v.log ++ latencyLog statuses) v := by
  refine valid_bind.mpr ((valid_latencies hsize hidle).mono fun _ v₁ h₁ => ?_)
  obtain ⟨hsize₁, hidle₁, warm, hwarm, hlog₁⟩ := h₁
  refine valid_bind.mpr ((valid_latencies (hsize₁ ▸ hsize) hidle₁).mono fun _ v₂ h₂ => ?_)
  obtain ⟨-, hidle₂, measured, hmeasured, hlog₂⟩ := h₂
  refine ⟨hidle₂, rfl, warm ++ measured, by simp [hwarm, hmeasured], ?_⟩
  simp [hlog₂, hlog₁, latencyLog]

/-! ## Draining -/

/-- The slots that were pending have been waited for. -/
structure Drained (acc : Accelerator) (slots : List Nat) (v v' : View Unit UInt8) : Prop where
  size : v'.size = v.size
  log : ∃ polls, v'.log = v.log ++ pollsOf polls ∧ (polls.map Prod.fst).Sublist slots ∧
    ∀ e ∈ polls, v.cells e.1 = .pending
  answered : ∀ i ∈ slots, v'.Answered acc.statuses i
  others : ∀ i, i ∉ slots → v'.cells i = v.cells i

theorem Drained.ne_unset {slots : List Nat} (h : Drained acc slots v v') {i : Nat}
    (hi : v.cells i ≠ .quiet compNone) : v'.cells i ≠ .quiet compNone := by
  by_cases hm : i ∈ slots
  · exact (h.answered i hm).ne_unset
  · rwa [h.others i hm]

theorem Drained.cons {slot : Nat} {slots : List Nat} {v₁ : View Unit UInt8} (h : Drained acc [slot] v v₁)
    (h' : Drained acc slots v₁ v') : Drained acc (slot :: slots) v v' := by
  obtain ⟨polls, hlog, hsub, hpend⟩ := h.log
  obtain ⟨polls', hlog', hsub', hpend'⟩ := h'.log
  refine ⟨h'.size.trans h.size, ⟨polls ++ polls', ?_, ?_, fun e he => ?_⟩, fun i hi => ?_, fun i hi => ?_⟩
  · simp [hlog', hlog, pollsOf]
  · simpa using hsub.append hsub'
  · rcases List.mem_append.mp he with he | he
    · exact hpend e he
    · have hne : e.1 ∉ [slot] := fun hm => (h.answered e.1 hm).ne_pending (hpend' e he)
      rw [← h.others e.1 hne]
      exact hpend' e he
  · by_cases hm : i ∈ slots
    · exact h'.answered i hm
    · obtain ⟨a, ha, hc⟩ := h.answered i (by simpa [hm] using hi)
      exact ⟨a, ha, (h'.others i hm).trans hc⟩
  · rw [List.mem_cons, not_or] at hi
    rw [h'.others i hi.2, h.others i (by simpa using hi.1)]

/-- A slot is looked at, and polled only if its record is not set yet. -/
theorem valid_drainSlot {slot : Nat} (hlt : slot < v.size) (hset : v.cells slot ≠ .quiet compNone) :
    (do
      let status ← peekSlot slot
      if status = compNone then do
        let _ ← pollSlot slot
        return ()
      else return () : Driver Unit UInt8 Unit).Valid acc.statuses True
        (fun _ v' => Drained acc [slot] v v') v := by
  refine valid_bind.mpr ⟨hlt, fun hp => ?_, fun a ha => ?_⟩
  · change (if compNone = compNone then _ else _ : Driver Unit UInt8 Unit).Valid _ _ _ _
    rw [if_pos rfl]
    refine valid_bind.mpr ((valid_pollSlot (D := acc.statuses) (v := v.miss) hlt hset).mono fun status v' h =>
      valid_pure.mpr ?_)
    refine ⟨h.size, ⟨[(slot, status)], by simp [h.log, pollsOf, View.miss], by simp, by simp [hp]⟩, ?_, ?_⟩
    · simpa using h.answered
    · simpa [View.miss] using h.others
  · have hne : a ≠ compNone := by
      cases hc : v.cells slot with
      | quiet b =>
          obtain rfl : a = b := by simpa [View.Finds, hc] using ha
          exact fun e => hset (by rw [hc, e])
      | pending =>
          rw [View.Finds, hc] at ha
          exact ha
    change (if a = compNone then _ else _ : Driver Unit UInt8 Unit).Valid _ _ _ _
    rw [if_neg hne]
    refine valid_pure.mpr ⟨rfl, ⟨[], by simp [pollsOf, View.find, View.set], by simp, by simp⟩, ?_,
      fun i hi => ?_⟩
    · simp only [List.mem_singleton, forall_eq]
      exact ⟨a, hne, by simp [View.find, View.set]⟩
    · simp [View.find, View.set, List.mem_singleton.not.mp hi]

theorem valid_drainCompletions {slots : List Nat}
    (h : ∀ slot ∈ slots, slot < v.size ∧ v.cells slot ≠ .quiet compNone) :
    (drainCompletions slots).Valid acc.statuses True (fun _ v' => Drained acc slots v v') v := by
  induction slots generalizing v with
  | nil =>
      exact ⟨rfl, ⟨[], by simp [pollsOf], by simp, by simp⟩, by simp, by simp⟩
  | cons slot slots ih =>
      obtain ⟨⟨hlt, hset⟩, hrest⟩ := List.forall_mem_cons.mp h
      refine valid_bind.mpr ((valid_drainSlot hlt hset).mono fun _ v₁ h₁ => ?_)
      have hrest' : ∀ i ∈ slots, i < v₁.size ∧ v₁.cells i ≠ .quiet compNone := fun i hi =>
        ⟨h₁.size ▸ (hrest i hi).1, h₁.ne_unset (hrest i hi).2⟩
      exact (ih hrest').mono fun _ v' h' => h₁.cons h'

/-! ## The latency of a `crc64` -/

theorem valid_measureIaxCrc64 (hsize : 0 < v.size) (hidle : v.Idle) :
    (measureIaxCrc64 acc).Valid acc.statuses True (fun res v' => v'.size = v.size ∧ v'.Idle ∧
      match res with
      | .ok () => ∃ op, v'.log = v.log ++ op ∧ MeasuredOnce acc op
      | .error e => e ≠ acc.success) v := by
  refine valid_bind.mpr ((valid_submitAndPoll hsize (hidle 0)).mono fun status v₁ h₁ => ?_)
  have hidle₁ : v₁.Idle := h₁.idle fun i _ => hidle i
  split_ifs with hfault hok
  · refine valid_bind.mpr ((valid_submitAndPoll (h₁.size ▸ hsize) (hidle₁ 0)).mono fun retry v₂ h₂ => ?_)
    have hidle₂ : v₂.Idle := h₂.idle fun i _ => hidle₁ i
    split_ifs with hretry
    · exact ⟨h₂.size.trans h₁.size, hidle₂, hretry⟩
    · refine ⟨h₂.size.trans h₁.size, hidle₂, _, ?_, .inr rfl⟩
      simp [h₂.log, h₁.log, hfault, not_not.mp hretry]
  · exact ⟨h₁.size, hidle₁, hok⟩
  · exact ⟨h₁.size, hidle₁, _, h₁.log, .inl (by simp [not_not.mp hok])⟩

/-- Rounds that add to the log, one after the other. -/
theorem valid_rounds {rounds : Nat} {f : Nat → Driver Unit UInt8 (Except UInt8 Unit)} {P : PollLog → Prop}
    {E : UInt8 → Prop} (hidle : v.Idle)
    (hf : ∀ i v', v'.size = v.size → v'.Idle → (f i).Valid acc.statuses True
      (fun res v'' => v''.size = v.size ∧ v''.Idle ∧
        match res with
        | .ok () => ∃ r, v''.log = v'.log ++ r ∧ P r
        | .error e => E e) v') :
    (tryEach (List.range rounds) f).Valid acc.statuses True (fun res v' => v'.Idle ∧
      match res with
      | .ok () => ∃ rs : List PollLog, rs.length = rounds ∧ v'.log = v.log ++ rs.flatten ∧ ∀ r ∈ rs, P r
      | .error e => E e) v := by
  refine valid_tryRange (fun m v' => v'.size = v.size ∧ v'.Idle ∧
      ∃ rs : List PollLog, rs.length = m ∧ v'.log = v.log ++ rs.flatten ∧ ∀ r ∈ rs, P r) ?_ (fun _ h => h.2)
    ⟨rfl, hidle, [], rfl, by simp, by simp⟩
  rintro m v₁ - ⟨hsize₁, hidle₁, rs, hlen, hlog, hrs⟩
  refine (hf m v₁ hsize₁ hidle₁).mono fun res v₂ ⟨hsize₂, hidle₂, hres⟩ => ?_
  cases res with
  | error e => exact ⟨hidle₂, hres⟩
  | ok =>
      obtain ⟨r, hr, hP⟩ := hres
      refine ⟨hsize₂, hidle₂, rs ++ [r], by simp [hlen], by simp [hr, hlog], ?_⟩
      simpa [or_imp, forall_and] using And.intro hrs hP

theorem valid_benchSingleOpLatencyIaxCrc64 {iterations : Nat} (hsize : 0 < v.size) (hidle : v.Idle) :
    (benchSingleOpLatencyIaxCrc64 acc iterations).Valid acc.statuses True (fun res v' => v'.Idle ∧
      match res with
      | .ok () => ∃ (statuses : List UInt8) (ops : List PollLog), statuses.length = 100 ∧
          ops.length = iterations ∧ v'.log = v.log ++ (latencyLog statuses ++ ops.flatten) ∧
          ∀ op ∈ ops, MeasuredOnce acc op
      | .error e => e ≠ acc.success) v := by
  refine valid_bind.mpr ((valid_latencies hsize hidle).mono fun _ v₁ h₁ => ?_)
  obtain ⟨hsize₁, hidle₁, warm, hwarm, hlog₁⟩ := h₁
  refine (valid_rounds (P := MeasuredOnce acc) (E := fun e => e ≠ acc.success) hidle₁
    fun _ v₂ hsize₂ hidle₂ => ?_).mono fun res v' hv' => ?_
  · rw [← hsize₂]
    exact valid_measureIaxCrc64 (by rw [hsize₂, hsize₁]; exact hsize) hidle₂
  · obtain ⟨hidle', hres⟩ := hv'
    cases res with
    | error status => exact ⟨hidle', hres⟩
    | ok =>
        obtain ⟨ops, hlen, hlog, hops⟩ := hres
        exact ⟨hidle', warm, ops, hwarm, hlen, by simp [hlog, hlog₁], hops⟩

/-! ## Rounds of submissions -/

/-- All slots were submitted, and those before `i` have been waited for. -/
structure Awaiting (n i : Nat) (v : View Unit UInt8) : Prop where
  size : v.size = n
  pollable : ∀ j < n, v.cells j ≠ .quiet compNone
  settled : ∀ j, j < i ∨ n ≤ j → v.cells j ≠ .pending

namespace Awaiting

variable {i : Nat}

theorem start (hsize : v'.size = n) (hidle : v.Idle)
    (hcells : ∀ i, v'.cells i = if i < n then .pending else v.cells i) : Awaiting n 0 v' where
  size := hsize
  pollable := fun j hj => by simp [hcells, hj]
  settled := fun j hj => by
    rw [hcells, if_neg (by omega)]
    exact hidle j

theorem idle (h : Awaiting n n v) : v.Idle := fun j => h.settled j (by omega)

/-- One slot is answered, and the others are as before. -/
theorem answered {slot : Nat} (h : Awaiting n i v) (hsize : v'.size = v.size)
    (ha : v'.Answered acc.statuses slot) (hothers : ∀ j, j ≠ slot → v'.cells j = v.cells j) :
    Awaiting n i v' where
  size := hsize.trans h.size
  pollable := fun j hj => by
    by_cases e : j = slot
    · exact e ▸ ha.ne_unset
    · rw [hothers j e]
      exact h.pollable j hj
  settled := fun j hj => by
    by_cases e : j = slot
    · exact e ▸ ha.ne_pending
    · rw [hothers j e]
      exact h.settled j hj

theorem succ (h : Awaiting n i v) (hi : v.cells i ≠ .pending) : Awaiting n (i + 1) v where
  size := h.size
  pollable := h.pollable
  settled := fun j hj => by
    by_cases e : j = i
    · exact e ▸ hi
    · exact h.settled j (by omega)

theorem polled {slot : Nat} {status : UInt8} (h : Awaiting n i v)
    (hp : v.Polled acc.statuses slot status v') : Awaiting n i v' :=
  h.answered hp.size hp.answered hp.others

theorem ran {slot : Nat} {status : UInt8} (h : Awaiting n i v) (hr : Ran acc v slot status v') :
    Awaiting n i v' :=
  h.answered hr.size hr.answered hr.others

theorem drainable (h : Awaiting n i v) {slots : List Nat} (hslots : ∀ j ∈ slots, j < n) :
    ∀ j ∈ slots, j < v.size ∧ v.cells j ≠ .quiet compNone :=
  fun j hj => ⟨h.size ▸ hslots j hj, h.pollable j (hslots j hj)⟩

theorem drained {slots : List Nat} (h : Awaiting n i v) (hd : Drained acc slots v v') : Awaiting n i v' where
  size := hd.size.trans h.size
  pollable := fun j hj => hd.ne_unset (h.pollable j hj)
  settled := fun j hj => by
    by_cases hm : j ∈ slots
    · exact (hd.answered j hm).ne_pending
    · rw [hd.others j hm]
      exact h.settled j hj

theorem idle_of_drained {slots : List Nat} (h : Awaiting n i v) (hd : Drained acc slots v v')
    (hslots : ∀ j, i ≤ j → j < n → j ∈ slots) : v'.Idle := by
  intro j
  by_cases hj : j < i ∨ n ≤ j
  · exact (h.drained hd).settled j hj
  · exact (hd.answered j (hslots j (by omega) (by omega))).ne_pending

end Awaiting

/-- The drain of all slots, before a panic. -/
theorem valid_drainAll {i : Nat} (h : Awaiting n i v) :
    (drainCompletions (List.range n)).Valid acc.statuses True
      (fun _ v' => Drained acc (List.range n) v v' ∧ v'.Idle) v :=
  (valid_drainCompletions (h.drainable fun _ => List.mem_range.mp)).mono fun _ _ hd =>
    ⟨hd, h.idle_of_drained hd fun _ _ => List.mem_range.mpr⟩

/-! ## Bursts -/

/-- A burst whose slots before `i` were found to have succeeded last. -/
def BurstUpto (acc : Accelerator) (n i : Nat) (log : PollLog) : Prop :=
  ∀ j < n, (log.filter (·.slot = j)).head? = some (.submitted j ()) ∧
    (j < i → (log.filter (·.slot = j)).getLast? = some (.polled j acc.success))

theorem burstUpto_submissions : BurstUpto acc n 0 (submissions n) := by
  intro j hj
  refine ⟨?_, by simp⟩
  rw [List.head?_filter, submissions, List.find?_map, Option.map_eq_some_iff]
  refine ⟨j, List.find?_range_eq_some.mpr ⟨by simp [DriverEvent.slot], List.mem_range.mpr hj, fun i hi => ?_⟩, rfl⟩
  simp [DriverEvent.slot, hi.ne]

theorem BurstUpto.append {i : Nat} {log more : PollLog} (h : BurstUpto acc n i log)
    (hmore : ∀ e ∈ more, i ≤ e.slot)
    (hlast : (more.filter (·.slot = i)).getLast? = some (.polled i acc.success)) :
    BurstUpto acc n (i + 1) (log ++ more) := by
  intro j hj
  obtain ⟨hhead, hprev⟩ := h j hj
  rw [List.filter_append, List.head?_append, hhead, List.getLast?_append]
  refine ⟨rfl, fun hlt => ?_⟩
  by_cases e : j = i
  · subst e
    rw [hlast]
    rfl
  · have hnil : more.filter (·.slot = j) = [] :=
      List.filter_eq_nil_iff.mpr fun e' he' => by
        have := hmore e' he'
        simp
        omega
    rw [hnil, hprev (by omega)]
    rfl

/-- The slots behind slot `i` of a burst. -/
theorem mem_rest {i j : Nat} : j ∈ List.range' (i + 1) (n - (i + 1)) ↔ i < j ∧ j < n := by
  rw [List.mem_range'_1]
  omega

theorem valid_awaitBurst {i : Nat} {log : PollLog} (hi : i < n) (hawait : Awaiting n i v)
    (hlog : ∃ r, v.log = log ++ r ∧ BurstUpto acc n i r) :
    (awaitBurst acc n i).Valid acc.statuses True (fun res v' =>
      match res with
      | .ok () => Awaiting n (i + 1) v' ∧ ∃ r, v'.log = log ++ r ∧ BurstUpto acc n (i + 1) r
      | .error e => v'.size = n ∧ v'.Idle ∧ e ≠ acc.success) v := by
  obtain ⟨r, hlog, hburst⟩ := hlog
  refine valid_bind.mpr ((valid_pollSlot (hawait.size ▸ hi) (hawait.pollable i hi)).mono fun status v₁ h₁ => ?_)
  have hawait₁ := (hawait.polled h₁).succ h₁.answered.ne_pending
  have hrest : ∀ j ∈ List.range' (i + 1) (n - (i + 1)), j < n := fun j hj => (mem_rest.mp hj).2
  split_ifs with hfault hok
  · refine valid_bind.mpr ((valid_drainCompletions (hawait₁.drainable hrest)).mono fun _ v₂ h₂ => ?_)
    have hawait₂ := hawait₁.drained h₂
    refine valid_bind.mpr ((valid_submitAndPoll (hawait₂.size ▸ hi)
      (hawait₂.settled i (by omega))).mono fun retry v₃ h₃ => ?_)
    have hawait₃ := hawait₂.ran h₃
    split_ifs with hretry
    · refine valid_bind.mpr ((valid_drainAll hawait₃).mono fun _ v₄ ⟨h₄, hidle₄⟩ => ?_)
      exact ⟨h₄.size.trans hawait₃.size, hidle₄, hretry⟩
    · obtain ⟨polls, hlog₂, hsub, -⟩ := h₂.log
      refine ⟨hawait₃, r ++ (.polled i acc.fault :: pollsOf polls ++ [.submitted i (), .polled i acc.success]), ?_,
        hburst.append ?_ ?_⟩
      · simp [h₃.log, hlog₂, h₁.log, hlog, hfault, not_not.mp hretry]
      · simp only [List.cons_append, List.mem_cons, List.mem_append, pollsOf, List.mem_map, List.not_mem_nil,
          or_false]
        rintro e (rfl | ⟨q, hq, rfl⟩ | rfl | rfl)
        · exact le_rfl
        · exact (mem_rest.mp (hsub.subset (List.mem_map_of_mem hq))).1.le
        · exact le_rfl
        · exact le_rfl
      · rw [List.filter_append, List.getLast?_append]
        simp [DriverEvent.slot]
  · refine valid_bind.mpr ((valid_drainCompletions (hawait₁.drainable hrest)).mono fun _ v₂ h₂ => ?_)
    exact ⟨h₂.size.trans hawait₁.size,
      hawait₁.idle_of_drained h₂ fun j hij hj => mem_rest.mpr ⟨hij, hj⟩, hok⟩
  · refine ⟨hawait₁, r ++ [.polled i acc.success], ?_, hburst.append (by simp [DriverEvent.slot]) (by simp [DriverEvent.slot])⟩
    simp [h₁.log, hlog, not_not.mp hok]

theorem valid_benchBurst {rounds : Nat} (hsize : v.size = n) (hidle : v.Idle) :
    (benchBurst acc rounds n).Valid acc.statuses True (fun res v' => v'.Idle ∧
      match res with
      | .ok () => ∃ rs : List PollLog, rs.length = rounds ∧ v'.log = v.log ++ rs.flatten ∧
          ∀ r ∈ rs, BurstSucceeded acc n r
      | .error e => e ≠ acc.success) v := by
  refine valid_rounds hidle fun _ v₁ hsize₁ hidle₁ => ?_
  rw [hsize] at hsize₁
  refine valid_bind.mpr ((valid_submitAll (le_of_eq hsize₁.symm) fun i _ => hidle₁ i).mono fun _ v₂ h₂ => ?_)
  obtain ⟨hsize₂, hlog₂, hcells₂⟩ := h₂
  refine valid_tryRange (fun i v' => Awaiting n i v' ∧ ∃ r, v'.log = v₁.log ++ r ∧ BurstUpto acc n i r) ?_ ?_
    ⟨.start (hsize₂.trans hsize₁) hidle₁ hcells₂, _, hlog₂, burstUpto_submissions⟩
  · rintro i v₃ hi ⟨hawait, hlog⟩
    refine (valid_awaitBurst hi hawait hlog).mono fun res v' hres => ?_
    cases res with
    | ok => exact hres
    | error e => exact ⟨hres.1.trans hsize.symm, hres.2⟩
  · rintro v₃ ⟨hawait, r, hlog, hburst⟩
    exact ⟨hawait.size.trans hsize.symm, hawait.idle, r, hlog, fun j hj => ⟨(hburst j hj).1, (hburst j hj).2 hj⟩⟩

/-! ## Rounds of batches -/

theorem valid_awaitBurstBatch {i : Nat} {log : PollLog} (hi : i < n) (hawait : Awaiting n i v)
    (hlog : ∃ polls, PollsAll i polls ∧ v.log = log ++ pollsOf polls ∧
      ∀ e ∈ polls, e.2 = acc.fault ∨ batchDone acc e.2) :
    (awaitBurstBatch acc n i).Valid acc.statuses True (fun res v' =>
      match res with
      | .ok () => Awaiting n (i + 1) v' ∧ ∃ polls, PollsAll (i + 1) polls ∧ v'.log = log ++ pollsOf polls ∧
          ∀ e ∈ polls, e.2 = acc.fault ∨ batchDone acc e.2
      | .error e => v'.size = n ∧ v'.Idle ∧ ¬ batchDone acc e) v := by
  obtain ⟨polls, hpolls, hlog, hdone⟩ := hlog
  refine valid_bind.mpr ((valid_pollSlot (hawait.size ▸ hi) (hawait.pollable i hi)).mono fun status v₁ h₁ => ?_)
  have hawait₁ := (hawait.polled h₁).succ h₁.answered.ne_pending
  have hnext (hst : status = acc.fault ∨ batchDone acc status) :
      Awaiting n (i + 1) v₁ ∧ ∃ polls, PollsAll (i + 1) polls ∧ v₁.log = log ++ pollsOf polls ∧
        ∀ e ∈ polls, e.2 = acc.fault ∨ batchDone acc e.2 := by
    refine ⟨hawait₁, polls ++ [(i, status)], ?_, by simp [h₁.log, hlog, pollsOf], ?_⟩
    · rw [PollsAll, List.map_append, hpolls, List.range_succ]
      rfl
    · simpa [or_imp, forall_and] using And.intro hdone hst
  split_ifs with hfault hdone
  · exact hnext (.inl hfault)
  · exact hnext (.inr hdone)
  · refine valid_bind.mpr ((valid_drainAll hawait₁).mono fun _ v₂ ⟨h₂, hidle₂⟩ => ?_)
    exact ⟨h₂.size.trans hawait₁.size, hidle₂, hdone⟩

/-- The warm-up of the batch benchmarks. -/
theorem valid_warmup {α : Type} {rest : Driver Unit UInt8 α} {R : α → View Unit UInt8 → Prop} (hsize : v.size = n)
    (hidle : v.Idle)
    (hrest : ∀ v' warmup, v'.size = n → v'.Idle → PollsAll n warmup →
      v'.log = v.log ++ submissions n ++ pollsOf warmup → rest.Valid acc.statuses True R v') :
    (do
      submitAll n
      pollAll n
      rest : Driver Unit UInt8 α).Valid acc.statuses True R v := by
  refine valid_bind.mpr ((valid_submitAll (le_of_eq hsize.symm) fun i _ => hidle i).mono fun _ v₁ h₁ => ?_)
  obtain ⟨hsize₁, hlog₁, hcells₁⟩ := h₁
  have hawait : Awaiting n 0 v₁ := .start (hsize₁.trans hsize) hidle hcells₁
  refine valid_bind.mpr ((valid_pollAll (le_of_eq hawait.size.symm) hawait.pollable).mono fun _ v₂ h₂ => ?_)
  obtain ⟨hsize₂, ⟨warmup, hpolls, hlog₂⟩, hdone, hkept⟩ := h₂
  refine hrest v₂ warmup (hsize₂.trans hawait.size) (fun j => ?_) hpolls (by rw [hlog₂, hlog₁])
  by_cases hj : j < n
  · exact (hdone j hj).ne_pending
  · rw [hkept j (by omega)]
    exact hawait.settled j (by omega)

theorem valid_benchBurstBatch {rounds : Nat} (hsize : v.size = n) (hidle : v.Idle) :
    (benchBurstBatch acc rounds n).Valid acc.statuses True (fun res v' => v'.Idle ∧
      match res with
      | .ok () => ∃ (warmup : List (Nat × UInt8)) (rs : List PollLog), PollsAll n warmup ∧ rs.length = rounds ∧
          v'.log = v.log ++ (submissions n ++ pollsOf warmup ++ rs.flatten) ∧ ∀ r ∈ rs, BatchRound acc n r
      | .error e => ¬ batchDone acc e) v := by
  refine valid_warmup hsize hidle fun v₁ warmup hsize₁ hidle₁ hwarm hlog₁ => ?_
  refine (valid_rounds (P := BatchRound acc n) (E := fun e => ¬ batchDone acc e) hidle₁ ?_).mono
    fun res v' hres => ⟨hres.1, ?_⟩
  · intro _ v₂ hsize₂ hidle₂
    rw [hsize₁] at hsize₂
    refine valid_bind.mpr ((valid_submitAll (le_of_eq hsize₂.symm) fun i _ => hidle₂ i).mono fun _ v₃ h₃ => ?_)
    obtain ⟨hsize₃, hlog₃, hcells₃⟩ := h₃
    refine valid_tryRange (fun i v' => Awaiting n i v' ∧ ∃ polls, PollsAll i polls ∧
      v'.log = v₃.log ++ pollsOf polls ∧ ∀ e ∈ polls, e.2 = acc.fault ∨ batchDone acc e.2) ?_ ?_
      ⟨.start (hsize₃.trans hsize₂) hidle₂ hcells₃, [], by simp [PollsAll], by simp [pollsOf], by simp⟩
    · rintro i v₄ hi ⟨hawait, hlog⟩
      refine (valid_awaitBurstBatch hi hawait hlog).mono fun res v' hres => ?_
      cases res with
      | ok => exact hres
      | error e => exact ⟨hres.1.trans hsize₁.symm, hres.2⟩
    · rintro v₄ ⟨hawait, polls, hpolls, hlog, hdone⟩
      exact ⟨hawait.size.trans hsize₁.symm, hawait.idle, submissions n ++ pollsOf polls,
        by rw [hlog, hlog₃, List.append_assoc], polls, hpolls, rfl, hdone⟩
  · cases res with
    | error e => exact hres.2
    | ok =>
        obtain ⟨rs, hlen, hlog, hrs⟩ := hres.2
        exact ⟨warmup, rs, hwarm, hlen, by simp [hlog, hlog₁], hrs⟩

/-! ## The pipeline of batches -/

section Pipeline

variable {total c completed : Nat} {r : PollLog}

/-- The batches in flight: the next ones to be polled, one slot after the other. -/
def inFlight (total c completed : Nat) : Nat := min c (max total c - completed)

theorem PipelinedLog.start : PipelinedLog acc total c 0 (submissions c) where
  polls := by simp [submissions]
  counted := by simp [donePolls, submissions]
  submits := by simp [faultPolls, submitted, submissions, List.countP_map, Function.comp_def]

theorem PipelinedLog.fault (h : PipelinedLog acc total c completed r) (idx : Nat) :
    PipelinedLog acc total c completed (r ++ [.polled idx acc.fault, .submitted idx ()]) where
  polls := by
    intro slot status hm
    rcases List.mem_append.mp hm with hm | hm
    · exact h.polls slot status hm
    · exact .inl (by simpa using And.right (by simpa using hm))
  counted := by simpa [donePolls] using h.counted
  submits := by
    have := h.submits
    simp only [faultPolls, submitted, List.countP_append] at this ⊢
    simp
    omega

/-- A batch was counted; its slot is submitted again if there is a batch left for it. -/
theorem PipelinedLog.done {status : UInt8} (h : PipelinedLog acc total c completed r)
    (hne : status ≠ acc.fault) (hdone : batchDone acc status) :
    PipelinedLog acc total c (completed + 1) (r ++ .polled (completed % c) status ::
      if completed + 1 + c ≤ total then [.submitted (completed % c) ()] else []) where
  polls := by
    intro slot status' hm
    rcases List.mem_append.mp hm with hm | hm
    · exact h.polls slot status' hm
    · obtain ⟨-, rfl⟩ : slot = completed % c ∧ status' = status := by split_ifs at hm <;> simpa using hm
      exact .inr hdone
  counted := by
    have := h.counted
    simp only [donePolls, List.filterMap_append, List.range_succ, List.map_append] at this ⊢
    rw [this]
    split_ifs <;> simp [hne]
  submits := by
    have := h.submits
    simp only [faultPolls, submitted, List.countP_append] at this ⊢
    split_ifs <;> simp [hne] <;> omega

/-- The state of the `while` loop. -/
structure Window (acc : Accelerator) (total c : Nat) (log : PollLog) (completed idx : Nat) (v : View Unit UInt8) :
    Prop where
  le : completed ≤ total
  idx_eq : idx = completed % c
  size : v.size = c
  pollable : ∀ j < c, v.cells j ≠ .quiet compNone
  pending : ∀ j, v.cells j = .pending ↔ ∃ k < inFlight total c completed, j = (completed + k) % c
  log : ∃ r, v.log = log ++ r ∧ PipelinedLog acc total c completed r

theorem rotate (hc : 0 < c) (a j : Nat) : (∃ k < c, j = (a + k) % c) ↔ j < c := by
  constructor
  · rintro ⟨k, -, rfl⟩
    exact Nat.mod_lt _ hc
  · intro hj
    have ha := Nat.mod_lt a hc
    refine ⟨(j + (c - a % c)) % c, Nat.mod_lt _ hc, ?_⟩
    rw [Nat.add_mod_mod, ← Nat.mod_add_mod, show a % c + (j + (c - a % c)) = j + c by omega,
      Nat.add_mod_right, Nat.mod_eq_of_lt hj]

theorem mod_add_ne {a k : Nat} (hk : 0 < k) (hkc : k < c) : (a + k) % c ≠ a % c := by
  intro h
  have hdvd : c ∣ k := by
    simpa using (Nat.modEq_iff_dvd' (Nat.le_add_right a k)).mp h.symm
  exact absurd (Nat.le_of_dvd hk hdvd) (by omega)

namespace Window

variable {log : PollLog} {idx : Nat}

theorem start (hc : 0 < c) {v : View Unit UInt8} (hawait : Awaiting c 0 v')
    (hcells : ∀ i, v'.cells i = if i < c then .pending else v.cells i) (hidle : v.Idle)
    (hlog : v'.log = log ++ submissions c) : Window acc total c log 0 0 v' where
  le := Nat.zero_le _
  idx_eq := (Nat.zero_mod c).symm
  size := hawait.size
  pollable := hawait.pollable
  pending := by
    intro j
    rw [hcells, inFlight, Nat.sub_zero, min_eq_left (le_max_right _ _), rotate hc]
    by_cases hj : j < c
    · simp [hj]
    · simpa [hj] using hidle j
  log := ⟨_, hlog, .start⟩

variable {completed : Nat} {v : View Unit UInt8}

theorem pending_idx (h : Window acc total c log completed idx v) (hc : 0 < c) (hlt : completed < total) :
    v.cells idx = .pending := by
  refine (h.pending idx).mpr ⟨0, ?_, by simpa using h.idx_eq⟩
  simp only [inFlight]
  omega

/-- The batch at `idx` is submitted again after a page fault. -/
theorem fault {v₁ : View Unit UInt8} (h : Window acc total c log completed idx v) (hc : 0 < c)
    (hlt : completed < total) (hp : v.Polled acc.statuses idx acc.fault v₁) :
    Window acc total c log completed idx (v₁.submit idx ()) where
  le := h.le
  idx_eq := h.idx_eq
  size := hp.size.trans h.size
  pollable := by
    intro j hj
    by_cases e : j = idx
    · simp [View.submit, View.set, e]
    · simpa [View.submit, View.set, e, hp.others j e] using h.pollable j hj
  pending := by
    intro j
    rw [← h.pending j]
    by_cases e : j = idx
    · simp [View.submit, View.set, e, h.pending_idx hc hlt]
    · simp [View.submit, View.set, e, hp.others j e]
  log := by
    obtain ⟨r, hlog, hr⟩ := h.log
    exact ⟨_, by simp [View.submit, hp.log, hlog], hr.fault idx⟩

/-- The batch at `idx` was counted, and the slot is submitted again. -/
theorem resubmit {v₁ : View Unit UInt8} {status : UInt8} (h : Window acc total c log completed idx v) (hc : 0 < c)
    (hmore : completed + 1 + c ≤ total) (hp : v.Polled acc.statuses idx status v₁) (hne : status ≠ acc.fault)
    (hdone : batchDone acc status) :
    Window acc total c log (completed + 1) ((idx + 1) % c) (v₁.submit idx ()) where
  le := by
    omega
  idx_eq := by
    rw [h.idx_eq, Nat.mod_add_mod]
  size := hp.size.trans h.size
  pollable := by
    intro j hj
    by_cases e : j = idx
    · simp [View.submit, View.set, e]
    · simpa [View.submit, View.set, e, hp.others j e] using h.pollable j hj
  pending := by
    -- All slots stay in flight.
    intro j
    have hall (m : Nat) (hm : m + c ≤ total) : inFlight total c m = c := by
      simp only [inFlight]
      omega
    have hidx : idx < c := h.idx_eq ▸ Nat.mod_lt _ hc
    have hpend := h.pending j
    rw [hall _ (by omega), rotate hc] at hpend ⊢
    by_cases e : j = idx
    · simp [View.submit, View.set, e, hidx]
    · simpa [View.submit, View.set, e, hp.others j e] using hpend
  log := by
    obtain ⟨r, hlog, hr⟩ := h.log
    have hr' := hr.done hne hdone
    rw [if_pos hmore] at hr'
    refine ⟨_, ?_, hr'⟩
    simp [View.submit, hp.log, hlog, h.idx_eq]

/-- The batch at `idx` was counted, and there is none left for the slot. -/
theorem retire {v₁ : View Unit UInt8} {status : UInt8} (h : Window acc total c log completed idx v)
    (hlt : completed < total) (hmore : ¬ completed + 1 + c ≤ total)
    (hp : v.Polled acc.statuses idx status v₁) (hne : status ≠ acc.fault) (hdone : batchDone acc status) :
    Window acc total c log (completed + 1) ((idx + 1) % c) v₁ where
  le := hlt
  idx_eq := by
    rw [h.idx_eq, Nat.mod_add_mod]
  size := hp.size.trans h.size
  pollable := by
    intro j hj
    by_cases e : j = idx
    · exact e ▸ hp.answered.ne_unset
    · rw [hp.others j e]
      exact h.pollable j hj
  pending := by
    intro j
    have hfly : inFlight total c completed = inFlight total c (completed + 1) + 1 := by
      simp only [inFlight]
      omega
    have hle : inFlight total c completed ≤ c := min_le_left _ _
    by_cases e : j = idx
    · refine iff_of_false (e ▸ hp.answered.ne_pending) ?_
      rintro ⟨k, hk, hj⟩
      refine mod_add_ne (a := completed) (k := k + 1) (c := c) (by omega) (by omega) ?_
      rw [← h.idx_eq, ← e, hj]
      congr 1
      omega
    · rw [hp.others j e, h.pending j, hfly]
      constructor
      · rintro ⟨k, hk, hj⟩
        cases k with
        | zero => exact absurd (hj.trans (by simpa using h.idx_eq.symm)) e
        | succ k => exact ⟨k, by omega, by rw [hj]; congr 1; omega⟩
      · rintro ⟨k, hk, hj⟩
        exact ⟨k + 1, by omega, by rw [hj]; congr 1; omega⟩
  log := by
    obtain ⟨r, hlog, hr⟩ := h.log
    have hr' := hr.done hne hdone
    rw [if_neg hmore] at hr'
    exact ⟨_, by simp [hp.log, hlog, h.idx_eq], hr'⟩

theorem awaiting (h : Window acc total c log completed idx v) (hc : 0 < c) : Awaiting c 0 v where
  size := h.size
  pollable := h.pollable
  settled := by
    intro j hj hp
    obtain ⟨k, -, rfl⟩ := (h.pending j).mp hp
    have := Nat.mod_lt (completed + k) hc
    omega

/-- The final drain polls what was submitted beyond the batches that were asked for. -/
theorem drained_le (h : Window acc total c log total idx v) {polls : List (Nat × UInt8)}
    (hsub : (polls.map Prod.fst).Sublist (List.range c)) (hpend : ∀ e ∈ polls, v.cells e.1 = .pending) :
    polls.length ≤ c - total := by
  have hnodup : (polls.map Prod.fst).Nodup := hsub.nodup List.nodup_range
  have hmem : polls.map Prod.fst ⊆ (List.range (c - total)).map fun k => (total + k) % c := by
    intro j hj
    obtain ⟨e, he, rfl⟩ := List.mem_map.mp hj
    obtain ⟨k, hk, hek⟩ := (h.pending e.1).mp (hpend e he)
    refine List.mem_map.mpr ⟨k, List.mem_range.mpr ?_, hek.symm⟩
    simp only [inFlight] at hk
    omega
  simpa using (hnodup.subperm hmem).length_le

end Window

theorem valid_benchPipelinedBatch (hc : 0 < c) {v : View Unit UInt8} (hsize : v.size = c) (hidle : v.Idle) :
    (benchPipelinedBatch acc total c).Valid acc.statuses True (fun res v' => v'.Idle ∧
      match res with
      | .ok () => ∃ (warmup : List (Nat × UInt8)) (measured : PollLog) (drained : List (Nat × UInt8)),
          PollsAll c warmup ∧
          v'.log = v.log ++ (submissions c ++ pollsOf warmup ++ measured ++ pollsOf drained) ∧
          PipelinedLog acc total c total measured ∧ drained.length ≤ c - total
      | .error e => ¬ batchDone acc e) v := by
  refine valid_warmup hsize hidle fun v₁ warmup hsize₁ hidle₁ hwarm hlog₁ => ?_
  refine valid_bind.mpr ((valid_submitAll (le_of_eq hsize₁.symm) fun i _ => hidle₁ i).mono fun _ v₂ h₂ => ?_)
  obtain ⟨hsize₂, hlog₂, hcells₂⟩ := h₂
  -- A batch that is counted lowers the variant; a page fault was in flight, so it is a new one.
  refine ⟨fun x => Window acc total c v₁.log x.1 x.2, fun x _ => total - x.1,
    .start hc (.start (hsize₂.trans hsize₁) hidle₁ hcells₂) hcells₂ hidle₁ hlog₂, ?_⟩
  rintro ⟨completed, idx⟩ v₃ (hwin : Window acc total c v₁.log completed idx v₃)
  rw [pipelinedBatch]
  by_cases hlt : completed < total
  · rw [if_pos hlt]
    have hidx : idx < c := hwin.idx_eq ▸ Nat.mod_lt _ hc
    refine valid_bind.mpr ((valid_pollSlot (hwin.size ▸ hidx) (hwin.pollable idx hidx)).mono
      fun status v₄ hp => ?_)
    have hslot : idx < v₄.size := by rw [hp.size, hwin.size]; exact hidx
    by_cases hfault : status = acc.fault
    · subst hfault
      rw [if_pos rfl]
      refine valid_bind.mpr (valid_submitSlot.mpr ⟨hslot, hp.answered.ne_pending, ?_⟩)
      have hfound := hp.fault (hwin.pending_idx hc hlt) (by simp [Accelerator.statuses])
      exact ⟨hwin.fault hc hlt hp, fun _ => .inr (.inl hfound)⟩
    rw [if_neg hfault]
    by_cases hdone : batchDone acc status
    · rw [if_neg (not_not.mpr hdone)]
      have hless : total - (completed + 1) < total - completed := by omega
      by_cases hmore : completed + 1 + c ≤ total
      · rw [if_pos hmore]
        refine valid_bind.mpr (valid_submitSlot.mpr ⟨hslot, hp.answered.ne_pending, ?_⟩)
        exact ⟨hwin.resubmit hc hmore hp hfault hdone, fun _ => .inl hless⟩
      · rw [if_neg hmore]
        exact ⟨hwin.retire hlt hmore hp hfault hdone, fun _ => .inl hless⟩
    · rw [if_pos hdone]
      refine valid_bind.mpr ((valid_drainAll ((hwin.awaiting hc).polled hp)).mono fun _ v₅ hd => ?_)
      exact ⟨hd.2, hdone⟩
  · rw [if_neg hlt]
    obtain rfl : completed = total := le_antisymm hwin.le (not_lt.mp hlt)
    refine valid_bind.mpr ((valid_drainAll (hwin.awaiting hc)).mono fun _ v₄ ⟨hd, hidle₄⟩ => ?_)
    obtain ⟨r, hlog, hr⟩ := hwin.log
    obtain ⟨polls, hlog₄, hsub, hpend⟩ := hd.log
    refine ⟨hidle₄, warmup, r, polls, hwarm, ?_, hr, hwin.drained_le hsub hpend⟩
    simp [hlog₄, hlog, hlog₁]

end Pipeline

/-! ## All benchmarks -/

theorem batchDone_success : batchDone acc acc.success := .inl rfl

/-- What holds when a benchmark has ended, with its report or with a panic. -/
def Benchmark.Ends (acc : Accelerator) (b : Benchmark) (res : Except UInt8 Unit) (v : View Unit UInt8) : Prop :=
  v.Idle ∧
    match res with
    | .ok () => b.Reports acc v.log
    | .error status => status ≠ acc.success

theorem Benchmark.valid (b : Benchmark) (hb : b.Swept) :
    (b.program acc).Valid acc.statuses True (b.Ends acc) (.new acc.statuses b.slots) := by
  have hidle : (View.new acc.statuses b.slots : View Unit UInt8).Idle := fun _ => nofun
  cases b with
  | noopLatency | noopLatencyIax | singleOpLatency | batchLatency =>
      refine (valid_latencyLoop Nat.one_pos hidle).mono fun res v' ⟨hidle', hok, hlog⟩ => ?_
      subst hok
      exact ⟨hidle', hlog⟩
  | singleOpLatencyIaxCrc64 iterations =>
      refine (valid_benchSingleOpLatencyIaxCrc64 Nat.one_pos hidle).mono fun res v' ⟨hidle', hres⟩ => ⟨hidle', ?_⟩
      cases res <;> exact hres
  | burst rounds n =>
      refine (valid_benchBurst rfl hidle).mono fun res v' ⟨hidle', hres⟩ => ⟨hidle', ?_⟩
      cases res <;> exact hres
  | burstBatch rounds n =>
      refine (valid_benchBurstBatch rfl hidle).mono fun res v' ⟨hidle', hres⟩ => ⟨hidle', ?_⟩
      cases res with
      | ok => exact hres
      | error status => exact fun e => hres (e ▸ batchDone_success)
  | pipelinedBatch total c =>
      refine (valid_benchPipelinedBatch hb rfl hidle).mono fun res v' ⟨hidle', hres⟩ => ⟨hidle', ?_⟩
      cases res with
      | ok => exact hres
      | error status => exact fun e => hres (e ▸ batchDone_success)

end DsaStdexec.Bench

import DsaStdexec.Bench.Strategies

/-! # Pre- and postconditions of the strategies without allocation -/

namespace DsaStdexec.Bench

open DsaStdexec.Lib Driver

variable {v v' : View Nat Bool} {c msgSize totalBytes : Nat}

/-- The slots after the first `k` operations were started. -/
structure StartedOps (c msgSize k : Nat) (v : View Nat Bool) : Prop where
  size : v.size = c
  pollable : ∀ i, v.cells i ≠ .quiet false
  outside : ∀ i, c ≤ i → v.cells i ≠ .pending
  started : startedAt v.log = (List.range k).map (· * msgSize)

/-- Nothing but looking at flags has happened. -/
structure Watched (v v' : View Nat Bool) : Prop where
  size : v'.size = v.size
  log : v'.log = v.log
  pollable : ∀ i, v.cells i ≠ .quiet false → v'.cells i ≠ .quiet false
  settled : ∀ i, v.cells i ≠ .pending → v'.cells i ≠ .pending
  misses : v.misses ≤ v'.misses

theorem Watched.refl (v : View Nat Bool) : Watched v v := ⟨rfl, rfl, fun _ => id, fun _ => id, le_rfl⟩

theorem Watched.trans {v'' : View Nat Bool} (h : Watched v v') (h' : Watched v' v'') : Watched v v'' :=
  ⟨h'.size.trans h.size, h'.log.trans h.log, fun i hi => h'.pollable i (h.pollable i hi),
    fun i hi => h'.settled i (h.settled i hi), h.misses.trans h'.misses⟩

theorem StartedOps.watched {k : Nat} (h : StartedOps c msgSize k v) (hw : Watched v v') :
    StartedOps c msgSize k v' :=
  ⟨hw.size.trans h.size, fun i => hw.pollable i (h.pollable i), fun i hi => hw.settled i (h.outside i hi),
    hw.log ▸ h.started⟩

theorem StartedOps.submit {k slot : Nat} (h : StartedOps c msgSize k v) (hslot : slot < c) :
    StartedOps c msgSize (k + 1) (v.submit slot (k * msgSize)) where
  size := h.size
  pollable := fun i => by
    by_cases e : i = slot
    · simp [View.submit, View.set, e]
    · simpa [View.submit, View.set, e] using h.pollable i
  outside := fun i hi => by
    have hne : i ≠ slot := by omega
    simpa [View.submit, View.set, hne] using h.outside i hi
  started := by
    have := h.started
    simp_all [startedAt, View.submit, View.set, List.range_succ]

theorem valid_peekReady {slot : Nat} (hlt : slot < v.size) (hset : v.cells slot ≠ .quiet false) :
    (peekSlot slot).Valid slotReady (0 < c) (fun ready v' => Watched v v' ∧
      if ready = true then v'.cells slot ≠ .pending else v.misses < v'.misses) v := by
  refine ⟨hlt, fun _ => ⟨⟨rfl, rfl, fun _ => id, fun _ => id, Nat.le_succ _⟩, Nat.lt_succ_self _⟩, fun a ha => ?_⟩
  obtain rfl : a = true := by
    cases hc : v.cells slot with
    | quiet b =>
        obtain rfl : a = b := by simpa [View.Finds, hc] using ha
        cases a with
        | false => exact absurd hc hset
        | true => rfl
    | pending =>
        rw [View.Finds, hc] at ha
        simpa [slotReady] using ha
  have hcells (i : Nat) (P : Cell Bool → Prop) (h : P (.quiet true)) (hi : P (v.cells i)) :
      P ((v.find slotReady slot true).cells i) := by
    by_cases e : i = slot
    · simpa [View.find, View.set, e] using h
    · simpa [View.find, View.set, e] using hi
  refine ⟨⟨rfl, rfl, fun i => hcells i (· ≠ .quiet false) (by simp), fun i => hcells i (· ≠ .pending) (by simp),
    le_rfl⟩, ?_⟩
  simp [View.find, View.set]

/-! ## The sliding window -/

section SlidingWindow

variable {k : Nat}

theorem valid_startNext {slot : Nat} (h : StartedOps c msgSize k v) (hle : k ≤ numOps msgSize totalBytes)
    (hslot : slot < c) :
    (startNext msgSize totalBytes slot k).Valid slotReady (0 < c) (fun k' v' => StartedOps c msgSize k' v' ∧
      k' ≤ numOps msgSize totalBytes ∧ k ≤ k' ∧ v.misses ≤ v'.misses ∧
      (k < numOps msgSize totalBytes → k < k' ∨ v.misses < v'.misses)) v := by
  unfold startNext
  by_cases hend : numOps msgSize totalBytes ≤ k
  · rw [if_pos hend]
    exact ⟨h, hle, le_rfl, le_rfl, fun hlt => absurd hlt (by omega)⟩
  rw [if_neg hend]
  refine valid_bind.mpr ((valid_peekReady (h.size ▸ hslot) (h.pollable slot)).mono fun ready v₁ ⟨hw, hready⟩ => ?_)
  have h₁ := h.watched hw
  cases ready with
  | false => exact ⟨h₁, hle, le_rfl, hw.misses, fun _ => .inr hready⟩
  | true =>
      refine valid_bind.mpr (valid_submitSlot.mpr ⟨h₁.size ▸ hslot, hready, ?_⟩)
      exact ⟨h₁.submit hslot, by omega, by omega, hw.misses, fun _ => .inl (by omega)⟩

/-- A scan of the slots starts an operation, or it has met a slot that is not ready, if there is any. -/
theorem valid_scan (h : StartedOps c msgSize k v) (hlt : k < numOps msgSize totalBytes) :
    (foldEach (startNext msgSize totalBytes) (List.range c) k).Valid slotReady (0 < c) (fun k' v' =>
      StartedOps c msgSize k' v' ∧ k' ≤ numOps msgSize totalBytes ∧
        (0 < c → k < k' ∨ v.misses < v'.misses)) v := by
  refine valid_foldEach (fun is k' v' => (∀ i ∈ is, i < c) ∧ StartedOps c msgSize k' v' ∧
    k' ≤ numOps msgSize totalBytes ∧ k ≤ k' ∧ v.misses ≤ v'.misses ∧
    (0 < c → is ≠ [] ∨ k < k' ∨ v.misses < v'.misses)) ?_ ?_
    ⟨fun i => List.mem_range.mp, h, hlt.le, le_rfl, le_rfl, fun hc => .inl (by simpa using hc.ne')⟩
  · rintro i is k₁ v₁ ⟨his, h₁, hle₁, hk₁, hm₁, -⟩
    obtain ⟨hi, his⟩ := List.forall_mem_cons.mp his
    refine (valid_startNext h₁ hle₁ hi).mono fun k₂ v₂ ⟨h₂, hle₂, hk₂, hm₂, hstep⟩ =>
      ⟨his, h₂, hle₂, hk₁.trans hk₂, hm₁.trans hm₂, fun _ => .inr ?_⟩
    by_cases hend : k₁ < numOps msgSize totalBytes
    · have := hstep hend
      omega
    · omega
  · rintro k' v' ⟨-, h', hle', -, -, hprog⟩
    exact ⟨h', hle', fun hc => (hprog hc).resolve_left (not_not.mpr rfl)⟩

theorem valid_startFirst {slots : List Nat} (h : StartedOps c msgSize k v) (hslots : ∀ i ∈ slots, i < c) :
    (startFirst (k * msgSize) slots).Valid slotReady (0 < c) (fun started v' =>
      if started = true then StartedOps c msgSize (k + 1) v'
      else StartedOps c msgSize k v' ∧ v.misses ≤ v'.misses ∧ (slots ≠ [] → v.misses < v'.misses)) v := by
  induction slots generalizing v with
  | nil => exact ⟨h, le_rfl, fun hne => absurd rfl hne⟩
  | cons slot slots ih =>
      obtain ⟨hslot, hslots⟩ := List.forall_mem_cons.mp hslots
      refine valid_bind.mpr ((valid_peekReady (h.size ▸ hslot) (h.pollable slot)).mono
        fun ready v₁ ⟨hw, hready⟩ => ?_)
      have h₁ := h.watched hw
      cases ready with
      | true =>
          refine valid_bind.mpr (valid_submitSlot.mpr ⟨h₁.size ▸ hslot, hready, ?_⟩)
          exact h₁.submit hslot
      | false =>
          refine (ih h₁ hslots).mono fun started v' h' => ?_
          cases started with
          | true => exact h'
          | false =>
              obtain ⟨h₂, hm, -⟩ := h'
              exact ⟨h₂, hw.misses.trans hm, fun _ => lt_of_lt_of_le hready hm⟩

/-- The operations that are left run to their end. -/
theorem valid_awaitEmpty (h : StartedOps c msgSize k v) :
    (awaitEmpty c).Valid slotReady (0 < c) (fun _ v' => v'.Idle ∧
      startedAt v'.log = (List.range k).map (· * msgSize)) v := by
  refine valid_forRange (fun i v' => StartedOps c msgSize k v' ∧ ∀ j < i, v'.cells j ≠ .pending) ?_ ?_
    ⟨h, nofun⟩
  · rintro i v₁ hi ⟨h₁, hdone⟩
    refine valid_bind.mpr ((valid_pollSlot (h₁.size ▸ hi) (h₁.pollable i)).mono fun status v₂ hp => ?_)
    have hcells (j : Nat) (P : Cell Bool → Prop) (ha : ∀ a, a ≠ false → P (.quiet a)) (hj : P (v₁.cells j)) :
        P (v₂.cells j) := by
      by_cases e : j = i
      · obtain ⟨a, hne, hc⟩ := hp.answered
        rw [e, hc]
        exact ha a hne
      · rwa [hp.others j e]
    refine ⟨⟨hp.size.trans h₁.size, fun j => hcells j (· ≠ .quiet false) (by simp) (h₁.pollable j),
      fun j hj => hcells j (· ≠ .pending) (by simp) (h₁.outside j hj), ?_⟩, fun j hj => ?_⟩
    · rw [hp.log, ← h₁.started]
      simp [startedAt]
    · by_cases e : j = i
      · exact e ▸ hp.answered.ne_pending
      · rw [hp.others j e]
        exact hdone j (by omega)
  · rintro v₁ ⟨h₁, hdone⟩
    exact ⟨fun i => if hi : i < c then hdone i hi else h₁.outside i (by omega), h₁.started⟩

end SlidingWindow

/-! ## The barrier -/

theorem valid_allDone {slots : List Nat} (hset : ∀ i, v.cells i ≠ .quiet false) (hslots : ∀ i ∈ slots, i < v.size) :
    (allDone slots).Valid slotReady (0 < c) (fun done v' => Watched v v' ∧
      if done = true then ∀ i ∈ slots, v'.cells i ≠ .pending else v.misses < v'.misses) v := by
  induction slots generalizing v with
  | nil => exact ⟨.refl v, nofun⟩
  | cons slot slots ih =>
      obtain ⟨hslot, hslots⟩ := List.forall_mem_cons.mp hslots
      refine valid_bind.mpr ((valid_peekReady hslot (hset slot)).mono fun ready v₁ ⟨hw, hready⟩ => ?_)
      cases ready with
      | false => exact ⟨hw, hready⟩
      | true =>
          refine (ih (fun i => hw.pollable i (hset i)) (fun i hi => hw.size ▸ hslots i hi)).mono
            fun done v₂ ⟨hw₂, hdone⟩ => ⟨hw.trans hw₂, ?_⟩
          cases done with
          | false => exact lt_of_le_of_lt hw.misses hdone
          | true => exact List.forall_mem_cons.mpr ⟨hw₂.settled slot hready, hdone⟩

/-- What a strategy has done when it returns. -/
def RanAll (msgSize totalBytes : Nat) (v : View Nat Bool) : Prop :=
  v.Idle ∧ startedAt v.log = (List.range (numOps msgSize totalBytes)).map (· * msgSize)

theorem startedOps_new : StartedOps c msgSize 0 (.new slotReady c) :=
  ⟨rfl, by simp [View.new, slotReady], by simp [View.new], by simp [startedAt, View.new]⟩

/-- A batch is started and waited for. -/
theorem valid_batch {k n : Nat} (h : StartedOps c msgSize k v) (hidle : v.Idle) (hn : n ≤ c) :
    (do
      forEach (List.range n) fun i => submitSlot i ((k + i) * msgSize)
      iterate (fun _ => do
        let done ← allDone (List.range n)
        if done then return .inr () else return .inl ()) () : Driver Nat Bool Unit).Valid slotReady (0 < c)
      (fun _ v' => StartedOps c msgSize (k + n) v' ∧ v'.Idle) v := by
  refine valid_bind.mpr (valid_forRange
    (fun m v' => StartedOps c msgSize (k + m) v' ∧ ∀ i, m ≤ i → v'.cells i ≠ .pending) ?_ ?_ ⟨h, fun i _ => hidle i⟩)
  · rintro m v₁ hm ⟨h₁, hfree⟩
    refine valid_submitSlot.mpr ⟨by rw [h₁.size]; omega, hfree m le_rfl, h₁.submit (by omega), fun i hi => ?_⟩
    have hne : i ≠ m := by omega
    simpa [View.submit, View.set, hne] using hfree i (by omega)
  · rintro v₁ ⟨h₁, hfree⟩
    refine valid_iterate (fun _ v' => StartedOps c msgSize (k + n) v' ∧ ∀ i, n ≤ i → v'.cells i ≠ .pending)
      (fun _ _ => 0) ⟨h₁, hfree⟩ ?_
    rintro - v₂ ⟨h₂, hfree₂⟩
    refine valid_bind.mpr ((valid_allDone h₂.pollable fun i hi => ?_).mono fun done v₃ hv₃ => ?_)
    · rw [h₂.size]
      exact (List.mem_range.mp hi).trans_le hn
    · obtain ⟨hw, hdone⟩ := hv₃
      cases done with
      | false => exact ⟨⟨h₂.watched hw, fun i hi => hw.settled i (hfree₂ i hi)⟩, fun _ => .inr (.inr hdone)⟩
      | true =>
          refine ⟨h₂.watched hw, fun i => ?_⟩
          by_cases hi : i < n
          · exact hdone i (List.mem_range.mpr hi)
          · exact hw.settled i (hfree₂ i (by omega))

theorem valid_slidingWindowNoallocInline :
    (slidingWindowNoallocInline c msgSize totalBytes).Valid slotReady (0 < c)
      (fun _ v => RanAll msgSize totalBytes v) (.new slotReady c) := by
  refine valid_bind.mpr (valid_iterate
    (fun k v => StartedOps c msgSize k v ∧ k ≤ numOps msgSize totalBytes)
    (fun k _ => numOps msgSize totalBytes - k) ⟨startedOps_new, Nat.zero_le _⟩ ?_)
  rintro k v ⟨h, hle⟩
  by_cases hlt : k < numOps msgSize totalBytes
  · rw [if_pos hlt]
    refine valid_bind.mpr ((valid_scan h hlt).mono fun k' v' ⟨h', hle', hprog⟩ => ⟨⟨h', hle'⟩, fun hc => ?_⟩)
    rcases hprog hc with hk | hm
    · exact .inl (by omega)
    · exact .inr (.inr hm)
  · rw [if_neg hlt]
    obtain rfl : k = numOps msgSize totalBytes := le_antisymm hle (not_lt.mp hlt)
    exact valid_awaitEmpty h

theorem valid_slidingWindowNoallocThreaded :
    (slidingWindowNoallocThreaded c msgSize totalBytes).Valid slotReady (0 < c)
      (fun _ v => RanAll msgSize totalBytes v) (.new slotReady c) := by
  refine valid_bind.mpr (valid_forRange (fun k v => StartedOps c msgSize k v) ?_ (fun v h => valid_awaitEmpty h)
    startedOps_new)
  intro k v hk h
  refine valid_iterate (fun _ v => StartedOps c msgSize k v) (fun _ _ => 0) h fun _ v h => ?_
  refine valid_bind.mpr ((valid_startFirst h fun i => List.mem_range.mp).mono fun started v' h' => ?_)
  cases started with
  | true => exact h'
  | false => exact ⟨h'.1, fun hc => .inr (.inr (h'.2.2 (by simpa using hc.ne')))⟩

theorem valid_batchNoalloc :
    (batchNoalloc c msgSize totalBytes).Valid slotReady (0 < c) (fun _ v => RanAll msgSize totalBytes v)
      (.new slotReady c) := by
  refine valid_iterate (fun k v => StartedOps c msgSize k v ∧ v.Idle ∧ k ≤ numOps msgSize totalBytes)
    (fun k _ => numOps msgSize totalBytes - k) ⟨startedOps_new, fun _ => nofun, Nat.zero_le _⟩ ?_
  rintro k v ⟨h, hidle, hle⟩
  by_cases hlt : k < numOps msgSize totalBytes
  · rw [if_pos hlt]
    have hbatch := valid_bind.mp (valid_batch h hidle
      (n := min (k + c) (numOps msgSize totalBytes) - k) (by omega))
    refine valid_bind.mpr (hbatch.mono fun _ v₁ hv₁ => valid_bind.mpr (hv₁.mono fun _ v₂ ⟨h₂, hidle₂⟩ => ?_))
    rw [show k + (min (k + c) (numOps msgSize totalBytes) - k) = min (k + c) (numOps msgSize totalBytes)
      by omega] at h₂
    exact ⟨⟨h₂, hidle₂, by omega⟩, fun hc => .inl (by omega)⟩
  · rw [if_neg hlt]
    obtain rfl : k = numOps msgSize totalBytes := le_antisymm hle (not_lt.mp hlt)
    exact ⟨hidle, h.started⟩

theorem NoallocStrategy.valid (strategy : NoallocStrategy) :
    (strategy.program c msgSize totalBytes).Valid slotReady (0 < c) (fun _ v => RanAll msgSize totalBytes v)
      (.new slotReady c) := by
  cases strategy with
  | slidingWindowInline => exact valid_slidingWindowNoallocInline
  | slidingWindowThreaded => exact valid_slidingWindowNoallocThreaded
  | batch => exact valid_batchNoalloc

end DsaStdexec.Bench

import DsaStdexec.Submitter.Lemmas.FixedRing
import DsaStdexec.Submitter.Lemmas.RingAccounting
import DsaStdexec.Submitter.Lemmas.RingDelivery
import DsaStdexec.Submitter.Lemmas.Staging
import Mathlib.Algebra.Module.Submodule.Lattice

/-!
# The batching submitters over whole runs
-/

namespace DsaStdexec.Submitter

open DsaStdexec.Lib

/-! ## The size of the descriptor ring -/

/-- `round_up_pow2` is the least power of two that is large enough, up to `2 ^ 63`. So the rings of
both submitters have room for all their batches, and the mask of `desc_index` is a remainder. -/
theorem roundUpPow2_exact :
    (∀ n, 1 ≤ n → n ≤ 2 ^ 63 → IsLeast {p | (∃ k, p = 2 ^ k) ∧ n ≤ p} (roundUpPow2 n)) ∧
    (∀ maxBatch, maxBatch * kDefaultNumBatches ≤ 2 ^ 63 →
      kDefaultNumBatches * maxBatch ≤ descRingSize maxBatch ∧
      ∀ pos, descIndexIn (descRingSize maxBatch) pos = pos % descRingSize maxBatch) ∧
    ∀ (kind : RingKind) (args : InitArgs),
      (Geometry.ofArgs kind args).ringSize = descRingSize args.maxBatch ∧
      ∀ pos, RingSubmitter.descIndex (Geometry.ofArgs kind args) pos =
        descIndexIn (descRingSize args.maxBatch) pos := by
  have hmask : ∀ maxBatch, maxBatch * kDefaultNumBatches ≤ 2 ^ 63 →
      ∀ pos, descIndexIn (descRingSize maxBatch) pos = pos % descRingSize maxBatch := by
    intro maxBatch h pos
    obtain ⟨k, hk⟩ := roundUpPow2_isPow h
    rw [descRingSize_eq h, hk]
    exact descIndexIn_two_pow k pos
  refine ⟨fun n _ hn => ⟨⟨roundUpPow2_isPow hn, le_roundUpPow2 hn⟩, ?_⟩, fun maxBatch h => ⟨?_, hmask _ h⟩,
    fun kind args => ⟨rfl, fun pos => ?_⟩⟩
  · rintro p ⟨⟨k, rfl⟩, hp⟩
    exact roundUpPow2_le hn hp
  · rw [descRingSize_eq h, Nat.mul_comm]
    exact le_roundUpPow2 h
  · rfl

theorem roundUpPow2_exact_three :
    IsLeast {p | (∃ k, p = 2 ^ k) ∧ 48 ≤ p} (roundUpPow2 48) ∧
      16 * 3 ≤ descRingSize 3 ∧ descIndexIn (descRingSize 3) 100 = 100 % descRingSize 3 :=
  have h := roundUpPow2_exact.2.1 3 (by decide)
  ⟨roundUpPow2_exact.1 48 (by decide) (by decide), h.1, h.2 100⟩

namespace RingSystem

open RingSubmitter

variable {D : Type*}

/-! ## Ring safety -/

structure RingSafe (g : Geometry) (s : RingSystem D) : Prop where
  /-- The batches between head and fill are exactly the ones in flight. -/
  inFlight_iff : ∀ i, i < kDefaultNumBatches → ((s.ring.batches i).state = .inFlight ↔
    ∃ b, s.ring.batchHead ≤ b ∧ b < s.ring.batchFill ∧ batchIndex b = i)
  lap : s.ring.batchHead ≤ s.ring.batchFill ∧ s.ring.batchFill ≤ s.ring.batchHead + kDefaultNumBatches
  used : s.ring.descTail = s.ring.descHead +
    ∑ b ∈ Finset.Ico s.ring.batchHead s.ring.batchFill, (s.ring.entry b).count + s.ring.staged
  room : s.ring.descTail ≤ s.ring.descHead + g.ringSize
  contiguous : ∀ b, s.ring.Live b →
    (s.ring.entry b).start + (s.ring.entry b).count ≤ g.ringSize ∧
      (s.ring.entry b).count ≤ g.maxBatch
  disjoint : ∀ b c j, s.ring.Live b → s.ring.Live c → b ≠ c → ¬ (s.ring.Holds b j ∧ s.ring.Holds c j)
  /-- `memcpy` goes to a slot of no sealed batch. -/
  target : s.ring.current.state ≠ .inFlight → ∀ b, s.ring.batchHead ≤ b → b < s.ring.batchFill →
    ¬ s.ring.Holds b (descIndex g s.ring.descTail)
  /-- No step changes a slot of a batch that the device has not answered. -/
  kept : ∀ a s', step g s a = some s' → ∀ b j, s.ring.batchHead ≤ b → b < s.ring.batchFill →
    (s.ring.entry b).status = 0 → s.ring.Holds b j → s'.ring.descRing j = s.ring.descRing j

theorem Tidy.ringSafe {g : Geometry} {s : RingSystem D} (hg : g.kind = .ring) (h : Tidy g s) :
    RingSafe g s := by
  obtain ⟨hsh, hse, hl⟩ := h
  have htarget : s.ring.current.state ≠ .inFlight → ∀ b, s.ring.batchHead ≤ b →
      b < s.ring.batchFill → ¬ s.ring.Holds b (descIndex g s.ring.descTail) :=
    fun hc b h1 h2 => hl.tail_not_held hsh hse hg hc ⟨h1, Or.inl h2⟩
  refine ⟨fun i hi => hsh.inFlight_iff hi, ⟨hsh.head_le, hsh.fill_le⟩, hl.tail, hl.tail_le hsh,
    fun b hb => ⟨(hl.placed b hb).fits hg, hsh.count_le hb⟩, ?_, htarget, ?_⟩
  · rintro b c j hb hc hne ⟨hbj, hcj⟩
    exact hne (hl.holds_unique hsh hg hb hc hbj hcj)
  · intro a s' hst b j h1 h2 _ hj
    rcases Formed.descRing ⟨hsh, hse⟩ (step_effect hst) with he | ⟨hc, d, he⟩
    · rw [he]
    · rw [he]
      refine Function.update_of_ne (fun hj' => ?_) _ _
      rw [cell_eq g (by rw [descIndex_eq]; exact Nat.mod_lt _ (ringSize_pos g))] at hj'
      exact htarget hc b h1 h2 (hj' ▸ hj)

/-- While `poll_fn_` does not call `submit_descriptor`, the rings of a `RingSubmitter` are safe in
every state. -/
theorem ringSubmitter_safe [Inhabited D] {args : InitArgs} {as : List (RingAction D)}
    {s : RingSystem D} (hn : (machine .ring args).Meets NoReentry (init args) as)
    (h : (machine .ring args).run as = some s) : RingSafe (Geometry.ofArgs .ring args) s :=
  (flat_of_run hn h).tidy.ringSafe rfl

def pairArgs : InitArgs where
  batchSize := 2
  mode := .dedicated
  wq := ⟨8, 2, by decide, by decide⟩
  accepted := Or.inl (by decide)

/-- A descriptor goes alone, fifteen batches of two follow, and another one alone in the last slot. The call
with 32 reaches the end of the ring and waits for an entry, which is answered and reclaimed. After that the
ring begins again: a batch of two is rung and one descriptor is staged. -/
def wrappingRun : List (RingAction Nat) :=
  [call 0, [.prePoll], (List.range' 1 31).flatMap call,
    [.submit 32, .advance, .advance, .advance, .complete 1 1], [.prePoll, .pollReturn, .advance], call 33,
    [.complete 2 1, .complete 3 1, .prePoll], call 34].flatten

theorem ringSubmitter_safe_wrapping : ∃ s, (machine .ring pairArgs).run wrappingRun = some s ∧
    s.ring.descHead = 7 ∧ s.ring.descTail = 35 ∧ s.ring.batchHead = 4 ∧ s.ring.batchFill = 18 ∧
    RingSafe (Geometry.ofArgs .ring pairArgs) s := by
  have h : ((machine .ring pairArgs).run wrappingRun).map (fun s =>
      (s.ring.descHead, s.ring.descTail, s.ring.batchHead, s.ring.batchFill)) = some (7, 35, 4, 18) := by
    decide +kernel
  have hn : (machine .ring pairArgs).Meets NoReentry (init pairArgs) wrappingRun := by decide +kernel
  obtain ⟨s, hs, he⟩ := Option.map_eq_some_iff.mp h
  simp only [Prod.mk.injEq] at he
  obtain ⟨hhead, htail, hbhead, hfill⟩ := he
  exact ⟨s, hs, hhead, htail, hbhead, hfill, ringSubmitter_safe hn hs⟩

/-! ## Nothing is lost -/

structure NothingLost (g : Geometry) (as : List (RingAction D)) (s : RingSystem D) : Prop where
  /-- It was stored, or its call still waits. -/
  submitted : (s.log ++ s.pending).Perm (as.filterMap RingAction.desc?)
  /-- A stored one was handed to the device in a doorbell or is in the batch that is being filled. -/
  rung : s.ring.direct.portal.flatMap Doorbell.descs ++
    (if s.ring.current.state = .filling then
      s.ring.listAt g s.ring.current.start s.ring.current.count else []) = s.log
  stored : s.log.length = s.ring.descTail
  /-- Until its batch is reclaimed it lies in the slots of exactly one batch. -/
  slots : ∀ p, s.ring.descHead ≤ p → p < s.ring.descTail →
    s.log[p]? = some (s.ring.descRing (descIndex g p)) ∧
      ∃! b, s.ring.Live b ∧ s.ring.Holds b (descIndex g p)

theorem Tidy.nothingLost [Inhabited D] {args : InitArgs} {as : List (RingAction D)}
    {s : RingSystem D} (h : Tidy (Geometry.ofArgs .ring args) s) (hr : Rung s.ring s.log)
    (hrun : (machine .ring args).run as = some s) :
    NothingLost (Geometry.ofArgs .ring args) as s := by
  obtain ⟨hsh, _, hl⟩ := h
  have hsound : (Geometry.ofArgs .ring args).Sound := fun hk => by cases hk
  refine ⟨submitted_perm hrun, ?_, hl.log_length, fun p h1 h2 => ⟨?_, ?_⟩⟩
  · rw [← hr.staged hsh hl]
    congr 1
    split
    · rename_i hf
      exact hl.listAt_eq hsh hsound ⟨hsh.head_le, Or.inr ⟨rfl, hf⟩⟩
    · rfl
  · rw [descIndex_eq]; exact hl.stored p h1 h2
  · obtain ⟨b, hb, hb1, hb2⟩ := hl.exists_live hsh h1 h2
    have hbp : s.ring.Holds b (descIndex (Geometry.ofArgs .ring args) p) :=
      (hl.holds_iff rfl hb).mpr ⟨p, hb1, hb2, (descIndex_eq _ p).symm⟩
    exact ⟨b, ⟨hb, hbp⟩, fun c hc => hl.holds_unique hsh rfl hc.1 hb hc.2 hbp⟩

/-- Where no nested call disturbs a wait at the end of the ring, no descriptor is lost, and once a
`drain` has begun all of them are in the doorbells. -/
theorem ringSubmitter_loses_nothing [Inhabited D] {args : InitArgs} {as : List (RingAction D)}
    {s : RingSystem D} (hc : (machine .ring args).Meets (Clean (Geometry.ofArgs .ring args))
      (init args) as) (h : (machine .ring args).run as = some s) :
    NothingLost (Geometry.ofArgs .ring args) as s ∧
      ∀ ws t, ws.filterMap RingAction.desc? = [] →
        (machine .ring args).runFrom s (.drain :: ws) = some t →
        (t.ring.direct.portal.flatMap Doorbell.descs).Perm (as.filterMap RingAction.desc?) := by
  have hsound : (Geometry.ofArgs .ring args).Sound := fun hk => by cases hk
  have ht := tidy_of_run hc h
  have hr := rung_of_run hsound hc h
  refine ⟨ht.nothingLost hr h, fun ws t hws hrun => ?_⟩
  obtain ⟨s', hst, hrest⟩ := Machine.runFrom_cons hrun
  have hquiet : Quiet (Geometry.ofArgs .ring args) t := by
    refine Machine.runFrom_invariant (C := fun _ a => a.desc? = none)
      (fun _ _ _ hs ha hst => hs.effect hsound ha (step_effect hst)) (ht.drain hsound hr hst) ?_ hrest
    exact Machine.meets_of_forall fun a ha => List.filterMap_eq_nil_iff.mp hws a ha
  have hperm := submitted_perm (Machine.runFrom_append h hrun)
  rw [hquiet.pending, List.append_nil, ← hquiet.all_rung] at hperm
  simpa [machine, init, pending, RingAction.desc?, List.filterMap_cons, hws] using hperm

/-- The call with 38 waits for an entry. Its `poll_fn_` runs a callback that calls `submit_descriptor` with
39, which goes into the batch first. -/
def reentrantRun : List (RingAction Nat) :=
  [wrappingRun, call 35, call 36, call 37, [.submit 38, .advance, .advance, .complete 4 1],
    [.submit 39, .advance, .advance, .pollReturn, .advance], [.pollReturn, .advance]].flatten

def reentrantDrain : List (RingAction Nat) :=
  (List.range' 5 11 ++ List.range' 1 4).map (.complete · 1) ++ List.replicate 18 .advance

theorem ringSubmitter_loses_nothing_reentrant : ∃ s t, (machine .ring pairArgs).run reentrantRun = some s ∧
    ¬ (machine .ring pairArgs).Meets NoReentry (init pairArgs) reentrantRun ∧
    NothingLost (Geometry.ofArgs .ring pairArgs) reentrantRun s ∧
    (machine .ring pairArgs).runFrom s (.drain :: reentrantDrain) = some t ∧ t.stack = [] ∧
    (t.ring.direct.portal.flatMap Doorbell.descs).Perm (List.range 40) := by
  have h : ((machine .ring pairArgs).run reentrantRun).any (fun s =>
      ((machine .ring pairArgs).runFrom s (.drain :: reentrantDrain)).any fun t => t.stack.isEmpty) = true := by
    decide +kernel
  have hc : (machine .ring pairArgs).Meets (Clean (Geometry.ofArgs .ring pairArgs)) (init pairArgs)
      reentrantRun := by decide +kernel
  obtain ⟨s, hs, h⟩ := (Option.any_eq_true _ _).mp h
  obtain ⟨t, ht, hend⟩ := (Option.any_eq_true _ _).mp h
  obtain ⟨hlost, hdrain⟩ := ringSubmitter_loses_nothing hc hs
  have hsubmitted : (reentrantRun.filterMap RingAction.desc?).Perm (List.range 40) := by decide +kernel
  exact ⟨s, t, hs, by decide +kernel, hlost, ht, List.isEmpty_iff.mp hend,
    (hdrain reentrantDrain t (by decide +kernel) ht).trans hsubmitted⟩

/-- Fifteen batches are in flight and one descriptor is staged when the tail reaches the end of the
ring. The call with 32 waits there; the nested call with 33 starts the next batch, which the waiting
call then resets. -/
def lossyRun : List (RingAction Nat) :=
  [(List.range 10).flatMap call, (List.range 5).map (.complete · 1), [.prePoll],
    (List.range' 10 12).flatMap call, (List.range' 22 9).flatMap fun d => call d ++ [.prePoll],
    call 31, [.submit 32, .advance, .advance, .advance, .complete 5 1],
    [.submit 33, .advance, .advance, .pollReturn, .advance], [.pollReturn, .advance]].flatten

def lossyDrain : List (RingAction Nat) :=
  (List.range' 6 5).map (.complete · 1) ++ List.replicate 18 .advance

theorem ringSubmitter_loses_one : ∃ s,
    (machine .ring pairArgs).run (lossyRun ++ .drain :: lossyDrain) = some s ∧ s.stack = [] ∧
      32 ∈ lossyRun.filterMap RingAction.desc? ∧
      32 ∉ s.ring.direct.portal.flatMap Doorbell.descs := by
  have h : ((machine .ring pairArgs).run (lossyRun ++ .drain :: lossyDrain)).map (fun s =>
      (s.stack.isEmpty, s.ring.direct.portal.flatMap Doorbell.descs)) =
      some (true, List.range 32 ++ [33]) := by decide +kernel
  obtain ⟨s, hs, he⟩ := Option.map_eq_some_iff.mp h
  obtain ⟨hst, hp⟩ := Prod.mk.inj he
  refine ⟨s, hs, List.isEmpty_iff.mp hst, by decide +kernel, ?_⟩
  rw [hp]; decide

/-! ## The mirrored ring -/

abbrev DescBytes := Fin 64 → UInt8

def memoryByte (r : RingSubmitter DescBytes) (y : Nat) : UInt8 :=
  r.descRing (y / 64) ⟨y % 64, Nat.mod_lt _ (by decide)⟩

/-- What the device reads at `base + x`: the two mappings alias with the period `region_size_`. -/
def readByte (g : Geometry) (r : RingSubmitter DescBytes) (x : Nat) : UInt8 :=
  memoryByte r (x % g.regionSize)

/-- Until a batch is answered, the device finds at `desc_list_addr + 64 * k` the bytes of the
descriptor that was stored in it as number `k`. -/
def Delivers (g : Geometry) (s : RingSystem DescBytes) : Prop :=
  ∀ i, i < kDefaultNumBatches → (s.ring.batches i).state = .inFlight →
    (s.ring.batches i).status = 0 →
    (s.ring.batches i).taken.length = (s.ring.batches i).count ∧
    ∀ k d, (s.ring.batches i).taken[k]? = some d → ∀ j : Fin 64,
      readByte g s.ring (64 * (s.ring.batches i).start + 64 * k + j) = d j

theorem readByte_eq {g : Geometry} (hg : g.kind = .mirrored) (hr : 64 ∣ g.regionSize)
    (r : RingSubmitter DescBytes) (i : Nat) (j : Fin 64) :
    readByte g r (64 * i + j) = r.descRing (g.cell i) j := by
  obtain ⟨m, hm⟩ := hr
  have hj := j.isLt
  have hslot : (64 * i + j) % g.regionSize / 64 = g.cell i := by
    rw [Geometry.cell, hg, hm, Nat.mod_mul_right_div_self, Nat.mul_div_cancel_left m (by decide)]
    simp only
    congr 1
    omega
  have hbyte : (64 * i + j) % g.regionSize % 64 = j := by
    rw [hm, Nat.mod_mul_right_mod]; omega
  rw [readByte, memoryByte, hslot]
  exact congrArg _ (Fin.ext hbyte)

theorem sound_of_maxBatch {args : InitArgs} (h : args.maxBatch ≠ 2) :
    (Geometry.ofArgs .mirrored args).Sound := by
  intro _
  have hpos := args.maxBatch_pos
  rcases Nat.lt_or_ge 2 args.maxBatch with hlt | hge
  · exact Or.inr (Geometry.region_of_maxBatch hlt)
  · exact Or.inl (show args.maxBatch = 1 by omega)

theorem Open.delivers {args : InitArgs} {s : RingSystem DescBytes}
    (hg : (Geometry.ofArgs .mirrored args).Sound) (h : Open (Geometry.ofArgs .mirrored args) s) :
    Delivers (Geometry.ofArgs .mirrored args) s := by
  intro i hi hin _
  obtain ⟨hsh, _, hl⟩ := h.tidy
  obtain ⟨b, hb, he⟩ := hsh.live_of_inFlight hi hin
  rw [← he]
  have hlen := hl.taken_length hb
  refine ⟨hlen, fun k d hk j => ?_⟩
  have hlt : k < (s.ring.entry b).count := hlen ▸ (List.getElem?_eq_some_iff.mp hk).1
  have hread := hl.read hsh hg hb hlt
  rw [← hl.taken_getElem? hb hlt, hk, Option.some.injEq] at hread
  have hdvd : 64 ∣ (Geometry.ofArgs .mirrored args).regionSize := by rw [Geometry.regionSize_eq]; omega
  rw [← Nat.mul_add, readByte_eq rfl hdvd, hread]

/-- The sizes depend on `max_batch_size_` alone. For batches of two the ring has 32 slots, and a page 64. -/
theorem ofArgs_pair {args : InitArgs} (h : args.maxBatch = 2) :
    Geometry.ofArgs .mirrored args = Geometry.ofArgs .mirrored pairArgs := by
  have hsize : args.ringSize = pairArgs.ringSize := congrArg descRingSize h
  exact Geometry.ext rfl h hsize (congrArg (fun size => pageAlignUp (size * 64 % 2 ^ 64)) hsize)

/-- One descriptor goes alone, so that the seventeenth batch has the slots 31 and 0. -/
def straddlingRun : List (RingAction DescBytes) :=
  call (fun _ => 1) ++ [.prePoll] ++ (List.replicate 32 fun _ => 1).flatMap call

/-- The device looks for the second descriptor of that batch in slot 32, which is never written. -/
theorem straddlingRun_reads (i : RingSystem DescBytes) (direct : DirectSubmitter DescBytes) :
    (Machine.runFrom ⟨i, step (Geometry.ofArgs .mirrored pairArgs)⟩
      ⟨{ RingSubmitter.init pairArgs with direct := direct }, [], []⟩ straddlingRun).map
      (fun s => ((s.ring.batches 0).state, (s.ring.batches 0).status,
        (s.ring.batches 0).taken[1]?.map (· 0),
        readByte (Geometry.ofArgs .mirrored pairArgs) s.ring (64 * (s.ring.batches 0).start + 64 * 1 + 0))) =
      some (.inFlight, 0, some 1, 0) := by
  -- the equation by which `cbv` unfolds `≤` is the one of the module imported from Mathlib
  cbv

theorem not_delivers_of_pair {args : InitArgs} (h : args.maxBatch = 2) :
    ∃ s, (machine .mirrored args).run straddlingRun = some s ∧
      ¬ Delivers (Geometry.ofArgs .mirrored args) s := by
  obtain ⟨s, hs, he⟩ := Option.map_eq_some_iff.mp (straddlingRun_reads (init args)
    (DirectSubmitter.init args.mode (some args.wq)))
  simp only [Prod.mk.injEq] at he
  obtain ⟨hin, hz, htaken, hread⟩ := he
  have hm : (machine .mirrored args : Machine (RingSystem DescBytes) _) =
      ⟨init args, step (Geometry.ofArgs .mirrored pairArgs)⟩ := by rw [machine, ofArgs_pair h]
  refine ⟨s, by rw [hm]; exact hs, fun hd => ?_⟩
  obtain ⟨d, hd1, hd0⟩ := Option.map_eq_some_iff.mp htaken
  have := (hd 0 (by decide) hin hz).2 1 d hd1 0
  rw [ofArgs_pair h, hd0] at this
  rw [show ((0 : Fin 64) : Nat) = 0 from rfl, hread] at this
  cases this

/-- The mirrored ring delivers what was submitted exactly when `max_batch_size_` is not 2. -/
theorem mirroredRingSubmitter_delivers_iff (args : InitArgs) :
    (∀ as s, (machine .mirrored args).run as = some s →
      Delivers (Geometry.ofArgs .mirrored args) s) ↔ args.maxBatch ≠ 2 := by
  constructor
  · intro hall h2
    obtain ⟨s, hs, hno⟩ := not_delivers_of_pair h2
    exact hno (hall _ s hs)
  · exact fun hne as s hs => (open_of_run hs).delivers (sound_of_maxBatch hne)

theorem mirroredRingSubmitter_misreads :
    ∃ s, (machine .mirrored pairArgs).run straddlingRun = some s ∧
      ¬ Delivers (Geometry.ofArgs .mirrored pairArgs) s :=
  not_delivers_of_pair (by decide)

/-! ## The accounting -/

/-- `inflight()` of a ring submitter is right throughout a run exactly when no step of the run
reclaims a single batch from in front of a multi-descriptor one that it leaves in flight. -/
theorem inflight_throughout_iff [Inhabited D] {k : RingKind} {args : InitArgs}
    {as : List (RingAction D)} {s : RingSystem D} (h : (machine k args).run as = some s) :
    (machine k args).Throughout (fun s => Counted s.ring) (init args) as ↔
      (machine k args).Meets (EvenStep (Geometry.ofArgs k args)) (init args) as :=
  Machine.throughout_iff_meets (fun _ _ _ hs _ hst => Formed.step hs hst)
    (fun _ _ _ hs hc hst => counted_step hs hc hst) (formed_init args) (counted_init args) h

/-- A multi-descriptor batch and a single one are reclaimed together; another multi-descriptor one stays. -/
def evenRun : List (RingAction Nat) :=
  [call 0, call 1, call 2, [.prePoll, .complete 0 1, .prePoll], call 3, call 4].flatten

theorem inflight_throughout_iff_even : ∃ s, (machine .ring pairArgs).run evenRun = some s ∧
    s.ring.batchHead = 2 ∧ s.ring.direct.inflight = 1 ∧ s.ring.pendingBatches = 1 ∧
    (machine .ring pairArgs).Throughout (fun s => Counted s.ring) (init pairArgs) evenRun ∧
    (machine .ring pairArgs).Meets (EvenStep (Geometry.ofArgs .ring pairArgs)) (init pairArgs) evenRun := by
  have h : ((machine .ring pairArgs).run evenRun).map (fun s =>
      (s.ring.batchHead, s.ring.direct.inflight, s.ring.pendingBatches)) = some (2, 1, 1) := by decide +kernel
  have hcounted : (machine .ring pairArgs).Throughout (fun s => Counted s.ring) (init pairArgs) evenRun := by
    decide +kernel
  obtain ⟨s, hs, he⟩ := Option.map_eq_some_iff.mp h
  simp only [Prod.mk.injEq] at he
  obtain ⟨hhead, hinflight, hpending⟩ := he
  exact ⟨s, hs, hhead, hinflight, hpending, hcounted, (inflight_throughout_iff hs).mp hcounted⟩

/-- A multi-descriptor batch, a single one and another multi-descriptor one; only the first is
answered. -/
def unevenRun : List (RingAction Nat) :=
  [call 0, call 1, call 2, [.prePoll], call 3, call 4, [.complete 0 1, .prePoll]].flatten

theorem inflight_too_low :
    (∃ s, (machine .ring pairArgs).run unevenRun = some s ∧
      s.ring.direct.inflight = 0 ∧ s.ring.pendingBatches = 1) ∧
    ∃ s, (machine .mirrored pairArgs).run unevenRun = some s ∧
      s.ring.direct.inflight = 0 ∧ s.ring.pendingBatches = 1 := by
  have h : ∀ k, ((machine k pairArgs).run unevenRun).map (fun s =>
      (s.ring.direct.inflight, s.ring.pendingBatches)) = some (0, 1) := by
    intro k; cases k <;> decide +kernel
  refine ⟨?_, ?_⟩
  · obtain ⟨s, hs, he⟩ := Option.map_eq_some_iff.mp (h .ring)
    exact ⟨s, hs, Prod.mk.inj he⟩
  · obtain ⟨s, hs, he⟩ := Option.map_eq_some_iff.mp (h .mirrored)
    exact ⟨s, hs, Prod.mk.inj he⟩

end RingSystem

/-! ## `StagingSubmitter` -/

namespace StagingSystem

open StagingSubmitter

variable {D : Type*}

/-- The count is that of the buffers in use, so a WQ deeper than two never closes the gate. -/
def Bounded (s : StagingSubmitter D) : Prop :=
  s.direct.inflight = s.submittedCount ∧ s.direct.inflight ≤ 2 ∧
    (2 < s.direct.wqCapacity → s.gateClosed = false)

theorem bounded_iff {s : StagingSubmitter D} : Bounded s ↔ Counted s := by
  refine ⟨fun h => h.1, fun h => ?_⟩
  have hle : s.direct.inflight ≤ 2 := h ▸ s.submittedCount_le
  refine ⟨h, hle, fun hcap => ?_⟩
  simp only [gateClosed, Bool.and_eq_false_imp, decide_eq_true_eq, decide_eq_false_iff_not]
  omega

/-- The count of a `StagingSubmitter` is right throughout a run exactly when no flush of the run
finds a single descriptor. -/
theorem stagingSubmitter_bounded_iff [Inhabited D] {args : InitArgs} {as : List (StagingAction D)}
    {s : StagingSystem D} (h : (machine args).run as = some s) :
    (machine args).Throughout (fun s => Bounded s.sub) (init args) as ↔
      (machine args).Meets NoSingle (init args) as := by
  simp only [bounded_iff]
  exact Machine.throughout_iff_meets (fun _ _ _ hs _ hst => swapped_step hs hst)
    (fun _ _ _ hs hc hst => counted_step hs hc hst) (swapped_init args) (counted_init args) h

def threeArgs : InitArgs where
  batchSize := 0
  mode := .dedicated
  wq := ⟨3, 32, by decide, by decide⟩
  accepted := Or.inl (by decide)

def singlesRun : List (StagingAction Nat) :=
  [.submit 0, .flush, .advance, .submit 1, .flush, .advance, .submit 2, .flush, .advance]

theorem stagingSubmitter_bounded_iff_singles :
    (machine threeArgs).Throughout (fun s => Bounded s.sub) (init threeArgs) singlesRun ↔
      (machine threeArgs).Meets NoSingle (init threeArgs) singlesRun :=
  stagingSubmitter_bounded_iff (s := _) rfl

/-- After as many single descriptors as the WQ is deep the gate stays closed, although the device
has nothing to answer. -/
theorem stagingSubmitter_gate_closes : ∃ s, (machine threeArgs).run singlesRun = some s ∧
    s.sub.submittedCount = 0 ∧ s.sub.direct.inflight = 3 ∧ s.sub.direct.wqCapacity = 3 ∧
    ∀ bs t, bs.filterMap StagingAction.desc? = [] → (machine threeArgs).runFrom s bs = some t →
      t.sub.gateClosed = true := by
  refine ⟨_, rfl, rfl, rfl, rfl, fun bs t hbs ht => ?_⟩
  rw [Idle.run ⟨rfl, rfl, fun b => by cases b <;> rfl⟩ hbs ht]
  rfl

end StagingSystem

/-! ## `FixedRingSubmitter` -/

namespace FixedSystem

open FixedRingSubmitter
open RingSubmitter (batchIndex)

variable {D : Type*}

structure FixedSafe (n : Nat) (s : FixedSystem D) : Prop where
  filling : ∀ i, (s.ring.batches i).state = .filling →
    i = batchIndex s.ring.batchFill ∧ (s.ring.batches i).count < n
  inflight : s.ring.direct.inflight = s.ring.inFlightCount
  /-- The most recent position of an entry in flight is not behind `batch_head_`. -/
  recent : ∀ i, (s.ring.batches i).state = .inFlight → ∃ p, batchIndex p = i ∧
    p < s.ring.batchFill ∧ s.ring.batchFill ≤ p + kDefaultNumBatches ∧ s.ring.batchHead ≤ p
  /-- No step changes a descriptor of a batch that the device has not answered. -/
  kept : ∀ a s', step n s a = some s' → ∀ i, (s.ring.batches i).state = .inFlight →
    (s.ring.batches i).status = 0 → (s'.ring.batches i).descs = (s.ring.batches i).descs
  /-- A wait ends with the next `reclaim_completed` once the device has answered everything. -/
  freed : ∀ i, WaitsFor s i → (∀ j, j < kDefaultNumBatches → (s.ring.batches j).state = .inFlight →
    (s.ring.batches j).status ≠ 0) → (s.ring.reclaimCompleted.batches i).state = .free

theorem fixedRingSubmitter_safe [Inhabited D] {args : InitArgs} {as : List (FixedAction D)}
    {s : FixedSystem D} (h : (machine args).run as = some s) : FixedSafe args.maxBatch s := by
  have hf := formed_of_run h
  refine ⟨fun i hi => ?_, hf.shape.inflight, fun i hi => ?_, ?_, ?_⟩
  · obtain rfl := hf.shape.filling i hi
    exact ⟨rfl, (hf.settled hi).2⟩
  · obtain ⟨p, hp, h1, h2, h3⟩ := hf.shape.recent i hi
    exact ⟨p, hp, h2, h3, h1⟩
  · exact fun a s' hst i hin _ => hf.descs (step_effect hst) hin
  · exact fun i hw hdone => hf.shape.reclaim_frees (hf.waits_not_filling hw) hdone i

theorem fixedRingSubmitter_safe_pair :
    ∃ s, (machine RingSystem.pairArgs).run
        [.submit 0, .advance, .submit 1, .advance, .complete 0 1] = some s ∧
      FixedSafe RingSystem.pairArgs.maxBatch s := by
  obtain ⟨s, hs⟩ : ∃ s, (machine RingSystem.pairArgs).run
      [.submit 0, .advance, .submit 1, .advance, .complete 0 1] = some s := ⟨_, rfl⟩
  exact ⟨s, hs, fixedRingSubmitter_safe hs⟩

end FixedSystem

end DsaStdexec.Submitter

import DsaStdexec.Bench.Lemmas.Crc
import DsaStdexec.Bench.Lemmas.CrossThreadWake
import DsaStdexec.Bench.Lemmas.InlineArena
import DsaStdexec.Bench.Lemmas.SlidingWindow
import DsaStdexec.Bench.Lemmas.ThreadedArena

/-!
# Benchmark strategies and harnesses
-/

namespace DsaStdexec.Bench

open DsaStdexec.Lib

namespace CrossThreadWake

/-- In every run in which no poll stores its waker after the worker has taken the waker, the last
poll that has returned `Pending` is woken by the time the command is processed. -/
theorem wake_not_lost (as : List WakeAction) (s : CrossThreadWake) (hs : machine.run as = some s)
    (hC : machine.Meets StoresBeforeTake machine.init as) :
    s.NoLostWake := by
  have hinv : s.Registered ∧ s.SentOnce := by
    refine Machine.runFrom_invariant (I := fun s => s.Registered ∧ s.SentOnce) ?_ ?_ hC hs
    · intro s a s' hs hC h
      exact ⟨registered_step hs.1 h hC, sentOnce_step hs.2 h⟩
    · exact ⟨registered_new, sentOnce_new⟩
  exact hinv.1.noLostWake hinv.2

/-- The future is polled again. The second poll finds `ready` not set and stores its waker after the worker
has set it, but before the worker takes the waker. -/
def timelyStore : List WakeAction :=
  [.load, .storeWaker, .sendWake, .returnPending, .receive, .load, .storeReady, .storeWaker, .takeWaker,
    .sendWake, .wakeWaker, .returnPending]

theorem wake_not_lost_second : ∃ s, machine.run timelyStore = some s ∧ s.processed = true ∧
    s.poll = .pending 1 ∧ 1 ∈ s.woken := by
  have h : (machine.run timelyStore).map (fun s => (s.processed, s.poll)) =
      some (true, .pending 1) := by decide +kernel
  obtain ⟨s, hs, hr⟩ := Option.map_eq_some_iff.mp h
  simp only [Prod.mk.injEq] at hr
  have hC : machine.Meets StoresBeforeTake machine.init timelyStore := by decide +kernel
  exact ⟨s, hs, hr.1, hr.2, wake_not_lost timelyStore s hs hC hr.1 1 hr.2⟩

/-- The future is polled again while the worker runs. The second poll finds `ready` not set, and stores
its waker when the worker has taken that of the first one. -/
def lateStore : List WakeAction :=
  [.load, .storeWaker, .sendWake, .returnPending, .receive, .load, .storeReady, .takeWaker, .wakeWaker,
    .storeWaker, .sendWake, .returnPending]

theorem second_poll_not_woken : ∃ s, machine.run lateStore = some s ∧ ¬ s.NoLostWake := by
  have h : (machine.run lateStore).map (fun s => (s.processed, s.poll, s.woken)) =
      some (true, .pending 1, [0]) := by decide +kernel
  obtain ⟨s, hs, hr⟩ := Option.map_eq_some_iff.mp h
  simp only [Prod.mk.injEq] at hr
  refine ⟨s, hs, fun hwake => ?_⟩
  have := hwake hr.1 1 hr.2.1
  rw [hr.2.2] at this
  cases this with
  | tail _ h => cases h

end CrossThreadWake

/-! ## The inline strategies -/

namespace InlineArena

/-- A strategy whose every run is sound. It returns when all operations were signalled, without waiting
for anything else, and it is never stuck before. -/
structure RunsEachOnce {S : Type} (K : SlotType S) (concurrency : Nat) (numOps : UInt64) : Prop where
  sound : ∀ as s, (machine K concurrency numOps).run as = some s → Sound concurrency numOps s
  returns : ∀ as s, (machine K concurrency numOps).run as = some s → s.signalled.length = numOps.toNat →
    ∃ n ≤ 5, ∃ t, (machine K concurrency numOps).runFrom s (List.replicate n .advance) = some t ∧
      t.stage = .returned
  progress : ∀ as s, (machine K concurrency numOps).run as = some s →
    (machine K concurrency numOps).CanReach (fun t => t.stage = .returned) s

theorem runsEachOnce {S : Type} (K : SlotType S) {concurrency : Nat} (hc : 1 ≤ concurrency)
    (numOps : UInt64) : RunsEachOnce K concurrency numOps where
  sound as s hs := by
    obtain ⟨free, h⟩ := inv_of_run hs
    exact h.sound
  returns as s hs hall := by
    obtain ⟨free, h⟩ := inv_of_run hs
    exact returns_of_signalled h hall
  progress as s hs := canReturn hc (inv_of_run hs)

/-- The direct and the reusable strategy run every operation once, for every order in which the engine
signals the operations inside its calls. -/
theorem inline_strategies_run_once (concurrency : Nat) (hc : 1 ≤ concurrency) (numOps : UInt64) :
    RunsEachOnce OperationSlot.slotType concurrency numOps ∧
      RunsEachOnce ReusableSlot.slotType concurrency numOps :=
  ⟨runsEachOnce _ hc numOps, runsEachOnce _ hc numOps⟩

/-- The first operation is signalled inside its own start, the second one inside the start of the third,
the third one while the strategy drains. -/
def mixedRun : List InlineAction :=
  [.advance, .advance, .signal 0 1, .advance, .advance, .advance, .advance, .signal 1 1, .advance,
    .advance, .advance, .advance, .advance, .signal 2 0, .advance, .advance]

theorem inline_strategies_run_once_mixed :
    ∃ s, (machine OperationSlot.slotType 2 3).run mixedRun = some s ∧ s.stage = .returned ∧
      s.signalled = [0, 1, 2] ∧ Sound 2 3 s := by
  have h : ((machine OperationSlot.slotType 2 3).run mixedRun).map (fun s => (s.stage, s.signalled)) =
      some (.returned, [0, 1, 2]) := by decide +kernel
  obtain ⟨s, hs, heq⟩ := Option.map_eq_some_iff.mp h
  simp only [Prod.mk.injEq] at heq
  exact ⟨s, hs, heq.1, heq.2, (inline_strategies_run_once 2 (by decide) 3).1.sound mixedRun s hs⟩

end InlineArena

/-! ## The arena between two threads -/

namespace ThreadedArena

/-- Along every run the slots are accounted for exactly as long as no thread writes `free_head` after
the other one has changed it. -/
theorem slots_accounted (concurrency numOps : Nat) (hc : 1 ≤ concurrency) (as : List ArenaAction)
    (s : ThreadedArena) (hs : (machine numOps concurrency).run as = some s) :
    (machine numOps concurrency).Throughout (Accounted concurrency)
        (machine numOps concurrency).init as ↔
      (machine numOps concurrency).Meets WritesUnchanged (machine numOps concurrency).init as := by
  refine Machine.throughout_iff_meets (I := fun s => ∃ free, Inv concurrency s free)
    (fun _ _ _ hinv hC hst => inv_step hinv hC hst) ?_ ⟨_, inv_new⟩ (inv_new.accounted hc) hs
  intro s a s' hinv _ hst
  constructor
  · obtain ⟨free, hinv⟩ := hinv
    exact unchanged_of_accounted hinv hst
  · intro hC
    obtain ⟨free', hinv'⟩ := inv_step hinv hC hst
    exact hinv'.accounted hc

/-- While the poller thread releases the slot of the first operation, the submitting thread reads
`free_head` and `next_free` of the other slot. -/
def overlappingRun : List ArenaAction :=
  List.replicate 7 .submit ++ [.signal 0 1, .submit, .release, .submit, .release, .release, .submit,
    .submit, .submit, .submit]

theorem slots_accounted_overlapping :
    ((machine 2 2).run overlappingRun).isSome = true ∧
      (machine 2 2).Throughout (Accounted 2) (machine 2 2).init overlappingRun := by
  have h : ((machine 2 2).run overlappingRun).isSome = true := by decide +kernel
  obtain ⟨s, hs⟩ := Option.isSome_iff_exists.mp h
  exact ⟨h, (slots_accounted 2 2 (by decide) overlappingRun s hs).mpr (by decide +kernel)⟩

/-- The submitting thread is about to take slot 0 off the list when slot 1 is put in front of it. -/
def droppingRun : List ArenaAction :=
  List.replicate 11 .submit ++ [.signal 0 1, .release, .release, .release, .submit]

theorem slot_dropped : ∃ s, (machine 2 2).run droppingRun = some s ∧ ¬ Accounted 2 s := by
  have h : ((machine 2 2).run droppingRun).map (fun s => (s.arena.freeHead, s.away)) =
      some (none, [0]) := by decide +kernel
  obtain ⟨s, hs, heq⟩ := Option.map_eq_some_iff.mp h
  simp only [Prod.mk.injEq] at heq
  refine ⟨s, hs, fun hacc => ?_⟩
  obtain ⟨free, hfree, hslots⟩ := hacc.slots
  rw [hfree.eq_nil_iff.mpr heq.1, heq.2] at hslots
  simpa using hslots.length_eq

end ThreadedArena

/-! ## The sliding window -/

namespace SlidingWindow

/-- A window whose every run is sound. Before its end a run can always move on, and it ends after a
number of moves that only the page faults add to. -/
structure Exact (acc : Accelerator) (concurrency iterations : Nat) : Prop where
  sound : ∀ as s, (machine acc concurrency iterations).run as = some s → Sound concurrency iterations s
  moves : ∀ as s, (machine acc concurrency iterations).run as = some s → s.stage ≠ .returned →
    ∃ a s', step acc concurrency iterations s a = some s' ∧ s.Moves a
  ends : ∀ as s, (machine acc concurrency iterations).run as = some s →
    (machine acc concurrency iterations).Meets Moves (machine acc concurrency iterations).init as →
    as.length ≤ 2 * iterations + 2 * min concurrency iterations + 2 * concurrency + 3 +
      2 * as.countP (isFault acc)

theorem exact_of_le {acc : Accelerator} {concurrency iterations : Nat}
    (hle : concurrency ≤ iterations) (hcn : concurrency = 0 → iterations = 0) :
    Exact acc concurrency iterations where
  sound as s hs := (inv_of_run hcn hs).sound hle hcn
  moves as s hs hst := by
    obtain ⟨a, s', hs', hm, -⟩ := exists_move hcn (inv_of_run hcn hs) hst
    exact ⟨a, s', hs', hm⟩
  ends as s hs hm := by
    have hlength := Machine.length_le_of_potential (M := machine acc concurrency iterations)
      (potential concurrency iterations) (fun _ _ _ h _ hst => inv_step hcn h hst)
      (fun _ _ _ h hm hst => potential_step h hm hst) inv_new hm hs
    rw [sum_faultCost] at hlength
    simp only [potential, new, WindowSlots.new, stageWeight, List.length_nil, window] at hlength
    omega

/-- With more records than issues the drain gives up on a record. -/
theorem not_exact_of_lt {acc : Accelerator} {concurrency iterations : Nat}
    (hlt : iterations < concurrency) : ¬ Exact acc concurrency iterations := by
  intro hexact
  have hcn : concurrency = 0 → iterations = 0 := by omega
  have hinit : Inv acc concurrency iterations new := inv_new
  obtain ⟨as, t, hrun, hst⟩ := canReturn hcn hinit
  have hplace := (inv_of_run hcn hrun).place
  simp only [Place, hst] at hplace
  have hmem := hplace.2 iterations (Nat.min_le_right _ _) hlt
  rw [(hexact.sound as t hrun).inTime] at hmem
  cases hmem

/-- Without records the first poll is out of bounds. -/
theorem not_exact_of_zero {acc : Accelerator} {iterations : Nat} (hpos : 0 < iterations) :
    ¬ Exact acc 0 iterations := by
  intro hexact
  have hrun : ∃ t, (machine acc 0 iterations).run [.advance, .advance] = some t ∧ t.stage = .panicked := by
    simp [Machine.run, Machine.runFrom, machine, step, advance, new, window, loop, hpos]
  obtain ⟨t, hrun, hst⟩ := hrun
  exact (hexact.sound _ t hrun).runs hst

/-- The window of every accelerator is exact if and only if there are no more records than issues, and
at least one record if there is an issue. -/
theorem sliding_window_exact (acc : Accelerator) (concurrency iterations : Nat) :
    Exact acc concurrency iterations ↔
      concurrency ≤ iterations ∧ (concurrency = 0 → iterations = 0) := by
  constructor
  · intro hexact
    refine ⟨?_, ?_⟩
    · by_contra hlt
      exact not_exact_of_lt (by omega) hexact
    · rintro rfl
      by_contra hne
      exact not_exact_of_zero (by omega) hexact
  · rintro ⟨hle, hcn⟩
    exact exact_of_le hle hcn

/-- Two records and one issue: the drain polls the second record, and gives up on it. -/
def unsubmittedRun : List WindowAction :=
  [.advance, .advance, .complete 0 0 1, .advance, .advance, .advance, .giveUp, .advance]

theorem drain_polls_unsubmitted : ∃ s, (machine .dsa 2 1).run unsubmittedRun = some s ∧
    s.stage = .returned ∧ 1 ∉ s.slots.submitted ∧ 1 ∈ s.gaveUp ∧ ¬ Exact .dsa 2 1 := by
  have h : ((machine .dsa 2 1).run unsubmittedRun).map (fun s => (s.stage, s.slots.submitted, s.gaveUp)) =
      some (.returned, [0], [1]) := by decide +kernel
  obtain ⟨s, hs, heq⟩ := Option.map_eq_some_iff.mp h
  simp only [Prod.mk.injEq] at heq
  obtain ⟨hst, hsub, hgave⟩ := heq
  refine ⟨s, hs, hst, by simp [hsub], by simp [hgave], fun hexact => ?_⟩
  have hnil := (hexact.sound _ s hs).inTime
  rw [hgave] at hnil
  cases hnil

end SlidingWindow

/-! ## The CRC of the IAX benchmark -/

namespace Crc

open Polynomial DsaStdexec.Lib.Crc

/-- For every slice, `crc16_t10dif` is the remainder of the message, read most significant bit first
and moved up by 16 places, modulo the T10-DIF generator. So a message followed by the two bytes of its
CRC has CRC 0. -/
theorem crc16T10dif_remainder (data : List UInt8) :
    toPoly (crc16T10dif data).toBitVec = (ofBits (messageBits data) * X ^ 16) %ₘ t10dif ∧
      crc16T10dif (data ++ crcBytes (crc16T10dif data)) = 0 :=
  ⟨toPoly_crc16T10dif data, crc16T10dif_append_crcBytes data⟩

/-- The slice `b"123456789"`. -/
example : crc16T10dif [0x31, 0x32, 0x33, 0x34, 0x35, 0x36, 0x37, 0x38, 0x39] = 0xD0DB := by
  decide +kernel

end Crc

end DsaStdexec.Bench

import DsaStdexec.Bench.Lemmas.Strategies
import DsaStdexec.Bench.Lemmas.Workers
import Mathlib.Tactic.IntervalCases

/-! # The strategies of the `dsa` benchmark, whenever the operations complete -/

namespace DsaStdexec.Bench

open DsaStdexec.Lib

/-- The operations of a strategy stay inside of the buffers. -/
theorem offset_bound {msgSize totalBytes op : Nat} (h : op < numOps msgSize totalBytes) :
    op * msgSize + msgSize ≤ totalBytes := by
  calc op * msgSize + msgSize = (op + 1) * msgSize := (Nat.succ_mul op msgSize).symm
    _ ≤ totalBytes / msgSize * msgSize := Nat.mul_le_mul_right _ h
    _ ≤ totalBytes := Nat.div_mul_le_self _ _

/-- Two operations through one slot; the second one waits for the first. -/
def noallocExample : List (DriverAction Bool) :=
  [.advance, .advance, .advance, .advance, .advance, .answer 0 true, .advance, .advance, .advance, .answer 0 true,
    .advance]

/-- Whenever its operations complete, a strategy without allocation never starts an operation in a slot whose
operation is running, and never waits for a slot where none was started; at most `concurrency` operations are
running. When it returns, and destroys the slots, none is running, and every operation was started exactly
once, in order and inside of the buffers. From wherever it is it can return, if it has any slots. -/
theorem noalloc_slots_safe (strategy : NoallocStrategy) {concurrency msgSize totalBytes : Nat}
    {as : List (DriverAction Bool)} {s : Driver Nat Bool Unit × Records Nat Bool}
    (hr : ((strategy.program concurrency msgSize totalBytes).machine slotReady concurrency).run as = some s) :
    s.2.errors = [] ∧ s.2.busy.length ≤ concurrency ∧
      (s.1.returned.isSome → s.2.busy = [] ∧
        startedAt s.2.log = (List.range (numOps msgSize totalBytes)).map (· * msgSize) ∧
        ∀ offset ∈ startedAt s.2.log, offset + msgSize ≤ totalBytes) ∧
      (0 < concurrency →
        ((strategy.program concurrency msgSize totalBytes).machine slotReady concurrency).CanReach
          (fun t => t.1.returned.isSome) s) := by
  obtain ⟨v, hs, hv⟩ := strategy.valid.run hr fun _ _ _ => rfl
  refine ⟨hs.errors, ?_, fun hret => ?_, fun hc =>
    (hv.canReturn (by decide : true ≠ slotReady.unset) rfl hc hs).canReach⟩
  · exact hs.busy_length_le.trans (Driver.run_size hr).le
  · obtain ⟨_, hres⟩ := Option.isSome_iff_exists.mp hret
    obtain ⟨hidle, hstarted⟩ := hv.returned hres
    rw [hs.log, hstarted]
    refine ⟨List.eq_nil_iff_forall_not_mem.mpr fun slot hb => hidle slot (hs.busy_pending hb), rfl, ?_⟩
    intro offset hoff
    obtain ⟨op, hop, rfl⟩ := List.mem_map.mp hoff
    exact offset_bound (List.mem_range.mp hop)

theorem noalloc_slots_safe_two :
    ∃ s, ((NoallocStrategy.slidingWindowThreaded.program 1 4 8).machine slotReady 1).run noallocExample = some s ∧
      s.1.returned.isSome ∧ s.2.errors = [] ∧ startedAt s.2.log = [0, 4] := by
  have hrun : (((NoallocStrategy.slidingWindowThreaded.program 1 4 8).machine slotReady 1).run noallocExample).any
      (fun s => s.1.returned.isSome) = true := by decide +kernel
  obtain ⟨s, hs, hret⟩ := (Option.any_eq_true _ _).mp hrun
  have hsafe := noalloc_slots_safe .slidingWindowThreaded hs
  exact ⟨s, hs, hret, hsafe.1, (hsafe.2.2.1 hret).2.1⟩

/-- Three operations shared out to two workers, of which the second one is faster. -/
def workersExample : List WorkerAction :=
  [.run 0, .run 1, .complete 1, .run 1, .complete 0, .run 0, .complete 0, .run 0]

/-- In every interleaving of the workers and of the completions, no operation is started twice or beyond the
buffers, at most `concurrency` operations are awaited, and no two workers await the same one. The scope can be
emptied from everywhere. When it is empty every operation was started exactly once, if there is a worker: with
the concurrency 0, which the benchmark accepts, none is started. -/
theorem scoped_workers_share {concurrency msgSize totalBytes : Nat} {as : List WorkerAction} {s : ScopedWorkers}
    (hr : (ScopedWorkers.machine concurrency (numOps msgSize totalBytes)).run as = some s) :
    s.started.Nodup ∧ (∀ op ∈ s.started, op * msgSize + msgSize ≤ totalBytes) ∧
      (s.running concurrency (numOps msgSize totalBytes)).length ≤ concurrency ∧
      (s.running concurrency (numOps msgSize totalBytes)).Nodup ∧
      (0 < concurrency → s.Returned concurrency (numOps msgSize totalBytes) →
        s.started.Perm (List.range (numOps msgSize totalBytes))) ∧
      (ScopedWorkers.machine concurrency (numOps msgSize totalBytes)).CanReach
        (ScopedWorkers.Returned concurrency (numOps msgSize totalBytes)) s := by
  have h := ScopedWorkers.run_shared hr
  exact ⟨h.nodup, fun op hop => offset_bound ((h.started op).mp hop).1, ScopedWorkers.running_length_le s,
    h.running_nodup, fun hc hret => h.started_perm hret hc, ScopedWorkers.can_return h⟩

theorem scoped_workers_share_three :
    ∃ s, (ScopedWorkers.machine 2 (numOps 4 12)).run workersExample = some s ∧
      s.Returned 2 (numOps 4 12) ∧ s.started.Perm [0, 1, 2] := by
  have hrun : ((ScopedWorkers.machine 2 (numOps 4 12)).run workersExample).any
      (fun s => decide (s.workers 0 = .finished ∧ s.workers 1 = .finished)) = true := by decide +kernel
  obtain ⟨s, hs, hdone⟩ := (Option.any_eq_true _ _).mp hrun
  have hret : s.Returned 2 (numOps 4 12) := by
    intro w hw
    have hw : w < 2 := hw
    obtain ⟨h0, h1⟩ := of_decide_eq_true hdone
    interval_cases w
    · exact h0
    · exact h1
  exact ⟨s, hs, hret, (scoped_workers_share hs).2.2.2.2.1 (by decide) hret⟩

end DsaStdexec.Bench

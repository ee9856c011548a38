import DsaStdexec.Bench.Lemmas.HwEval

/-! # The benchmarks of `hw-eval` under every behaviour of the device -/

namespace DsaStdexec.Bench

open DsaStdexec.Lib

/-- A burst of two in which the first operation faults. The second one is drained before the first one is
tried again. -/
def burstExample : List (DriverAction UInt8) :=
  [.advance, .advance, .answer 0 3, .advance, .advance, .answer 1 0x81, .advance, .advance, .answer 0 1,
    .advance, .advance]

/-- Three batches on two slots after the warm-up: the first one faults, and fails in part when it is tried
again. -/
def pipelineExample : List (DriverAction UInt8) :=
  [.advance, .advance, .answer 1 1, .answer 0 1, .advance, .advance, .advance, .advance, .advance, .answer 0 3,
    .advance, .advance, .advance, .answer 1 1, .answer 0 5, .advance, .advance, .advance, .advance, .advance,
    .answer 0 1, .advance, .advance, .advance, .advance]

/-- As long as no poll gives up, whatever the device answers, and whenever: none of the benchmarks submits a
record that the device still works on, polls a record that nobody is going to set, or leaves its slots. When
it has returned or panicked the device works on none of the records, which are freed then. From wherever it
is it can end: a device that answers with successes brings it there. -/
theorem hw_eval_records_safe (acc : Accelerator) (b : Benchmark) (hb : b.Swept)
    {as : List (DriverAction UInt8)} (hpatient : .timeout ∉ as)
    {s : Driver Unit UInt8 (Except UInt8 Unit) × Records Unit UInt8}
    (hr : ((b.program acc).machine acc.statuses b.slots).run as = some s) :
    s.2.errors = [] ∧ (s.1.returned.isSome → s.2.busy = []) ∧
      ((b.program acc).machine acc.statuses b.slots).CanReachBy (·.Answers acc.success)
        (fun t => t.1.returned.isSome) s := by
  obtain ⟨v, hs, hv⟩ := (b.valid hb).run hr fun a ha he => absurd (he ▸ ha) hpatient
  refine ⟨hs.errors, fun hret => ?_, ?_⟩
  · obtain ⟨res, hres⟩ := Option.isSome_iff_exists.mp hret
    have hidle := (hv.returned hres).1
    exact List.eq_nil_iff_forall_not_mem.mpr fun slot hb => hidle slot (hs.busy_pending hb)
  · exact hv.canReturn acc.success_ne (by simp [Accelerator.statuses, acc.success_masked, acc.ne]) trivial hs

theorem hw_eval_records_safe_burst :
    ∃ s, (((Benchmark.burst 1 2).program .dsa).machine Accelerator.dsa.statuses 2).run burstExample = some s ∧
      s.1.returned.isSome ∧ s.2.errors = [] ∧ s.2.busy = [] := by
  have hrun : ((((Benchmark.burst 1 2).program .dsa).machine Accelerator.dsa.statuses 2).run burstExample).any
      (fun s => s.1.returned.isSome) = true := by decide +kernel
  obtain ⟨s, hs, hret⟩ := (Option.any_eq_true _ _).mp hrun
  have hsafe := hw_eval_records_safe .dsa (.burst 1 2) trivial (by simp [burstExample]) hs
  exact ⟨s, hs, hret, hsafe.1, hsafe.2.1 hret⟩

-- a poll that gives up too early: the latency loops submit the record again
example : ((((Benchmark.noopLatency 1).program .dsa).machine Accelerator.dsa.statuses 1).run
    [.advance, .timeout, .advance]).any (fun s => s.2.errors = [.overwritten 0]) = true := by decide +kernel

/-- As long as no poll gives up, a benchmark that returns has run what it reports. The latencies are those of
as many operations, one after the other. Of a burst every operation has succeeded, after a page fault if need
be. The pipeline has counted every batch that was asked for exactly once, and each was submitted once more for
each of its page faults. A round of batches alone also counts the batches that faulted. A panic shows a status
that is not a success. -/
theorem hw_eval_reports_completions (acc : Accelerator) (b : Benchmark) (hb : b.Swept)
    {as : List (DriverAction UInt8)} (hpatient : .timeout ∉ as)
    {s : Driver Unit UInt8 (Except UInt8 Unit) × Records Unit UInt8}
    (hr : ((b.program acc).machine acc.statuses b.slots).run as = some s) :
    (s.1.returned = some (.ok ()) → b.Reports acc s.2.log) ∧
      ∀ status, s.1.returned = some (.error status) → status ≠ acc.success := by
  obtain ⟨v, hs, hv⟩ := (b.valid hb).run hr fun a ha he => absurd (he ▸ ha) hpatient
  rw [hs.log]
  exact ⟨fun hret => (hv.returned hret).2, fun status hret => (hv.returned hret).2⟩

theorem hw_eval_reports_completions_pipeline :
    ∃ s, (((Benchmark.pipelinedBatch 3 2).program .dsa).machine Accelerator.dsa.statuses 2).run
        pipelineExample = some s ∧ s.1.returned = some (.ok ()) ∧
      (Benchmark.pipelinedBatch 3 2).Reports .dsa s.2.log := by
  have hrun : ((((Benchmark.pipelinedBatch 3 2).program .dsa).machine Accelerator.dsa.statuses 2).run
      pipelineExample).any (fun s => s.1.returned.any Except.toBool) = true := by decide +kernel
  obtain ⟨s, hs, hret⟩ := (Option.any_eq_true _ _).mp hrun
  obtain ⟨res, hres, hok⟩ := (Option.any_eq_true _ _).mp hret
  cases res with
  | error status => cases hok
  | ok =>
      have hreports := hw_eval_reports_completions .dsa (.pipelinedBatch 3 2) Nat.two_pos
        (by simp [pipelineExample]) hs
      exact ⟨s, hs, hres, hreports.1 hres⟩

end DsaStdexec.Bench

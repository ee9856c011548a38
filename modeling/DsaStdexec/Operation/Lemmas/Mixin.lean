import DsaStdexec.Operation.Mixin

/-!
# What an operation does with one record
-/

namespace DsaStdexec.Operation.DsaOperation

variable {ρ : Type} {o : DsaOperation ρ} {m : Memory} {d : HwDesc} {c : CompletionRecord}
  {cs : List CompletionRecord} {perform : Memory → HwDesc → CompletionRecord → Memory}

theorem succeeds_fault (hc : c.code = compPageFaultNobof) : o.succeeds c = false := by
  simp [succeeds, hc, compPageFaultNobof, compSuccess, compSuccessPred]

theorem not_fault_of_succeeds (h : o.succeeds c = true) : c.code ≠ compPageFaultNobof := by
  intro hc
  rw [succeeds_fault hc] at h
  cases h

theorem notify_fault (hc : c.code = compPageFaultNobof) :
    o.notify d c = .resubmit (adjustForPageFault d c) := by
  simp [notify, succeeds_fault hc, hc]

theorem notify_success (h : o.succeeds c = true) : o.notify d c = .value (o.extractResult c) := by
  simp [notify, h]

theorem run_fault (hc : c.code = compPageFaultNobof) :
    o.run perform m d (c :: cs) = o.run perform (perform m d c) (adjustForPageFault d c) cs := by
  simp [run, notify_fault hc]

theorem run_success (h : o.succeeds c = true) :
    o.run perform m d [c] = some (o.extractResult c, perform m d c) := by
  simp [run, notify_success h]

theorem submissions_fault (hc : c.code = compPageFaultNobof) :
    o.submissions d (c :: cs) = (d, c) :: o.submissions (adjustForPageFault d c) cs := by
  simp [submissions, notify_fault hc]

theorem submissions_success (h : o.succeeds c = true) : o.submissions d [c] = [(d, c)] := by
  simp [submissions, notify_success h]

end DsaStdexec.Operation.DsaOperation

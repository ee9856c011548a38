import DsaStdexec.Profile.ClaimPackage

/-!
# The markers in the output of the script

The line of the preflight is among what the script has written once it has printed the line of the
runner, so every later failure of the phase carries a marker.
-/

namespace DsaStdexec.Profile

open DsaStdexec.Lib

/-! ## Output -/

theorem captured_mono (fd : Fd) {ws ws' : List Write} (h : ws <:+: ws') :
    captured fd ws <:+: captured fd ws' := h.filterMap _

theorem captured_say (fd : Fd) (text : Text) : captured fd (say fd text) = text.map some := by
  rw [captured, say, List.filterMap_map]
  simp

theorem decodeReplace_mono {bs bs' : List (Option Char)} (h : bs <:+: bs') :
    decodeReplace bs <:+: decodeReplace bs' := h.map _

theorem decodeReplace_text (text : Text) : decodeReplace (text.map some) = text := by
  rw [decodeReplace, List.map_map]
  exact List.map_id text

theorem mem_captured {fd : Fd} {ws : List Write} {c : Option Char} :
    c ∈ captured fd ws ↔ (fd, c) ∈ ws := by
  rw [captured, List.mem_filterMap]
  constructor
  · rintro ⟨⟨f, d⟩, hw, h⟩
    split at h
    · rename_i hf
      cases hf
      cases h
      exact hw
    · cases h
  · exact fun h => ⟨_, h, if_pos rfl⟩

/-! ## The script -/

variable {p : Paths} {host : Host} {device : Text}

theorem marker_infix_preflightLine : "phase=preflight".toList <:+: preflightLine p device := by
  have h : "phase=preflight".toList <:+: "[verify_s03_idxd_path] phase=preflight binary=".toList := by
    decide +kernel
  exact h.trans (List.prefix_append _ _).isInfix

theorem preflightLine_written (h : (preflight p host device).exit = none) :
    say .stdout (preflightLine p device) <:+: (preflight p host device).writes := by
  rw [preflight] at h ⊢
  refine Shell.writes_infix_seq h (c := .print (say .stdout (preflightLine p device))) ?_
  exact .tail _ (.tail _ (.tail _ (.tail _ (.tail _ (.tail _ (.tail _ (.head _)))))))

theorem runnerStage_exit : (runnerStage p host device).exit =
    if host.runner.status = 0 then none else some 1 := by
  unfold runnerStage programOr
  split <;> rfl

namespace Execution

variable {e : Execution}

/-- The script has printed the line of the runner. -/
def RunnerPrinted (e : Execution) : Prop :=
  e.software = true ∧ ∃ device, e.host.device = some device ∧
    (preflight e.paths e.host device).exit = none ∧
    (preflight e.paths e.host device).writes ++ say .stdout (runnerLine e.paths device) <+: e.written

theorem runnerPrinted_of_complete (hs : e.software = true) (hk : e.killedAfter = none)
    (hdev : e.host.device = some device) (hexit : (preflight e.paths e.host device).exit = none) :
    RunnerPrinted e := by
  refine ⟨hs, device, hdev, hexit, ?_⟩
  simp only [written, hk, verifyIdxdPath, hdev, Shell.andThen_of_none _ hexit]
  refine (List.prefix_append_right_inj _).mpr ?_
  rw [runnerStage, Shell.seq, Shell.andThen_of_none _ rfl]
  exact List.prefix_append _ _

/-- The output then has a marker, however it was decoded. -/
theorem RunnerPrinted.marker (h : RunnerPrinted e) :
    "phase=preflight".toList <:+: decodeReplace (captured .stdout e.written) := by
  obtain ⟨-, device, -, hexit, hpre⟩ := h
  have hline : say .stdout (preflightLine e.paths device) <:+: e.written :=
    (preflightLine_written hexit).trans ((List.prefix_append _ _).trans hpre).isInfix
  have htext := decodeReplace_mono (captured_mono .stdout hline)
  rw [captured_say, decodeReplace_text] at htext
  exact marker_infix_preflightLine.trans htext

theorem allowsFallback_render {outcome last out err : Text} (h : "phase=preflight".toList <:+: out) :
    idxdFailureAllowsFallback (e.render outcome last out err) = true := by
  have hinfix : "phase=preflight".toList <:+: e.render outcome last out err := by
    refine h.trans ?_
    unfold render
    refine List.IsInfix.trans ?_ (List.prefix_append _ _).isInfix
    refine List.IsInfix.trans ?_ (List.prefix_append _ _).isInfix
    exact (List.suffix_append _ _).isInfix
  have hmem : "phase=preflight".toList ∈ fallbackMarkers :=
    .tail _ (.tail _ (.tail _ (.tail _ (.head _))))
  exact List.any_eq_true.mpr ⟨_, hmem, decide_eq_true hinfix⟩

theorem RunnerPrinted.exit (h : RunnerPrinted e) : (verifyIdxdPath e.paths e.host).exit =
    if e.host.runner.status = 0 then none else some 1 := by
  obtain ⟨-, device, hdev, hexit, -⟩ := h
  rw [verifyIdxdPath, hdev]
  show ((preflight e.paths e.host device).andThen (runnerStage e.paths e.host device)).exit = _
  rw [Shell.andThen_exit_of_none hexit, runnerStage_exit]

/-- The phase ends well for the runner, or its output cannot be decoded. -/
def Undisturbed (e : Execution) : Prop :=
  e.killedAfter = none ∧ (e.host.runner.status = 0 ∨ ∃ fd, (fd, none) ∈ e.written)

theorem RunnerPrinted.runError (h : RunnerPrinted e) (hu : ¬ e.Undisturbed) :
    ∃ rendered, e.runIdxdPhase = .runError rendered ∧ idxdFailureAllowsFallback rendered = true := by
  unfold runIdxdPhase
  cases hk : e.killedAfter with
  | some k => exact ⟨_, rfl, allowsFallback_render h.marker⟩
  | none =>
      rw [Undisturbed, hk] at hu
      simp only [true_and, not_or, not_exists] at hu
      have hout : none ∉ captured .stdout e.written := fun hm => hu.2 _ (mem_captured.mp hm)
      have herr : none ∉ captured .stderr e.written := fun hm => hu.2 _ (mem_captured.mp hm)
      have hexit := h.exit
      rw [if_neg hu.1] at hexit
      simp only [decodeStrict, if_neg hout, if_neg herr, hexit]
      exact ⟨_, rfl, allowsFallback_render h.marker⟩

theorem RunnerPrinted.replaced_eq (h : RunnerPrinted e) (hu : ¬ e.Undisturbed) :
    e.replaced = e.seedIdxdFallback := by
  obtain ⟨rendered, hr, hallow⟩ := h.runError hu
  simp [replaced, h.1, hr, hallow]

theorem RunnerPrinted.not_runError (h : RunnerPrinted e) (hu : e.Undisturbed) (rendered : Text) :
    e.runIdxdPhase ≠ .runError rendered := by
  obtain ⟨hk, hcase⟩ := hu
  unfold runIdxdPhase
  simp only [hk]
  rcases hcase with hstatus | ⟨fd, hm⟩
  · have hexit := h.exit
    rw [if_pos hstatus] at hexit
    rw [hexit]
    split <;> nofun
  · have hcap := mem_captured.mpr hm
    cases fd with
    | stdout =>
        rw [decodeStrict, if_pos hcap]
        nofun
    | stderr =>
        have hnone : decodeStrict (captured .stderr e.written) = none := if_pos hcap
        rw [hnone]
        cases decodeStrict (captured .stdout e.written) with
        | none => nofun
        | some out => nofun

end Execution

end DsaStdexec.Profile

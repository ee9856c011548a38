import DsaStdexec.Ffi.Lemmas.AsyncSession
import DsaStdexec.Ffi.Lemmas.Ownership
import DsaStdexec.Ffi.Lemmas.Report
import DsaStdexec.Ffi.Lemmas.Session

/-!
# The Rust bridge over whole calls
-/

namespace DsaStdexec.Ffi

open DsaStdexec.Lib DsaStdexec.Operation

/-! ## Retries -/

namespace MemmoveCall

/-- In a run of `memmove` next to the device, whatever the device does and however late, every descriptor
is completed whenever the call has returned exactly if no poll gives up; then nothing can be written any
more. -/
theorem memmove_returns_owned (args : MemmoveArgs) (as : List MemmoveAction) (c : MemmoveCall)
    (h : (machine args).run as = some c) :
    ((machine args).Throughout ReleasedAtReturn (init args) as ↔
      (machine args).Meets Prompt (init args) as) ∧
    ((machine args).Meets Prompt (init args) as → ∀ result, c.control = .returned result →
      ∀ bs c', (machine args).runFrom c bs = some c' → c' = c) := by
  have hinit : ReleasedAtReturn (init args) := by
    unfold init
    split
    · exact fun _ _ _ hx => by cases hx
    · exact fun _ hc => by cases hc
  have hiff := Machine.throughout_iff_meets (M := machine args) (C := Prompt) (I := Watched)
    (P := ReleasedAtReturn) (fun _ _ _ hw _ hst => hw.step hst)
    (fun _ _ _ hw hp hst => releasedAtReturn_step hw hp hst) (watched_init args) hinit h
  refine ⟨hiff, fun hm result hr bs c' hbs => ?_⟩
  have hboth : Watched c ∧ ReleasedAtReturn c :=
    Machine.runFrom_invariant (M := machine args) (C := Prompt)
      (I := fun c => Watched c ∧ ReleasedAtReturn c) (fun _ _ _ hw hc hst =>
        ⟨hw.1.step hst, (releasedAtReturn_step hw.1 hw.2 hst).mpr hc⟩) ⟨watched_init args, hinit⟩ hm h
  cases bs with
  | nil => cases hbs; rfl
  | cons b bs =>
      obtain ⟨c1, hst, _⟩ := Machine.runFrom_cons hbs
      rw [show (machine args).step c b = none from (hboth.2 result hr).quiet hr b] at hst
      cases hst

/-- One byte, with the buffers a page apart. -/
def byteArgs : MemmoveArgs where
  session := ⟨⟨defaultDevicePath, defaultMaxPageFaultRetries, by decide⟩⟩
  place := ⟨0x1000, 0x2000, 0x3000⟩
  src := [7]
  dst := [0]

/-- The device copies the byte and completes the descriptor before the second read. -/
def promptRun : List MemmoveAction := [.read, .write 0 0 7, .complete 0 ⟨1, 0, 0, 0, 0⟩, .read]

theorem memmove_returns_owned_prompt : ∃ c, (machine byteArgs).run promptRun = some c ∧
    c.control = .returned (.ok ⟨defaultDevicePath, 1, 0, 1⟩) ∧
    ∀ bs c', (machine byteArgs).runFrom c bs = some c' → c' = c := by
  have hm : (machine byteArgs).Meets Prompt (init byteArgs) promptRun := by decide +kernel
  have h : ((machine byteArgs).run promptRun).map (fun c =>
      decide (c.control = .returned (.ok ⟨defaultDevicePath, 1, 0, 1⟩))) = some true := by
    decide +kernel
  obtain ⟨c, hc, hr⟩ := Option.map_eq_some_iff.mp h
  have hr := of_decide_eq_true hr
  exact ⟨c, hc, hr, (memmove_returns_owned byteArgs promptRun c hc).2 hm _ hr⟩

/-- No record arrives during the poll. The call has returned with an error, and then the device writes
into the buffer of the caller. -/
theorem memmove_abandons_descriptor : ∃ c c',
    (machine byteArgs).run (List.replicate maxSpins .read) = some c ∧
    c.control = .returned (.error (.completionTimeout defaultDevicePath .completionPoll 0)) ∧
    ¬ c.Released ∧ (machine byteArgs).runFrom c [.write 0 0 9] = some c' ∧ c'.dst ≠ c.dst := by
  refine ⟨_, _, run_timeout rfl rfl, rfl, ?_, rfl, by decide⟩
  exact fun h => absurd (h _ List.mem_cons_self) (by decide)

end MemmoveCall

/-! ## The asynchronous session -/

namespace AsyncDsaSession

variable {W E : Type*} (worker : AsyncMemmoveWorker W E) (requests : Nat → AsyncMemmoveRequest)

end AsyncDsaSession

/-! ## Reports -/

/-- The report of either program is JSON with exactly the fields of the outcome if and only if no
string of the outcome holds a control character other than those that are escaped. The JSON of an
outcome determines the outcome. -/
theorem reports_faithful (live : LiveMemmove.RunOutcome) (awaited : AwaitMemmove.RunOutcome) :
    ((Json.decode live.renderJson = some live.toJson ↔
        ∀ s ∈ live.strings, ∀ c ∈ s.toList, Escapable c) ∧
      ∀ other : LiveMemmove.RunOutcome, other.toJson = live.toJson → other = live) ∧
    ((Json.decode awaited.renderJson = some awaited.toJson ↔
        ∀ s ∈ awaited.strings, ∀ c ∈ s.toList, Escapable c) ∧
      ∀ other : AwaitMemmove.RunOutcome, other.toJson = awaited.toJson → other = awaited) := by
  refine ⟨⟨?_, fun _ h => LiveMemmove.RunOutcome.toJson_injective h⟩,
    ⟨?_, fun _ h => AwaitMemmove.RunOutcome.toJson_injective h⟩⟩
  · rw [LiveMemmove.RunOutcome.decode_renderJson]
    split
    · next h => exact ⟨fun _ => h, fun _ => rfl⟩
    · next h => exact ⟨fun he => (by cases he), fun hall => absurd hall h⟩
  · rw [AwaitMemmove.RunOutcome.decode_renderJson]
    split
    · next h => exact ⟨fun _ => h, fun _ => rfl⟩
    · next h => exact ⟨fun he => (by cases he), fun hall => absurd hall h⟩

/-- A device path with the control character U+0001. -/
def controlPath : LiveMemmove.RunOutcome where
  ok := true
  devicePath := "/dev/dsa/\x01"
  requestedBytes := 4096
  pageFaultRetries := some 0
  finalStatus := some 1
  phase := "completed"
  errorKind := none
  message := "ok"

theorem control_character_not_escaped : Json.decode controlPath.renderJson = none := by decide +kernel

end DsaStdexec.Ffi

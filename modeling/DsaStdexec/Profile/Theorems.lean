import DsaStdexec.Profile.Lemmas.ClaimPackage
import DsaStdexec.Profile.Lemmas.Codec
import DsaStdexec.Profile.Lemmas.Runtime
import DsaStdexec.Profile.Lemmas.Workload

/-!
# Theorems about `tonic-profile`
-/

namespace DsaStdexec.Profile

open DsaStdexec.Ffi DsaStdexec.Operation

/-! ## The encoder -/

section Encoder

open ProfileEncoder

/-- Whatever the earlier calls on an encoder have left behind and whatever the device writes, an
accelerated call that succeeds appends what a software encoder appends, and one that fails leaves the
buffer as it was. A call returns after two replies at the latest. -/
theorem encode_refines_software {T : Type*} (P : Prost T)
    (acceleration : EffectiveAccelerationSettings) (hidxd : acceleration.selectedPath = .idxd)
    (history : List (T × EncodeEnv × List UInt8)) (e : ProfileEncoder)
    (he : replay P (new acceleration) history = some e)
    (item : T) (env : EncodeEnv) (dst : List UInt8) :
    (∀ e' dst' result, e.encode P item env dst = some (e', dst', result) →
      (result = .ok () → ∀ sw : ProfileEncoder, sw.acceleration.selectedPath = .software →
        sw.encode P item env dst = some (sw, dst', .ok ())) ∧
      (∀ status, result = .error status → dst' = dst)) ∧
    (2 ≤ env.replies.length → (e.encode P item env dst).isSome) := by
  have hready := ready_of_replay hidxd history (ready_new acceleration) he
  refine ⟨fun e' dst' result henc => ?_, encode_returns hready⟩
  have hbuffer := (encode_idxd hready hidxd henc).buffer
  constructor
  · rintro rfl sw hsw
    have hdst : dst' = dst ++ P.encode item := hbuffer
    rw [encode_software hsw, hdst]
  · rintro status rfl
    exact hbuffer.trans (List.append_nil dst)

/-- Messages that are their own encoding. -/
def rawBytes : Prost (List UInt8) := ⟨id, List.length, fun _ => rfl⟩

/-- A device that reports success after it has written `data`. -/
def writing (data : List UInt8) : EncodeEnv where
  portal := .ok ()
  place := ⟨0x1000, 0x2000, 0x3000⟩
  replies := [⟨fun _ => compSuccess, ⟨compSuccess, 0, 0, 0, 0⟩, fun i => data[i]?⟩]

def idxd : EffectiveAccelerationSettings := ⟨.idxd, some "/dev/dsa/wq0.0"⟩

/-- A longer frame fails its verification before a shorter one is copied. -/
theorem encode_refines_software_shrinking :
    ∃ e e' dst', replay rawBytes (new idxd) [([1, 2, 3], writing [1, 9, 3], [])] = some e ∧
      e.encode rawBytes [7, 8] (writing [7, 8]) [0] = some (e', dst', .ok ()) ∧
      (new .software).encode rawBytes [7, 8] (writing [7, 8]) [0] =
        some (new .software, dst', .ok ()) := by
  have h1 : (replay rawBytes (new idxd) [([1, 2, 3], writing [1, 9, 3], [])]).isSome := by
    decide +kernel
  obtain ⟨e, he⟩ := Option.isSome_iff_exists.mp h1
  have h2 : ((replay rawBytes (new idxd) [([1, 2, 3], writing [1, 9, 3], [])]).bind fun e =>
      (e.encode rawBytes [7, 8] (writing [7, 8]) [0]).map fun x => x.2.2.isOk) = some true := by
    decide +kernel
  rw [he, Option.bind_some, Option.map_eq_some_iff] at h2
  obtain ⟨⟨e', dst', result⟩, henc, hok⟩ := h2
  cases result with
  | error status => cases hok
  | ok =>
      exact ⟨e, e', dst', he, henc, ((encode_refines_software rawBytes idxd rfl _ e he _ _ _).1
        e' dst' _ henc).1 rfl _ rfl⟩

end Encoder

/-! ## Replies of an honest server -/

section Replies

/-- The shape of the replies that a client asks for, if it asks for one. -/
def Args.expectedShape (args : Args) : Option ProtoShape :=
  match args.rpc with
  | .unaryBytes => none
  | .unaryProtoShape => args.protoShape.map fun shape => resolveResponseShape shape args.responseShape

/-- What the server replies to a prepared request is accepted exactly if the reply is not a
`FleetResponseHeavy` message or the client has prepared it from a seed below 28 modulo 64. The sizes of
two messages of one shape differ exactly if only one of their seeds is such. -/
theorem honest_reply_accepted (schema : Schema) (rng : StdRng) (args : Args) (worker : UInt64) :
    (∀ (offset : Nat) (prepared : PreparedRequest) (index : UInt64),
      (buildRequestPool schema rng args worker)[offset]? = some prepared →
      (Accepted schema rng index prepared ↔ (args.expectedShape = some .fleetResponseHeavy →
        (10000 + worker * 100 + UInt64.ofNat offset) % 64 < 28))) ∧
    ∀ shape seed seed', ((buildProtoMessage rng shape seed).encode schema).length =
        ((buildProtoMessage rng shape seed').encode schema).length ↔
      (shape = .fleetResponseHeavy → (seed % 64 < 28 ↔ seed' % 64 < 28)) := by
  refine ⟨fun offset prepared index h => ?_, fun _ _ _ => length_buildProtoMessage_eq_iff⟩
  unfold buildRequestPool at h
  split at h
  · rename_i hrpc
    have hnone : args.expectedShape = none := by simp only [Args.expectedShape, hrpc]
    cases eq_of_getElem?_map_range h
    rw [hnone]
    exact ⟨nofun, fun _ => accepted_bytes args worker offset index⟩
  · rename_i hrpc
    have hsome : args.expectedShape =
        some (resolveResponseShape (args.protoShape.get (args.valid hrpc)) args.responseShape) := by
      simp only [Args.expectedShape, hrpc]
      exact (congrArg _ (Option.some_get (args.valid hrpc)).symm)
    cases eq_of_getElem?_map_range h
    rw [hsome, Option.some.injEq]
    exact accepted_proto _ _ worker offset index

/-- A schema with the fields of every message numbered from one. -/
def numbered : Schema where
  small := ⟨1, 2, 3, 4, 5⟩
  stringHeavy := ⟨1, 2, 3, 4, 5, 6, 1, 2, 3⟩
  responseHeavy := ⟨1, 2, 3, 4, 5, 6, 7, 1, 2, 3, 4, 5⟩
  shapeSmall := 1
  shapeStringHeavy := 2
  shapeResponseHeavy := 3
  requestPayload := 1
  requestProtoPayload := 2
  requestedResponseShape := 3
  replyPayload := 1
  replyProtoPayload := 2
  kind
    | .unspecified => 0
    | .fleetSmall => 1
    | .fleetStringHeavy => 2
    | .fleetResponseHeavy => 3
  kind_injective a b := by cases a <;> cases b <;> decide

def zeros : StdRng := ⟨fun _ len => List.replicate len 0, fun _ _ => List.length_replicate⟩

def heavyArgs : Args :=
  ⟨.unaryProtoShape, some .fleetResponseHeavy, .same, 256, .structured, fun _ => rfl⟩

/-- The first worker has seeds from 10000 on, which are 16 to 19 modulo 64. -/
theorem honest_reply_accepted_first : ∃ prepared,
    (buildRequestPool numbered zeros heavyArgs 0)[0]? = some prepared ∧
      Accepted numbered zeros 3 prepared :=
  ⟨_, rfl, ((honest_reply_accepted numbered zeros heavyArgs 0).1 0 _ 3 rfl).mpr fun _ => by decide⟩

/-- The second worker has seeds from 10100 on, which are 52 to 55 modulo 64. -/
theorem honest_reply_rejected : ∃ prepared reply next,
    (buildRequestPool numbered zeros heavyArgs 1)[0]? = some prepared ∧
      unaryEcho numbered (ProtoPools.new zeros) 0 (prepared.request numbered) = .ok (reply, next) ∧
      validateResponse numbered prepared reply =
        .error ("response serialized size mismatch for fleet-response-heavy: " ++
          "expected 3035, got 3034") :=
  ⟨_, _, _, rfl, unaryEcho_prepareProto _ _ 1 0 0, by decide +kernel⟩

end Replies

/-! ## The shutdown of the server -/

namespace ProfileRun

/-- The server notifies only after `n` measured requests in every run exactly if there is no warm-up,
however many requests the client is to measure. -/
theorem shutdown_after_measured (args : RunArgs) (n : Nat) (hn : 1 ≤ n)
    (hserver : args.shutdownAfterRequests = some n) :
    (∀ as s, (machine args).run as = some s → s.notified = true → n ≤ s.measured) ↔
      args.warmupMs = 0 := by
  constructor
  · intro hall
    by_contra hw
    obtain ⟨as, s, hs, hnot, hzero⟩ :=
      exists_early_notification (Nat.pos_of_ne_zero hw) hserver hn
    have := hall as s hs hnot
    omega
  · intro hw as s hs hnot
    have hu := unwarmed_of_run hw hs
    obtain ⟨target, ht, hle⟩ := hu.notified hnot
    cases hserver.symm.trans ht
    rw [← hu.counted]
    exact hle

def pairArgs : RunArgs := ⟨some 2, some 2, 0, 1000, 2, by decide⟩

/-- The handler of the second task is the first to record its request, and sees a counter of 1. -/
def coldRun : List RunAction :=
  [.check 0, .check 1, .beginMeasured, .check 0, .check 1, .request 0, .request 1, .record 1, .load 1 1,
    .record 0, .respond 1, .load 0 2, .respond 0]

theorem shutdown_after_measured_cold : ∃ s, (machine pairArgs).run coldRun = some s ∧
    s.notified = true ∧ 2 ≤ s.measured := by
  have h : ((machine pairArgs).run coldRun).map (·.notified) = some true := by decide +kernel
  obtain ⟨s, hs, hnot⟩ := Option.map_eq_some_iff.mp h
  exact ⟨s, hs, hnot, (shutdown_after_measured pairArgs 2 (by decide) rfl).mpr rfl coldRun s hs hnot⟩

/-- One request and one task. -/
def singleArgs (warmupMs : Nat) : RunArgs := ⟨some 1, some 1, warmupMs, 1000, 1, by decide⟩

/-- The first request of the warm-up shuts the server down. -/
theorem shutdown_during_warmup : ∃ s,
    (machine (singleArgs 1)).run [.check 0, .request 0, .record 0, .load 0 1, .respond 0] = some s ∧
      s.notified = true ∧ s.phase = .warmup ∧ s.measured = 0 :=
  ⟨_, rfl, rfl, rfl, rfl⟩

end ProfileRun

/-! ## Fixtures -/

namespace Execution

/-- Fixtures replace artifacts only before the script has printed the line of the runner, exactly if
after that line the script is not killed and its runner succeeds, or its output is no text, or there is
nothing to copy. -/
theorem fallback_before_runner (e : Execution) :
    (e.replaced ≠ [] → ¬ e.RunnerPrinted) ↔
      (e.RunnerPrinted → e.Undisturbed ∨ e.seedIdxdFallback = []) := by
  constructor
  · intro h hprinted
    by_cases hu : e.Undisturbed
    · exact .inl hu
    · rw [← hprinted.replaced_eq hu]
      exact .inr (not_not.mp fun hne => h hne hprinted)
  · intro h hne hprinted
    unfold replaced at hne
    rw [if_pos hprinted.1] at hne
    split at hne
    · exact hne rfl
    · exact hne rfl
    · rename_i rendered hr
      rcases h hprinted with hu | hseed
      · exact hprinted.not_runError hu rendered hr
      · rw [hseed, ite_self] at hne
        exact hne rfl

/-- Every program succeeds but the runner. -/
def failingRunner : Execution where
  paths := ⟨"s03_idxd_matrix.json".toList, "/accel-rpc".toList, "/accel-rpc/tonic-profile".toList,
    "/tools/dsa_launcher".toList, "/run/idxd".toList, "20s".toList, "60s".toList⟩
  host := {
    device := some "/dev/dsa/wq0.0".toList
    manifestCheck := ⟨[], 0⟩
    devenv := true
    build := ⟨[], 0⟩
    launcher := true
    getcap := none
    selftest := ⟨[], 0⟩
    artifactCheck := ⟨[], 0⟩
    runner := ⟨[], 1⟩ }
  software := true
  killedAfter := none
  runRoot := "/run".toList
  summaryOutput := "/run/summary.json".toList
  devicePath := "/dev/dsa/wq0.0".toList
  timeoutS := 120
  fixture := some ["client.json".toList]
  artifacts := ["client.json".toList]

theorem fallback_masks_runner : failingRunner.RunnerPrinted ∧
    failingRunner.replaced = ["client.json".toList] := by
  have hprinted : failingRunner.RunnerPrinted :=
    runnerPrinted_of_complete rfl rfl rfl rfl
  have htext : ∀ w ∈ failingRunner.written, w.2 ≠ none := by decide +kernel
  refine ⟨hprinted, (hprinted.replaced_eq ?_).trans (by decide)⟩
  rintro ⟨-, hstatus | ⟨fd, hm⟩⟩
  · cases hstatus
  · exact htext _ hm rfl

end Execution

end DsaStdexec.Profile

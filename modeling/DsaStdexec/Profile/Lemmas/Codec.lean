import DsaStdexec.Ffi.Lemmas.Session
import DsaStdexec.Profile.Codec

/-!
# What an encode call does to the encoder and the buffer
-/

namespace DsaStdexec.Profile

open DsaStdexec.Ffi

theorem length_resize (l : List UInt8) (n : Nat) : (resize l n).length = n := by
  simp only [resize, List.length_append, List.length_take, List.length_replicate]
  omega

namespace ProfileEncoder

variable {T : Type*} {P : Prost T} {e : ProfileEncoder} {item : T} {env : EncodeEnv}
  {dst : List UInt8}

theorem encode_software (h : e.acceleration.selectedPath = .software) :
    e.encode P item env dst = some (e, dst ++ P.encode item, .ok ()) := by
  rw [encode, h]

/-- What holds of the encoder between the calls. Nothing is known about its buffers. -/
structure Ready (acceleration : EffectiveAccelerationSettings) (e : ProfileEncoder) : Prop where
  acceleration : e.acceleration = acceleration
  session : ∀ s ∈ e.session, s.config.maxPageFaultRetries = defaultMaxPageFaultRetries

theorem ready_new (acceleration : EffectiveAccelerationSettings) : Ready acceleration (new acceleration) :=
  ⟨rfl, by simp [new]⟩

theorem ensureSession_retries {portal : Except String Unit} {session : DsaSession}
    (h : e.ensureSession portal = .ok session)
    (hsession : ∀ s ∈ e.session, s.config.maxPageFaultRetries = defaultMaxPageFaultRetries) :
    session.config.maxPageFaultRetries = defaultMaxPageFaultRetries := by
  unfold ensureSession at h
  split at h
  · rename_i s hs
    cases h
    exact hsession _ hs
  · split at h
    · cases h
    · split at h
      · cases h
      · rename_i hopen
        cases h
        unfold DsaSession.open DsaSession.openWithRetries at hopen
        split at hopen
        · cases hopen
        · split at hopen
          · cases hopen
          · cases hopen
            rfl

/-- What an accelerated call does: the result, the buffer, and the encoder for the next call. -/
structure Encoded (P : Prost T) (acceleration : EffectiveAccelerationSettings) (item : T)
    (dst : List UInt8) (x : ProfileEncoder × List UInt8 × Except Status Unit) : Prop where
  ready : Ready acceleration x.1
  buffer : x.2.1 = dst ++ (match x.2.2 with | .ok _ => P.encode item | .error _ => [])

theorem encode_idxd {acceleration : EffectiveAccelerationSettings} (he : Ready acceleration e)
    (hidxd : acceleration.selectedPath = .idxd)
    {x : ProfileEncoder × List UInt8 × Except Status Unit} (h : e.encode P item env dst = some x) :
    Encoded P acceleration item dst x := by
  obtain ⟨rfl, hs⟩ := he
  rw [encode, hidxd] at h
  simp only at h
  split at h
  · cases h
    exact ⟨⟨rfl, hs⟩, (List.append_nil _).symm⟩
  · split at h
    · cases h
      exact ⟨⟨rfl, hs⟩, (List.append_nil _).symm⟩
    · split at h
      · cases h
        exact ⟨⟨rfl, hs⟩, (List.append_nil _).symm⟩
      · rename_i session hsession
        have hready : ∀ s ∈ some session,
            s.config.maxPageFaultRetries = defaultMaxPageFaultRetries := by
          rintro s ⟨⟩
          exact ensureSession_retries hsession hs
        split at h
        · cases h
        · cases h
          exact ⟨⟨rfl, hready⟩, (List.append_nil _).symm⟩
        · rename_i report hok
          cases h
          -- The buffers have the same length, so the verification has compared every byte.
          have hlen : (resize e.scratch (P.encodedLen item)).length = (P.encode item).length := by
            rw [length_resize, P.length_encode]
          exact ⟨⟨rfl, hready⟩,
            congrArg (dst ++ ·) (DsaSession.memmove_ok hlen hok)⟩

theorem encode_returns {acceleration : EffectiveAccelerationSettings} (he : Ready acceleration e)
    (h : defaultMaxPageFaultRetries.toNat < env.replies.length) :
    (e.encode P item env dst).isSome := by
  obtain ⟨-, hs⟩ := he
  unfold encode
  split
  · rfl
  · simp only
    split
    · rfl
    · split
      · rfl
      · split
        · rfl
        · rename_i session hsession
          have hmax := ensureSession_retries hsession hs
          have hsome := session.memmove_returns env.place
            (resize e.scratch (P.encodedLen item)) (P.encode item) env.replies (by rwa [hmax])
          split
          · rename_i hnone
            rw [hnone] at hsome
            cases hsome
          · rfl
          · rfl

theorem ready_of_replay {acceleration : EffectiveAccelerationSettings}
    (hidxd : acceleration.selectedPath = .idxd) (history : List (T × EncodeEnv × List UInt8)) :
    ∀ {e e' : ProfileEncoder}, Ready acceleration e → replay P e history = some e' →
      Ready acceleration e' := by
  induction history with
  | nil =>
      intro e e' he h
      cases h
      exact he
  | cons call history ih =>
      intro e e' he h
      rw [replay, Option.bind_eq_some_iff] at h
      obtain ⟨x, hx, hrest⟩ := h
      exact ih (encode_idxd he hidxd hx).ready hrest

end ProfileEncoder

end DsaStdexec.Profile

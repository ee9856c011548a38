import DsaStdexec.Ffi.Report

/-!
# Reading a report back
-/

namespace DsaStdexec.Ffi

open DsaStdexec.Lib

/-! ## Strings -/

theorem readString_simpleEscape {e c : Char} (he : Json.simpleEscape e = some c) (hc : Escapable c)
    (rest : List Char) : Json.readString (['\\', e] ++ rest) =
      if Escapable c then (Json.readString rest).map fun (cs, rest) => (c :: cs, rest) else none := by
  rw [List.cons_append, List.cons_append, Json.readString_escape he, if_pos hc]
  rfl

theorem readString_escapeChar (c : Char) (rest : List Char) :
    Json.readString (escapeChar c ++ rest) =
      if Escapable c then (Json.readString rest).map fun (cs, rest) => (c :: cs, rest) else none := by
  unfold escapeChar
  split
  · exact readString_simpleEscape rfl (by decide) rest
  · exact readString_simpleEscape rfl (by decide) rest
  · exact readString_simpleEscape rfl (by decide) rest
  · exact readString_simpleEscape rfl (by decide) rest
  · exact readString_simpleEscape rfl (by decide) rest
  · next hquote hbackslash hn hr ht =>
      rw [List.cons_append, List.nil_append]
      by_cases hc : c.toNat < 0x20
      · rw [Json.readString_invalid hquote hbackslash (by simp [Json.unescaped]; omega), if_neg]
        intro hesc
        rcases hesc hc with h | h | h
        · exact hn h
        · exact hr h
        · exact ht h
      · have hplain : Json.unescaped c = true := by
          simp only [Json.unescaped, Bool.and_eq_true, decide_eq_true_eq, bne_iff_ne]
          exact ⟨⟨by omega, hquote⟩, hbackslash⟩
        rw [Json.readString_unescaped hplain, if_pos (show Escapable c from fun h => absurd h hc)]

/-- The decoder takes every character back but the control characters that were not escaped. -/
theorem readString_escapeJson (s rest : List Char) :
    Json.readString (escapeJson s ++ '"' :: rest) =
      if ∀ c ∈ s, Escapable c then some (s, rest) else none := by
  induction s with
  | nil => simp [escapeJson, Json.readString]
  | cons c s ih =>
      have hcons : escapeJson (c :: s) = escapeChar c ++ escapeJson s := rfl
      rw [hcons, List.append_assoc, readString_escapeChar, ih]
      simp only [List.forall_mem_cons]
      by_cases hc : Escapable c
      · by_cases hs : ∀ c ∈ s, Escapable c
        · rw [if_pos hc, if_pos hs, if_pos ⟨hc, hs⟩]
          rfl
        · rw [if_pos hc, if_neg hs, if_neg (fun h => hs h.2)]
          rfl
      · rw [if_neg hc, if_neg (fun h => hc h.1)]

/-! ## Values -/

theorem reads_boolText (b : Bool) : Json.Reads (boolText b) (.bool b) true := by
  intro fuel rest _
  cases b <;> rfl

theorem reads_quoted {text s : List Char} {valid : Bool}
    (h : ∀ rest, Json.readString (text ++ '"' :: rest) = if valid then some (s, rest) else none) :
    Json.Reads (quoted text) (.string (String.ofList s)) valid := by
  intro fuel rest _
  have hvalue : ∀ cs, Json.readValue (fuel + 1) ('"' :: cs) =
      (Json.readString cs).map fun (s, rest) => (.string (String.ofList s), rest) := fun cs => rfl
  simp only [quoted, List.cons_append, List.append_assoc, List.nil_append, hvalue, h]
  cases valid <;> rfl

theorem reads_stringText (s : String) :
    Json.Reads (stringText s) (.string s) (decide (∀ c ∈ s.toList, Escapable c)) := by
  have h : Json.Reads (quoted (escapeJson s.toList)) (.string (String.ofList s.toList))
      (decide (∀ c ∈ s.toList, Escapable c)) := reads_quoted fun rest => by
    simp [readString_escapeJson]
  rwa [String.ofList_toList] at h

theorem digitChar_unescaped : ∀ d < 16, Json.unescaped (Nat.digitChar d) = true := by decide

theorem reads_statusText (status : BitVec 8) : Json.Reads (statusText status) (statusJson status) true := by
  refine reads_quoted fun rest => ?_
  rw [if_pos rfl]
  refine Json.readString_plain ?_
  have hlt := status.isLt
  have hhigh := digitChar_unescaped (status.toNat / 16) (by omega)
  have hlow := digitChar_unescaped (status.toNat % 16) (by omega)
  simp only [hexStatus, List.all_cons, hhigh, hlow]
  rfl

theorem reads_countText (n : Nat) : Json.Reads (countText n) (countJson n) true := by
  intro fuel rest h
  rw [if_pos rfl]
  exact Json.readValue_toDigits n h

theorem reads_orNull {α : Type} {text : α → List Char} {value : α → Json Json.Decimal} {valid : α → Bool}
    (h : ∀ a, Json.Reads (text a) (value a) (valid a)) (o : Option α) :
    Json.Reads (orNull text o) (orNullJson value o) (o.all valid) := by
  cases o with
  | none => exact fun fuel rest _ => rfl
  | some a => exact h a

/-! ## Members -/

theorem digitChar_injective : ∀ d < 16, ∀ e < 16, Nat.digitChar d = Nat.digitChar e → d = e := by decide

theorem statusJson_injective : Function.Injective statusJson := by
  intro a b h
  have hlist := congrArg String.toList (Json.string.inj h)
  simp only [hexStatus, String.toList_ofList, List.cons.injEq, true_and, and_true] at hlist
  have ha := a.isLt
  have hb := b.isLt
  have hhigh := digitChar_injective _ (by omega) _ (by omega) hlist.1
  have hlow := digitChar_injective _ (by omega) _ (by omega) hlist.2
  exact BitVec.eq_of_toNat_eq (by omega)

theorem countJson_injective : Function.Injective countJson := by
  intro m n h
  have := congrArg Json.Decimal.mantissa (Json.number.inj h)
  exact Int.ofNat.inj this

/-- An option that is not there is told from every value that is not `null`. -/
theorem orNullJson_injective {α : Type} {value : α → Json Json.Decimal} (h : Function.Injective value)
    (hnull : ∀ a, value a ≠ .null) : Function.Injective (orNullJson value) := by
  intro a b hab
  cases a with
  | none =>
      cases b with
      | none => rfl
      | some b => exact absurd hab.symm (hnull b)
  | some a =>
      cases b with
      | none => exact absurd hab (hnull a)
      | some b => rw [h hab]

theorem retriesJson_injective : Function.Injective fun n : BitVec 32 => countJson n.toNat := fun _ _ h =>
  BitVec.eq_of_toNat_eq (countJson_injective h)

theorem string_injective : Function.Injective (Json.string (N := Json.Decimal)) := fun _ _ h =>
  Json.string.inj h

theorem all_iff_forall_toList {α : Type} {valid : α → Bool} (o : Option α) :
    o.all valid = true ↔ ∀ a ∈ o.toList, valid a = true := by
  cases o <;> simp

namespace LiveMemmove.RunOutcome

variable (outcome : RunOutcome)

def members : List Json.Written :=
  [.ofReads "device_path" (by decide) (reads_stringText outcome.devicePath),
    .ofReads "requested_bytes" (by decide) (reads_countText outcome.requestedBytes),
    .ofReads "page_fault_retries" (by decide)
      (reads_orNull (fun n : BitVec 32 => reads_countText n.toNat) outcome.pageFaultRetries),
    .ofReads "final_status" (by decide) (reads_orNull reads_statusText outcome.finalStatus),
    .ofReads "phase" (by decide) (reads_stringText outcome.phase),
    .ofReads "error_kind" (by decide) (reads_orNull reads_stringText outcome.errorKind),
    .ofReads "message" (by decide) (reads_stringText outcome.message)]

theorem decode_renderJson : Json.decode outcome.renderJson =
    if ∀ s ∈ outcome.strings, ∀ c ∈ s.toList, Escapable c then some outcome.toJson else none := by
  refine Json.Written.decode_writeObject_of_valid (.ofReads "ok" (by decide) (reads_boolText outcome.ok))
    (members outcome) ?_
  simp [members, Json.Written.ofReads, strings, all_iff_forall_toList, or_imp, forall_and]

theorem toJson_injective : Function.Injective toJson := by
  intro a b h
  simp only [toJson, Json.object.injEq, List.cons.injEq, Prod.mk.injEq, true_and, and_true,
    Json.bool.injEq, Json.string.injEq, countJson_injective.eq_iff,
    (orNullJson_injective retriesJson_injective (fun _ => nofun)).eq_iff,
    (orNullJson_injective statusJson_injective (fun _ => nofun)).eq_iff,
    (orNullJson_injective string_injective (fun _ => nofun)).eq_iff] at h
  cases a
  cases b
  simp_all

end LiveMemmove.RunOutcome

namespace AwaitMemmove.RunOutcome

variable (outcome : RunOutcome)

def members : List Json.Written :=
  [.ofReads "device_path" (by decide) (reads_stringText outcome.devicePath),
    .ofReads "requested_bytes" (by decide) (reads_countText outcome.requestedBytes),
    .ofReads "page_fault_retries" (by decide)
      (reads_orNull (fun n : BitVec 32 => reads_countText n.toNat) outcome.pageFaultRetries),
    .ofReads "final_status" (by decide) (reads_orNull reads_statusText outcome.finalStatus),
    .ofReads "phase" (by decide) (reads_stringText outcome.phase),
    .ofReads "error_kind" (by decide) (reads_orNull reads_stringText outcome.errorKind),
    .ofReads "lifecycle_failure_kind" (by decide) (reads_orNull reads_stringText outcome.lifecycleFailureKind),
    .ofReads "worker_failure_kind" (by decide) (reads_orNull reads_stringText outcome.workerFailureKind),
    .ofReads "validation_phase" (by decide) (reads_orNull reads_stringText outcome.validationPhase),
    .ofReads "validation_error_kind" (by decide) (reads_orNull reads_stringText outcome.validationErrorKind),
    .ofReads "message" (by decide) (reads_stringText outcome.message)]

theorem decode_renderJson : Json.decode outcome.renderJson =
    if ∀ s ∈ outcome.strings, ∀ c ∈ s.toList, Escapable c then some outcome.toJson else none := by
  refine Json.Written.decode_writeObject_of_valid (.ofReads "ok" (by decide) (reads_boolText outcome.ok))
    (members outcome) ?_
  simp [members, Json.Written.ofReads, strings, all_iff_forall_toList, or_imp, forall_and]

theorem toJson_injective : Function.Injective toJson := by
  intro a b h
  simp only [toJson, Json.object.injEq, List.cons.injEq, Prod.mk.injEq, true_and, and_true,
    Json.bool.injEq, Json.string.injEq, countJson_injective.eq_iff,
    (orNullJson_injective retriesJson_injective (fun _ => nofun)).eq_iff,
    (orNullJson_injective statusJson_injective (fun _ => nofun)).eq_iff,
    (orNullJson_injective string_injective (fun _ => nofun)).eq_iff] at h
  cases a
  cases b
  simp_all

end AwaitMemmove.RunOutcome

end DsaStdexec.Ffi

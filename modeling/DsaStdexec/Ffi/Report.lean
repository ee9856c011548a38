import DsaStdexec.Lib.Json

/-!
# The reports of `live_memmove` and `await_memmove`

The two programs print what came of a memmove as JSON, with templates of their own. Strings are lists
of their characters where they are rendered.
-/

namespace DsaStdexec.Ffi

open DsaStdexec.Lib

/-! ## Rendering -/

def escapeChar : Char → List Char
  | '"' => ['\\', '"']
  | '\\' => ['\\', '\\']
  | '\n' => ['\\', 'n']
  | '\r' => ['\\', 'r']
  | '\t' => ['\\', 't']
  | other => [other]

def escapeJson (value : List Char) : List Char := value.flatMap escapeChar

/-- `format!("0x{status:02x}")` -/
def hexStatus (status : BitVec 8) : List Char :=
  ['0', 'x', Nat.digitChar (status.toNat / 16), Nat.digitChar (status.toNat % 16)]

def quoted (text : List Char) : List Char := '"' :: (text ++ ['"'])

def boolText (b : Bool) : List Char := if b then "true".toList else "false".toList

/-- `.map(text).unwrap_or_else(|| "null".to_string())` -/
def orNull {α : Type} (text : α → List Char) : Option α → List Char
  | none => "null".toList
  | some a => text a

def stringText (s : String) : List Char := quoted (escapeJson s.toList)

def statusText (status : BitVec 8) : List Char := quoted (hexStatus status)

def countText (n : Nat) : List Char := Nat.toDigits 10 n

/-! ## What a report stands for -/

def orNullJson {α : Type} (value : α → Json Json.Decimal) : Option α → Json Json.Decimal
  | none => .null
  | some a => value a

def countJson (n : Nat) : Json Json.Decimal := .number ⟨n, 0⟩

def statusJson (status : BitVec 8) : Json Json.Decimal := .string (String.ofList (hexStatus status))

/-- A control character only if `escape_json` escapes it. -/
def Escapable (c : Char) : Prop := c.toNat < 0x20 → c = '\n' ∨ c = '\r' ∨ c = '\t'

instance (c : Char) : Decidable (Escapable c) :=
  inferInstanceAs (Decidable (c.toNat < 0x20 → c = '\n' ∨ c = '\r' ∨ c = '\t'))

-- decided by the characters of the text, not by trying all that there are
instance (s : List Char) : Decidable (∀ c ∈ s, Escapable c) := List.decidableBAll Escapable s

/-! ## The two programs -/

namespace LiveMemmove

structure RunOutcome where
  ok : Bool
  devicePath : String
  requestedBytes : Nat
  pageFaultRetries : Option (BitVec 32)
  finalStatus : Option (BitVec 8)
  phase : String
  errorKind : Option String
  message : String

namespace RunOutcome

variable (outcome : RunOutcome)

def renderJson : List Char :=
  Json.writeObject
    [("ok", boolText outcome.ok),
      ("device_path", stringText outcome.devicePath),
      ("requested_bytes", countText outcome.requestedBytes),
      ("page_fault_retries", orNull (fun n => countText n.toNat) outcome.pageFaultRetries),
      ("final_status", orNull statusText outcome.finalStatus),
      ("phase", stringText outcome.phase),
      ("error_kind", orNull stringText outcome.errorKind),
      ("message", stringText outcome.message)]

/-- The fields of the outcome. -/
def toJson : Json Json.Decimal :=
  .object
    [("ok", .bool outcome.ok),
      ("device_path", .string outcome.devicePath),
      ("requested_bytes", countJson outcome.requestedBytes),
      ("page_fault_retries", orNullJson (fun n => countJson n.toNat) outcome.pageFaultRetries),
      ("final_status", orNullJson statusJson outcome.finalStatus),
      ("phase", .string outcome.phase),
      ("error_kind", orNullJson .string outcome.errorKind),
      ("message", .string outcome.message)]

def strings : List String :=
  [outcome.devicePath, outcome.phase] ++ outcome.errorKind.toList ++ [outcome.message]

end RunOutcome

end LiveMemmove

namespace AwaitMemmove

structure RunOutcome where
  ok : Bool
  devicePath : String
  requestedBytes : Nat
  pageFaultRetries : Option (BitVec 32)
  finalStatus : Option (BitVec 8)
  phase : String
  errorKind : Option String
  lifecycleFailureKind : Option String
  workerFailureKind : Option String
  validationPhase : Option String
  validationErrorKind : Option String
  message : String

namespace RunOutcome

variable (outcome : RunOutcome)

def renderJson : List Char :=
  Json.writeObject
    [("ok", boolText outcome.ok),
      ("device_path", stringText outcome.devicePath),
      ("requested_bytes", countText outcome.requestedBytes),
      ("page_fault_retries", orNull (fun n => countText n.toNat) outcome.pageFaultRetries),
      ("final_status", orNull statusText outcome.finalStatus),
      ("phase", stringText outcome.phase),
      ("error_kind", orNull stringText outcome.errorKind),
      ("lifecycle_failure_kind", orNull stringText outcome.lifecycleFailureKind),
      ("worker_failure_kind", orNull stringText outcome.workerFailureKind),
      ("validation_phase", orNull stringText outcome.validationPhase),
      ("validation_error_kind", orNull stringText outcome.validationErrorKind),
      ("message", stringText outcome.message)]

/-- The fields of the outcome. -/
def toJson : Json Json.Decimal :=
  .object
    [("ok", .bool outcome.ok),
      ("device_path", .string outcome.devicePath),
      ("requested_bytes", countJson outcome.requestedBytes),
      ("page_fault_retries", orNullJson (fun n => countJson n.toNat) outcome.pageFaultRetries),
      ("final_status", orNullJson statusJson outcome.finalStatus),
      ("phase", .string outcome.phase),
      ("error_kind", orNullJson .string outcome.errorKind),
      ("lifecycle_failure_kind", orNullJson .string outcome.lifecycleFailureKind),
      ("worker_failure_kind", orNullJson .string outcome.workerFailureKind),
      ("validation_phase", orNullJson .string outcome.validationPhase),
      ("validation_error_kind", orNullJson .string outcome.validationErrorKind),
      ("message", .string outcome.message)]

def strings : List String :=
  [outcome.devicePath, outcome.phase] ++ outcome.errorKind.toList ++
    outcome.lifecycleFailureKind.toList ++ outcome.workerFailureKind.toList ++
    outcome.validationPhase.toList ++ outcome.validationErrorKind.toList ++ [outcome.message]

end RunOutcome

end AwaitMemmove

end DsaStdexec.Ffi

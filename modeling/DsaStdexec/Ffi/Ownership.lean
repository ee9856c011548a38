import DsaStdexec.Ffi.Session
import DsaStdexec.Lib.Machine

/-!
# Who owns the memory of a `memmove`

The same call next to a device that is not bound to it: the device may write into the destination of any
descriptor that it has not completed, and it may complete a descriptor at any time, after the call has
returned as well. Every descriptor names the record in the stack frame of `memmove_inner`.
-/

namespace DsaStdexec.Ffi

open DsaStdexec.Lib DsaStdexec.Operation

structure MemmoveArgs where
  session : DsaSession
  place : Placement
  src : List UInt8
  dst : List UInt8

inductive MemmoveControl where
  /-- `poll_completion` has read the status `spins` times. -/
  | polling (request : MemmoveRequest) (state : PendingMemmove) (retries : BitVec 32) (spins : Nat)
  | returned (result : Except MemmoveError MemmoveValidationReport)
  deriving DecidableEq

structure Submission where
  desc : HwDesc
  completed : Bool

structure MemmoveCall where
  control : MemmoveControl
  record : CompletionRecord
  submissions : List Submission
  dst : List UInt8

inductive MemmoveAction where
  /-- `poll_completion` reads the status once more, and the call goes on with what it sees. -/
  | read
  /-- The device writes byte `k` of the destination buffer for a descriptor. -/
  | write (j k : Nat) (byte : UInt8)
  | complete (j : Nat) (record : CompletionRecord)

namespace MemmoveCall

/-- The record after `reset_completion`. -/
def blank : CompletionRecord := ⟨0, 0, 0, 0, 0⟩

variable (args : MemmoveArgs)

/-- The start of an iteration of the loop: a fresh record and one more descriptor. -/
def submit (request : MemmoveRequest) (state : PendingMemmove) (retries : BitVec 32)
    (submissions : List Submission) (dst : List UInt8) : MemmoveCall where
  control := .polling request state retries 0
  record := blank
  submissions := submissions ++ [⟨state.fillDescriptor args.place.comp, false⟩]
  dst := dst

def init : MemmoveCall :=
  match MemmoveRequest.forBuffers args.dst.length args.src.length with
  | .error e => ⟨.returned (.error e), blank, [], args.dst⟩
  | .ok request =>
      submit args request (.new args.place.src args.place.dst request) 0 [] args.dst

/-- The rest of the call, up to the next poll, once `poll_completion` has returned `status`. -/
def settle (c : MemmoveCall) (request : MemmoveRequest) (state : PendingMemmove) (retries : BitVec 32)
    (status : BitVec 8) : MemmoveCall :=
  match resume args.session.config request state retries (.fromRecord c.record status) with
  | .returned (.error e) => { c with control := .returned (.error e) }
  | .returned (.ok report) =>
      { c with control := .returned (args.session.verify request c.dst args.src report) }
  | .resubmit state retries => submit args request state retries c.submissions c.dst

def step (c : MemmoveCall) : MemmoveAction → Option MemmoveCall
  | .read =>
      match c.control with
      | .returned _ => none
      | .polling request state retries spins =>
          if c.record.status ≠ compNone then
            some (c.settle args request state retries (c.record.status &&& compStatusMask))
          else if spins + 1 < maxSpins then
            some { c with control := .polling request state retries (spins + 1) }
          else some (c.settle args request state retries completionTimeoutStatus)
  | .write j k byte =>
      c.submissions[j]?.bind fun x =>
        if x.completed = false ∧ InDestination args.place.dst x.desc k then
          some { c with dst := c.dst.set k byte }
        else none
  | .complete j record =>
      c.submissions[j]?.bind fun x =>
        if x.completed = false ∧ record.status ≠ compNone then
          some { c with record := record, submissions := c.submissions.set j { x with completed := true } }
        else none

def machine : Machine MemmoveCall MemmoveAction where
  init := init args
  step := step args

end MemmoveCall

end DsaStdexec.Ffi

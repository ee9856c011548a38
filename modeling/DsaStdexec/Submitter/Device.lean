import DsaStdexec.Lib.Loans
import DsaStdexec.Submitter.FixedRing
import DsaStdexec.Submitter.Staging

/-!
# The device behind the portal

A doorbell for a batch gives the device two addresses: that of the list, which it reads entry by entry
at some time before it answers, and that of the completion record, to which it then writes. The
submitter goes on in the meantime. A doorbell for a single descriptor carries the descriptor itself, and
the record that the device answers it in belongs to whoever built the descriptor.

The steps of a submitter are those of its machine without the answers; the device reads and answers the
doorbells that it was given, in any order.
-/

namespace DsaStdexec.Submitter

open DsaStdexec.Lib

/-- A doorbell with the addresses that it carries. -/
inductive Work (D A R : Type*) where
  | single (d : D)
  | batch (descList : A) (descCount : Nat) (completion : R)
  deriving DecidableEq, Repr

/-- A status that the device writes. -/
def Answer : Type := { status : UInt8 // status ≠ 0 }

/-- What the device has to do with a submitter. `A` are the addresses of lists and `R` the completion
records. -/
structure Port (σ α D A R : Type*) where
  machine : Machine σ α
  complete : R → UInt8 → α
  isComplete : α → Bool
  desc? : α → Option D
  portal : σ → List (Doorbell D)
  /-- `desc_list_addr` and `completion_addr` of the batch that a step between two states rings. -/
  addresses : σ → σ → A × R
  entry : σ → A → Nat → D
  status : σ → R → UInt8
  setStatus : σ → R → UInt8 → σ
  staged : σ → List D
  /-- The descriptors of the calls of `submit_descriptor` that have not stored them yet. -/
  pending : σ → List D

namespace Port

variable {σ α D A R : Type*} (P : Port σ α D A R)

def work (s s' : σ) : Doorbell D → Work D A R
  | .single d => .single d
  | .batch descCount _ => .batch (P.addresses s s').1 descCount (P.addresses s s').2

def calls : Machine σ α where
  init := P.machine.init
  step := fun s a => if P.isComplete a then none else P.machine.step s a

def lender : Lender σ α (Work D A R) Nat D Answer where
  machine := P.calls
  opens := fun s s' => ((P.portal s').drop (P.portal s).length).map (P.work s s')
  covers
    | .single _, k => k = 0
    | .batch _ descCount _, k => k < descCount
  look s
    | .single d, _ => d
    | .batch descList _ _, k => P.entry s descList k
  giveBack s
    | .single _, _ => s
    | .batch _ _ completion, answer => P.setStatus s completion answer.1

abbrev State (_ : Port σ α D A R) : Type _ := Market σ (Work D A R) Nat D

/-- The submitter with the device. -/
def system : Machine P.State (MarketAction α Nat Answer) := P.lender.market

/-- The descriptors passed to `submit_descriptor` in a run. -/
def submitted (as : List (MarketAction α Nat Answer)) : List D :=
  (as.filterMap MarketAction.own?).filterMap P.desc?

end Port

/-- The device has read everything that a doorbell asks for, and this is what it read. -/
def Fetched {D A R : Type*} (l : Loan (Work D A R) Nat D) (read : List D) : Prop :=
  match l.item with
  | .single d => read = [d]
  | .batch _ descCount _ =>
      read.length = descCount ∧ ∀ k, k < descCount → l.seen k = read[k]?

instance {D A R : Type*} [DecidableEq D] (l : Loan (Work D A R) Nat D) (read : List D) :
    Decidable (Fetched l read) :=
  match h : l.item with
  | .single d => decidable_of_iff (read = [d]) (by simp [Fetched, h])
  | .batch _ n _ =>
      decidable_of_iff (read.length = n ∧ ∀ k, k < n → l.seen k = read[k]?) (by simp [Fetched, h])

/-! ## The submitters -/

namespace StagingSystem

variable {D : Type*} [Inhabited D]

def port (args : InitArgs) : Port (StagingSystem D) (StagingAction D) D Bool Bool where
  machine := machine args
  complete := .complete
  isComplete
    | .complete _ _ => true
    | _ => false
  desc? := StagingAction.desc?
  portal := fun s => s.sub.direct.portal
  addresses := fun s _ => (s.sub.activeBuf, s.sub.activeBuf)
  entry := fun s b k => s.sub.staged b k
  status := fun s b => s.sub.batchStatus b
  setStatus := fun s b status => { s with sub := s.sub.setStatus b status }
  staged := fun s => s.sub.list
  pending := fun _ => []

end StagingSystem

def FixedAction.desc? {D : Type*} : FixedAction D → Option D
  | .submit d => some d
  | _ => none

namespace FixedSystem

open RingSubmitter (batchIndex)

variable {D : Type*} [Inhabited D]

/-- `flush` is empty. -/
def port (args : InitArgs) : Port (FixedSystem D) (FixedAction D) D Nat Nat where
  machine := machine args
  complete := .complete
  isComplete
    | .complete _ _ => true
    | _ => false
  desc? := FixedAction.desc?
  portal := fun s => s.ring.direct.portal
  addresses := fun s _ => (batchIndex s.ring.batchFill, batchIndex s.ring.batchFill)
  entry := fun s i k => (s.ring.batches i).descs k
  status := fun s i => (s.ring.batches i).status
  setStatus := fun s i status => { s with ring := s.ring.setStatus i status }
  staged := fun s => if s.ring.current.state = .filling then s.ring.current.list else []
  pending := fun s =>
    match s.call with
    | some (.waitSlot d) => [d]
    | _ => []

end FixedSystem

namespace RingSystem

open RingSubmitter (batchIndex)

variable {D : Type*} [Inhabited D]

/-- A list is addressed by the slot in which it starts. `flush` is empty. -/
def port (k : RingKind) (args : InitArgs) : Port (RingSystem D) (RingAction D) D Nat Nat where
  machine := machine k args
  complete := .complete
  isComplete
    | .complete _ _ => true
    | _ => false
  desc? := RingAction.desc?
  portal := fun s => s.ring.direct.portal
  addresses := fun s s' =>
    ((s'.ring.batches (batchIndex s.ring.batchFill)).start, batchIndex s.ring.batchFill)
  entry := fun s start i => s.ring.descRing ((Geometry.ofArgs k args).cell (start + i))
  status := fun s i => (s.ring.batches i).status
  setStatus := fun s i status => { s with ring := s.ring.setStatus i status }
  staged := fun s =>
    if s.ring.current.state = .filling then
      s.ring.listAt (Geometry.ofArgs k args) s.ring.current.start s.ring.current.count
    else []
  pending := fun s => s.stack.filterMap RingFrame.desc?

end RingSystem

end DsaStdexec.Submitter

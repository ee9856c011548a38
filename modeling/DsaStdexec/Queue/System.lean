import DsaStdexec.Lib.Machine
import DsaStdexec.Queue.Pointers
import Mathlib.Data.Multiset.Filter

/-!
# A task queue that one thread drives

Any sequence of calls of `push` and `poll`. `poll` first takes the completed operations out of the queue
and then notifies them one by one. A callback may push operations, call `poll` again and destroy its own
operation: from the moment of its notification the queue may not access an operation any more, until it
is pushed again.
-/

namespace DsaStdexec.Queue

open DsaStdexec.Lib

/-- A call of `poll` that has not returned; `notifying` says that a callback is running. -/
structure Frame (O : Type) where
  completedHead : Option O
  count : Nat
  notifying : Bool

inductive Event (O : Type) where
  | pushed (o : O)
  | notified (o : O)
  | returned (n : Nat)
deriving DecidableEq

inductive Action (O : Type) where
  | push (o : O)
  /-- `check` is what `check_completion` returns during the sweep. -/
  | poll (check : O → Bool)
  /-- The pending `poll` notifies the next operation or returns. -/
  | advance
  | callbackReturn

/-- `log` is not in the source. -/
structure System {O : Type} (I : Implementation O) where
  heap : Heap O
  store : I.Store
  stack : List (Frame O)
  log : List (Event O)

namespace System

variable {O : Type} {I : Implementation O}

def init : System I where
  heap := ⟨fun _ => none, []⟩
  store := I.init
  stack := []
  log := []

variable (s : System I)

/-- The program or a callback is running. -/
def callable : Bool :=
  match s.stack with
  | [] => true
  | f :: _ => f.notifying

variable [DecidableEq O]

/-- The loop over `completed_head`, up to the call of `notify` or to the end. -/
def advance : Option (System I) :=
  match s.stack with
  | ⟨some op, count, false⟩ :: rest => do
      let completedHead ← s.heap.read op
      some
        { s with
          heap := s.heap.release op
          stack := ⟨completedHead, count, true⟩ :: rest
          log := s.log ++ [.notified op] }
  | ⟨none, count, false⟩ :: rest =>
      some { s with stack := rest, log := s.log ++ [.returned count] }
  | _ => none

/-- An operation is pushed when it is not in the queue. -/
def step (s : System I) : Action O → Option (System I)
  | .push o =>
      if s.callable ∧ o ∉ s.heap.owned then do
        let (heap, store) ← I.push s.heap s.store o
        some { s with heap := heap, store := store, log := s.log ++ [.pushed o] }
      else none
  | .poll check =>
      if s.callable then do
        let (heap, store, completedHead, count) ← I.sweep check s.heap s.store
        some
          { s with
            heap := heap
            store := store
            stack := ⟨completedHead, count, false⟩ :: s.stack }
      else none
  | .advance => s.advance
  | .callbackReturn =>
      match s.stack with
      | ⟨completedHead, count, true⟩ :: rest =>
          some { s with stack := ⟨completedHead, count + I.perNotify, false⟩ :: rest }
      | _ => none

def machine (I : Implementation O) : Machine (System I) (Action O) where
  init := init
  step := step

/-- Nothing is pushed to a full ring. -/
def WithinCapacity (s : System I) : Action O → Prop
  | .push _ => I.hasRoom s.store = true
  | _ => True

/-- Callbacks do not call `poll`. -/
def Unnested (s : System I) : Action O → Prop
  | .poll _ => s.stack = []
  | _ => True

end System

/-! ## What a task queue is for -/

structure BagFrame (O : Type) where
  todo : Multiset O
  total : Nat
  notifying : Bool

/-- The operations that have been pushed, and the calls of `poll` with those that they have still to
notify and the number that they return. -/
structure Bag (O : Type) where
  pending : Multiset O
  stack : List (BagFrame O)
  log : List (Event O)

namespace Bag

variable {O : Type} [DecidableEq O]

def init : Bag O := ⟨0, [], []⟩

def callable (b : Bag O) : Bool :=
  match b.stack with
  | [] => true
  | f :: _ => f.notifying

/-- `poll` takes the completed operations out of the bag, notifies each of them once, in any order, and
returns their number. -/
inductive Step (b : Bag O) : Action O → Bag O → Prop where
  | B_Push {o} (hc : b.callable = true) :
      Step b (.push o) { b with pending := o ::ₘ b.pending, log := b.log ++ [.pushed o] }
  | B_Poll {check : O → Bool} (hc : b.callable = true) :
      Step b (.poll check)
        { b with
          pending := b.pending.filter fun o => !check o
          stack := ⟨b.pending.filter fun o => check o, (b.pending.filter fun o => check o).card, false⟩ ::
            b.stack }
  | B_Notify {o todo total rest} (hst : b.stack = ⟨o ::ₘ todo, total, false⟩ :: rest) :
      Step b .advance
        { b with stack := ⟨todo, total, true⟩ :: rest, log := b.log ++ [.notified o] }
  | B_Return {total rest} (hst : b.stack = ⟨0, total, false⟩ :: rest) :
      Step b .advance { b with stack := rest, log := b.log ++ [.returned total] }
  | B_CallbackReturn {todo total rest} (hst : b.stack = ⟨todo, total, true⟩ :: rest) :
      Step b .callbackReturn { b with stack := ⟨todo, total, false⟩ :: rest }

inductive Run : Bag O → List (Action O) → Bag O → Prop where
  | nil {b} : Run b [] b
  | cons {b a b' as b''} (h : Step b a b') (hr : Run b' as b'') : Run b (a :: as) b''

end Bag

/-- The values that calls of `poll` have returned, oldest first. -/
def returns {O : Type} : List (Event O) → List Nat
  | [] => []
  | .returned n :: log => n :: returns log
  | _ :: log => returns log

/-- What has been pushed before each call of `poll` and since the last one, with the completions that the
call has seen. -/
def rounds {O : Type} : List (Action O) → Multiset O → List (Multiset O × (O → Bool))
  | [], _ => []
  | .push o :: as, pushed => rounds as (o ::ₘ pushed)
  | .poll check :: as, pushed => (pushed, check) :: rounds as 0
  | .advance :: as, pushed => rounds as pushed
  | .callbackReturn :: as, pushed => rounds as pushed

end DsaStdexec.Queue

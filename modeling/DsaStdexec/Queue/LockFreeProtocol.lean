import DsaStdexec.Lib.LinkedList
import DsaStdexec.Lib.Machine

/-!
# `LockFreeTaskQueue` with several producers

`push` on any number of threads and `poll` on one. The loads, exchanges and compare-exchanges of `head_`
are steps of their own, and so is every iteration of a loop over a list of one thread. A compare-exchange
may fail although the values are equal. An operation may be pushed again as soon as it has been notified,
by its callback or by any other thread.
-/

namespace DsaStdexec.Queue

open DsaStdexec.Lib

/-- Where a thread is in the loop that puts `op` in front of the list. -/
inductive Insertion (O : Type) where
  | loading (op : O)
  /-- It is going to write `op->next`. -/
  | linking (op : O) (oldHead : Option O)
  /-- It is going to compare and exchange. -/
  | swapping (op : O) (oldHead : Option O)

def Insertion.op {O : Type} : Insertion O → O
  | .loading op | .linking op _ | .swapping op _ => op

/-- Where the polling thread is in `poll`. -/
inductive Poller (O : Type) where
  | idle
  | reversing (localHead reversed : Option O)
  | splitting (reversed completed pending : Option O)
  | readding (completed pending : Option O)
  | inserting (completed pending : Option O) (insertion : Insertion O)
  | notifying (completed : Option O) (count : Nat)

inductive LockFreeEvent (O : Type) where
  /-- A call of `push` has begun. -/
  | pushed (o : O)
  /-- `check_completion` has returned true. -/
  | checked (o : O)
  | notified (o : O)
deriving DecidableEq

/-- `owned` are the operations that have been pushed and not yet notified; it is not in the source, and
neither is `log`. -/
structure LockFreeProtocol (T O : Type) where
  next : O → Option O
  head : Option O
  producers : T → Option (Insertion O)
  poller : Poller O
  owned : List O
  log : List (LockFreeEvent O)

inductive LockFreeAction (T O : Type) where
  | push (t : T) (op : O)
  /-- The next step of the `push` on thread `t`. -/
  | produce (t : T) (spurious : Bool)
  /-- The exchange of `poll`. -/
  | poll
  /-- The next step of `poll`; `check` is what `check_completion` returns in it. -/
  | advance (check spurious : Bool)

namespace LockFreeProtocol

variable {T O : Type}

def init : LockFreeProtocol T O where
  next := fun _ => none
  head := none
  producers := fun _ => none
  poller := .idle
  owned := []
  log := []

variable [DecidableEq O] (s : LockFreeProtocol T O)

/-- One step of the loop of `push`, and where the thread is then; `none` when the exchange succeeds. -/
def insert (spurious : Bool) : Insertion O → LockFreeProtocol T O × Option (Insertion O)
  | .loading op => (s, some (.linking op s.head))
  | .linking op oldHead =>
      ({ s with next := Function.update s.next op oldHead }, some (.swapping op oldHead))
  | .swapping op oldHead =>
      if s.head = oldHead ∧ spurious = false then ({ s with head := some op }, none)
      else (s, some (.linking op s.head))

def advance (check spurious : Bool) : Option (LockFreeProtocol T O) :=
  match s.poller with
  | .idle => none
  | .reversing (some localHead) reversed =>
      some
        { s with
          next := Function.update s.next localHead reversed
          poller := .reversing (s.next localHead) (some localHead) }
  | .reversing none reversed => some { s with poller := .splitting reversed none none }
  | .splitting (some op) completed pending =>
      if check then
        some
          { s with
            next := Function.update s.next op completed
            poller := .splitting (s.next op) (some op) pending
            log := s.log ++ [.checked op] }
      else
        some
          { s with
            next := Function.update s.next op pending
            poller := .splitting (s.next op) completed (some op) }
  | .splitting none completed pending => some { s with poller := .readding completed pending }
  | .readding completed (some op) =>
      some { s with poller := .inserting completed (s.next op) (.loading op) }
  | .readding completed none => some { s with poller := .notifying completed 0 }
  | .inserting completed pending insertion =>
      match s.insert spurious insertion with
      | (s, some insertion) => some { s with poller := .inserting completed pending insertion }
      | (s, none) => some { s with poller := .readding completed pending }
  | .notifying (some op) count =>
      some
        { s with
          poller := .notifying (s.next op) (count + 1)
          owned := s.owned.erase op
          log := s.log ++ [.notified op] }
  | .notifying none _ => some { s with poller := .idle }

variable [DecidableEq T]

/-- An operation is pushed when it is not in the queue. -/
def step (s : LockFreeProtocol T O) : LockFreeAction T O → Option (LockFreeProtocol T O)
  | .push t op =>
      match s.producers t with
      | none =>
          if op ∉ s.owned then
            some
              { s with
                producers := Function.update s.producers t (some (.loading op))
                owned := op :: s.owned
                log := s.log ++ [.pushed op] }
          else none
      | some _ => none
  | .produce t spurious =>
      match s.producers t with
      | none => none
      | some insertion =>
          let (s, insertion) := s.insert spurious insertion
          some { s with producers := Function.update s.producers t insertion }
  | .poll =>
      match s.poller, s.head with
      | .idle, none => some s
      | .idle, some localHead => some { s with head := none, poller := .reversing (some localHead) none }
      | _, _ => none
  | .advance check spurious => s.advance check spurious

def machine : Machine (LockFreeProtocol T O) (LockFreeAction T O) where
  init := init
  step := step

end LockFreeProtocol

end DsaStdexec.Queue

import DsaStdexec.Lib.LinkedList
import DsaStdexec.Lib.Lock
import Mathlib.Data.Multiset.Filter

/-!
# `LockedTaskQueue` with several threads

`push`, `poll` and `empty` on any number of threads, with any lock. Each access to `head_`, to a field
`next` or to the word of the lock is a step of its own. `poll` notifies outside of the lock: a callback
may call `push`, `poll` and `empty` on its thread, and destroy its own operation. The queue may access
the operations that have been pushed and not yet notified; any other access is `none`.
-/

namespace DsaStdexec.Queue

open DsaStdexec.Lib

inductive LockedCall (O : Type) where
  | push (op : O)
  | poll
  | empty

inductive LockedResult where
  | pushed
  | polled (count : Nat)
  | tested (result : Bool)

/-- What a call leaves the lock with. -/
inductive LockedOutcome (O : Type) where
  | pushed
  | swept (completed : Option O)
  | tested (result : Bool)

/-- The next access of a call. -/
inductive LockedFrame (S O : Type) where
  | locking (call : LockedCall O) (spin : S)
  /-- `push` reads `head_`. -/
  | loading (op : O)
  /-- `op->next = head_` -/
  | linking (op : O) (head : Option O)
  /-- `head_ = op` -/
  | publishing (op : O)
  /-- `poll` reads `head_`. -/
  | starting
  /-- `check_completion(curr)`, or the end of the loop. -/
  | checking (pprev : Link O) (curr completed : Option O)
  /-- `curr` is completed; reads `curr->next`. -/
  | detaching (pprev : Link O) (curr : O) (completed : Option O)
  /-- `*pprev = next` -/
  | storing (pprev : Link O) (curr : O) (next completed : Option O)
  /-- `curr->next = completed_head` -/
  | chaining (pprev : Link O) (curr : O) (completed : Option O)
  /-- `curr = *pprev` -/
  | reloading (pprev : Link O) (completed : Option O)
  /-- `curr` is not completed; reads `curr->next`. -/
  | passing (curr : O) (completed : Option O)
  /-- `empty` reads `head_`. -/
  | testing
  | unlocking (outcome : LockedOutcome O)
  /-- The loop over `completed_head`, outside of the lock; reads `op->next`. -/
  | notifying (completed : Option O) (count : Nat)
  /-- `op->notify()` -/
  | invoking (op : O) (completed : Option O) (count : Nat)

/-- `callbacks` are the calls of `poll` that wait for a callback to return, the innermost one first; a
call that is running was made by the callback of the first of them. -/
structure LockedThread (S O : Type) where
  frame : Option (LockedFrame S O)
  callbacks : List (Option O × Nat)

inductive LockedEvent (T O : Type) where
  | called (t : T) (call : LockedCall O)
  | notified (t : T) (op : O)
  | returned (t : T) (result : LockedResult)
  | finished (op : O)
  | reused (op : O)

/-- `ready` is what `check_completion` returns. The field `owned` of the heap, which are the operations
that have been pushed and not yet notified, is not in the source, and neither is `log`. -/
structure LockedProtocol (L : Lock) (T O : Type) where
  word : L.Word
  head : Option O
  heap : Heap O
  ready : O → Bool
  threads : T → LockedThread L.Spin O
  log : List (LockedEvent T O)

inductive LockedAction (T O : Type) where
  | call (t : T) (call : LockedCall O)
  /-- The next access of the call on thread `t`. -/
  | advance (t : T)
  | callbackReturn (t : T)
  /-- The device completes an operation. -/
  | finish (op : O)
  /-- An operation that is not in the queue is prepared for another start. -/
  | reuse (op : O)

/-- A step of thread `t` in a call that it has made. -/
def LockedAction.Of {T O : Type} (t : T) (a : LockedAction T O) : Prop :=
  a = .advance t ∨ a = .callbackReturn t

/-- Steps of the calls that are running, and no new calls. -/
def LockedAction.Running {T O : Type} (a : LockedAction T O) : Prop := ∃ t, a.Of t

/-- How a thread goes on after an access. -/
inductive LockedNext (S O : Type) where
  | goto (frame : LockedFrame S O)
  | callback (op : O) (completed : Option O) (count : Nat)
  | returns (result : LockedResult)

namespace LockedFrame

variable {S O : Type}

/-- The first access with the lock. -/
def entered : LockedCall O → LockedFrame S O
  | .push op => .loading op
  | .poll => .starting
  | .empty => .testing

/-- The thread has the lock. -/
def inside : LockedFrame S O → Bool
  | .locking _ _ | .notifying _ _ | .invoking _ _ _ => false
  | _ => true

def linkOperands : Link O → List O
  | .head => []
  | .next n => [n]

/-- The operations that the next access reads, writes or notifies. -/
def operands : LockedFrame S O → List O
  | .linking op _ | .checking _ (some op) _ | .detaching _ op _ | .chaining _ op _ | .passing op _
  | .notifying (some op) _ | .invoking op _ _ => [op]
  | .storing pprev _ _ _ | .reloading pprev _ => linkOperands pprev
  | _ => []

/-- The next access reads or writes `head_`. -/
def touchesHead : LockedFrame S O → Bool
  | .loading _ | .publishing _ | .starting | .storing .head _ _ _ | .reloading .head _ | .testing => true
  | _ => false

end LockedFrame

namespace LockedProtocol

variable {L : Lock} {T O : Type}

def init : LockedProtocol L T O where
  word := L.init
  head := none
  heap := ⟨fun _ => none, []⟩
  ready := fun _ => false
  threads := fun _ => ⟨none, []⟩
  log := []

variable [DecidableEq O] (s : LockedProtocol L T O)

def access : LockedFrame L.Spin O → Option (LockedProtocol L T O × LockedNext L.Spin O)
  | .locking call spin =>
      match L.attempt s.word spin with
      | (word, some spin) => some ({ s with word := word }, .goto (.locking call spin))
      | (word, none) => some ({ s with word := word }, .goto (.entered call))
  | .loading op => some (s, .goto (.linking op s.head))
  | .linking op head => do
      let heap ← s.heap.write op head
      some ({ s with heap := heap }, .goto (.publishing op))
  | .publishing op => some ({ s with head := some op }, .goto (.unlocking .pushed))
  | .starting => some (s, .goto (.checking .head s.head none))
  | .checking _ none completed => some (s, .goto (.unlocking (.swept completed)))
  | .checking pprev (some curr) completed => do
      if ← s.heap.test s.ready curr then some (s, .goto (.detaching pprev curr completed))
      else some (s, .goto (.passing curr completed))
  | .detaching pprev curr completed => do
      let next ← s.heap.read curr
      some (s, .goto (.storing pprev curr next completed))
  | .storing pprev curr next completed => do
      let (heap, head) ← s.heap.store s.head next pprev
      some ({ s with heap := heap, head := head }, .goto (.chaining pprev curr completed))
  | .chaining pprev curr completed => do
      let heap ← s.heap.write curr completed
      some ({ s with heap := heap }, .goto (.reloading pprev (some curr)))
  | .reloading pprev completed => do
      let curr ← s.heap.load s.head pprev
      some (s, .goto (.checking pprev curr completed))
  | .passing curr completed => do
      let next ← s.heap.read curr
      some (s, .goto (.checking (.next curr) next completed))
  | .testing => some (s, .goto (.unlocking (.tested s.head.isNone)))
  | .unlocking outcome =>
      let s := { s with word := L.unlock s.word }
      match outcome with
      | .pushed => some (s, .returns .pushed)
      | .swept completed => some (s, .goto (.notifying completed 0))
      | .tested result => some (s, .returns (.tested result))
  | .notifying none count => some (s, .returns (.polled count))
  | .notifying (some op) count => do
      let completed ← s.heap.read op
      some (s, .goto (.invoking op completed count))
  | .invoking op completed count =>
      if op ∈ s.heap.owned then
        some ({ s with heap := s.heap.release op }, .callback op completed count)
      else none

variable [DecidableEq T]

def setThread (t : T) (thread : LockedThread L.Spin O) : LockedProtocol L T O :=
  { s with threads := Function.update s.threads t thread }

def record (e : LockedEvent T O) : LockedProtocol L T O := { s with log := s.log ++ [e] }

def proceed (t : T) : LockedNext L.Spin O → LockedProtocol L T O
  | .goto frame => s.setThread t ⟨some frame, (s.threads t).callbacks⟩
  | .callback op completed count =>
      (s.setThread t ⟨none, (completed, count) :: (s.threads t).callbacks⟩).record (.notified t op)
  | .returns result => (s.setThread t ⟨none, (s.threads t).callbacks⟩).record (.returned t result)

/-- An operation is pushed when it is not in the queue. -/
def begin (t : T) : LockedCall O → Option (LockedProtocol L T O)
  | .push op =>
      if op ∉ s.heap.owned then
        some (({ s with heap := s.heap.acquire op }.setThread t
          ⟨some (.locking (.push op) L.enter), (s.threads t).callbacks⟩).record (.called t (.push op)))
      else none
  | call =>
      some ((s.setThread t ⟨some (.locking call L.enter), (s.threads t).callbacks⟩).record
        (.called t call))

def step (s : LockedProtocol L T O) : LockedAction T O → Option (LockedProtocol L T O)
  | .call t call =>
      match (s.threads t).frame with
      | none => s.begin t call
      | some _ => none
  | .advance t => do
      let frame ← (s.threads t).frame
      let (s, next) ← s.access frame
      some (s.proceed t next)
  | .callbackReturn t =>
      match s.threads t with
      | ⟨none, (completed, count) :: callbacks⟩ =>
          some (s.setThread t ⟨some (.notifying completed (count + 1)), callbacks⟩)
      | _ => none
  | .finish op => some ({ s with ready := Function.update s.ready op true }.record (.finished op))
  | .reuse op =>
      if op ∉ s.heap.owned then
        some ({ s with ready := Function.update s.ready op false }.record (.reused op))
      else none

def machine (L : Lock) (T O : Type) [DecidableEq O] [DecidableEq T] :
    Machine (LockedProtocol L T O) (LockedAction T O) where
  init := init
  step := step

end LockedProtocol

/-! ## Accounts -/

section Accounts

variable {T O : Type} [DecidableEq O]

/-- How often `op` has been pushed. -/
def pushes (op : O) : List (LockedEvent T O) → Nat
  | [] => 0
  | .called _ (.push o) :: log => (if o = op then 1 else 0) + pushes op log
  | _ :: log => pushes op log

def notifications (op : O) : List (LockedEvent T O) → Nat
  | [] => 0
  | .notified _ o :: log => (if o = op then 1 else 0) + notifications op log
  | _ :: log => notifications op log

end Accounts

/-! ## What the queue is for -/

/-- A call between its invocation and its return. `seen` are the operations that were in the bag and
completed when the call was made, as far as they have not been notified since. -/
inductive BagStage (O : Type) where
  | invoked (call : LockedCall O) (seen : O → Bool)
  | done (result : LockedResult)
  | notifying (todo : List O) (total : Nat)

structure BagThread (O : Type) where
  stage : Option (BagStage O)
  callbacks : List (List O × Nat)

def BagStage.forget {O : Type} [DecidableEq O] (op : O) : BagStage O → BagStage O
  | .invoked call seen => .invoked call (Function.update seen op false)
  | stage => stage

def BagThread.forget {O : Type} [DecidableEq O] (op : O) (thread : BagThread O) : BagThread O :=
  { thread with stage := thread.stage.map (BagStage.forget op) }

/-- A bag that any number of threads share. -/
structure SharedBag (T O : Type) where
  pending : Multiset O
  ready : O → Bool
  threads : T → BagThread O
  log : List (LockedEvent T O)

namespace SharedBag

variable {T O : Type} [DecidableEq O]

def init : SharedBag T O := ⟨0, fun _ => false, fun _ => ⟨none, []⟩, []⟩

variable [DecidableEq T]

def setThread (b : SharedBag T O) (t : T) (thread : BagThread O) : SharedBag T O :=
  { b with threads := Function.update b.threads t thread }

def record (b : SharedBag T O) (e : LockedEvent T O) : SharedBag T O := { b with log := b.log ++ [e] }

def seen (b : SharedBag T O) : O → Bool := fun o => b.ready o && decide (o ∈ b.pending)

def forget (b : SharedBag T O) (op : O) : SharedBag T O :=
  { b with threads := fun u => (b.threads u).forget op }

/-- Every call takes effect in one step between its invocation and its return. `poll` takes operations
that are completed, and all that it has seen; it then notifies each of them once, in any order. -/
inductive Step (b : SharedBag T O) : SharedBag T O → Prop where
  | B_Call {t call callbacks} (ht : b.threads t = ⟨none, callbacks⟩) :
      Step b ((b.setThread t ⟨some (.invoked call b.seen), callbacks⟩).record (.called t call))
  | B_Push {t op seen callbacks} (ht : b.threads t = ⟨some (.invoked (.push op) seen), callbacks⟩) :
      Step b ({ b with pending := op ::ₘ b.pending }.setThread t ⟨some (.done .pushed), callbacks⟩)
  | B_Poll {t seen callbacks} {taken : List O} {rest : Multiset O}
      (ht : b.threads t = ⟨some (.invoked .poll seen), callbacks⟩)
      (hp : b.pending = (taken : Multiset O) + rest) (hready : ∀ o ∈ taken, b.ready o = true)
      (hseen : ∀ o ∈ rest, seen o = false) :
      Step b ({ b with pending := rest }.setThread t ⟨some (.notifying taken taken.length), callbacks⟩)
  | B_Empty {t seen callbacks} (ht : b.threads t = ⟨some (.invoked .empty seen), callbacks⟩) :
      Step b (b.setThread t ⟨some (.done (.tested (decide (b.pending = 0)))), callbacks⟩)
  | B_Notify {t op todo total callbacks}
      (ht : b.threads t = ⟨some (.notifying (op :: todo) total), callbacks⟩) :
      Step b (((b.forget op).setThread t ⟨none, (todo, total) :: callbacks⟩).record (.notified t op))
  | B_CallbackReturn {t todo total callbacks} (ht : b.threads t = ⟨none, (todo, total) :: callbacks⟩) :
      Step b (b.setThread t ⟨some (.notifying todo total), callbacks⟩)
  | B_Polled {t total callbacks} (ht : b.threads t = ⟨some (.notifying [] total), callbacks⟩) :
      Step b ((b.setThread t ⟨none, callbacks⟩).record (.returned t (.polled total)))
  | B_Return {t result callbacks} (ht : b.threads t = ⟨some (.done result), callbacks⟩) :
      Step b ((b.setThread t ⟨none, callbacks⟩).record (.returned t result))
  | B_Finish {op} :
      Step b ({ b with ready := Function.update b.ready op true }.record (.finished op))
  | B_Reuse {op} (ho : op ∉ b.pending) :
      Step b ({ b with ready := Function.update b.ready op false }.record (.reused op))

inductive Reachable : SharedBag T O → Prop where
  | init : Reachable init
  | step {b b'} (hr : Reachable b) (h : Step b b') : Reachable b'

end SharedBag

end DsaStdexec.Queue

import DsaStdexec.Engine.TaskQueue
import DsaStdexec.Lib.LinkedList
import Mathlib.Algebra.Ring.Nat

/-!
# The task queues and their pointers

`push`, the part of `poll` before the first notification, and `empty` of the four queues, on the field
`next` that all operations share. A queue may access the operations that have been pushed and not yet
notified; any other access is `none`, and so is a loop that does not end. A loop that follows `next`
comes to an operation once, unless it is caught in a cycle, so the number of operations bounds its
iterations.
-/

namespace DsaStdexec.Queue

open DsaStdexec.Lib DsaStdexec.Engine

/-- What the queues have in common. `sweep` returns the pointer `completed_head` and the value of the
counter that `poll` returns; the loop over `completed_head` adds `perNotify` to it for each operation.
`hasRoom` says that the queue is below its capacity. `heads` are the lists that the queue keeps, and
`slots` the operations that it keeps outside of lists. -/
structure Implementation (O : Type) where
  Store : Type
  init : Store
  push : Heap O → Store → O → Option (Heap O × Store)
  sweep : (O → Bool) → Heap O → Store → Option (Heap O × Store × Option O × Nat)
  perNotify : Nat
  isEmpty : Store → Bool
  hasRoom : Store → Bool
  heads : Store → List (Option O)
  slots : Store → List O

variable {O : Type} [DecidableEq O]

/-! ## `LockedTaskQueue` -/

def lockedLoop (check : O → Bool) : Nat → Heap O → Option O → Link O → Option O → Option O →
    Option (Heap O × Option O × Option O)
  | _, heap, head, _, none, completed => some (heap, head, completed)
  | 0, _, _, _, some _, _ => none
  | n + 1, heap, head, pprev, some curr, completed => do
      if ← heap.test check curr then
        let (heap, head) ← heap.store head (← heap.read curr) pprev
        let heap ← heap.write curr completed
        lockedLoop check n heap head pprev (← heap.load head pprev) (some curr)
      else
        lockedLoop check n heap head (.next curr) (← heap.read curr) completed

/-- One thread does not see the lock. `completed_count` of the source is not used by it. -/
def locked (O : Type) [DecidableEq O] : Implementation O where
  Store := Option O
  init := none
  push := fun heap head op => ((heap.acquire op).write op head).map (·, some op)
  sweep := fun check heap head => do
    let (heap, head, completed) ← lockedLoop check heap.owned.length heap head .head head none
    some (heap, head, completed, 0)
  perNotify := 1
  isEmpty := Option.isNone
  hasRoom := fun _ => true
  heads := fun head => [head]
  slots := fun _ => []

/-! ## `RingBufferTaskQueue` -/

/-- The counters are `size_t` in the source, where they wrap after 2^64 operations. -/
structure RingBuffer (O : Type) where
  head : Nat
  tail : Nat
  buffer : Nat → Option O
  sequence : Nat → Nat
  pendingHead : Option O

/-- As in `LockedTaskQueue`, but `curr` moves on before its field is overwritten. -/
def pendingLoop (check : O → Bool) : Nat → Heap O → Option O → Link O → Option O → Option O →
    Option (Heap O × Option O × Option O)
  | _, heap, pendingHead, _, none, completed => some (heap, pendingHead, completed)
  | 0, _, _, _, some _, _ => none
  | n + 1, heap, pendingHead, pprev, some curr, completed => do
      if ← heap.test check curr then
        let (heap, pendingHead) ← heap.store pendingHead (← heap.read curr) pprev
        let next ← heap.read curr
        let heap ← heap.write curr completed
        pendingLoop check n heap pendingHead pprev next (some curr)
      else
        pendingLoop check n heap pendingHead (.next curr) (← heap.read curr) completed

namespace RingBuffer

def init : RingBuffer O where
  head := 0
  tail := 0
  buffer := fun _ => none
  sequence := id
  pendingHead := none

/-- `push`, which waits until the cell is free; one thread would wait forever. -/
def push (capacity : Nat) (q : RingBuffer O) (op : O) : Option (RingBuffer O) :=
  let slot := q.tail
  let index := slot &&& (capacity - 1)
  if q.sequence index = slot then
    some
      { q with
        tail := slot + 1
        buffer := Function.update q.buffer index (some op)
        sequence := Function.update q.sequence index (slot + 1) }
  else none

/-- The loop that counts the available operations; the number is what is left of the capacity. -/
def countLoop (capacity : Nat) (sequence : Nat → Nat) (head : Nat) : Nat → Nat → Nat
  | 0, available => available
  | n + 1, available =>
      if sequence ((head + available) &&& (capacity - 1)) ≠ head + available + 1 then available
      else countLoop capacity sequence head n (available + 1)

def consumeLoop (capacity : Nat) (check : O → Bool) (buffer : Nat → Option O) : Nat → Nat → Heap O →
    Option O → Option O → Option (Heap O × Option O × Option O)
  | 0, _, heap, pendingHead, completed => some (heap, pendingHead, completed)
  | n + 1, pos, heap, pendingHead, completed => do
      let op ← buffer (pos &&& (capacity - 1))
      if ← heap.test check op then
        let heap ← heap.write op completed
        consumeLoop capacity check buffer n (pos + 1) heap pendingHead (some op)
      else
        let heap ← heap.write op pendingHead
        consumeLoop capacity check buffer n (pos + 1) heap (some op) completed

def releaseLoop (capacity : Nat) : Nat → Nat → (Nat → Nat) → Nat → Nat
  | 0, _, sequence => sequence
  | n + 1, pos, sequence =>
      releaseLoop capacity n (pos + 1)
        (Function.update sequence (pos &&& (capacity - 1)) (pos + capacity))

def sweep (capacity : Nat) (check : O → Bool) (heap : Heap O) (q : RingBuffer O) :
    Option (Heap O × RingBuffer O × Option O × Nat) := do
  let (heap, pendingHead, completed) ←
    pendingLoop check heap.owned.length heap q.pendingHead .head q.pendingHead none
  let available := countLoop capacity q.sequence q.head capacity 0
  let (heap, pendingHead, completed) ←
    consumeLoop capacity check q.buffer available q.head heap pendingHead completed
  let q :=
    { q with
      head := if available > 0 then q.head + available else q.head
      sequence := releaseLoop capacity available q.head q.sequence
      pendingHead := pendingHead }
  some (heap, q, completed, 0)

def isEmpty (capacity : Nat) (q : RingBuffer O) : Bool :=
  if q.pendingHead ≠ none then false
  else q.sequence (q.head &&& (capacity - 1)) ≠ q.head + 1

/-- The operations in the ring, oldest first. -/
def slots (capacity : Nat) (q : RingBuffer O) : List O :=
  (List.range (q.tail - q.head)).filterMap fun i => q.buffer ((q.head + i) &&& (capacity - 1))

end RingBuffer

def ringBuffer (capacity : Nat) (O : Type) [DecidableEq O] : Implementation O where
  Store := RingBuffer O
  init := RingBuffer.init
  push := fun heap q op => (q.push capacity op).map (heap.acquire op, ·)
  sweep := RingBuffer.sweep capacity
  perNotify := 1
  isEmpty := RingBuffer.isEmpty capacity
  hasRoom := fun q => q.tail - q.head < capacity
  heads := fun q => [q.pendingHead]
  slots := RingBuffer.slots capacity

/-! ## `LockFreeTaskQueue` -/

def reverseLoop : Nat → Heap O → Option O → Option O → Option (Heap O × Option O)
  | _, heap, none, reversed => some (heap, reversed)
  | 0, _, some _, _ => none
  | n + 1, heap, some localHead, reversed => do
      let next ← heap.read localHead
      let heap ← heap.write localHead reversed
      reverseLoop n heap next (some localHead)

def splitLoop (check : O → Bool) : Nat → Heap O → Option O → Option O → Option O →
    Option (Heap O × Option O × Option O)
  | _, heap, none, completed, pending => some (heap, completed, pending)
  | 0, _, some _, _, _ => none
  | n + 1, heap, some op, completed, pending => do
      let reversed ← heap.read op
      if ← heap.test check op then
        let heap ← heap.write op completed
        splitLoop check n heap reversed (some op) pending
      else
        let heap ← heap.write op pending
        splitLoop check n heap reversed completed (some op)

/-- A compare-exchange that fails spuriously is repeated with the same head, so one thread does not
see it. -/
def readdLoop : Nat → Heap O → Option O → Option O → Option (Heap O × Option O)
  | _, heap, none, head => some (heap, head)
  | 0, _, some _, _ => none
  | n + 1, heap, some op, head => do
      let pending ← heap.read op
      let heap ← heap.write op head
      readdLoop n heap pending (some op)

def lockFreeSweep (check : O → Bool) (heap : Heap O) (head : Option O) :
    Option (Heap O × Option O × Option O × Nat) :=
  match head with
  | none => some (heap, none, none, 0)
  | some localHead => do
      let (heap, reversed) ← reverseLoop heap.owned.length heap (some localHead) none
      let (heap, completed, pending) ← splitLoop check heap.owned.length heap reversed none none
      let (heap, head) ← readdLoop heap.owned.length heap pending none
      some (heap, head, completed, 0)

def lockFree (O : Type) [DecidableEq O] : Implementation O where
  Store := Option O
  init := none
  push := fun heap head op => ((heap.acquire op).write op head).map (·, some op)
  sweep := lockFreeSweep
  perNotify := 1
  isEmpty := Option.isNone
  hasRoom := fun _ => true
  heads := fun head => [head]
  slots := fun _ => []

/-! ## `IndexedTaskQueue` -/

/-- The number bounds the iterations: each one shortens `active_` or moves `i` on. -/
def indexedLoop (check : O → Bool) : Nat → Heap O → List O → Nat → Option O → Nat →
    Option (Heap O × List O × Option O × Nat)
  | 0, heap, active, _, completedHead, completed => some (heap, active, completedHead, completed)
  | n + 1, heap, active, i, completedHead, completed =>
      match active[i]? with
      | none => some (heap, active, completedHead, completed)
      | some op => do
          if ← heap.test check op then
            let heap ← heap.write op completedHead
            indexedLoop check n heap (swapPop active i) i (some op) (completed + 1)
          else
            indexedLoop check n heap active (i + 1) completedHead completed

/-- The count is that of the sweep. The prefetches have no effect. -/
def indexed (O : Type) [DecidableEq O] : Implementation O where
  Store := List O
  init := []
  push := fun heap active op => some (heap.acquire op, active ++ [op])
  sweep := fun check heap active => indexedLoop check active.length heap active 0 none 0
  perNotify := 0
  isEmpty := List.isEmpty
  hasRoom := fun _ => true
  heads := fun _ => []
  slots := id

/-! ## All four -/

/-- The capacity of the ring buffer is a power of two. -/
inductive Kind where
  | locked
  | ringBuffer (k : Nat)
  | lockFree
  | indexed

def Kind.implementation (O : Type) [DecidableEq O] : Kind → Implementation O
  | .locked => Queue.locked O
  | .ringBuffer k => Queue.ringBuffer (2 ^ k) O
  | .lockFree => Queue.lockFree O
  | .indexed => Queue.indexed O

/-- The same queues without pointers. -/
def Kind.taskQueue (O : Type) : Kind → TaskQueue O
  | .locked => lockedTaskQueue O
  | .ringBuffer k => ringBufferTaskQueue (2 ^ k) O
  | .lockFree => lockFreeTaskQueue O
  | .indexed => indexedTaskQueue O

end DsaStdexec.Queue

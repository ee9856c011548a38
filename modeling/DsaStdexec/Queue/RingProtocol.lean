import DsaStdexec.Lib.Machine
import DsaStdexec.Queue.Pointers
import Mathlib.Data.Finset.Basic

/-!
# `RingBufferTaskQueue` with several producers

`push` on any number of threads and the part of `poll` that works on the ring, on one thread. Every load
and store of `head_`, `tail_`, `sequence_` and `buffer_` is a step of its own.
-/

namespace DsaStdexec.Queue

open DsaStdexec.Lib

/-- Where a thread is in `push`. -/
inductive Producer (O : Type) where
  | idle
  /-- It has its ticket and spins on the sequence number of its cell. -/
  | waiting (op : O) (slot : Nat)
  /-- It has seen its ticket there and is going to write the cell. -/
  | writing (op : O) (slot : Nat)
  /-- It has written the cell and is going to store the sequence number. -/
  | storing (op : O) (slot : Nat)

/-- Where the other thread is in `poll`. -/
inductive Consumer where
  | idle
  /-- It is going to load the sequence number behind the `available` operations. -/
  | counting (head available : Nat)
  /-- It is going to read the `i`-th of the available operations. -/
  | reading (head available i : Nat)
  | releasing (head available i : Nat)

/-- `tickets` are the operations in the order of their tickets, `taken` those that `poll` has read from
the ring, and `written` and `stored` the tickets whose cell and whose sequence number have been written;
these are not in the source. -/
structure RingProtocol (T O : Type) where
  queue : RingBuffer O
  producers : T → Producer O
  consumer : Consumer
  tickets : List O
  taken : List O
  written : Finset Nat
  stored : Finset Nat

inductive RingAction (T O : Type) where
  /-- The `fetch_add` of `push(op)` on thread `t`. -/
  | push (t : T) (op : O)
  /-- The next step of the `push` on thread `t`. -/
  | produce (t : T)
  /-- `poll` loads `head_`. -/
  | poll
  /-- The next step of `poll`. -/
  | consume

def RingAction.isConsume {T O : Type} : RingAction T O → Bool
  | .consume => true
  | _ => false

namespace RingProtocol

variable {T O : Type}

def init : RingProtocol T O where
  queue := RingBuffer.init
  producers := fun _ => .idle
  consumer := .idle
  tickets := []
  taken := []
  written := ∅
  stored := ∅

variable (capacity : Nat) (s : RingProtocol T O)

def consume : Option (RingProtocol T O) :=
  match s.consumer with
  | .idle => none
  | .counting head available =>
      let checkPos := head + available
      if s.queue.sequence (checkPos &&& (capacity - 1)) ≠ checkPos + 1 then
        some { s with consumer := .reading head available 0 }
      else if available + 1 ≥ capacity then
        some { s with consumer := .reading head (available + 1) 0 }
      else some { s with consumer := .counting head (available + 1) }
  | .reading head available i =>
      if i < available then
        (s.queue.buffer ((head + i) &&& (capacity - 1))).map fun op =>
          { s with consumer := .reading head available (i + 1), taken := s.taken ++ [op] }
      else some { s with consumer := .releasing head available 0 }
  | .releasing head available i =>
      if i < available then
        let pos := head + i
        some
          { s with
            queue :=
              { s.queue with
                sequence :=
                  Function.update s.queue.sequence (pos &&& (capacity - 1)) (pos + capacity) }
            consumer := .releasing head available (i + 1) }
      else
        some
          { s with
            queue := { s.queue with head := if available > 0 then head + available else s.queue.head }
            consumer := .idle }

variable [DecidableEq T]

def produce (t : T) : Option (RingProtocol T O) :=
  match s.producers t with
  | .idle => none
  | .waiting op slot =>
      if s.queue.sequence (slot &&& (capacity - 1)) ≠ slot then some s
      else some { s with producers := Function.update s.producers t (.writing op slot) }
  | .writing op slot =>
      some
        { s with
          queue :=
            { s.queue with
              buffer := Function.update s.queue.buffer (slot &&& (capacity - 1)) (some op) }
          producers := Function.update s.producers t (.storing op slot)
          written := insert slot s.written }
  | .storing _ slot =>
      some
        { s with
          queue :=
            { s.queue with
              sequence := Function.update s.queue.sequence (slot &&& (capacity - 1)) (slot + 1) }
          producers := Function.update s.producers t .idle
          stored := insert slot s.stored }

def step (s : RingProtocol T O) : RingAction T O → Option (RingProtocol T O)
  | .push t op =>
      match s.producers t with
      | .idle =>
          some
            { s with
              queue := { s.queue with tail := s.queue.tail + 1 }
              producers := Function.update s.producers t (.waiting op s.queue.tail)
              tickets := s.tickets ++ [op] }
      | _ => none
  | .produce t => s.produce capacity t
  | .poll =>
      match s.consumer with
      | .idle => some { s with consumer := .counting s.queue.head 0 }
      | _ => none
  | .consume => s.consume capacity

def machine : Machine (RingProtocol T O) (RingAction T O) where
  init := init
  step := step capacity

end RingProtocol

end DsaStdexec.Queue

import Mathlib.Data.List.Basic

/-!
# Task queues

The queues of operations that wait for their completion, driven by one thread. `poll` first takes the
completed operations out of the queue and then notifies them; the first part is `sweep`, and the
notifications are steps of the engine, since a callback may use the queue again.
-/

namespace DsaStdexec.Engine

/-- What the engine uses of a task queue. `push` returns `none` where it spins for room that only the
same thread could make. `sweep` returns the completed operations in the order in which they are
notified. `contents` are the pending operations, in any order. -/
structure TaskQueue (O : Type) where
  Store : Type
  empty : Store
  push : Store → O → Option Store
  sweep : (O → Bool) → Store → List O × Store
  contents : Store → List O
  contents_empty : contents empty = []
  push_perm : ∀ {s s' o}, push s o = some s' → (contents s').Perm (o :: contents s)
  done_perm : ∀ p s, (sweep p s).1.Perm ((contents s).filter p)
  kept_perm : ∀ p s, (contents (sweep p s).2).Perm ((contents s).filter fun o => !p o)

variable {O : Type}

/-! ## The loops of the queues -/

/-- Walk a linked list and move the completed operations to the front of `done`. -/
def detach (p : O → Bool) : List O → List O → List O × List O
  | [], done => (done, [])
  | o :: os, done =>
      if p o then detach p os (o :: done)
      else ((detach p os done).1, o :: (detach p os done).2)

/-- Walk a list of operations and put each one in front of `done` or of `pending`. -/
def distribute (p : O → Bool) : List O → List O → List O → List O × List O
  | [], done, pending => (done, pending)
  | o :: os, done, pending =>
      if p o then distribute p os (o :: done) pending else distribute p os done (o :: pending)

def pushAll : List O → List O → List O
  | [], head => head
  | o :: os, head => pushAll os (o :: head)

def swapPop (active : List O) (i : Nat) : List O :=
  match active.getLast? with
  | none => []
  | some last => (active.set i last).dropLast

/-- The loop over `active_`; the number bounds the iterations. -/
def sweepActive (p : O → Bool) : Nat → List O → Nat → List O → List O × List O
  | 0, active, _, done => (done, active)
  | n + 1, active, i, done =>
      match active[i]? with
      | none => (done, active)
      | some o =>
          if p o then sweepActive p n (swapPop active i) i (o :: done)
          else sweepActive p n active (i + 1) done

/-- The part of `RingBufferTaskQueue` that one thread can tell apart: the list of operations that an
earlier `poll` found incomplete, and the operations in the ring, oldest first. -/
structure RingStore (O : Type) where
  pending : List O
  ring : List O

/-! ## The laws -/

variable {p : O → Bool}

theorem detach_eq (l done : List O) :
    detach p l done = ((l.filter p).reverse ++ done, l.filter fun o => !p o) := by
  induction l generalizing done with
  | nil => rfl
  | cons o os ih =>
      cases hp : p o with
      | true => simp [detach, hp, ih]
      | false => simp [detach, hp, ih]

theorem distribute_eq (l done pending : List O) : distribute p l done pending =
    ((l.filter p).reverse ++ done, (l.filter fun o => !p o).reverse ++ pending) := by
  induction l generalizing done pending with
  | nil => rfl
  | cons o os ih =>
      cases hp : p o with
      | true => simp [distribute, hp, ih]
      | false => simp [distribute, hp, ih]

theorem pushAll_eq (l head : List O) : pushAll l head = l.reverse ++ head := by
  induction l generalizing head with
  | nil => rfl
  | cons o os ih => simp [pushAll, ih]

/-- Taking an operation out of the middle moves the last one to its place. -/
theorem swapPop_perm (pre : List O) (o : O) (rest : List O) :
    ∃ rest', swapPop (pre ++ o :: rest) pre.length = pre ++ rest' ∧ rest'.Perm rest := by
  rcases List.eq_nil_or_concat rest with rfl | ⟨init, last, rfl⟩
  · exact ⟨[], by simp [swapPop], .refl _⟩
  · rw [List.concat_eq_append]
    have hsplit : pre ++ o :: (init ++ [last]) = (pre ++ o :: init) ++ [last] := by simp
    have hset : ((pre ++ o :: init) ++ [last]).set pre.length last = (pre ++ last :: init) ++ [last] := by
      simp
    refine ⟨last :: init, ?_, (List.perm_append_singleton last init).symm⟩
    rw [swapPop, hsplit, List.getLast?_concat]
    simp only [hset, List.dropLast_concat]

theorem sweepActive_perm (n : Nat) (pre post done : List O) (hn : post.length ≤ n) :
    (sweepActive p n (pre ++ post) pre.length done).1.Perm (post.filter p ++ done) ∧
    (sweepActive p n (pre ++ post) pre.length done).2.Perm (pre ++ post.filter fun o => !p o) := by
  induction n generalizing pre post done with
  | zero =>
      obtain rfl := List.length_eq_zero_iff.mp (Nat.le_zero.mp hn)
      exact ⟨.refl _, .refl _⟩
  | succ n ih =>
      cases post with
      | nil => simp [sweepActive]
      | cons o rest =>
          have hget : (pre ++ o :: rest)[pre.length]? = some o := by simp
          cases hp : p o with
          | true =>
              obtain ⟨rest', hswap, hperm⟩ := swapPop_perm pre o rest
              simp only [sweepActive, hget, hp, ↓reduceIte, hswap]
              obtain ⟨h1, h2⟩ := ih pre rest' (o :: done) (by
                have := hperm.length_eq
                simp only [List.length_cons] at hn
                omega)
              refine ⟨h1.trans ?_, h2.trans ?_⟩
              · simp only [List.filter_cons, hp, ↓reduceIte, List.cons_append]
                exact List.perm_middle.trans (((hperm.filter p).append_right done).cons o)
              · simpa [hp] using (hperm.filter fun o => !p o).append_left pre
          | false =>
              simp only [sweepActive, hget, hp]
              have hsplit : pre ++ o :: rest = (pre ++ [o]) ++ rest := by simp
              have hlen : pre.length + 1 = (pre ++ [o]).length := by simp
              rw [hsplit, hlen]
              obtain ⟨h1, h2⟩ := ih (pre ++ [o]) rest done (by simpa using hn)
              exact ⟨by simpa [hp] using h1, by simpa [hp] using h2⟩

/-! ## The queues -/

/-- `LockedTaskQueue`, with any lock: the list behind `head_`. `SingleThreadTaskQueue` is the one
with `NullLock`. -/
def lockedTaskQueue (O : Type) : TaskQueue O where
  Store := List O
  empty := []
  push := fun head o => some (o :: head)
  sweep := fun p head => detach p head []
  contents := id
  contents_empty := rfl
  push_perm := by
    intro s s' o h
    cases h; exact .refl _
  done_perm := by
    intro p s
    simp [detach_eq]
  kept_perm := by
    intro p s
    simp [detach_eq]

abbrev singleThreadTaskQueue (O : Type) : TaskQueue O := lockedTaskQueue O

/-- `LockFreeTaskQueue`: `poll` takes the whole list, goes through it in the order of the pushes and
pushes the incomplete operations again. -/
def lockFreeTaskQueue (O : Type) : TaskQueue O where
  Store := List O
  empty := []
  push := fun head o => some (o :: head)
  sweep := fun p head =>
    ((distribute p head.reverse [] []).1, pushAll (distribute p head.reverse [] []).2 [])
  contents := id
  contents_empty := rfl
  push_perm := by
    intro s s' o h
    cases h; exact .refl _
  done_perm := by
    intro p s
    simp [distribute_eq, List.filter_reverse]
  kept_perm := by
    intro p s
    simp [distribute_eq, pushAll_eq, List.filter_reverse]

/-- `IndexedTaskQueue`: the vector `active_`. -/
def indexedTaskQueue (O : Type) : TaskQueue O where
  Store := List O
  empty := []
  push := fun active o => some (active ++ [o])
  sweep := fun p active => sweepActive p active.length active 0 []
  contents := id
  contents_empty := rfl
  push_perm := by
    intro s s' o h
    cases h; exact List.perm_append_singleton o s
  done_perm := by
    intro p s
    simpa using (sweepActive_perm (p := p) s.length [] s [] (Nat.le_refl _)).1
  kept_perm := by
    intro p s
    simpa using (sweepActive_perm (p := p) s.length [] s [] (Nat.le_refl _)).2

/-- `RingBufferTaskQueue` of the given capacity: `poll` goes through the pending list and then empties
the ring. -/
def ringBufferTaskQueue (capacity : Nat) (O : Type) : TaskQueue O where
  Store := RingStore O
  empty := ⟨[], []⟩
  push := fun s o => if s.ring.length < capacity then some { s with ring := s.ring ++ [o] } else none
  sweep := fun p s =>
    let r := detach p s.pending []
    let t := distribute p s.ring r.1 r.2
    (t.1, ⟨t.2, []⟩)
  contents := fun s => s.pending ++ s.ring
  contents_empty := rfl
  push_perm := by
    intro s s' o h
    split at h
    · cases h
      rw [← List.append_assoc]
      exact List.perm_append_singleton o _
    · cases h
  done_perm := by
    intro p s
    simp only [detach_eq, distribute_eq, List.filter_append, List.append_nil]
    exact ((List.reverse_perm _).append (List.reverse_perm _)).trans List.perm_append_comm
  kept_perm := by
    intro p s
    simp only [detach_eq, distribute_eq, List.filter_append, List.append_nil]
    exact ((List.reverse_perm _).append_right _).trans List.perm_append_comm

end DsaStdexec.Engine

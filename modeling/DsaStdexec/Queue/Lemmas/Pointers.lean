import DsaStdexec.Queue.Pointers

/-!
# What the loops of the queues do to the lists
-/

namespace DsaStdexec.Queue

open DsaStdexec.Lib DsaStdexec.Engine

variable {O : Type} [DecidableEq O] {heap : Heap O} {n : Nat}
  {head p q completed : Option O} {l done pending : List O}
  {ls : List (Option O × List O)} {loose : List O}

/-! ## Walking a list -/

/-- What one iteration of a loop that walks a list does: an operation that is not completed stays behind
the link that the loop goes on from, any other one is moved to the list at `completed`. -/
structure Walks (check : O → Bool)
    (loop : Nat → Heap O → Option O → Link O → Option O → Option O → Option (Heap O × Option O × Option O)) :
    Prop where
  stop : ∀ n heap head pprev completed, loop n heap head pprev none completed = some (heap, head, completed)
  keep : ∀ {n heap head completed front curr l done ls loose},
    Chains heap ((head, front ++ curr :: l) :: (completed, done) :: ls) loose → check curr = false →
      loop (n + 1) heap head (linkAfter front) (some curr) completed =
        loop n heap head (.next curr) l.head? completed
  take : ∀ {n heap head completed front curr l done ls loose},
    Chains heap ((head, front ++ curr :: l) :: (completed, done) :: ls) loose → check curr = true →
      ∃ heap' head', loop (n + 1) heap head (linkAfter front) (some curr) completed =
          loop n heap' head' (linkAfter front) l.head? (some curr) ∧
        Chains heap' ((head', front ++ l) :: (some curr, curr :: done) :: ls) loose

omit [DecidableEq O] in
/-- The loop moves the completed operations behind `front` to the list at `completed`. -/
theorem Walks.spec {check : O → Bool}
    {loop : Nat → Heap O → Option O → Link O → Option O → Option O → Option (Heap O × Option O × Option O)}
    (hloop : Walks check loop) (front : List O)
    (hc : Chains heap ((head, front ++ l) :: (completed, done) :: ls) loose)
    (hn : l.length ≤ n) : ∃ heap' head' completed',
      loop n heap head (linkAfter front) l.head? completed = some (heap', head', completed') ∧
      Chains heap' ((head', front ++ (detach check l done).2) ::
        (completed', (detach check l done).1) :: ls) loose := by
  induction l generalizing n heap head front completed done with
  | nil => exact ⟨heap, head, completed, hloop.stop _ _ _ _ _, hc⟩
  | cons curr l ih =>
      obtain ⟨n, rfl⟩ := Nat.exists_eq_succ_of_ne_zero (by simp at hn; omega : n ≠ 0)
      have hn' : l.length ≤ n := by simpa using hn
      rw [List.head?_cons]
      cases hcheck : check curr with
      | true =>
          obtain ⟨heap₁, head₁, htake, hc₁⟩ := hloop.take hc hcheck
          obtain ⟨heap', head', completed', hrest, hc'⟩ := ih _ hc₁ hn'
          exact ⟨heap', head', completed', htake.trans hrest, by simpa [detach, hcheck] using hc'⟩
      | false =>
          have hkeep := hloop.keep (n := n) hc hcheck
          rw [List.append_cons] at hc
          obtain ⟨heap', head', completed', hrest, hc'⟩ := ih _ hc hn'
          rw [linkAfter_concat] at hrest
          exact ⟨heap', head', completed', hkeep.trans hrest, by simpa [detach, hcheck] using hc'⟩

theorem lockedLoop_walks (check : O → Bool) : Walks check (lockedLoop check) where
  stop n _ _ _ _ := by cases n <;> rfl
  keep hc hcheck := by
    simp only [lockedLoop, Heap.test_of_mem hc.mid_owned, Heap.read_of_mem hc.mid_owned, hcheck,
      Option.bind_eq_bind, Option.bind_some, Bool.false_eq_true, if_false, hc.next_eq]
  take hc hcheck := by
    obtain ⟨heap₁, head₁, hstore, hc₁, hown₁, -⟩ := hc.unlink
    have hc₂ := hc₁.swap.link.swap
    refine ⟨_, head₁, ?_, hc₂⟩
    simp only [lockedLoop, Heap.test_of_mem hc.mid_owned, Heap.read_of_mem hc.mid_owned, hcheck,
      Option.bind_eq_bind, Option.bind_some, ↓reduceIte, hstore, Heap.write_of_mem (hown₁ ▸ hc.mid_owned),
      hc₂.load]

/-- The other order of the two statements makes no difference. -/
theorem pendingLoop_walks (check : O → Bool) : Walks check (pendingLoop check) where
  stop n _ _ _ _ := by cases n <;> rfl
  keep hc hcheck := by
    simp only [pendingLoop, Heap.test_of_mem hc.mid_owned, Heap.read_of_mem hc.mid_owned, hcheck,
      Option.bind_eq_bind, Option.bind_some, Bool.false_eq_true, if_false, hc.next_eq]
  take hc hcheck := by
    obtain ⟨heap₁, head₁, hstore, hc₁, hown₁, hnext⟩ := hc.unlink
    refine ⟨_, head₁, ?_, hc₁.swap.link.swap⟩
    simp only [pendingLoop, Heap.test_of_mem hc.mid_owned, Heap.read_of_mem hc.mid_owned, hcheck,
      Option.bind_eq_bind, Option.bind_some, ↓reduceIte, hstore, Heap.read_of_mem (hown₁ ▸ hc.mid_owned),
      Heap.write_of_mem (hown₁ ▸ hc.mid_owned), hnext]
    rw [hc.next_eq]

/-! ## Moving nodes from list to list -/

theorem reverseLoop_spec (hc : Chains heap ((p, l) :: (q, done) :: ls) loose) (hn : l.length ≤ n) :
    ∃ heap' q', reverseLoop n heap p q = some (heap', q') ∧
      Chains heap' ((q', l.reverse ++ done) :: ls) loose := by
  induction l generalizing n heap p q done with
  | nil =>
      obtain rfl := hc.empty_iff.mp rfl
      exact ⟨heap, q, by cases n <;> rfl, hc.drop⟩
  | cons o l ih =>
      obtain ⟨n, rfl⟩ := Nat.exists_eq_succ_of_ne_zero (by simp at hn; omega : n ≠ 0)
      obtain rfl := hc.head_eq
      obtain ⟨heap', q', hloop, hc'⟩ := ih hc.move (by simpa using hn)
      refine ⟨heap', q', ?_, by simpa using hc'⟩
      simp only [reverseLoop, Heap.read_of_mem hc.head_owned, Heap.write_of_mem hc.head_owned,
        Option.bind_eq_bind, Option.bind_some]
      exact hloop

theorem splitLoop_spec (check : O → Bool)
    (hc : Chains heap ((p, l) :: (completed, done) :: (q, pending) :: ls) loose)
    (hn : l.length ≤ n) : ∃ heap' completed' q',
      splitLoop check n heap p completed q = some (heap', completed', q') ∧
      Chains heap' ((completed', (distribute check l done pending).1) ::
        (q', (distribute check l done pending).2) :: ls) loose := by
  induction l generalizing n heap p completed q done pending with
  | nil =>
      obtain rfl := hc.empty_iff.mp rfl
      exact ⟨heap, completed, q, by cases n <;> rfl, hc.drop⟩
  | cons o l ih =>
      obtain ⟨n, rfl⟩ := Nat.exists_eq_succ_of_ne_zero (by simp at hn; omega : n ≠ 0)
      obtain rfl := hc.head_eq
      have hn' : l.length ≤ n := by simpa using hn
      simp only [splitLoop, Heap.read_of_mem hc.head_owned, Heap.test_of_mem hc.head_owned,
        Heap.write_of_mem hc.head_owned, Option.bind_eq_bind, Option.bind_some]
      cases hcheck : check o with
      | true =>
          simp only [distribute, hcheck, ↓reduceIte]
          exact ih hc.move hn'
      | false =>
          simp only [distribute, hcheck, Bool.false_eq_true, if_false]
          refine ih ?_ hn'
          exact (hc.perm_left (.cons _ (.swap _ _ _))).move.perm_left (.cons _ (.swap _ _ _))

theorem readdLoop_spec (hc : Chains heap ((p, l) :: (q, pending) :: ls) loose) (hn : l.length ≤ n) :
    ∃ heap' q', readdLoop n heap p q = some (heap', q') ∧
      Chains heap' ((q', pushAll l pending) :: ls) loose := by
  induction l generalizing n heap p q pending with
  | nil =>
      obtain rfl := hc.empty_iff.mp rfl
      exact ⟨heap, q, by cases n <;> rfl, hc.drop⟩
  | cons o l ih =>
      obtain ⟨n, rfl⟩ := Nat.exists_eq_succ_of_ne_zero (by simp at hn; omega : n ≠ 0)
      obtain rfl := hc.head_eq
      simp only [readdLoop, Heap.read_of_mem hc.head_owned, Heap.write_of_mem hc.head_owned,
        Option.bind_eq_bind, Option.bind_some]
      exact ih hc.move (by simpa using hn)

/-! ## Operations outside of lists -/

theorem consumeLoop_spec (check : O → Bool) {capacity pos : Nat} {buffer : Nat → Option O} {ring : List O}
    (hb : ∀ i o, ring[i]? = some o → buffer ((pos + i) &&& (capacity - 1)) = some o)
    (hc : Chains heap ((q, pending) :: (completed, done) :: ls) (ring ++ loose)) :
    ∃ heap' q' completed',
      RingBuffer.consumeLoop capacity check buffer ring.length pos heap q completed =
        some (heap', q', completed') ∧
      Chains heap' ((q', (distribute check ring done pending).2) ::
        (completed', (distribute check ring done pending).1) :: ls) loose := by
  induction ring generalizing pos heap q pending completed done with
  | nil => exact ⟨heap, q, completed, rfl, hc⟩
  | cons o ring ih =>
      have ho : buffer (pos &&& (capacity - 1)) = some o := hb 0 o rfl
      have hb' : ∀ i o, ring[i]? = some o → buffer ((pos + 1 + i) &&& (capacity - 1)) = some o := by
        intro i o' hi
        rw [Nat.add_assoc, Nat.add_comm 1 i]
        exact hb (i + 1) o' hi
      simp only [RingBuffer.consumeLoop, List.length_cons, ho, Heap.test_of_mem hc.loose_owned,
        Heap.write_of_mem hc.loose_owned, Option.bind_eq_bind, Option.bind_some]
      cases hcheck : check o with
      | true =>
          simp only [distribute, hcheck, ↓reduceIte]
          exact ih hb' hc.swap.link.swap
      | false =>
          simp only [distribute, hcheck, Bool.false_eq_true, if_false]
          exact ih hb' hc.link

theorem indexedLoop_spec (check : O → Bool) (pre : List O) (count : Nat) {post : List O}
    (hc : Chains heap ((completed, done) :: ls) (pre ++ post)) (hn : post.length ≤ n) :
    ∃ heap' completed' count',
      indexedLoop check n heap (pre ++ post) pre.length completed count = some (heap',
        (sweepActive check n (pre ++ post) pre.length done).2, completed', count') ∧
      count' + done.length =
        count + (sweepActive check n (pre ++ post) pre.length done).1.length ∧
      Chains heap' ((completed', (sweepActive check n (pre ++ post) pre.length done).1) :: ls)
        (sweepActive check n (pre ++ post) pre.length done).2 := by
  induction n generalizing heap pre post completed done count with
  | zero =>
      obtain rfl := List.length_eq_zero_iff.mp (Nat.le_zero.mp hn)
      exact ⟨heap, completed, count, rfl, rfl, hc⟩
  | succ n ih =>
      cases post with
      | nil => exact ⟨heap, completed, count, by simp [indexedLoop, sweepActive],
          by simp [sweepActive], by simpa [sweepActive] using hc⟩
      | cons o post =>
          have hget : (pre ++ o :: post)[pre.length]? = some o := by simp
          have hown : o ∈ heap.owned := hc.mem_owned.mpr (Or.inr (by simp))
          simp only [indexedLoop, sweepActive, hget, Heap.test_of_mem hown, Heap.write_of_mem hown,
            Option.bind_eq_bind, Option.bind_some]
          cases hcheck : check o with
          | true =>
              obtain ⟨post', hswap, hperm⟩ := swapPop_perm pre o post
              simp only [↓reduceIte, hswap]
              have hloose : (pre ++ o :: post).Perm (o :: (pre ++ post')) :=
                List.perm_middle.trans ((hperm.symm.append_left pre).cons o)
              have hlen := hperm.length_eq
              obtain ⟨heap', completed', count', hloop, hcount, hc'⟩ :=
                ih pre (count + 1) (hc.perm (.refl _) hloose).link (by simp at hn; omega)
              refine ⟨heap', completed', count', hloop, ?_, hc'⟩
              simp only [List.length_cons] at hcount
              omega
          | false =>
              have hsplit : pre ++ o :: post = (pre ++ [o]) ++ post := by simp
              have hlen : pre.length + 1 = (pre ++ [o]).length := by simp
              simp only [Bool.false_eq_true, if_false]
              rw [hsplit] at hc ⊢
              rw [hlen]
              exact ih (pre ++ [o]) count hc (by simpa using hn)

end DsaStdexec.Queue

import DsaStdexec.Lib.Index
import DsaStdexec.Queue.Lemmas.Pointers

/-!
# The queues with pointers do what the queues without pointers do
-/

namespace DsaStdexec.Queue

open DsaStdexec.Lib DsaStdexec.Engine

variable {O : Type} [DecidableEq O]

/-- `Rep s t ls loose`: the store `s` stands for `t` when `ls` are its lists and `loose` the operations
that it keeps outside of lists. The laws hold whatever other lists `fs` there are, and keep them. -/
structure Refinement (I : Implementation O) (Q : TaskQueue O) where
  Rep : I.Store → Q.Store → List (Option O × List O) → List O → Prop
  init : ∃ ls, Rep I.init Q.empty ls [] ∧ Chains ⟨fun _ => none, []⟩ ls []
  lists : ∀ {s t ls loose}, Rep s t ls loose → I.heads s = ls.map Prod.fst ∧ I.slots s = loose ∧
    (Q.contents t).Perm (ls.flatMap Prod.snd ++ loose)
  isEmpty : ∀ {s t ls loose heap fs}, Rep s t ls loose → Chains heap (ls ++ fs) loose →
    (I.isEmpty s = true ↔ Q.contents t = [])
  push : ∀ {s t ls loose heap fs o}, Rep s t ls loose → Chains heap (ls ++ fs) loose →
    I.hasRoom s = true → o ∉ heap.owned →
    ∃ heap' s' t' ls' loose', I.push heap s o = some (heap', s') ∧ Q.push t o = some t' ∧
      Rep s' t' ls' loose' ∧ Chains heap' (ls' ++ fs) loose'
  sweep : ∀ {s t ls loose heap fs} (check : O → Bool), Rep s t ls loose →
    Chains heap (ls ++ fs) loose →
    ∃ heap' s' completed count ls' loose', I.sweep check heap s = some (heap', s', completed, count) ∧
      count + I.perNotify * (Q.sweep check t).1.length = (Q.sweep check t).1.length ∧
      Rep s' (Q.sweep check t).2 ls' loose' ∧
      Chains heap' (ls' ++ (completed, (Q.sweep check t).1) :: fs) loose'

variable {heap : Heap O} {fs : List (Option O × List O)} {o : O}

omit [DecidableEq O] in
theorem chains_nil : Chains (⟨fun _ => none, []⟩ : Heap O) [(none, [])] [] where
  chain x hx := by
    cases List.mem_singleton.mp hx
    exact Chain.nil
  nodup := List.nodup_nil
  owned := .refl _

/-! ## Queues that are one list -/

omit [DecidableEq O] in
theorem perm_single (head : Option O) (l : List O) : l.Perm ([(head, l)].flatMap Prod.snd ++ []) := by
  simp

theorem pushList {head : Option O} {l : List O} (hc : Chains heap ((head, l) :: fs) [])
    (ho : o ∉ heap.owned) : ∃ heap', (heap.acquire o).write o head = some heap' ∧
      Chains heap' ((some o, o :: l) :: fs) [] := by
  have hc' := hc.acquire ho
  exact ⟨_, Heap.write_of_mem hc'.loose_owned, hc'.link⟩

def lockedRefinement : Refinement (locked O) (lockedTaskQueue O) where
  Rep head l ls loose := ls = [(head, l)] ∧ loose = []
  init := ⟨[(none, [])], ⟨rfl, rfl⟩, chains_nil⟩
  lists := by
    rintro s t ls loose ⟨rfl, rfl⟩
    exact ⟨rfl, rfl, perm_single _ _⟩
  isEmpty := by
    rintro s t ls loose heap fs ⟨rfl, rfl⟩ hc
    exact Option.isNone_iff_eq_none.trans hc.empty_iff.symm
  push := by
    rintro s t ls loose heap fs o ⟨rfl, rfl⟩ hc - ho
    obtain ⟨heap', hw, hc'⟩ := pushList hc ho
    exact ⟨heap', some o, o :: t, _, _, by simp [locked, hw], rfl, ⟨rfl, rfl⟩, hc'⟩
  sweep := by
    rintro s t ls loose heap fs check ⟨rfl, rfl⟩ hc
    obtain ⟨heap', head', completed', hloop, hc'⟩ :=
      (lockedLoop_walks check).spec [] hc.addEmpty.swap hc.length_le
    have hs : s = t.head? := by
      cases t with
      | nil => exact hc.empty_iff.mp rfl
      | cons o l => exact hc.head_eq
    refine ⟨heap', head', completed', 0, _, _, ?_, by simp [locked], ⟨rfl, rfl⟩, hc'⟩
    rw [← hs] at hloop
    simp only [locked, linkAfter, List.getLast?_nil] at hloop ⊢
    simp [hloop]

theorem lockFreeSweep_spec (check : O → Bool) {head : Option O} {l : List O}
    (hc : Chains heap ((head, l) :: fs) []) :
    ∃ heap' head' completed', lockFreeSweep check heap head = some (heap', head', completed', 0) ∧
      Chains heap' ((head', pushAll (distribute check l.reverse [] []).2 []) ::
        (completed', (distribute check l.reverse [] []).1) :: fs) [] := by
  cases l with
  | nil =>
      obtain rfl := hc.empty_iff.mp rfl
      exact ⟨heap, none, none, rfl, hc.addEmpty⟩
  | cons o l =>
      obtain rfl := hc.head_eq
      obtain ⟨heap₁, reversed, hrev, hc₁⟩ :=
        reverseLoop_spec hc.addEmpty.swap hc.length_le
      rw [List.append_nil] at hc₁
      obtain ⟨heap₂, completed, pending, hsplit, hc₂⟩ :=
        splitLoop_spec check hc₁.addEmpty.addEmpty.rotate hc₁.length_le
      obtain ⟨heap₃, head', hadd, hc₃⟩ := readdLoop_spec hc₂.addEmpty.rotate hc₂.swap.length_le
      refine ⟨heap₃, head', completed, ?_, hc₃⟩
      simp [lockFreeSweep, hrev, hsplit, hadd]

def lockFreeRefinement : Refinement (lockFree O) (lockFreeTaskQueue O) where
  Rep head l ls loose := ls = [(head, l)] ∧ loose = []
  init := ⟨[(none, [])], ⟨rfl, rfl⟩, chains_nil⟩
  lists := by
    rintro s t ls loose ⟨rfl, rfl⟩
    exact ⟨rfl, rfl, perm_single _ _⟩
  isEmpty := by
    rintro s t ls loose heap fs ⟨rfl, rfl⟩ hc
    exact Option.isNone_iff_eq_none.trans hc.empty_iff.symm
  push := by
    rintro s t ls loose heap fs o ⟨rfl, rfl⟩ hc - ho
    obtain ⟨heap', hw, hc'⟩ := pushList hc ho
    exact ⟨heap', some o, o :: t, _, _, by simp [lockFree, hw], rfl, ⟨rfl, rfl⟩, hc'⟩
  sweep := by
    rintro s t ls loose heap fs check ⟨rfl, rfl⟩ hc
    obtain ⟨heap', head', completed', hsweep, hc'⟩ := lockFreeSweep_spec check hc
    exact ⟨heap', head', completed', 0, _, _, hsweep, by simp [lockFree], ⟨rfl, rfl⟩, hc'⟩

/-! ## The vector -/

def indexedRefinement : Refinement (indexed O) (indexedTaskQueue O) where
  Rep active l ls loose := active = l ∧ ls = [] ∧ loose = l
  init := ⟨[], ⟨rfl, rfl, rfl⟩, chains_nil.drop⟩
  lists := by
    rintro s t ls loose ⟨rfl, rfl, rfl⟩
    exact ⟨rfl, rfl, .refl _⟩
  isEmpty := by
    rintro s t ls loose heap fs ⟨rfl, rfl, rfl⟩ -
    exact List.isEmpty_iff
  push := by
    rintro s t ls loose heap fs o ⟨rfl, rfl, rfl⟩ hc - ho
    exact ⟨heap.acquire o, loose ++ [o], loose ++ [o], [], _, rfl, rfl, ⟨rfl, rfl, rfl⟩,
      (hc.acquire ho).perm (.refl _) (List.perm_append_singleton o loose).symm⟩
  sweep := by
    rintro s t ls loose heap fs check ⟨rfl, rfl, rfl⟩ hc
    obtain ⟨heap', completed', count', hloop, hcount, hc'⟩ :=
      indexedLoop_spec check [] 0 hc.addEmpty (Nat.le_refl _)
    refine ⟨heap', _, completed', count', [], _, hloop, ?_, ⟨rfl, rfl, rfl⟩, hc'⟩
    have hzero : (indexed O).perNotify = 0 := rfl
    rw [hzero, Nat.zero_mul, Nat.add_zero]
    exact hcount.trans (Nat.zero_add _)

/-! ## The ring buffer -/

variable {k : Nat} {ring : List O} {q : RingBuffer O}

/-- The operations `ring` lie in the cells from `head` to `tail`, and every other cell waits for the
ticket that comes to it next. -/
structure RingRep (k : Nat) (q : RingBuffer O) (ring : List O) : Prop where
  tail : q.tail = q.head + ring.length
  le : ring.length ≤ 2 ^ k
  filled : ∀ i o, ring[i]? = some o → q.sequence ((q.head + i) % 2 ^ k) = q.head + i + 1 ∧
    q.buffer ((q.head + i) % 2 ^ k) = some o
  free : ∀ i, ring.length ≤ i → i < 2 ^ k → q.sequence ((q.head + i) % 2 ^ k) = q.head + i

section

omit [DecidableEq O]

theorem index_eq (k pos : Nat) : pos &&& (2 ^ k - 1) = pos % 2 ^ k := and_sub_one_eq_mod rfl pos

theorem RingRep.count (h : RingRep k q ring) {n a : Nat} (hn : a + n = 2 ^ k) (ha : a ≤ ring.length) :
    RingBuffer.countLoop (2 ^ k) q.sequence q.head n a = ring.length := by
  induction n generalizing a with
  | zero =>
      have := h.le
      simp only [RingBuffer.countLoop]
      omega
  | succ n ih =>
      simp only [RingBuffer.countLoop, index_eq]
      by_cases hlt : a < ring.length
      · rw [if_neg (by simp [(h.filled a _ (List.getElem?_eq_getElem hlt)).1])]
        exact ih (by omega) hlt
      · obtain rfl : a = ring.length := by omega
        rw [if_pos (by rw [h.free _ (Nat.le_refl _) (by omega)]; omega)]

theorem releaseLoop_spec {n : Nat} (pos : Nat) (sequence : Nat → Nat) (hn : n ≤ 2 ^ k) :
    (∀ i < n, RingBuffer.releaseLoop (2 ^ k) n pos sequence ((pos + i) % 2 ^ k) = pos + i + 2 ^ k) ∧
    ∀ c, (∀ i < n, (pos + i) % 2 ^ k ≠ c) →
      RingBuffer.releaseLoop (2 ^ k) n pos sequence c = sequence c := by
  induction n generalizing pos sequence with
  | zero => exact ⟨fun i hi => absurd hi (Nat.not_lt_zero i), fun _ _ => rfl⟩
  | succ n ih =>
      simp only [RingBuffer.releaseLoop, index_eq]
      obtain ⟨hin, hout⟩ := ih (pos + 1) (Function.update sequence (pos % 2 ^ k) (pos + 2 ^ k)) (by omega)
      refine ⟨fun i hi => ?_, fun c hc => ?_⟩
      · cases i with
        | zero =>
            rw [hout _ fun i hi he => ?_, Nat.add_zero, Function.update_self]
            have := eq_of_mod_eq (a := pos) (by omega) (by omega) (by omega) (by omega) he
            omega
        | succ i =>
            have := hin i (by omega)
            rwa [Nat.add_assoc, Nat.add_comm 1 i] at this
      · have hne : c ≠ pos % 2 ^ k := Ne.symm (hc 0 (by omega))
        rw [hout c fun i hi => ?_, Function.update_of_ne hne]
        have := hc (i + 1) (by omega)
        rwa [Nat.add_comm i 1, ← Nat.add_assoc] at this

theorem RingRep.slots (h : RingRep k q ring) : q.slots (2 ^ k) = ring := by
  have hlen : q.tail - q.head = ring.length := by rw [h.tail]; omega
  have hcell : ∀ i ∈ List.range ring.length,
      q.buffer ((q.head + i) &&& (2 ^ k - 1)) = ring[i]? := by
    intro i hi
    rw [index_eq, List.getElem?_eq_getElem (List.mem_range.mp hi)]
    exact (h.filled i _ (List.getElem?_eq_getElem _)).2
  rw [RingBuffer.slots, hlen, List.filterMap_congr hcell]
  exact filterMap_range_getElem? ring

theorem RingRep.push (h : RingRep k q ring) (hroom : q.tail - q.head < 2 ^ k) (o : O) :
    ∃ q', q.push (2 ^ k) o = some q' ∧ RingRep k q' (ring ++ [o]) ∧ q'.pendingHead = q.pendingHead := by
  have hlen : ring.length < 2 ^ k := by rw [h.tail] at hroom; omega
  have hfree : q.sequence (q.tail % 2 ^ k) = q.tail := by
    rw [h.tail]
    exact h.free _ (Nat.le_refl _) hlen
  have hother : ∀ i < 2 ^ k, i ≠ ring.length → (q.head + i) % 2 ^ k ≠ q.tail % 2 ^ k := by
    intro i hi hne he
    rw [h.tail] at he
    have := eq_of_mod_eq (a := q.head) (by omega) (by omega) (by omega) (by omega) he
    omega
  refine ⟨{ q with
    tail := q.tail + 1
    buffer := Function.update q.buffer (q.tail % 2 ^ k) (some o)
    sequence := Function.update q.sequence (q.tail % 2 ^ k) (q.tail + 1) }, ?_, ?_, rfl⟩
  · simp only [RingBuffer.push, index_eq, if_pos hfree]
  constructor
  · simp [h.tail, Nat.add_assoc]
  · rwa [List.length_append]
  · intro i x hi
    rcases Nat.lt_trichotomy i ring.length with hlt | rfl | hgt
    · rw [List.getElem?_append_left hlt] at hi
      have hne := hother i (by omega) (by omega)
      simpa only [Function.update_of_ne hne] using h.filled i x hi
    · simp only [List.getElem?_concat_length, Option.some.injEq] at hi
      subst hi
      simp [← h.tail]
    · rw [List.getElem?_eq_none (by simp; omega)] at hi
      cases hi
  · intro i hi hlt
    rw [List.length_append, List.length_singleton] at hi
    simpa only [Function.update_of_ne (hother i hlt (by omega))] using h.free i (by omega) hlt

/-- After the sweep the ring is empty. -/
theorem RingRep.consumed (h : RingRep k q ring) (p : Option O) : RingRep k
    { q with
      head := if ring.length > 0 then q.head + ring.length else q.head
      sequence := RingBuffer.releaseLoop (2 ^ k) ring.length q.head q.sequence
      pendingHead := p } [] := by
  have hhead : (if ring.length > 0 then q.head + ring.length else q.head) = q.head + ring.length := by
    split <;> omega
  obtain ⟨hin, hout⟩ := releaseLoop_spec q.head q.sequence h.le
  rw [hhead]
  refine ⟨h.tail, Nat.zero_le _, by simp, fun i _ hi => ?_⟩
  by_cases hlap : ring.length + i < 2 ^ k
  · rw [Nat.add_assoc]
    refine (hout _ fun j hj he => ?_).trans (h.free _ (by omega) hlap)
    have := eq_of_mod_eq (a := q.head) (by omega) (by omega) (by omega) (by omega) he
    omega
  -- a cell that has been released, one lap later
  · obtain ⟨j, hj⟩ := Nat.exists_eq_add_of_le (Nat.not_lt.mp hlap)
    have hle := h.le
    have hpos : q.head + ring.length + i = q.head + j + 2 ^ k := by omega
    rw [hpos, Nat.add_mod_right]
    exact hin j (by omega)

end

theorem RingRep.sweep (check : O → Bool) {pending : List O} (h : RingRep k q ring)
    (hc : Chains heap ((q.pendingHead, pending) :: fs) ring) :
    ∃ heap' q' completed', q.sweep (2 ^ k) check heap = some (heap', q', completed', 0) ∧
      RingRep k q' [] ∧
      Chains heap' ((q'.pendingHead, (distribute check ring (detach check pending []).1
          (detach check pending []).2).2) ::
        (completed', (distribute check ring (detach check pending []).1
          (detach check pending []).2).1) :: fs) [] := by
  obtain ⟨heap₁, head₁, completed₁, hloop, hc₁⟩ :=
    (pendingLoop_walks check).spec [] hc.addEmpty.swap hc.length_le
  have hs : q.pendingHead = pending.head? := by
    cases pending with
    | nil => exact hc.empty_iff.mp rfl
    | cons o l => exact hc.head_eq
  have hb : ∀ i o, ring[i]? = some o → q.buffer ((q.head + i) &&& (2 ^ k - 1)) = some o := by
    intro i o hi
    rw [index_eq]
    exact (h.filled i o hi).2
  rw [List.nil_append, ← List.append_nil ring] at hc₁
  obtain ⟨heap', head', completed', hconsume, hc'⟩ := consumeLoop_spec check hb hc₁
  refine ⟨heap', _, completed', ?_, h.consumed head', hc'⟩
  rw [← hs] at hloop
  simp only [linkAfter, List.getLast?_nil] at hloop
  simp [RingBuffer.sweep, hloop, h.count (Nat.zero_add _) (Nat.zero_le _), hconsume]

omit [DecidableEq O] in
theorem RingRep.isEmpty_iff (h : RingRep k q ring) :
    q.isEmpty (2 ^ k) = true ↔ q.pendingHead = none ∧ ring = [] := by
  have hseq : q.sequence (q.head % 2 ^ k) ≠ q.head + 1 ↔ ring = [] := by
    cases ring with
    | nil =>
        have := h.free 0 (Nat.le_refl _) (Nat.two_pow_pos k)
        simp only [Nat.add_zero] at this
        simp [this]
    | cons o l => simpa using (h.filled 0 o rfl).1
  simp only [RingBuffer.isEmpty, index_eq]
  split
  · simp_all
  · simp_all

def ringBufferRefinement (k : Nat) :
    Refinement (ringBuffer (2 ^ k) O) (ringBufferTaskQueue (2 ^ k) O) where
  Rep q t ls loose := RingRep k q t.ring ∧ ls = [(q.pendingHead, t.pending)] ∧ loose = t.ring
  init := by
    refine ⟨[(none, [])], ⟨⟨rfl, Nat.zero_le _, by simp [ringBufferTaskQueue], fun i _ hi => ?_⟩, rfl, rfl⟩,
      chains_nil⟩
    simp [ringBuffer, RingBuffer.init, Nat.mod_eq_of_lt hi]
  lists := by
    rintro s t ls loose ⟨h, rfl, rfl⟩
    exact ⟨rfl, h.slots, by simp [ringBufferTaskQueue]⟩
  isEmpty := by
    rintro s t ls loose heap fs ⟨h, rfl, rfl⟩ hc
    refine h.isEmpty_iff.trans ?_
    rw [← hc.empty_iff]
    exact List.append_eq_nil_iff.symm
  push := by
    rintro s t ls loose heap fs o ⟨h, rfl, rfl⟩ hc hroom ho
    obtain ⟨q', hpush, hrep, hpending⟩ := h.push (of_decide_eq_true hroom) o
    have hlen : t.ring.length < 2 ^ k := by
      have := hrep.le
      rwa [List.length_append] at this
    refine ⟨heap.acquire o, q', { t with ring := t.ring ++ [o] }, _, _, ?_, if_pos hlen,
      ⟨hrep, rfl, rfl⟩, ?_⟩
    · simp [ringBuffer, hpush]
    · rw [hpending]
      exact (hc.acquire ho).perm (.refl _) (List.perm_append_singleton o t.ring).symm
  sweep := by
    rintro s t ls loose heap fs check ⟨h, rfl, rfl⟩ hc
    obtain ⟨heap', q', completed', hsweep, hrep, hc'⟩ := h.sweep check hc
    exact ⟨heap', q', completed', 0, _, _, hsweep, by simp [ringBuffer], ⟨hrep, rfl, rfl⟩, hc'⟩

/-- Each queue with pointers does what the same queue without pointers does. -/
def Kind.refinement : (kind : Kind) → Refinement (kind.implementation O) (kind.taskQueue O)
  | .locked => lockedRefinement
  | .ringBuffer k => ringBufferRefinement k
  | .lockFree => lockFreeRefinement
  | .indexed => indexedRefinement

end DsaStdexec.Queue

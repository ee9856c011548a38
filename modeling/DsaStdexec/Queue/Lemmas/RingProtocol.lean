import DsaStdexec.Lib.Index
import DsaStdexec.Queue.Lemmas.Refinement
import DsaStdexec.Queue.RingProtocol
import Mathlib.Order.Interval.Finset.Nat

/-!
# Every ticket has its cell
-/

namespace DsaStdexec.Queue

open DsaStdexec.Lib

variable {T O : Type}

/-- The position up to which `poll` has given the cells back; `head` is the value of `head_`. -/
def Consumer.released (head : Nat) : Consumer → Nat
  | .idle | .counting _ _ | .reading _ _ _ => head
  | .releasing _ _ i => head + i

/-- The position up to which `poll` has read the ring. -/
def Consumer.read (head : Nat) : Consumer → Nat
  | .idle | .counting _ _ => head
  | .reading _ _ i => head + i
  | .releasing _ available _ => head + available

/-- The operations that `poll` has counted are there. -/
def Consumer.Sound (capacity head : Nat) (stored : Finset Nat) : Consumer → Prop
  | .idle => True
  | .counting h available => h = head ∧ available < capacity ∧ ∀ i < available, head + i ∈ stored
  | .reading h available i | .releasing h available i =>
      h = head ∧ i ≤ available ∧ available ≤ capacity ∧ ∀ j < available, head + j ∈ stored

/-- How many steps `poll` has at most until it is done with the ring. -/
def Consumer.rank (capacity : Nat) : Consumer → Nat
  | .idle => 0
  | .counting _ available => (capacity - available) + 2 * (capacity + 1)
  | .reading _ available i => (available - i + 1) + (available + 1)
  | .releasing _ available i => available - i + 1

theorem Consumer.rank_le {capacity head : Nat} {stored : Finset Nat} {c : Consumer}
    (h : c.Sound capacity head stored) : c.rank capacity ≤ 3 * capacity + 2 := by
  cases c with
  | idle => exact Nat.zero_le _
  | counting head' available => simp only [rank]; omega
  | reading head' available i | releasing head' available i =>
      obtain ⟨-, -, hle, -⟩ := h
      simp only [rank]
      omega

theorem Consumer.eq_idle_of_rank {capacity : Nat} {c : Consumer} (h : c.rank capacity = 0) : c = .idle := by
  cases c with
  | idle => rfl
  | counting head available | reading head available i | releasing head available i =>
      simp only [rank] at h
      omega

def Producer.slot : Producer O → Option Nat
  | .idle => none
  | .waiting _ slot | .writing _ slot | .storing _ slot => some slot

namespace RingProtocol

def released (s : RingProtocol T O) : Nat := s.consumer.released s.queue.head

def read (s : RingProtocol T O) : Nat := s.consumer.read s.queue.head

/-- A thread that has passed its test owns its cell until it stores the sequence number. -/
def Owns (capacity : Nat) (s : RingProtocol T O) : Producer O → Prop
  | .idle => True
  | .waiting op slot => s.tickets[slot]? = some op ∧ slot ∉ s.stored
  | .writing op slot =>
      s.tickets[slot]? = some op ∧ slot ∉ s.stored ∧ slot < s.released + capacity
  | .storing op slot =>
      s.tickets[slot]? = some op ∧ slot ∉ s.stored ∧ slot < s.released + capacity ∧
        slot ∈ s.written ∧ s.queue.buffer (slot % capacity) = some op

/-- `window` ties the sequence number of each cell to the ticket that it belongs to: one of the
`capacity` tickets from `released` on. -/
structure Tied (capacity : Nat) (s : RingProtocol T O) : Prop where
  tail : s.queue.tail = s.tickets.length
  taken : s.taken = s.tickets.take s.read
  ticket : ∀ n ∈ s.stored, n < s.tickets.length
  below : ∀ n < s.queue.head, n ∈ s.stored
  window : ∀ n, s.released ≤ n → n < s.released + capacity →
    s.queue.sequence (n % capacity) = if n ∈ s.stored then n + 1 else n
  stored_written : ∀ n ∈ s.stored, n ∈ s.written
  written_lt : ∀ n ∈ s.written, n < s.released + capacity
  cell : ∀ n ∈ s.stored, s.read ≤ n → s.queue.buffer (n % capacity) = s.tickets[n]?
  owns : ∀ t, s.Owns capacity (s.producers t)
  distinct : ∀ t t' n, (s.producers t).slot = some n → (s.producers t').slot = some n → t = t'
  consumer : s.consumer.Sound capacity s.queue.head s.stored

variable {k : Nat} {s s' : RingProtocol T O}

theorem released_le_read (h : s.consumer.Sound (2 ^ k) s.queue.head s.stored) : s.released ≤ s.read := by
  unfold released read
  cases hc : s.consumer with
  | idle => exact Nat.le_refl _
  | counting head available => exact Nat.le_refl _
  | reading head available i => exact Nat.le_add_right _ _
  | releasing head available i =>
      rw [hc] at h
      exact Nat.add_le_add_left h.2.1 _

namespace Tied

theorem stored_of_lt (h : Tied (2 ^ k) s) {n : Nat} (hn : n < s.read) : n ∈ s.stored := by
  have hcons := h.consumer
  have hbelow := h.below n
  have hcount : ∀ {available}, (∀ j < available, s.queue.head + j ∈ s.stored) →
      n < s.queue.head + available → n ∈ s.stored := by
    intro available hall hlt
    by_cases hhead : n < s.queue.head
    · exact hbelow hhead
    · have := hall (n - s.queue.head) (by omega)
      rwa [Nat.add_sub_cancel' (by omega)] at this
  unfold read at hn
  cases hc : s.consumer with
  | idle => rw [hc] at hn; exact hbelow hn
  | counting head available => rw [hc] at hn; exact hbelow hn
  | reading head available i =>
      rw [hc] at hn hcons
      exact hcount hcons.2.2.2 (Nat.lt_of_lt_of_le hn (Nat.add_le_add_left hcons.2.1 _))
  | releasing head available i =>
      rw [hc] at hn hcons
      exact hcount hcons.2.2.2 hn

theorem read_le (h : Tied (2 ^ k) s) : s.read ≤ s.tickets.length := by
  by_contra hlt
  have := h.ticket s.tickets.length (h.stored_of_lt (by omega))
  omega

theorem taken_length (h : Tied (2 ^ k) s) : s.taken.length = s.read := by
  rw [h.taken, List.length_take]
  exact Nat.min_eq_left h.read_le

/-- A ticket that is not stored has not been passed. -/
theorem released_le (h : Tied (2 ^ k) s) {n : Nat} (hn : n ∉ s.stored) : s.released ≤ n := by
  by_contra hlt
  have := released_le_read h.consumer
  exact hn (h.stored_of_lt (by omega))

/-- The test of `push` tells a thread that its cell belongs to its ticket: the cell of a later lap shows
a smaller number. -/
theorem acquired (h : Tied (2 ^ k) s) (hk : 2 ≤ 2 ^ k) {slot : Nat}
    (hseq : s.queue.sequence (slot % 2 ^ k) = slot) : slot < s.released + 2 ^ k := by
  by_contra hlt
  -- the ticket of the window with the same cell
  obtain ⟨n, hle, hn, hcell⟩ : ∃ n, s.released ≤ n ∧ n < s.released + 2 ^ k ∧
      n % 2 ^ k = slot % 2 ^ k := by
    refine ⟨s.released + (slot - s.released) % 2 ^ k, Nat.le_add_right _ _,
      Nat.add_lt_add_left (Nat.mod_lt _ (Nat.two_pow_pos k)) _, ?_⟩
    rw [Nat.add_mod_mod, Nat.add_sub_cancel' (by omega)]
  have hfar : n + 2 ^ k ≤ slot := by
    by_contra hnear
    have := eq_of_mod_eq (a := n) (Nat.le_refl _) (by omega) (by omega) (by omega) hcell
    omega
  have hwin := h.window n hle hn
  rw [hcell, hseq] at hwin
  split at hwin <;> omega

end Tied

/-! ## Steps -/

variable [DecidableEq T] {a : RingAction T O}

inductive Effect (k : Nat) (s : RingProtocol T O) : RingAction T O → RingProtocol T O → Prop where
  | E_Ticket {t op} (ht : s.producers t = .idle) :
      Effect k s (.push t op)
        { s with
          queue := { s.queue with tail := s.queue.tail + 1 }
          producers := Function.update s.producers t (.waiting op s.queue.tail)
          tickets := s.tickets ++ [op] }
  | E_Spin {t} : Effect k s (.produce t) s
  | E_Acquire {t op slot} (ht : s.producers t = .waiting op slot)
      (hseq : s.queue.sequence (slot % 2 ^ k) = slot) :
      Effect k s (.produce t)
        { s with producers := Function.update s.producers t (.writing op slot) }
  | E_Write {t op slot} (ht : s.producers t = .writing op slot) :
      Effect k s (.produce t)
        { s with
          queue := { s.queue with buffer := Function.update s.queue.buffer (slot % 2 ^ k) (some op) }
          producers := Function.update s.producers t (.storing op slot)
          written := insert slot s.written }
  | E_Store {t op slot} (ht : s.producers t = .storing op slot) :
      Effect k s (.produce t)
        { s with
          queue :=
            { s.queue with sequence := Function.update s.queue.sequence (slot % 2 ^ k) (slot + 1) }
          producers := Function.update s.producers t .idle
          stored := insert slot s.stored }
  | E_Poll (hc : s.consumer = .idle) :
      Effect k s .poll { s with consumer := .counting s.queue.head 0 }
  | E_Count {head available} (hc : s.consumer = .counting head available)
      (hseq : s.queue.sequence ((head + available) % 2 ^ k) = head + available + 1)
      (hlt : available + 1 < 2 ^ k) :
      Effect k s .consume { s with consumer := .counting head (available + 1) }
  | E_Full {head available} (hc : s.consumer = .counting head available)
      (hseq : s.queue.sequence ((head + available) % 2 ^ k) = head + available + 1)
      (hge : 2 ^ k ≤ available + 1) :
      Effect k s .consume { s with consumer := .reading head (available + 1) 0 }
  | E_Break {head available} (hc : s.consumer = .counting head available)
      (hseq : s.queue.sequence ((head + available) % 2 ^ k) ≠ head + available + 1) :
      Effect k s .consume { s with consumer := .reading head available 0 }
  | E_Read {head available i op} (hc : s.consumer = .reading head available i) (hi : i < available)
      (hop : s.queue.buffer ((head + i) % 2 ^ k) = some op) :
      Effect k s .consume
        { s with consumer := .reading head available (i + 1), taken := s.taken ++ [op] }
  | E_ReadEnd {head available i} (hc : s.consumer = .reading head available i)
      (hi : available ≤ i) :
      Effect k s .consume { s with consumer := .releasing head available 0 }
  | E_Release {head available i} (hc : s.consumer = .releasing head available i)
      (hi : i < available) :
      Effect k s .consume
        { s with
          queue :=
            { s.queue with
              sequence :=
                Function.update s.queue.sequence ((head + i) % 2 ^ k) (head + i + 2 ^ k) }
          consumer := .releasing head available (i + 1) }
  | E_Return {head available i} (hc : s.consumer = .releasing head available i)
      (hi : available ≤ i) :
      Effect k s .consume
        { s with
          queue := { s.queue with head := if available > 0 then head + available else s.queue.head }
          consumer := .idle }

theorem step_effect (h : step (2 ^ k) s a = some s') : Effect k s a s' := by
  cases a with
  | push t op =>
      simp only [step] at h
      split at h <;> cases h
      rename_i ht
      exact .E_Ticket ht
  | produce t =>
      simp only [step, produce, index_eq] at h
      split at h
      · cases h
      · rename_i ht
        split at h <;> cases h
        · exact .E_Spin
        · rename_i hseq
          exact .E_Acquire ht (not_not.mp hseq)
      · rename_i ht; cases h; exact .E_Write ht
      · rename_i ht; cases h; exact .E_Store ht
  | poll =>
      simp only [step] at h
      split at h <;> cases h
      rename_i hc
      exact .E_Poll hc
  | consume =>
      simp only [step, consume, index_eq] at h
      split at h
      · cases h
      · rename_i hc
        split at h
        · rename_i hseq; cases h; exact .E_Break hc hseq
        · rename_i hseq
          split at h <;> cases h
          · rename_i hge; exact .E_Full hc (not_not.mp hseq) hge
          · rename_i hlt; exact .E_Count hc (not_not.mp hseq) (Nat.not_le.mp hlt)
      · rename_i hc
        split at h
        · rename_i hi
          obtain ⟨op, hop, rfl⟩ := Option.map_eq_some_iff.mp h
          exact .E_Read hc hi hop
        · rename_i hi; cases h; exact .E_ReadEnd hc (Nat.not_lt.mp hi)
      · rename_i hc
        split at h <;> cases h
        · rename_i hi; exact .E_Release hc hi
        · rename_i hi; exact .E_Return hc (Nat.not_lt.mp hi)

section

omit [DecidableEq T]

theorem Owns.mono {capacity : Nat} {p : Producer O} (h : s.Owns capacity p)
    (htickets : ∀ (n : Nat) (op : O), s.tickets[n]? = some op → s'.tickets[n]? = some op)
    (hstored : ∀ n, p.slot = some n → n ∉ s.stored → n ∉ s'.stored)
    (hreleased : s.released ≤ s'.released) (hwritten : ∀ n ∈ s.written, n ∈ s'.written)
    (hbuffer : ∀ op n, p = .storing op n → s'.queue.buffer (n % capacity) =
      s.queue.buffer (n % capacity)) : s'.Owns capacity p := by
  cases p with
  | idle => exact True.intro
  | waiting op slot => exact ⟨htickets _ _ h.1, hstored _ rfl h.2⟩
  | writing op slot =>
      exact ⟨htickets _ _ h.1, hstored _ rfl h.2.1, Nat.lt_of_lt_of_le h.2.2 (Nat.add_le_add_right hreleased _)⟩
  | storing op slot =>
      obtain ⟨h₁, h₂, h₃, h₄, h₅⟩ := h
      exact ⟨htickets _ _ h₁, hstored _ rfl h₂, Nat.lt_of_lt_of_le h₃ (Nat.add_le_add_right hreleased _),
        hwritten _ h₄, (hbuffer _ _ rfl).trans h₅⟩

theorem Owns.ticket {capacity : Nat} {p : Producer O} {n : Nat} (h : s.Owns capacity p)
    (hn : p.slot = some n) : ∃ op, s.tickets[n]? = some op := by
  cases p with
  | idle => cases hn
  | waiting op slot => cases hn; exact ⟨op, h.1⟩
  | writing op slot => cases hn; exact ⟨op, h.1⟩
  | storing op slot => cases hn; exact ⟨op, h.1⟩

/-- More operations may be stored while `poll` counts. -/
theorem Consumer.Sound.mono {capacity head : Nat} {stored stored' : Finset Nat} {c : Consumer}
    (h : c.Sound capacity head stored) (hsub : ∀ n ∈ stored, n ∈ stored') :
    c.Sound capacity head stored' := by
  cases c with
  | idle => exact True.intro
  | counting head available => exact ⟨h.1, h.2.1, fun i hi => hsub _ (h.2.2 i hi)⟩
  | reading head available i => exact ⟨h.1, h.2.1, h.2.2.1, fun j hj => hsub _ (h.2.2.2 j hj)⟩
  | releasing head available i => exact ⟨h.1, h.2.1, h.2.2.1, fun j hj => hsub _ (h.2.2.2 j hj)⟩

end

/-- A thread keeps its slot or gives it up. -/
theorem distinct_update {producers : T → Producer O} {t : T} {p : Producer O}
    (h : ∀ t t' n, (producers t).slot = some n → (producers t').slot = some n → t = t')
    (hp : ∀ n, p.slot = some n → ∀ t', (producers t').slot = some n → t = t') (t₁ t₂ : T) (n : Nat)
    (h₁ : (Function.update producers t p t₁).slot = some n)
    (h₂ : (Function.update producers t p t₂).slot = some n) : t₁ = t₂ := by
  by_cases ht₁ : t₁ = t
  · subst ht₁
    by_cases ht₂ : t₂ = t₁
    · exact ht₂.symm
    · rw [Function.update_self] at h₁
      rw [Function.update_of_ne ht₂] at h₂
      exact hp n h₁ t₂ h₂
  · rw [Function.update_of_ne ht₁] at h₁
    by_cases ht₂ : t₂ = t
    · subst ht₂
      rw [Function.update_self] at h₂
      exact (hp n h₂ t₁ h₁).symm
    · rw [Function.update_of_ne ht₂] at h₂
      exact h t₁ t₂ n h₁ h₂

theorem owns_update {capacity : Nat} {producers : T → Producer O} {t : T} {p : Producer O}
    (h : ∀ t' ≠ t, s.Owns capacity (producers t')) (hp : s.Owns capacity p) (t' : T) :
    s.Owns capacity (Function.update producers t p t') := by
  by_cases ht : t' = t
  · subst ht
    rwa [Function.update_self]
  · rw [Function.update_of_ne ht]
    exact h t' ht

namespace Tied

theorem ticketStep {t : T} {op : O} (h : Tied (2 ^ k) s) : Tied (2 ^ k)
    { s with
      queue := { s.queue with tail := s.queue.tail + 1 }
      producers := Function.update s.producers t (.waiting op s.queue.tail)
      tickets := s.tickets ++ [op] } where
  tail := by simp [h.tail]
  taken := by
    exact h.taken.trans (List.take_append_of_le_length h.read_le).symm
  ticket n hn := by
    have := h.ticket n hn
    rw [List.length_append]
    omega
  below := h.below
  window := h.window
  stored_written := h.stored_written
  written_lt := h.written_lt
  cell n hn hr := by
    rw [List.getElem?_append_left (h.ticket n hn)]
    exact h.cell n hn hr
  owns := by
    refine owns_update (fun t' _ => ?_) ⟨by simp [h.tail], fun hs => ?_⟩
    · refine (h.owns t').mono (fun n o hn => ?_) (fun _ _ hn => hn) (Nat.le_refl _) (fun _ hn => hn)
        fun _ _ _ => rfl
      exact (List.getElem?_append_left (List.getElem?_eq_some_iff.mp hn).1).trans hn
    · have := h.ticket _ hs
      rw [h.tail] at this
      omega
  distinct := by
    refine distinct_update h.distinct fun n hn t' ht' => ?_
    cases hn
    obtain ⟨o, ho⟩ := (h.owns t').ticket ht'
    have := (List.getElem?_eq_some_iff.mp ho).1
    rw [h.tail] at this
    omega
  consumer := h.consumer

theorem acquireStep {t : T} {op : O} {slot : Nat} (h : Tied (2 ^ k) s) (hk : 2 ≤ 2 ^ k)
    (ht : s.producers t = .waiting op slot) (hseq : s.queue.sequence (slot % 2 ^ k) = slot) :
    Tied (2 ^ k) { s with producers := Function.update s.producers t (.writing op slot) } where
  tail := h.tail
  taken := h.taken
  ticket := h.ticket
  below := h.below
  window := h.window
  stored_written := h.stored_written
  written_lt := h.written_lt
  cell := h.cell
  owns := by
    have hown := h.owns t
    rw [ht] at hown
    exact owns_update (fun t' _ => h.owns t') ⟨hown.1, hown.2, h.acquired hk hseq⟩
  distinct := distinct_update h.distinct fun n hn t' ht' => h.distinct t t' n (by rw [ht]; exact hn) ht'
  consumer := h.consumer

theorem writeStep {t : T} {op : O} {slot : Nat} (h : Tied (2 ^ k) s)
    (ht : s.producers t = .writing op slot) : Tied (2 ^ k)
      { s with
        queue := { s.queue with buffer := Function.update s.queue.buffer (slot % 2 ^ k) (some op) }
        producers := Function.update s.producers t (.storing op slot)
        written := insert slot s.written } := by
  have hown := h.owns t
  rw [ht] at hown
  obtain ⟨hticket, hnew, hlt⟩ := hown
  -- the cells of other tickets of the window are not written
  have hother : ∀ n, s.released ≤ n → n < s.released + 2 ^ k → n ≠ slot →
      n % 2 ^ k ≠ slot % 2 ^ k := fun n hn hn' hne he =>
    hne (eq_of_mod_eq hn hn' (h.released_le hnew) hlt he)
  constructor
  · exact h.tail
  · exact h.taken
  · exact h.ticket
  · exact h.below
  · exact h.window
  · exact fun n hn => Finset.mem_insert_of_mem (h.stored_written n hn)
  · intro n hn
    rcases Finset.mem_insert.mp hn with rfl | hn
    · exact hlt
    · exact h.written_lt n hn
  · intro n hn hr
    have hrel := released_le_read h.consumer
    have hne : n ≠ slot := fun he => hnew (he ▸ hn)
    have hr' : s.read ≤ n := hr
    refine (Function.update_of_ne (hother n (by omega) ?_ hne) _ _).trans (h.cell n hn hr)
    exact h.written_lt n (h.stored_written n hn)
  · refine owns_update (fun t' htt => ?_)
      ⟨hticket, hnew, hlt, Finset.mem_insert_self _ _, Function.update_self _ _ _⟩
    refine (h.owns t').mono (fun _ _ hn => hn) (fun _ _ hn => hn) (Nat.le_refl _)
      (fun _ hn => Finset.mem_insert_of_mem hn) fun o n hp => ?_
    have hown' := h.owns t'
    rw [hp] at hown'
    refine Function.update_of_ne (hother n (h.released_le hown'.2.1) hown'.2.2.1 fun he => htt ?_) _ _
    exact h.distinct t' t slot (by rw [hp, he]; rfl) (by rw [ht]; rfl)
  · exact distinct_update h.distinct fun n hn t' ht' => h.distinct t t' n (by rw [ht]; exact hn) ht'
  · exact h.consumer

theorem storeStep {t : T} {op : O} {slot : Nat} (h : Tied (2 ^ k) s)
    (ht : s.producers t = .storing op slot) : Tied (2 ^ k)
      { s with
        queue :=
          { s.queue with sequence := Function.update s.queue.sequence (slot % 2 ^ k) (slot + 1) }
        producers := Function.update s.producers t .idle
        stored := insert slot s.stored } := by
  have hown := h.owns t
  rw [ht] at hown
  obtain ⟨hticket, hnew, hlt, hwritten, hcell⟩ := hown
  constructor
  · exact h.tail
  · exact h.taken
  · intro n hn
    rcases Finset.mem_insert.mp hn with rfl | hn
    · exact (List.getElem?_eq_some_iff.mp hticket).1
    · exact h.ticket n hn
  · exact fun n hn => Finset.mem_insert_of_mem (h.below n hn)
  · intro n hn hn'
    by_cases hne : n = slot
    · subst hne
      simp
    · have hcell : n % 2 ^ k ≠ slot % 2 ^ k := fun he =>
        hne (eq_of_mod_eq hn hn' (h.released_le hnew) hlt he)
      simp only [Function.update_of_ne hcell, Finset.mem_insert, hne, false_or]
      exact h.window n hn hn'
  · intro n hn
    rcases Finset.mem_insert.mp hn with rfl | hn
    · exact hwritten
    · exact h.stored_written n hn
  · exact h.written_lt
  · intro n hn hr
    rcases Finset.mem_insert.mp hn with rfl | hn
    · exact hcell.trans hticket.symm
    · exact h.cell n hn hr
  · refine owns_update (fun t' htt => ?_) True.intro
    refine (h.owns t').mono (fun _ _ hn => hn) (fun n hp hn hin => ?_) (Nat.le_refl _)
      (fun _ hn => hn) fun _ _ _ => rfl
    rcases Finset.mem_insert.mp hin with rfl | hin
    · exact htt (h.distinct t' t n hp (by rw [ht]; rfl))
    · exact hn hin
  · exact distinct_update h.distinct fun n hn => by cases hn
  · exact Consumer.Sound.mono h.consumer fun _ hn => Finset.mem_insert_of_mem hn

omit [DecidableEq T]

/-- A step of `poll` that neither reads nor releases a cell. -/
theorem localStep {c : Consumer} (h : Tied (2 ^ k) s) (hreleased : c.released s.queue.head = s.released)
    (hread : c.read s.queue.head = s.read) (hc : c.Sound (2 ^ k) s.queue.head s.stored) :
    Tied (2 ^ k) { s with consumer := c } := by
  have hreleased' : ({ s with consumer := c } : RingProtocol T O).released = s.released := hreleased
  have hread' : ({ s with consumer := c } : RingProtocol T O).read = s.read := hread
  constructor
  · exact h.tail
  · rw [hread']; exact h.taken
  · exact h.ticket
  · exact h.below
  · rw [hreleased']; exact h.window
  · exact h.stored_written
  · rw [hreleased']; exact h.written_lt
  · rw [hread']; exact h.cell
  · intro t
    exact (h.owns t).mono (fun _ _ hn => hn) (fun _ _ hn => hn) (Nat.le_of_eq hreleased'.symm)
      (fun _ hn => hn) fun _ _ _ => rfl
  · exact h.distinct
  · exact hc

/-- The operation that `poll` is going to read is that of the next ticket. -/
theorem next_cell {head available i : Nat} (h : Tied (2 ^ k) s)
    (hc : s.consumer = .reading head available i) (hi : i < available) :
    head + i = s.taken.length ∧ head + i ∈ s.stored ∧
      s.queue.buffer ((head + i) % 2 ^ k) = s.tickets[head + i]? := by
  have hcons := h.consumer
  rw [hc] at hcons
  obtain ⟨rfl, -, -, hall⟩ := hcons
  have hread : s.read = s.queue.head + i := by rw [read, hc]; rfl
  exact ⟨by rw [h.taken_length, hread], hall i hi, h.cell _ (hall i hi) (Nat.le_of_eq hread)⟩

theorem readStep {head available i : Nat} {op : O} (h : Tied (2 ^ k) s)
    (hc : s.consumer = .reading head available i) (hi : i < available)
    (hop : s.queue.buffer ((head + i) % 2 ^ k) = some op) : Tied (2 ^ k)
      { s with consumer := .reading head available (i + 1), taken := s.taken ++ [op] } := by
  obtain ⟨hnext, hstored, hcell⟩ := h.next_cell hc hi
  have hcons := h.consumer
  rw [hc] at hcons
  obtain ⟨rfl, -, hle, hall⟩ := hcons
  have hread : s.read = s.queue.head + i := by rw [read, hc]; rfl
  have hreleased : s.released = s.queue.head := by rw [released, hc]; rfl
  constructor
  · exact h.tail
  · change s.taken ++ [op] = s.tickets.take (s.queue.head + i + 1)
    rw [List.take_add_one, ← hcell, hop, h.taken, hread]
    rfl
  · exact h.ticket
  · exact h.below
  · have hwindow := h.window
    rw [hreleased] at hwindow
    exact hwindow
  · exact h.stored_written
  · have hlt := h.written_lt
    rw [hreleased] at hlt
    exact hlt
  · intro n hn hr
    have hr' : s.queue.head + (i + 1) ≤ n := hr
    exact h.cell n hn (by omega)
  · intro t
    exact (h.owns t).mono (fun _ _ hn => hn) (fun _ _ hn => hn) (Nat.le_of_eq hreleased)
      (fun _ hn => hn) fun _ _ _ => rfl
  · exact h.distinct
  · exact ⟨rfl, hi, hle, hall⟩

/-- The cell goes to the ticket of the next lap. -/
theorem releaseStep {head available i : Nat} (h : Tied (2 ^ k) s)
    (hc : s.consumer = .releasing head available i) (hi : i < available) : Tied (2 ^ k)
      { s with
        queue :=
          { s.queue with
            sequence := Function.update s.queue.sequence ((head + i) % 2 ^ k) (head + i + 2 ^ k) }
        consumer := .releasing head available (i + 1) } := by
  have hcons := h.consumer
  rw [hc] at hcons
  obtain ⟨rfl, -, hle, hall⟩ := hcons
  have hread : s.read = s.queue.head + available := by rw [read, hc]; rfl
  have hreleased : s.released = s.queue.head + i := by rw [released, hc]; rfl
  constructor
  · exact h.tail
  · change s.taken = s.tickets.take (s.queue.head + available)
    rw [← hread]
    exact h.taken
  · exact h.ticket
  · exact h.below
  · intro n hn hn'
    change s.queue.head + (i + 1) ≤ n at hn
    change n < s.queue.head + (i + 1) + 2 ^ k at hn'
    by_cases hlap : n = s.queue.head + i + 2 ^ k
    · have hnew : n ∉ s.stored := fun hs => by
        have := h.written_lt n (h.stored_written n hs)
        omega
      simp only [hlap, Nat.add_mod_right, Function.update_self]
      rw [if_neg (hlap ▸ hnew)]
    · have hne : n % 2 ^ k ≠ (s.queue.head + i) % 2 ^ k := fun he => by
        have := eq_of_mod_eq (a := s.queue.head + i) (by omega) (by omega) (by omega) (by omega) he
        omega
      simp only [Function.update_of_ne hne]
      exact h.window n (by omega) (by omega)
  · exact h.stored_written
  · intro n hn
    have := h.written_lt n hn
    change n < s.queue.head + (i + 1) + 2 ^ k
    omega
  · intro n hn hr
    exact h.cell n hn (hread ▸ hr)
  · intro t
    refine (h.owns t).mono (fun _ _ hn => hn) (fun _ _ hn => hn) ?_ (fun _ hn => hn) fun _ _ _ => rfl
    change s.released ≤ s.queue.head + (i + 1)
    omega
  · exact h.distinct
  · exact ⟨rfl, hi, hle, hall⟩

theorem returnStep {head available i : Nat} (h : Tied (2 ^ k) s)
    (hc : s.consumer = .releasing head available i) (hi : available ≤ i) : Tied (2 ^ k)
      { s with
        queue := { s.queue with head := if available > 0 then head + available else s.queue.head }
        consumer := .idle } := by
  have hcons := h.consumer
  rw [hc] at hcons
  obtain ⟨rfl, hle', hle, hall⟩ := hcons
  obtain rfl : i = available := by omega
  have hread : s.read = s.queue.head + i := by rw [read, hc]; rfl
  have hreleased : s.released = s.queue.head + i := by rw [released, hc]; rfl
  have hhead : (if i > 0 then s.queue.head + i else s.queue.head) = s.queue.head + i := by
    split <;> omega
  rw [hhead]
  constructor
  · exact h.tail
  · exact hread ▸ h.taken
  · exact h.ticket
  · intro n hn
    exact h.stored_of_lt (hread ▸ hn)
  · exact hreleased ▸ h.window
  · exact h.stored_written
  · exact hreleased ▸ h.written_lt
  · exact hread ▸ h.cell
  · intro t
    exact (h.owns t).mono (fun _ _ hn => hn) (fun _ _ hn => hn) (Nat.le_of_eq hreleased)
      (fun _ hn => hn) fun _ _ _ => rfl
  · exact h.distinct
  · exact True.intro

/-- What `poll` has counted. -/
theorem counting {head available : Nat} (h : Tied (2 ^ k) s)
    (hc : s.consumer = .counting head available) :
    head = s.queue.head ∧ available < 2 ^ k ∧ (∀ i < available, head + i ∈ s.stored) ∧
      (s.queue.sequence ((head + available) % 2 ^ k) = head + available + 1 ↔
        head + available ∈ s.stored) := by
  have hcons := h.consumer
  rw [hc] at hcons
  obtain ⟨rfl, hlt, hall⟩ := hcons
  have hreleased : s.released = s.queue.head := by rw [released, hc]; rfl
  refine ⟨rfl, hlt, hall, ?_⟩
  rw [h.window _ (by omega) (by omega)]
  split <;> simp_all

/-- Counting one more operation. -/
theorem counted {head available : Nat} (h : Tied (2 ^ k) s)
    (hc : s.consumer = .counting head available)
    (hseq : s.queue.sequence ((head + available) % 2 ^ k) = head + available + 1) :
    ∀ i < available + 1, head + i ∈ s.stored := by
  obtain ⟨-, -, hall, hiff⟩ := h.counting hc
  intro i hi
  by_cases hlast : i = available
  · rw [hlast]
    exact hiff.mp hseq
  · exact hall i (by omega)

end Tied

theorem Tied.effect (h : Tied (2 ^ k) s) (hk : 2 ≤ 2 ^ k) (he : Effect k s a s') :
    Tied (2 ^ k) s' := by
  cases he with
  | E_Ticket _ => exact h.ticketStep
  | E_Spin => exact h
  | E_Acquire ht hseq => exact h.acquireStep hk ht hseq
  | E_Write ht => exact h.writeStep ht
  | E_Store ht => exact h.storeStep ht
  | E_Poll hc =>
      refine h.localStep ?_ ?_ ⟨rfl, Nat.two_pow_pos k, fun i hi => absurd hi (Nat.not_lt_zero i)⟩
      · rw [released, hc]; rfl
      · rw [read, hc]; rfl
  | E_Count hc hseq hlt =>
      obtain ⟨rfl, -, -, -⟩ := h.counting hc
      refine h.localStep ?_ ?_ ⟨rfl, hlt, h.counted hc hseq⟩
      · rw [released, hc]; rfl
      · rw [read, hc]; rfl
  | E_Full hc hseq hge =>
      obtain ⟨rfl, hlt, -, -⟩ := h.counting hc
      refine h.localStep ?_ ?_ ⟨rfl, Nat.zero_le _, hlt, h.counted hc hseq⟩
      · rw [released, hc]; rfl
      · rw [read, hc]; rfl
  | E_Break hc hseq =>
      obtain ⟨rfl, hlt, hall, -⟩ := h.counting hc
      refine h.localStep ?_ ?_ ⟨rfl, Nat.zero_le _, Nat.le_of_lt hlt, hall⟩
      · rw [released, hc]; rfl
      · rw [read, hc]; rfl
  | E_Read hc hi hop => exact h.readStep hc hi hop
  | E_ReadEnd hc hi =>
      have hcons := h.consumer
      rw [hc] at hcons
      obtain ⟨rfl, hle', hle, hall⟩ := hcons
      refine h.localStep ?_ ?_ ⟨rfl, Nat.zero_le _, hle, hall⟩
      · rw [released, hc]; rfl
      · rw [read, hc, Nat.le_antisymm hle' hi]; rfl
  | E_Release hc hi => exact h.releaseStep hc hi
  | E_Return hc hi => exact h.returnStep hc hi

omit [DecidableEq T] in
theorem tied_init (k : Nat) : Tied (2 ^ k) (init : RingProtocol T O) where
  tail := rfl
  taken := rfl
  ticket n hn := absurd hn (Finset.notMem_empty n)
  below n hn := absurd hn (Nat.not_lt_zero n)
  window n _ hn := by
    have hn' : n < 0 + 2 ^ k := hn
    refine (Nat.mod_eq_of_lt (by omega)).trans ?_
    exact (if_neg (Finset.notMem_empty n)).symm
  stored_written n hn := absurd hn (Finset.notMem_empty n)
  written_lt n hn := absurd hn (Finset.notMem_empty n)
  cell n hn := absurd hn (Finset.notMem_empty n)
  owns _ := True.intro
  distinct _ _ _ h := by cases h
  consumer := True.intro

/-! ## Progress -/

/-- `poll` has taken the tickets before `m` or is going to. -/
def WillTake (m : Nat) (s : RingProtocol T O) : Prop :=
  m ≤ s.taken.length ∨
    match s.consumer with
    | .counting _ _ => ∀ n < m, n ∈ s.stored
    | .reading head available _ => m ≤ head + available
    | .idle | .releasing _ _ _ => False

section

omit [DecidableEq T]

/-- A step of a producer. -/
theorem WillTake.mono {m : Nat} (h : s.WillTake m) (htaken : s'.taken = s.taken)
    (hconsumer : s'.consumer = s.consumer) (hstored : ∀ n ∈ s.stored, n ∈ s'.stored) :
    s'.WillTake m := by
  unfold WillTake at h ⊢
  rw [htaken, hconsumer]
  refine h.imp_right fun h => ?_
  cases hc : s.consumer with
  | idle => rw [hc] at h; exact h
  | counting head available => rw [hc] at h; exact fun n hn => hstored n (h n hn)
  | reading head available i => rw [hc] at h; exact h
  | releasing head available i => rw [hc] at h; exact h

theorem WillTake.counting {m head available : Nat} (h : s.WillTake m) (ht : Tied (2 ^ k) s)
    (hc : s.consumer = .counting head available) : ∀ n < m, n ∈ s.stored := by
  rcases h with h | h
  · exact fun n hn => ht.stored_of_lt (by rw [← ht.taken_length]; omega)
  · rw [hc] at h
    exact h

theorem WillTake.reading {m head available i : Nat} (h : s.WillTake m) (ht : Tied (2 ^ k) s)
    (hc : s.consumer = .reading head available i) : m ≤ head + available := by
  have hcons := ht.consumer
  rw [hc] at hcons
  obtain ⟨rfl, hle, -, -⟩ := hcons
  rcases h with h | h
  · rw [ht.taken_length, read, hc] at h
    exact Nat.le_trans h (Nat.add_le_add_left hle _)
  · rw [hc] at h
    exact h

theorem WillTake.releasing {m head available i : Nat} (h : s.WillTake m)
    (hc : s.consumer = .releasing head available i) : m ≤ s.taken.length := by
  rcases h with h | h
  · exact h
  · rw [hc] at h
    exact h.elim

end

theorem WillTake.effect {m : Nat} (h : s.WillTake m) (ht : Tied (2 ^ k) s) (he : Effect k s a s') :
    s'.WillTake m := by
  cases he with
  | E_Ticket _ => exact h.mono rfl rfl fun _ hn => hn
  | E_Spin => exact h
  | E_Acquire _ _ => exact h.mono rfl rfl fun _ hn => hn
  | E_Write _ => exact h.mono rfl rfl fun _ hn => hn
  | E_Store _ => exact h.mono rfl rfl fun _ hn => Finset.mem_insert_of_mem hn
  | E_Poll hc =>
      refine Or.inl ?_
      rcases h with h | h
      · exact h
      · rw [hc] at h
        exact h.elim
  | E_Count hc _ _ => exact Or.inr (h.counting ht hc)
  | E_Full hc _ hge =>
      -- more than `capacity` tickets are never stored and unread
      refine Or.inr (Nat.le_of_not_lt fun hlt => ?_)
      have hlast := ht.written_lt _ (ht.stored_written _ (h.counting ht hc _ hlt))
      obtain ⟨rfl, -, -, -⟩ := ht.counting hc
      have hreleased : s.released = s.queue.head := by rw [released, hc]; rfl
      omega
  | E_Break hc hseq =>
      refine Or.inr (Nat.le_of_not_lt fun hlt => ?_)
      exact hseq ((ht.counting hc).2.2.2.mpr (h.counting ht hc _ hlt))
  | E_Read hc _ _ => exact Or.inr (h.reading ht hc)
  | E_ReadEnd hc hi =>
      have hm := h.reading ht hc
      have hcons := ht.consumer
      rw [hc] at hcons
      refine Or.inl (Nat.le_trans hm ?_)
      change _ ≤ s.taken.length
      rw [ht.taken_length, read, hc, hcons.1]
      exact Nat.add_le_add_left hi _
  | E_Release hc _ => exact Or.inl (h.releasing hc)
  | E_Return hc _ => exact Or.inl (h.releasing hc)

theorem tied_step (hk : 2 ≤ 2 ^ k) (h : Tied (2 ^ k) s) (hs : step (2 ^ k) s a = some s') :
    Tied (2 ^ k) s' :=
  h.effect hk (step_effect hs)

theorem tied_of_run {as : List (RingAction T O)} (hk : 2 ≤ 2 ^ k)
    (h : (machine (2 ^ k)).run as = some s) : Tied (2 ^ k) s :=
  Machine.run_invariant (I := Tied (2 ^ k)) (tied_init k) (fun _ _ _ hs hst => tied_step hk hs hst) h

/-- A call of `poll` takes the operations that are there when it starts. -/
theorem taken_by_poll {m : Nat} {s₁ t : RingProtocol T O} {as : List (RingAction T O)}
    (hk : 2 ≤ 2 ^ k) (h : Tied (2 ^ k) s) (hm : ∀ n < m, n ∈ s.stored)
    (hs : step (2 ^ k) s .poll = some s₁) (hr : (machine (2 ^ k)).runFrom s₁ as = some t)
    (hend : t.consumer = .idle) : m ≤ t.taken.length := by
  have hstart : s₁.WillTake m := by
    simp only [step] at hs
    split at hs <;> cases hs
    exact Or.inr hm
  have hboth : Tied (2 ^ k) t ∧ t.WillTake m :=
    Machine.runFrom_invariant (C := fun _ _ => True) (I := fun u => Tied (2 ^ k) u ∧ u.WillTake m)
      (fun _ _ _ hi _ hst => ⟨tied_step hk hi.1 hst, hi.2.effect hi.1 (step_effect hst)⟩)
      ⟨tied_step hk h hs, hstart⟩ (Machine.meets_of_forall fun _ _ => True.intro) hr
  rcases hboth.2 with h | h
  · exact h
  · rw [hend] at h
    exact h.elim

/-! ## The end of a call -/

/-- A step of `poll` brings it nearer to its end, and no other step brings it back. -/
theorem rank_effect (h : Tied (2 ^ k) s) (hbusy : s.consumer ≠ .idle) (he : Effect k s a s') :
    s'.consumer.rank (2 ^ k) + (if a.isConsume then 1 else 0) ≤ s.consumer.rank (2 ^ k) := by
  have hsound := h.consumer
  cases he with
  | E_Ticket _ | E_Spin | E_Acquire _ _ | E_Write _ | E_Store _ => simp [RingAction.isConsume]
  | E_Poll hc => exact absurd hc hbusy
  | E_Count hc _ _ | E_Full hc _ _ | E_Break hc _ =>
      rw [hc] at hsound
      obtain ⟨-, hlt, -⟩ := hsound
      simp only [RingAction.isConsume, hc, Consumer.rank, if_true]
      omega
  | E_Read hc _ _ | E_ReadEnd hc _ | E_Release hc _ =>
      simp only [RingAction.isConsume, hc, Consumer.rank, if_true]
      omega
  | E_Return hc _ => simp [RingAction.isConsume, hc, Consumer.rank]

/-- Whatever the producers do, `poll` is done with the ring after so many steps of its own. -/
theorem poll_bounded {t : RingProtocol T O} {as : List (RingAction T O)} (hk : 2 ≤ 2 ^ k)
    (h : Tied (2 ^ k) s) (hr : (machine (2 ^ k)).runFrom s as = some t)
    (hmany : 3 * 2 ^ k + 2 ≤ as.countP RingAction.isConsume) :
    ∃ bs cs u, as = bs ++ cs ∧ bs.countP RingAction.isConsume ≤ 3 * 2 ^ k + 2 ∧
      (machine (2 ^ k)).runFrom s bs = some u ∧ u.consumer = .idle := by
  have hle := Consumer.rank_le h.consumer
  obtain ⟨bs, cs, u, he, hfew, hu, hidle⟩ :=
    Machine.reaches_of_rank (I := Tied (2 ^ k)) (P := fun s => s.consumer = .idle)
      (fun s => s.consumer.rank (2 ^ k)) RingAction.isConsume (fun _ _ _ hs hst => tied_step hk hs hst)
      (fun _ hz => Consumer.eq_idle_of_rank hz)
      (fun _ _ _ hs hne hst => rank_effect hs hne (step_effect hst)) h hr (hle.trans hmany)
  exact ⟨bs, cs, u, he, hfew.trans hle, hu, hidle⟩

theorem taken_mono {t : RingProtocol T O} {as : List (RingAction T O)}
    (hr : (machine (2 ^ k)).runFrom s as = some t) : s.taken.length ≤ t.taken.length := by
  refine Machine.runFrom_keeps (I := fun u => s.taken.length ≤ u.taken.length) (fun u a u' hle hst => ?_)
    (Nat.le_refl _) hr
  have he : Effect k u a u' := step_effect hst
  cases he with
  | E_Read _ _ _ =>
      rw [List.length_append]
      exact Nat.le_add_right_of_le hle
  | _ => exact hle

/-- A call of `poll` that has had all its steps has taken the operations that were there when it started. -/
theorem taken_in_time {m : Nat} {s₁ t : RingProtocol T O} {as : List (RingAction T O)} (hk : 2 ≤ 2 ^ k)
    (h : Tied (2 ^ k) s) (hm : ∀ n < m, n ∈ s.stored) (hs : step (2 ^ k) s .poll = some s₁)
    (hr : (machine (2 ^ k)).runFrom s₁ as = some t)
    (hmany : 3 * 2 ^ k + 2 ≤ as.countP RingAction.isConsume) : m ≤ t.taken.length := by
  obtain ⟨bs, cs, u, rfl, -, hu, hidle⟩ := poll_bounded hk (tied_step hk h hs) hr hmany
  rw [Machine.runFrom_append_eq hu] at hr
  exact (taken_by_poll hk h hm hs hu hidle).trans (taken_mono hr)

end RingProtocol

end DsaStdexec.Queue

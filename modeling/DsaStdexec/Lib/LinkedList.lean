import Mathlib.Data.List.Nodup
import Mathlib.Logic.Function.Basic

/-!
# Linked lists

Lists that are linked through a field `next` of their nodes; `none` is the null pointer.
-/

namespace DsaStdexec.Lib

variable {N : Type*} {next next' : N → Option N} {p q r : Option N} {l l' : List N} {n : N}

/-! ## Segments and chains -/

/-- Following `next` from `p` leads through the nodes `l` to `q`. -/
def Segment (next : N → Option N) : Option N → List N → Option N → Prop
  | p, [], q => p = q
  | p, n :: l, q => p = some n ∧ Segment next (next n) l q

/-- The list at `p` consists of the nodes `l` and ends. -/
def Chain (next : N → Option N) (p : Option N) (l : List N) : Prop := Segment next p l none

theorem Segment.congr (h : Segment next p l q) (heq : ∀ n ∈ l, next' n = next n) :
    Segment next' p l q := by
  induction l generalizing p with
  | nil => exact h
  | cons n l ih =>
      refine ⟨h.1, ?_⟩
      rw [heq n List.mem_cons_self]
      exact ih h.2 fun m hm => heq m (List.mem_cons_of_mem n hm)

theorem segment_append : Segment next p (l ++ l') q ↔ ∃ r, Segment next p l r ∧ Segment next r l' q := by
  induction l generalizing p with
  | nil => simp [Segment]
  | cons n l ih => simp [Segment, ih, and_assoc]

theorem Segment.update [DecidableEq N] (h : Segment next p l q) (hn : n ∉ l) :
    Segment (Function.update next n r) p l q := by
  refine h.congr fun m hm => Function.update_of_ne ?_ _ _
  rintro rfl
  exact hn hm

theorem Chain.congr (h : Chain next p l) (heq : ∀ n ∈ l, next' n = next n) : Chain next' p l :=
  Segment.congr h heq

theorem Chain.update [DecidableEq N] (h : Chain next p l) (hn : n ∉ l) :
    Chain (Function.update next n r) p l :=
  Segment.update h hn

theorem Chain.nil : Chain next none [] := rfl

theorem chain_nil_iff : Chain next p [] ↔ p = none := Iff.rfl

theorem chain_cons_iff : Chain next p (n :: l) ↔ p = some n ∧ Chain next (next n) l := Iff.rfl

theorem chain_none_iff : Chain next none l ↔ l = [] := by
  cases l with
  | nil => simp [Chain, Segment]
  | cons n l => simp [Chain, Segment]

theorem chain_some_iff : Chain next (some n) l ↔ ∃ l', l = n :: l' ∧ Chain next (next n) l' := by
  cases l with
  | nil => simp [Chain, Segment]
  | cons m l =>
      simp only [chain_cons_iff, Option.some.injEq, List.cons.injEq]
      constructor
      · rintro ⟨rfl, h⟩
        exact ⟨l, ⟨rfl, rfl⟩, h⟩
      · rintro ⟨l', ⟨rfl, rfl⟩, h⟩
        exact ⟨rfl, h⟩

/-- A node that is put in front of a list. -/
theorem Chain.cons [DecidableEq N] (h : Chain next p l) (hn : n ∉ l) :
    Chain (Function.update next n p) (some n) (n :: l) := by
  refine ⟨rfl, ?_⟩
  rw [Function.update_self]
  exact h.update hn

theorem Chain.eq_nil_iff (h : Chain next p l) : l = [] ↔ p = none := by
  constructor
  · rintro rfl
    exact h
  · rintro rfl
    exact chain_none_iff.mp h

theorem Chain.unique (h : Chain next p l) (h' : Chain next p l') : l = l' := by
  induction l generalizing p l' with
  | nil =>
      cases chain_nil_iff.mp h
      exact (chain_none_iff.mp h').symm
  | cons n l ih =>
      obtain ⟨rfl, h⟩ := h
      obtain ⟨l'', rfl, h''⟩ := chain_some_iff.mp h'
      rw [ih h h'']

/-- A list that ends has no cycle. -/
theorem Chain.nodup (h : Chain next p l) : l.Nodup := by
  induction l generalizing p with
  | nil => exact List.nodup_nil
  | cons n l ih =>
      refine List.nodup_cons.mpr ⟨fun hn => ?_, ih h.2⟩
      obtain ⟨front, back, rfl⟩ := List.append_of_mem hn
      obtain ⟨r, -, hr⟩ := segment_append.mp h.2
      -- the list at `n` would be longer than itself
      have hlong : Chain next (some n) (n :: (front ++ n :: back)) := ⟨rfl, h.2⟩
      have hshort : Chain next (some n) (n :: back) := ⟨rfl, hr.2⟩
      have := congrArg List.length (hlong.unique hshort)
      simp at this
      omega

/-- A node that is put behind the last one. -/
theorem Chain.concat [DecidableEq N] {m : N} (h : Chain next p (l ++ [n])) (hm : m ∉ l ++ [n])
    (hnext : next m = none) : Chain (Function.update next n (some m)) p (l ++ [n] ++ [m]) := by
  have hn : n ∉ l := by
    have := List.nodup_append.mp h.nodup
    exact fun hn => this.2.2 n hn n List.mem_cons_self rfl
  have hne : m ≠ n := fun he => hm (by simp [he])
  obtain ⟨r, hfront, rfl, -⟩ := segment_append.mp h
  rw [List.append_assoc]
  refine segment_append.mpr ⟨some n, hfront.update hn, rfl, ?_⟩
  exact ⟨Function.update_self _ _ _, (Function.update_of_ne hne _ _).trans hnext⟩

/-! ## Pointers to links -/

/-- The place of a pointer: the head of a list, or the field of a node. -/
inductive Link (N : Type*) where
  | head
  | next (n : N)

/-- The link behind the nodes `l`. -/
def linkAfter (l : List N) : Link N :=
  match l.getLast? with
  | none => .head
  | some n => .next n

theorem linkAfter_concat (l : List N) (n : N) : linkAfter (l ++ [n]) = .next n := by
  simp [linkAfter]

/-! ## Heaps -/

/-- The field `next` of every node, and the nodes that may be accessed. -/
structure Heap (N : Type*) where
  next : N → Option N
  owned : List N

namespace Heap

variable [DecidableEq N] {h : Heap N} {head : Option N} {front : List N}

def read (h : Heap N) (n : N) : Option (Option N) := if n ∈ h.owned then some (h.next n) else none

def write (h : Heap N) (n : N) (p : Option N) : Option (Heap N) :=
  if n ∈ h.owned then some { h with next := Function.update h.next n p } else none

/-- A test of another field of the node. -/
def test (h : Heap N) (check : N → Bool) (n : N) : Option Bool :=
  if n ∈ h.owned then some (check n) else none

def load (h : Heap N) (head : Option N) : Link N → Option (Option N)
  | .head => some head
  | .next n => h.read n

def store (h : Heap N) (head : Option N) (p : Option N) : Link N → Option (Heap N × Option N)
  | .head => some (h, p)
  | .next n => (h.write n p).map (·, head)

/-- The owner of `n` hands it over. -/
def acquire (h : Heap N) (n : N) : Heap N := { h with owned := n :: h.owned }

def release (h : Heap N) (n : N) : Heap N := { h with owned := h.owned.erase n }

theorem read_of_mem (hn : n ∈ h.owned) : h.read n = some (h.next n) := if_pos hn

theorem write_of_mem (hn : n ∈ h.owned) :
    h.write n p = some { h with next := Function.update h.next n p } := if_pos hn

theorem test_of_mem {check : N → Bool} (hn : n ∈ h.owned) : h.test check n = some (check n) :=
  if_pos hn

/-- What a walk through a list relies on: the list at `head` runs through `front` to `p`. -/
theorem load_linkAfter (hs : Segment h.next head front p) (ho : ∀ n ∈ front, n ∈ h.owned) :
    h.load head (linkAfter front) = some p := by
  rcases List.eq_nil_or_concat front with rfl | ⟨front, n, rfl⟩
  · exact congrArg some hs
  · rw [List.concat_eq_append] at hs ho ⊢
    obtain ⟨r, -, rfl, hp⟩ := segment_append.mp hs
    rw [linkAfter_concat, load, read_of_mem (ho n (by simp))]
    exact congrArg some hp

/-- Storing a pointer behind `front` redirects the list there. -/
theorem store_linkAfter (hs : Segment h.next head front p) (hd : front.Nodup)
    (ho : ∀ n ∈ front, n ∈ h.owned) : ∃ h' head', h.store head q (linkAfter front) = some (h', head') ∧
      Segment h'.next head' front q ∧ h'.owned = h.owned ∧ ∀ n ∉ front, h'.next n = h.next n := by
  rcases List.eq_nil_or_concat front with rfl | ⟨front, n, rfl⟩
  · exact ⟨h, q, rfl, rfl, rfl, fun _ _ => rfl⟩
  · rw [List.concat_eq_append] at hs hd ho ⊢
    obtain ⟨r, hfront, rfl, -⟩ := segment_append.mp hs
    have hn : n ∉ front := fun hn => (List.nodup_append.mp hd).2.2 n hn n (by simp) rfl
    refine ⟨{ h with next := Function.update h.next n q }, head, ?_, ?_, rfl, ?_⟩
    · rw [linkAfter_concat, store, write_of_mem (ho n (by simp))]
      rfl
    · exact segment_append.mpr ⟨_, hfront.update hn, rfl, Function.update_self _ _ _⟩
    · intro m hm
      exact Function.update_of_ne (fun he => hm (by simp [he])) _ _

end Heap

/-! ## All the lists of a heap -/

/-- The nodes of the heap make up the lists `ls`, each one with the pointer to its first node, and the
nodes `loose` that are in no list. -/
structure Chains (h : Heap N) (ls : List (Option N × List N)) (loose : List N) : Prop where
  chain : ∀ x ∈ ls, Chain h.next x.1 x.2
  nodup : h.owned.Nodup
  owned : h.owned.Perm (ls.flatMap Prod.snd ++ loose)

namespace Chains

variable {h : Heap N} {ls ls' : List (Option N × List N)} {loose loose' : List N}

theorem mem_owned (hc : Chains h ls loose) : n ∈ h.owned ↔ (∃ x ∈ ls, n ∈ x.2) ∨ n ∈ loose := by
  rw [hc.owned.mem_iff, List.mem_append, List.mem_flatMap]

theorem perm (hc : Chains h ls loose) (hl : ls.Perm ls') (hloose : loose.Perm loose') :
    Chains h ls' loose' where
  chain x hx := hc.chain x (hl.mem_iff.mpr hx)
  nodup := hc.nodup
  owned := hc.owned.trans ((hl.flatMap_right _).append hloose)

theorem perm_left (hc : Chains h ls loose) (hl : ls.Perm ls') : Chains h ls' loose :=
  hc.perm hl (.refl _)

theorem swap {x y : Option N × List N} (hc : Chains h (x :: y :: ls) loose) :
    Chains h (y :: x :: ls) loose :=
  hc.perm_left (.swap _ _ _)

theorem rotate {x y z : Option N × List N} (hc : Chains h (x :: y :: z :: ls) loose) :
    Chains h (z :: x :: y :: ls) loose :=
  (hc.perm_left (.cons _ (.swap _ _ _))).swap

theorem nodup_all (hc : Chains h ls loose) : (ls.flatMap Prod.snd ++ loose).Nodup :=
  hc.owned.nodup_iff.mp hc.nodup

/-- A node in a list is in no other list and not loose. -/
theorem disjoint (hc : Chains h ((p, l) :: ls) loose) (hn : n ∈ l) :
    (∀ x ∈ ls, n ∉ x.2) ∧ n ∉ loose := by
  have hnodup := hc.nodup_all
  rw [List.flatMap_cons, List.append_assoc, List.nodup_append] at hnodup
  have hne := hnodup.2.2 n hn
  constructor
  · intro x hx hmem
    exact hne n (List.mem_append_left _ (List.mem_flatMap.mpr ⟨x, hx, hmem⟩)) rfl
  · intro hmem
    exact hne n (List.mem_append_right _ hmem) rfl

theorem loose_ne (hc : Chains h ls loose) {x : Option N × List N} (hx : x ∈ ls) (hn : n ∈ x.2) :
    ∀ m ∈ loose, m ≠ n := by
  have hnodup := hc.nodup_all
  rw [List.nodup_append] at hnodup
  intro m hm
  exact (hnodup.2.2 n (List.mem_flatMap.mpr ⟨x, hx, hn⟩) m hm).symm

theorem exists_cons (hc : Chains h ls loose) (hx : (some n, l) ∈ ls) :
    ∃ l', l = n :: l' ∧ ∀ m ∈ loose, m ≠ n := by
  obtain ⟨l', rfl, -⟩ := chain_some_iff.mp (hc.chain _ hx)
  exact ⟨l', rfl, hc.loose_ne hx List.mem_cons_self⟩

theorem not_mem_of_loose (hc : Chains h ls (n :: loose)) {x : Option N × List N} (hx : x ∈ ls) :
    n ∉ x.2 := fun hn => hc.loose_ne hx hn n List.mem_cons_self rfl

theorem head_owned (hc : Chains h ((p, n :: l) :: ls) loose) : n ∈ h.owned :=
  hc.mem_owned.mpr (Or.inl ⟨(p, n :: l), List.mem_cons_self, List.mem_cons_self⟩)

theorem loose_owned (hc : Chains h ls (n :: loose)) : n ∈ h.owned :=
  hc.mem_owned.mpr (Or.inr List.mem_cons_self)

theorem length_le (hc : Chains h ((p, l) :: ls) loose) : l.length ≤ h.owned.length := by
  rw [hc.owned.length_eq, List.flatMap_cons, List.append_assoc, List.length_append]
  exact Nat.le_add_right _ _

/-- Reading the first node of a list. -/
theorem pop (hc : Chains h ((p, n :: l) :: ls) loose) : Chains h ((h.next n, l) :: ls) (n :: loose) where
  chain x hx := by
    rcases List.mem_cons.mp hx with rfl | hx
    · exact (hc.chain _ List.mem_cons_self).2
    · exact hc.chain x (List.mem_cons_of_mem _ hx)
  nodup := hc.nodup
  owned := by
    refine hc.owned.trans ?_
    simp only [List.flatMap_cons, List.cons_append]
    exact List.perm_middle.symm

theorem pop_behind (front : List (Option N × List N))
    (hc : Chains h (front ++ (p, n :: l) :: ls) loose) :
    Chains h (front ++ (h.next n, l) :: ls) (n :: loose) :=
  (hc.perm_left List.perm_middle).pop.perm_left List.perm_middle.symm

theorem head_eq (hc : Chains h ((p, n :: l) :: ls) loose) : p = some n :=
  (hc.chain _ List.mem_cons_self).1

theorem empty_iff (hc : Chains h ((p, l) :: ls) loose) : l = [] ↔ p = none :=
  (hc.chain _ List.mem_cons_self).eq_nil_iff

/-- Forgetting a list without nodes. -/
theorem drop (hc : Chains h ((p, []) :: ls) loose) : Chains h ls loose where
  chain x hx := hc.chain x (List.mem_cons_of_mem _ hx)
  nodup := hc.nodup
  owned := hc.owned

theorem addEmpty (hc : Chains h ls loose) : Chains h ((none, []) :: ls) loose where
  chain x hx := by
    rcases List.mem_cons.mp hx with rfl | hx
    · exact Chain.nil
    · exact hc.chain x hx
  nodup := hc.nodup
  owned := hc.owned

theorem acquire (hc : Chains h ls loose) (hn : n ∉ h.owned) : Chains (h.acquire n) ls (n :: loose) where
  chain := hc.chain
  nodup := List.nodup_cons.mpr ⟨hn, hc.nodup⟩
  owned := (hc.owned.cons n).trans List.perm_middle.symm

/-- The field of a node inside a list. -/
theorem next_eq {front : List N} (hc : Chains h ((p, front ++ n :: l) :: ls) loose) :
    h.next n = l.head? := by
  obtain ⟨r, -, rfl, hrest⟩ := segment_append.mp (hc.chain _ List.mem_cons_self)
  cases l with
  | nil => exact hrest
  | cons m l => exact hrest.1

theorem mid_owned {front : List N} (hc : Chains h ((p, front ++ n :: l) :: ls) loose) : n ∈ h.owned :=
  hc.mem_owned.mpr (Or.inl ⟨_, List.mem_cons_self, by simp⟩)

/-- A loose node that points to a list becomes its first node. -/
theorem push (hc : Chains h ((p, l) :: ls) (n :: loose)) (hn : h.next n = p) :
    Chains h ((some n, n :: l) :: ls) loose where
  chain x hx := by
    rcases List.mem_cons.mp hx with rfl | hx
    · exact ⟨rfl, hn ▸ hc.chain _ List.mem_cons_self⟩
    · exact hc.chain x (List.mem_cons_of_mem _ hx)
  nodup := hc.nodup
  owned := by
    refine hc.owned.trans ?_
    simp only [List.flatMap_cons, List.cons_append]
    exact List.perm_middle

variable [DecidableEq N]

/-- Writing a loose node changes no list. -/
theorem write_loose (hc : Chains h ls (n :: loose)) (p : Option N) :
    Chains { h with next := Function.update h.next n p } ls (n :: loose) where
  chain x hx := (hc.chain x hx).update (hc.not_mem_of_loose hx)
  nodup := hc.nodup
  owned := hc.owned

/-- Writing a loose node puts it in front of a list. -/
theorem link (hc : Chains h ((p, l) :: ls) (n :: loose)) :
    Chains { h with next := Function.update h.next n p } ((some n, n :: l) :: ls) loose :=
  (hc.write_loose p).push (Function.update_self _ _ _)

/-- Moving the first node of a list to the front of another one. -/
theorem move (hc : Chains h ((p, n :: l) :: (q, l') :: ls) loose) :
    Chains { h with next := Function.update h.next n q }
      ((h.next n, l) :: (some n, n :: l') :: ls) loose :=
  hc.pop.swap.link.swap

/-- The same for two lists that stand behind others. -/
theorem move_behind (front : List (Option N × List N))
    (hc : Chains h (front ++ (p, n :: l) :: (q, l') :: ls) loose) :
    Chains { h with next := Function.update h.next n q }
      (front ++ (h.next n, l) :: (some n, n :: l') :: ls) loose := by
  have hfront : ∀ x y, (front ++ x :: y :: ls).Perm (x :: y :: (front ++ ls)) := fun x y =>
    List.perm_middle.trans (List.perm_middle.cons x)
  exact (hc.perm_left (hfront _ _)).move.perm_left (hfront _ _).symm

theorem release (hc : Chains h ls (n :: loose)) : Chains (h.release n) ls loose where
  chain := hc.chain
  nodup := hc.nodup.erase n
  owned := by
    have := (hc.owned.trans List.perm_middle).erase n
    rwa [List.erase_cons_head] at this

/-- Unlinking a node from the middle of a list. -/
theorem unlink {front : List N} (hc : Chains h ((p, front ++ n :: l) :: ls) loose) :
    ∃ h' p', h.store p (h.next n) (linkAfter front) = some (h', p') ∧
      Chains h' ((p', front ++ l) :: ls) (n :: loose) ∧ h'.owned = h.owned ∧ h'.next n = h.next n := by
  have hlist := hc.chain _ List.mem_cons_self
  have hnodup : (front ++ n :: l).Nodup := hlist.nodup
  obtain ⟨r, hfront, rfl, hrest⟩ := segment_append.mp hlist
  have hnot : ∀ m ∈ front, m ≠ n ∧ m ∉ l := by
    intro m hm
    have := (List.nodup_append.mp hnodup).2.2 m hm
    exact ⟨this n List.mem_cons_self, fun hml => this m (List.mem_cons_of_mem _ hml) rfl⟩
  have howned : ∀ m ∈ front, m ∈ h.owned := fun m hm =>
    hc.mem_owned.mpr (Or.inl ⟨_, List.mem_cons_self, List.mem_append_left _ hm⟩)
  obtain ⟨h', p', hstore, hseg, hown, hframe⟩ := Heap.store_linkAfter (q := h.next n) hfront
    (List.nodup_append.mp hnodup).1 howned
  have hn : n ∉ front := fun hn => (hnot n hn).1 rfl
  refine ⟨h', p', hstore, ⟨fun x hx => ?_, hown ▸ hc.nodup, ?_⟩, hown, hframe n hn⟩
  · rcases List.mem_cons.mp hx with rfl | hx
    · refine segment_append.mpr ⟨h.next n, hseg, Segment.congr hrest fun m hm => hframe m fun hmf => ?_⟩
      exact (hnot m hmf).2 hm
    · refine (hc.chain x (List.mem_cons_of_mem _ hx)).congr fun m hm => hframe m fun hmf => ?_
      exact (hc.disjoint (List.mem_append_left _ hmf)).1 x hx hm
  · rw [hown]
    refine hc.owned.trans ?_
    simp only [List.flatMap_cons, List.append_assoc, List.cons_append]
    refine List.Perm.append_left front (List.perm_middle.symm.trans (List.Perm.append_left l ?_))
    exact List.perm_middle.symm

/-- The pointer behind the first nodes of a list. -/
theorem load {front : List N} (hc : Chains h ((p, front ++ l) :: ls) loose) :
    h.load p (linkAfter front) = some l.head? := by
  obtain ⟨r, hfront, hrest⟩ := segment_append.mp (hc.chain _ List.mem_cons_self)
  have hr : r = l.head? := by
    cases l with
    | nil => exact hrest
    | cons n l => exact hrest.1
  subst hr
  exact Heap.load_linkAfter hfront fun m hm =>
    hc.mem_owned.mpr (Or.inl ⟨_, List.mem_cons_self, List.mem_append_left _ hm⟩)

end Chains

end DsaStdexec.Lib

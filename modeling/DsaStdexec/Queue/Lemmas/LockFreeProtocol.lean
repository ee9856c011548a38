import DsaStdexec.Queue.LockFreeProtocol

/-!
# Every operation in one hand or on one list
-/

namespace DsaStdexec.Queue

open DsaStdexec.Lib

variable {T O : Type}

/-- The list of the operations that `poll` is going to notify. -/
def Poller.completed : Poller O → Option O
  | .idle | .reversing _ _ => none
  | .splitting _ completed _ | .readding completed _ | .inserting completed _ _ => completed
  | .notifying completed _ => completed

/-- The other lists of `poll`. -/
def Poller.others : Poller O → List (Option O)
  | .idle | .notifying _ _ => []
  | .reversing localHead reversed => [localHead, reversed]
  | .splitting reversed _ pending => [reversed, pending]
  | .readding _ pending | .inserting _ pending _ => [pending]

def Poller.insertion : Poller O → Option (Insertion O)
  | .inserting _ _ insertion => some insertion
  | _ => none

def hands (producers : T → Option (Insertion O)) (poller : Poller O) : Option T → Option (Insertion O)
  | some t => producers t
  | none => poller.insertion

theorem hands_push [DecidableEq T] {producers : T → Option (Insertion O)} {poller : Poller O} {t : T}
    {x : Option (Insertion O)} :
    hands (Function.update producers t x) poller = Function.update (hands producers poller) (some t) x := by
  funext u
  cases u with
  | none => rfl
  | some u =>
      by_cases hu : u = t
      · subst hu
        simp [hands]
      · simp [hands, hu]

theorem hands_poll [DecidableEq T] {producers : T → Option (Insertion O)} {poller poller' : Poller O} :
    hands producers poller' = Function.update (hands producers poller) none poller'.insertion := by
  funext u
  cases u <;> simp [hands]

theorem hands_eq {producers : T → Option (Insertion O)} {poller poller' : Poller O}
    (h : poller'.insertion = poller.insertion) : hands producers poller' = hands producers poller := by
  funext u
  cases u with
  | none => exact h
  | some u => rfl

/-- What each thread has in its hand; `none` is the polling thread. -/
def LockFreeProtocol.hand (s : LockFreeProtocol T O) : Option T → Option (Insertion O) :=
  hands s.producers s.poller

/-! ## Hands -/

section

variable {U : Type} {next next' : O → Option O} {head head' : Option O} {owned : List O}
  {hand : U → Option (Insertion O)} {ls ls' : List (Option O × List O)} {loose : List O} {u : U}
  {insertion : Insertion O}

/-- `ls` are all lists, that at `head` among them, and the operations in the hands of the threads are on
none of them. A thread that is going to exchange has written the pointer that it compares. -/
structure Held (next : O → Option O) (owned : List O) (hand : U → Option (Insertion O))
    (ls : List (Option O × List O)) (loose : List O) : Prop where
  chains : Chains ⟨next, owned⟩ ls loose
  mem_iff : ∀ o, o ∈ loose ↔ ∃ u insertion, hand u = some insertion ∧ insertion.op = o
  injective : ∀ u u' i i', hand u = some i → hand u' = some i' → i.op = i'.op → u = u'
  linked : ∀ u op oldHead, hand u = some (.swapping op oldHead) → next op = oldHead

namespace Held

theorem mem (h : Held next owned hand ls loose) (hu : hand u = some insertion) : insertion.op ∈ loose :=
  (h.mem_iff _).mpr ⟨u, insertion, hu, rfl⟩

/-- A step that does not touch what the threads have in their hands. -/
theorem relist {owned' : List O} (h : Held next owned hand ls loose)
    (hc : Chains ⟨next', owned'⟩ ls' loose) (hnext : ∀ o ∈ loose, next' o = next o) :
    Held next' owned' hand ls' loose where
  chains := hc
  mem_iff := h.mem_iff
  injective := h.injective
  linked u op oldHead hu := (hnext op (h.mem hu)).trans (h.linked u op oldHead hu)

variable [DecidableEq U]

theorem update_eq_some {v : U} {x : Option (Insertion O)} :
    Function.update hand u x v = some insertion ↔
      v = u ∧ x = some insertion ∨ v ≠ u ∧ hand v = some insertion := by
  by_cases hvu : v = u
  · subst hvu
    simp
  · simp [hvu]

/-- A step after which thread `u` has `x` in its hand. -/
theorem update {owned' loose' : List O} (h : Held next owned hand ls loose)
    (x : Option (Insertion O)) (hc : Chains ⟨next', owned'⟩ ls' loose')
    (hframe : ∀ o ∈ loose, (∀ i, hand u = some i → i.op ≠ o) → next' o = next o)
    (hmem : ∀ o, o ∈ loose' ↔ (∃ i, x = some i ∧ i.op = o) ∨ o ∈ loose ∧ ∀ i, hand u = some i → i.op ≠ o)
    (hnew : ∀ i, x = some i → i.op ∈ loose → ∃ i', hand u = some i' ∧ i'.op = i.op)
    (hlinked : ∀ op oldHead, x = some (.swapping op oldHead) → next' op = oldHead) :
    Held next' owned' (Function.update hand u x) ls' loose' where
  chains := hc
  mem_iff o := by
    rw [hmem, h.mem_iff]
    constructor
    · rintro (⟨i, hi, rfl⟩ | ⟨⟨v, i, hv, rfl⟩, hother⟩)
      · exact ⟨u, i, update_eq_some.mpr (Or.inl ⟨rfl, hi⟩), rfl⟩
      · refine ⟨v, i, update_eq_some.mpr (Or.inr ⟨?_, hv⟩), rfl⟩
        rintro rfl
        exact hother i hv rfl
    · rintro ⟨v, i, hv, rfl⟩
      rcases update_eq_some.mp hv with ⟨-, hi⟩ | ⟨hvu, hv⟩
      · exact Or.inl ⟨i, hi, rfl⟩
      · exact Or.inr ⟨⟨v, i, hv, rfl⟩, fun i' hi' he => hvu (h.injective v u i i' hv hi' he.symm)⟩
  injective v v' i i' hv hv' hop := by
    -- an operation in another hand is not the one that `u` takes
    have hne : ∀ {w j j'}, w ≠ u → x = some j → hand w = some j' → j.op ≠ j'.op := by
      intro w j j' hwu hj hw he
      obtain ⟨k, hk, hko⟩ := hnew j hj (he ▸ h.mem hw)
      exact hwu (h.injective w u j' k hw hk (he.symm.trans hko.symm))
    rcases update_eq_some.mp hv with ⟨rfl, hi⟩ | ⟨hvu, hi⟩ <;>
      rcases update_eq_some.mp hv' with ⟨he, hi'⟩ | ⟨hvu', hi'⟩
    · exact he.symm
    · exact absurd hop (hne hvu' hi hi')
    · exact absurd hop.symm (hne hvu hi' hi)
    · exact h.injective v v' i i' hi hi' hop
  linked v op oldHead hv := by
    rcases update_eq_some.mp hv with ⟨-, hx⟩ | ⟨hvu, hx⟩
    · exact hlinked op oldHead hx
    · refine (hframe op (h.mem hx) fun i hi he => ?_).trans (h.linked v op oldHead hx)
      exact hvu (h.injective v u _ i hx hi he.symm)

/-- A thread that keeps its operation. -/
theorem keep {insertion' : Insertion O} (h : Held next owned hand ls loose)
    (hu : hand u = some insertion) (hop : insertion'.op = insertion.op)
    (hc : Chains ⟨next', owned⟩ ls loose) (hframe : ∀ o, o ≠ insertion.op → next' o = next o)
    (hlinked : ∀ op oldHead, insertion' = .swapping op oldHead → next' op = oldHead) :
    Held next' owned (Function.update hand u (some insertion')) ls loose := by
  refine h.update (some insertion') hc (fun o _ ho => hframe o (ho insertion hu).symm) (fun o => ?_)
    (fun i hi _ => ?_) fun op oldHead he => hlinked op oldHead (Option.some.inj he)
  · constructor
    · intro ho
      by_cases heq : insertion'.op = o
      · exact Or.inl ⟨insertion', rfl, heq⟩
      · refine Or.inr ⟨ho, fun i hi => ?_⟩
        cases hu.symm.trans hi
        exact fun he => heq (hop.trans he)
    · rintro (⟨i, hi, rfl⟩ | ⟨ho, -⟩)
      · cases hi
        exact hop ▸ h.mem hu
      · exact ho
  · cases hi
    exact ⟨insertion, hu, hop.symm⟩

/-- A thread that takes an operation into its hand. -/
theorem take {op : O} {owned' : List O} (h : Held next owned hand ls loose) (hu : hand u = none)
    (hc : Chains ⟨next, owned'⟩ ls' (op :: loose)) :
    Held next owned' (Function.update hand u (some (.loading op))) ls' (op :: loose) := by
  refine h.update (some (.loading op)) hc (fun _ _ _ => rfl) (fun o => ?_) (fun i hi hmem => ?_) fun _ _ he => nomatch he
  · simp [hu, Insertion.op, eq_comm]
  · cases hi
    exact absurd hmem (List.nodup_cons.mp (List.nodup_append.mp hc.nodup_all).2.1).1

/-- A thread that has put its operation on a list. -/
theorem drop [DecidableEq O] (h : Held next owned hand ls loose) (hu : hand u = some insertion)
    (hc : Chains ⟨next, owned⟩ ls' (loose.erase insertion.op)) :
    Held next owned (Function.update hand u none) ls' (loose.erase insertion.op) := by
  have hnodup : loose.Nodup := (List.nodup_append.mp h.chains.nodup_all).2.1
  refine h.update none hc (fun _ _ _ => rfl) (fun o => ?_) (fun _ hi => nomatch hi) fun _ _ he => nomatch he
  rw [hnodup.mem_erase_iff]
  constructor
  · rintro ⟨hne, ho⟩
    refine Or.inr ⟨ho, fun i hi he => ?_⟩
    cases hu.symm.trans hi
    exact hne he.symm
  · rintro (⟨i, hi, -⟩ | ⟨ho, hother⟩)
    · cases hi
    · exact ⟨(hother insertion hu).symm, ho⟩

end Held

end

/-! ## The loop of `push` -/

namespace LockFreeProtocol

theorem exists_pair {ls : List (Option O × List O)} {p q : Option O} (h : ls.map Prod.fst = [p, q]) :
    ∃ l l', ls = [(p, l), (q, l')] := by
  obtain ⟨⟨_, l⟩, _, rfl, rfl, htail⟩ := List.map_eq_cons_iff.mp h
  obtain ⟨⟨_, l'⟩, _, rfl, rfl, htail'⟩ := List.map_eq_cons_iff.mp htail
  obtain rfl := List.map_eq_nil_iff.mp htail'
  exact ⟨l, l', rfl⟩

theorem exists_single {ls : List (Option O × List O)} {p : Option O} (h : ls.map Prod.fst = [p]) :
    ∃ l, ls = [(p, l)] := by
  obtain ⟨⟨_, l⟩, _, rfl, rfl, htail⟩ := List.map_eq_cons_iff.mp h
  obtain rfl := List.map_eq_nil_iff.mp htail
  exact ⟨l, rfl⟩

variable {s s' : LockFreeProtocol T O}

variable [DecidableEq O] {spurious : Bool} {insertion : Insertion O}

theorem insert_frame {s₁ : LockFreeProtocol T O} {insertion' : Option (Insertion O)}
    (hs₁ : s.insert spurious insertion = (s₁, insertion')) :
    s₁.producers = s.producers ∧ s₁.poller = s.poller ∧ s₁.owned = s.owned ∧ s₁.log = s.log := by
  cases insertion with
  | loading op | linking op oldHead =>
      cases hs₁
      exact ⟨rfl, rfl, rfl, rfl⟩
  | swapping op oldHead =>
      simp only [insert] at hs₁
      split at hs₁ <;> cases hs₁ <;> exact ⟨rfl, rfl, rfl, rfl⟩

/-- A step of a thread in the loop of `push` keeps its operation in its hand or puts it in front of the
list. The exchange compares with the pointer that the operation holds, so it does not matter what has
happened to the head in between. -/
theorem insert_held {U : Type} [DecidableEq U] (spurious : Bool) {hand : U → Option (Insertion O)} {u : U}
    {ls : List (Option O × List O)} {l loose : List O}
    (h : Held s.next s.owned hand ((s.head, l) :: ls) loose) (hu : hand u = some insertion) :
    ∃ l' loose', Held (s.insert spurious insertion).1.next s.owned
      (Function.update hand u (s.insert spurious insertion).2)
      (((s.insert spurious insertion).1.head, l') :: ls) loose' := by
  have hloose : loose.Perm (insertion.op :: loose.erase insertion.op) := List.perm_cons_erase (h.mem hu)
  have hloaded : ∀ op oldHead, insertion.op = op →
      Held s.next s.owned (Function.update hand u (some (.linking op oldHead))) ((s.head, l) :: ls) loose :=
    fun op oldHead hop => h.keep hu hop.symm h.chains (fun _ _ => rfl) fun _ _ he => nomatch he
  cases insertion with
  | loading op => exact ⟨l, loose, hloaded op s.head rfl⟩
  | linking op oldHead =>
      refine ⟨l, loose, h.keep hu rfl ?_ (fun o ho => Function.update_of_ne ho _ _) ?_⟩
      · exact ((h.chains.perm (.refl _) hloose).write_loose oldHead).perm (.refl _) hloose.symm
      · rintro _ _ ⟨⟩
        exact Function.update_self _ _ _
  | swapping op oldHead =>
      simp only [insert]
      split
      next hsame =>
          have hnext : s.next op = s.head := (h.linked u op oldHead hu).trans hsame.1.symm
          exact ⟨op :: l, _, h.drop hu ((h.chains.perm (.refl _) hloose).push hnext)⟩
      next => exact ⟨l, loose, hloaded op s.head rfl⟩

/-! ## The steps -/

/-- `l` is the list at `head_`, `done` the operations that are going to be notified, `ls` the other lists
of `poll`, and `loose` the operations in the hands of the threads. -/
structure Located (s : LockFreeProtocol T O) (l done : List O) (ls : List (Option O × List O))
    (loose : List O) : Prop where
  held : Held s.next s.owned s.hand ((s.head, l) :: (s.poller.completed, done) :: ls) loose
  others : ls.map Prod.fst = s.poller.others
  checked : ∀ o, s.log.count (.checked o) = s.log.count (.notified o) + done.count o
  pushed : ∀ o, s.log.count (.pushed o) = s.log.count (.notified o) + s.owned.count o

def Accounted (s : LockFreeProtocol T O) : Prop := ∃ l done ls loose, Located s l done ls loose

/-- A step of `poll` that leaves the hands as they are. -/
theorem Located.relist {l l' done done' loose : List O} {ls ls' : List (Option O × List O)}
    (h : Located s l done ls loose) (hproducers : s'.producers = s.producers)
    (hpoller : s'.poller.insertion = s.poller.insertion)
    (hc : Chains ⟨s'.next, s'.owned⟩ ((s'.head, l') :: (s'.poller.completed, done') :: ls') loose)
    (hnext : ∀ o ∈ loose, s'.next o = s.next o) (hothers : ls'.map Prod.fst = s'.poller.others)
    (hchecked : ∀ o, s'.log.count (.checked o) = s'.log.count (.notified o) + done'.count o)
    (hpushed : ∀ o, s'.log.count (.pushed o) = s'.log.count (.notified o) + s'.owned.count o) :
    Accounted s' := by
  have hhand : s'.hand = s.hand := by
    rw [hand, hproducers]
    exact hands_eq hpoller
  exact ⟨l', done', ls', loose, hhand ▸ h.held.relist hc hnext, hothers, hchecked, hpushed⟩

namespace Accounted

theorem push [DecidableEq T] {t : T} {op : O} (h : Accounted s) (ht : s.producers t = none)
    (hop : op ∉ s.owned) :
    Accounted
      { s with
        producers := Function.update s.producers t (some (.loading op))
        owned := op :: s.owned
        log := s.log ++ [.pushed op] } := by
  obtain ⟨l, done, ls, loose, h⟩ := h
  refine ⟨l, done, ls, op :: loose, ?_, h.others, fun o => ?_, fun o => ?_⟩
  · simp only [hand, hands_push]
    exact h.held.take ht (h.held.chains.acquire hop)
  · simpa using h.checked o
  · simp [List.count_cons, h.pushed o, Nat.add_assoc]

/-- A step of a thread in the loop of `push`. -/
theorem insert_step [DecidableEq T] {u : Option T} {s₁ : LockFreeProtocol T O}
    {insertion' : Option (Insertion O)} (h : Accounted s) (hu : s.hand u = some insertion)
    (hs₁ : s.insert spurious insertion = (s₁, insertion')) (hnext : s'.next = s₁.next)
    (hhead : s'.head = s₁.head) (howned : s'.owned = s₁.owned) (hlog : s'.log = s₁.log)
    (hhand : s'.hand = Function.update s.hand u insertion')
    (hcompleted : s'.poller.completed = s.poller.completed)
    (hothers : s'.poller.others = s.poller.others) : Accounted s' := by
  obtain ⟨l, done, ls, loose, h⟩ := h
  obtain ⟨l', loose', hheld⟩ := insert_held spurious h.held hu
  obtain ⟨-, -, howned', hlog'⟩ := insert_frame hs₁
  rw [hs₁, ← howned'] at hheld
  refine ⟨l', done, ls, loose', ?_, hothers ▸ h.others, ?_, ?_⟩
  · rw [hnext, hhead, howned, hhand, hcompleted]
    exact hheld
  · rw [hlog, hlog']
    exact h.checked
  · rw [hlog, hlog', howned, howned']
    exact h.pushed

section

variable {next : O → Option O} {head localHead reversed completed pending : Option O}
  {producers : T → Option (Insertion O)} {owned : List O} {log : List (LockFreeEvent O)} {op : O}
  {count : Nat}

theorem frame {q : Option O} {loose : List O} (hne : ∀ o ∈ loose, o ≠ op) :
    ∀ o ∈ loose, Function.update next op q o = next o :=
  fun o ho => Function.update_of_ne (hne o ho) _ _

/-- The exchange of `poll`. -/
theorem steal (h : Accounted ⟨next, head, producers, .idle, owned, log⟩) :
    Accounted ⟨next, none, producers, .reversing head none, owned, log⟩ := by
  obtain ⟨l, done, ls, loose, h⟩ := h
  obtain rfl : ls = [] := List.map_eq_nil_iff.mp h.others
  have hc := h.held.chains
  have hc' := (hc.addEmpty.rotate.perm_left (.cons _ (.swap _ _ _))).addEmpty
  exact h.relist rfl rfl hc' (fun _ _ => rfl) rfl h.checked h.pushed

theorem reverse (h : Accounted ⟨next, head, producers, .reversing (some op) reversed, owned, log⟩) :
    Accounted
      ⟨Function.update next op reversed, head, producers, .reversing (next op) (some op), owned, log⟩ := by
  obtain ⟨l, done, ls, loose, h⟩ := h
  obtain ⟨l₁, l₂, rfl⟩ := exists_pair h.others
  have hc := h.held.chains
  obtain ⟨l₁, rfl, hne⟩ := hc.exists_cons (by simp : (some op, l₁) ∈ _)
  exact h.relist rfl rfl (hc.move_behind [_, _]) (frame hne) rfl h.checked h.pushed

theorem reversed_all (h : Accounted ⟨next, head, producers, .reversing none reversed, owned, log⟩) :
    Accounted ⟨next, head, producers, .splitting reversed none none, owned, log⟩ := by
  obtain ⟨l, done, ls, loose, h⟩ := h
  obtain ⟨l₁, l₂, rfl⟩ := exists_pair h.others
  have hc := h.held.chains
  obtain rfl := chain_none_iff.mp (hc.chain (none, l₁) (by simp))
  have hc' := hc.perm_left (.cons _ (.cons _ (.swap _ _ _)))
  exact h.relist rfl rfl hc' (fun _ _ => rfl) rfl h.checked h.pushed

/-- `check_completion` has returned true. -/
theorem complete (h : Accounted ⟨next, head, producers, .splitting (some op) completed pending, owned, log⟩) :
    Accounted
      ⟨Function.update next op completed, head, producers, .splitting (next op) (some op) pending, owned,
        log ++ [.checked op]⟩ := by
  obtain ⟨l, done, ls, loose, h⟩ := h
  obtain ⟨l₁, l₂, rfl⟩ := exists_pair h.others
  have hc := h.held.chains
  obtain ⟨l₁, rfl, hne⟩ := hc.exists_cons (by simp : (some op, l₁) ∈ _)
  have hc' := (hc.perm_left (.cons _ (.swap _ _ _))).move_behind [_]
  refine h.relist rfl rfl (hc'.perm_left (.cons _ (.swap _ _ _))) (frame hne) rfl (fun o => ?_) fun o => ?_
  · have := h.checked o
    simp only [List.count_append, List.count_cons, List.count_nil, beq_iff_eq, reduceCtorEq, if_false,
      LockFreeEvent.checked.injEq] at this ⊢
    omega
  · simpa using h.pushed o

/-- `check_completion` has returned false. -/
theorem defer (h : Accounted ⟨next, head, producers, .splitting (some op) completed pending, owned, log⟩) :
    Accounted
      ⟨Function.update next op pending, head, producers, .splitting (next op) completed (some op), owned,
        log⟩ := by
  obtain ⟨l, done, ls, loose, h⟩ := h
  obtain ⟨l₁, l₂, rfl⟩ := exists_pair h.others
  have hc := h.held.chains
  obtain ⟨l₁, rfl, hne⟩ := hc.exists_cons (by simp : (some op, l₁) ∈ _)
  exact h.relist rfl rfl (hc.move_behind [_, _]) (frame hne) rfl h.checked h.pushed

theorem split_all (h : Accounted ⟨next, head, producers, .splitting none completed pending, owned, log⟩) :
    Accounted ⟨next, head, producers, .readding completed pending, owned, log⟩ := by
  obtain ⟨l, done, ls, loose, h⟩ := h
  obtain ⟨l₁, l₂, rfl⟩ := exists_pair h.others
  have hc := h.held.chains
  obtain rfl := chain_none_iff.mp (hc.chain (none, l₁) (by simp))
  exact h.relist rfl rfl (hc.rotate.drop) (fun _ _ => rfl) rfl h.checked h.pushed

theorem readd [DecidableEq T]
    (h : Accounted ⟨next, head, producers, .readding completed (some op), owned, log⟩) :
    Accounted ⟨next, head, producers, .inserting completed (next op) (.loading op), owned, log⟩ := by
  obtain ⟨l, done, ls, loose, h⟩ := h
  obtain ⟨l₁, rfl⟩ := exists_single h.others
  have hc := h.held.chains
  obtain ⟨l₁, rfl, -⟩ := hc.exists_cons (by simp : (some op, l₁) ∈ _)
  refine ⟨l, done, [(next op, l₁)], op :: loose, ?_, rfl, h.checked, h.pushed⟩
  rw [hand, hands_poll]
  exact h.held.take rfl (hc.pop_behind [_, _])

theorem readd_all (h : Accounted ⟨next, head, producers, .readding completed none, owned, log⟩) :
    Accounted ⟨next, head, producers, .notifying completed count, owned, log⟩ := by
  obtain ⟨l, done, ls, loose, h⟩ := h
  obtain ⟨l₁, rfl⟩ := exists_single h.others
  have hc := h.held.chains
  obtain rfl := chain_none_iff.mp (hc.chain (none, l₁) (by simp))
  exact h.relist rfl rfl (hc.rotate.drop) (fun _ _ => rfl) rfl h.checked h.pushed

theorem notify (h : Accounted ⟨next, head, producers, .notifying (some op) count, owned, log⟩) :
    Accounted
      ⟨next, head, producers, .notifying (next op) (count + 1), owned.erase op, log ++ [.notified op]⟩ := by
  obtain ⟨l, done, ls, loose, h⟩ := h
  obtain rfl : ls = [] := List.map_eq_nil_iff.mp h.others
  have hc := h.held.chains
  obtain ⟨done, rfl, -⟩ := hc.swap.exists_cons List.mem_cons_self
  have hop : op ∈ owned := hc.swap.head_owned
  refine h.relist rfl rfl (hc.pop_behind [_]).release (fun _ _ => rfl) rfl (fun o => ?_) fun o => ?_
  · have := h.checked o
    simp only [List.count_append, List.count_cons, List.count_nil, beq_iff_eq, reduceCtorEq, if_false,
      LockFreeEvent.notified.injEq] at this ⊢
    omega
  · have := h.pushed o
    have hcount := (List.perm_cons_erase hop).count_eq o
    simp only [List.count_append, List.count_cons, List.count_nil, beq_iff_eq, reduceCtorEq, if_false,
      LockFreeEvent.notified.injEq] at this hcount ⊢
    omega

theorem notified_all (h : Accounted ⟨next, head, producers, .notifying none count, owned, log⟩) :
    Accounted ⟨next, head, producers, .idle, owned, log⟩ := by
  obtain ⟨l, done, ls, loose, h⟩ := h
  exact ⟨l, done, ls, loose, h.held, h.others, h.checked, h.pushed⟩

end

end Accounted

/-! ## Whole runs -/

/-- Each push is checked and then notified before the next push of the operation. -/
def Alternates (log : List (LockFreeEvent O)) : Prop :=
  ∀ o, log.count (.notified o) ≤ log.count (.checked o) ∧ log.count (.checked o) ≤ log.count (.pushed o) ∧
    log.count (.pushed o) ≤ log.count (.notified o) + 1

theorem Accounted.alternates (h : Accounted s) : Alternates s.log := by
  obtain ⟨l, done, ls, loose, h⟩ := h
  intro o
  have hdone : done.count o ≤ s.owned.count o := by
    rw [h.held.chains.owned.count_eq o]
    simp only [List.flatMap_cons, List.count_append]
    omega
  have howned : s.owned.count o ≤ 1 := List.nodup_iff_count_le_one.mp h.held.chains.nodup o
  rw [h.checked, h.pushed]
  omega

theorem accounted_init : Accounted (init : LockFreeProtocol T O) := by
  have hc : Chains (⟨fun _ => none, []⟩ : Heap O) [(none, []), (none, [])] [] := by
    refine Chains.addEmpty (Chains.addEmpty ⟨?_, List.nodup_nil, List.Perm.refl _⟩)
    exact fun _ hx => nomatch hx
  have hhand : ∀ u, (init : LockFreeProtocol T O).hand u = none := by
    intro u
    cases u <;> rfl
  refine ⟨[], [], [], [], ⟨hc, fun o => ?_, fun u u' i i' hi => ?_, fun u op oldHead hu => ?_⟩, rfl,
    fun _ => rfl, fun _ => rfl⟩
  · simp [hhand]
  · exact nomatch (hhand u).symm.trans hi
  · exact nomatch (hhand u).symm.trans hu

variable [DecidableEq T]

theorem advance_accounted {check : Bool} (h : Accounted s) (hs : s.advance check spurious = some s') :
    Accounted s' := by
  obtain ⟨next, head, producers, poller, owned, log⟩ := s
  cases poller with
  | idle => cases hs
  | reversing localHead reversed =>
      cases localHead with
      | some op => cases hs; exact h.reverse
      | none => cases hs; exact h.reversed_all
  | splitting reversed completed pending =>
      cases reversed with
      | some op =>
          cases check with
          | true => cases hs; exact h.complete
          | false => cases hs; exact h.defer
      | none => cases hs; exact h.split_all
  | readding completed pending =>
      cases pending with
      | some op => cases hs; exact h.readd
      | none => cases hs; exact h.readd_all
  | inserting completed pending insertion =>
      simp only [advance] at hs
      generalize hs₁ : insert _ spurious insertion = r at hs
      obtain ⟨s₁, insertion'⟩ := r
      have hproducers : s₁.producers = producers := (insert_frame hs₁).1
      cases insertion' with
      | some insertion' =>
          cases hs
          refine h.insert_step (u := none) rfl hs₁ rfl rfl rfl rfl ?_ rfl rfl
          simp only [hand, hproducers]
          exact hands_poll
      | none =>
          cases hs
          refine h.insert_step (u := none) rfl hs₁ rfl rfl rfl rfl ?_ rfl rfl
          simp only [hand, hproducers]
          exact hands_poll
  | notifying completed count =>
      cases completed with
      | some op => cases hs; exact h.notify
      | none => cases hs; exact h.notified_all

theorem step_accounted {action : LockFreeAction T O} (h : Accounted s) (hs : s.step action = some s') :
    Accounted s' := by
  cases action with
  | push t op =>
      simp only [step] at hs
      split at hs
      next ht =>
          split at hs
          next hop =>
              cases hs
              exact h.push ht hop
          next => cases hs
      next => cases hs
  | produce t spurious =>
      simp only [step] at hs
      split at hs
      next => cases hs
      next insertion ht =>
          generalize hs₁ : s.insert spurious insertion = r at hs
          obtain ⟨s₁, insertion'⟩ := r
          obtain ⟨hproducers, hpoller, -, -⟩ := insert_frame hs₁
          cases hs
          refine h.insert_step (u := some t) ht hs₁ rfl rfl rfl rfl ?_ ?_ ?_
          · simp only [hand, hproducers, hpoller]
            exact hands_push
          · simp only [hpoller]
          · simp only [hpoller]
  | poll =>
      obtain ⟨next, head, producers, poller, owned, log⟩ := s
      cases poller with
      | idle =>
          cases head with
          | none => cases hs; exact h
          | some localHead => cases hs; exact h.steal
      | _ => cases hs
  | advance check spurious => exact advance_accounted h hs

/-- A step adds at most one event. -/
theorem step_log {action : LockFreeAction T O} (hs : s.step action = some s') :
    s'.log = s.log ∨ ∃ e, s'.log = s.log ++ [e] := by
  cases action with
  | push t op =>
      simp only [step] at hs
      split at hs
      next =>
          split at hs <;> cases hs
          exact Or.inr ⟨_, rfl⟩
      next => cases hs
  | produce t spurious =>
      simp only [step] at hs
      split at hs <;> cases hs
      exact Or.inl (insert_frame rfl).2.2.2
  | poll =>
      simp only [step] at hs
      split at hs <;> cases hs
      · exact Or.inl rfl
      · exact Or.inl rfl
  | advance check spurious =>
      simp only [step, advance] at hs
      split at hs
      case h_4 =>
        split at hs <;> cases hs
        · exact Or.inr ⟨_, rfl⟩
        · exact Or.inl rfl
      case h_8 =>
        split at hs
        next hs₁ => cases hs; exact Or.inl (insert_frame hs₁).2.2.2
        next hs₁ => cases hs; exact Or.inl (insert_frame hs₁).2.2.2
      case h_9 => cases hs; exact Or.inr ⟨_, rfl⟩
      all_goals
        cases hs
      all_goals
        exact Or.inl rfl

theorem safe_of_run {actions : List (LockFreeAction T O)} (run : machine.run actions = some s) :
    Accounted s ∧ ∀ log, log <+: s.log → Alternates log := by
  refine Machine.run_invariant (I := fun s => Accounted s ∧ ∀ log, log <+: s.log → Alternates log)
    ⟨accounted_init, ?_⟩ ?_ run
  · intro log hlog
    rw [List.prefix_nil.mp hlog]
    exact (accounted_init (T := T)).alternates
  · rintro s action s' ⟨h, hlogs⟩ hs
    have h' := step_accounted h hs
    refine ⟨h', fun log hlog => ?_⟩
    rcases step_log hs with heq | ⟨e, heq⟩
    · exact hlogs log (heq ▸ hlog)
    · rw [heq] at hlog
      rcases List.prefix_concat_iff.mp hlog with rfl | hlog
      · exact heq ▸ h'.alternates
      · exact hlogs log hlog

end LockFreeProtocol

end DsaStdexec.Queue

import DsaStdexec.Queue.Lemmas.LockFreeProtocol
import DsaStdexec.Queue.Lemmas.RingProtocol
import DsaStdexec.Queue.Lemmas.System

/-!
# What the task queues guarantee
-/

namespace DsaStdexec.Queue

open DsaStdexec.Lib

/-! ## One thread -/

section

variable {O : Type} [DecidableEq O] {kind kind' : Kind} {as as' : List (Action O)}
  {s : System (kind.implementation O)} {s' : System (kind'.implementation O)}

/-- The run is a run of the bag, and no call gets stuck. -/
structure RefinesBag (kind : Kind) (as : List (Action O)) (s : System (kind.implementation O)) :
    Prop where
  bag : ∃ b, Bag.init.Run as b ∧ s.log = b.log ∧
    ((kind.implementation O).isEmpty s.store = true ↔ b.pending = 0)
  push_returns : s.callable = true → (kind.implementation O).hasRoom s.store = true →
    ∀ o ∉ s.heap.owned, (s.step (.push o)).isSome = true
  poll_returns : s.callable = true → ∀ check, (s.step (.poll check)).isSome = true
  advance_returns : s.callable = false → (s.step .advance).isSome = true

theorem refinesBag_of_run
    (hw : (System.machine (kind.implementation O)).Meets System.WithinCapacity System.init as)
    (h : (System.machine (kind.implementation O)).run as = some s) : RefinesBag kind as s := by
  obtain ⟨b, hrun, hsim⟩ := simulates_run kind.refinement hw h
  refine ⟨⟨b, hrun, hsim.log, hsim.isEmpty_iff⟩, fun hc hroom o ho => ?_, fun hc check => ?_,
    hsim.advance_isSome⟩
  · obtain ⟨s', hs, -⟩ := hsim.push hc ho hroom
    rw [hs]
    rfl
  · obtain ⟨s', hs, -⟩ := hsim.poll hc check
    rw [hs]
    rfl

/-- The four queues are bags, and return the same counts for the same operations. -/
theorem taskQueues_refine_bag
    (hw : (System.machine (kind.implementation O)).Meets System.WithinCapacity System.init as)
    (h : (System.machine (kind.implementation O)).run as = some s)
    (hw' : (System.machine (kind'.implementation O)).Meets System.WithinCapacity System.init as')
    (h' : (System.machine (kind'.implementation O)).run as' = some s') :
    RefinesBag kind as s ∧ RefinesBag kind' as' s' ∧
    ((System.machine (kind.implementation O)).Meets System.Unnested System.init as →
      (System.machine (kind'.implementation O)).Meets System.Unnested System.init as' →
      s.stack = [] → s'.stack = [] → rounds as 0 = rounds as' 0 → returns s.log = returns s'.log) := by
  refine ⟨refinesBag_of_run hw h, refinesBag_of_run hw' h', fun hu hu' hend hend' hrounds => ?_⟩
  rw [returns_run kind.refinement hw hu h hend, returns_run kind'.refinement hw' hu' h' hend', hrounds]

/-- The callback of operation 1 pushes operation 2, and the second call finds both that are left. -/
def pushingRun : List (Action Nat) :=
  ([.push 0, .push 1, .poll (· == 1), .advance, .push 2, .callbackReturn, .advance] : List (Action Nat)) ++
    ([.poll fun _ => true, .advance, .callbackReturn, .advance, .callbackReturn, .advance] : List (Action Nat))

theorem taskQueues_refine_bag_pushing :
    ∃ s s', (System.machine (Kind.locked.implementation Nat)).run pushingRun = some s ∧
      (System.machine (Kind.indexed.implementation Nat)).run pushingRun = some s' ∧
      RefinesBag .locked pushingRun s ∧ RefinesBag .indexed pushingRun s' ∧
      returns s.log = [1, 2] ∧ returns s'.log = [1, 2] := by
  have hall : ∀ s s', (System.machine (Kind.locked.implementation Nat)).run pushingRun = some s →
      (System.machine (Kind.indexed.implementation Nat)).run pushingRun = some s' →
      RefinesBag .locked pushingRun s ∧ RefinesBag .indexed pushingRun s' := by
    intro s s' h h'
    have hbag := taskQueues_refine_bag (withinCapacity_of_hasRoom fun _ => rfl) h
      (withinCapacity_of_hasRoom fun _ => rfl) h'
    exact ⟨hbag.1, hbag.2.1⟩
  exact ⟨_, _, rfl, rfl, (hall _ _ rfl rfl).1, (hall _ _ rfl rfl).2, by decide, by decide⟩

/-- In every state each push has been notified at most once, the lists end and do not meet, and `poll`
accesses only operations that have been pushed and not yet notified. A call from outside notifies every
operation that is complete when it starts. -/
structure PollSafe (kind : Kind) (s : System (kind.implementation O)) : Prop where
  notified_once : ∀ o, s.log.count (.notified o) ≤ s.log.count (.pushed o) ∧
    s.log.count (.pushed o) ≤ s.log.count (.notified o) + 1
  lists : ∃ ls, (kind.implementation O).heads s.store ++ s.stack.map Frame.completedHead =
      ls.map Prod.fst ∧
    Chains s.heap ls ((kind.implementation O).slots s.store)
  owned_iff : ∀ o, o ∈ s.heap.owned ↔ s.log.count (.notified o) < s.log.count (.pushed o)
  poll_safe : s.callable = true → ∀ check, (s.step (.poll check)).isSome = true
  advance_safe : s.callable = false → (s.step .advance).isSome = true
  outermost : s.stack = [] → ∀ check s₁ bs t, s.step (.poll check) = some s₁ →
    (System.machine (kind.implementation O)).Meets System.WithinCapacity s₁ bs →
    (System.machine (kind.implementation O)).runFrom s₁ bs = some t → t.stack = [] →
    ∀ o ∈ s.heap.owned, check o = true →
      s.log.count (.notified o) < t.log.count (.notified o)

theorem poll_reentrant
    (hw : (System.machine (kind.implementation O)).Meets System.WithinCapacity System.init as)
    (h : (System.machine (kind.implementation O)).run as = some s) : PollSafe kind s := by
  obtain ⟨b, hrun, hsim⟩ := simulates_run kind.refinement hw h
  have hbag := refinesBag_of_run hw h
  have hledger : ∀ o, s.log.count (.pushed o) = s.log.count (.notified o) + s.heap.owned.count o := by
    intro o
    rw [hsim.log, hrun.ledger o, Nat.add_assoc, ← Multiset.count_add, ← hsim.owned,
      Multiset.coe_count]
  have hone : ∀ o, s.heap.owned.count o ≤ 1 := List.nodup_iff_count_le_one.mp hsim.nodup
  refine ⟨fun o => ?_, hsim.chains, fun o => ?_, hbag.poll_returns, hbag.advance_returns, ?_⟩
  · have := hledger o
    have := hone o
    omega
  · rw [hledger o, ← List.count_pos_iff]
    omega
  · intro hnil check s₁ bs t hs hw₁ hr hend o ho hcheck
    have hcall : s.callable = true := by simp [System.callable, hnil]
    obtain ⟨s₁', hs', hsim₁⟩ := hsim.poll hcall check
    cases hs'.symm.trans hs
    obtain ⟨b', hrun', hsim'⟩ := simulates_runFrom hsim₁ hw₁ hr
    have hbnil := hsim.stack_nil_iff.mp hnil
    have hpending : o ∈ b.pending := by
      have := hsim.owned
      rw [hbnil, List.map_nil, List.sum_nil, add_zero] at this
      rw [← this]
      exact ho
    rw [hsim.log, hsim'.log]
    refine hrun'.notified (o := o) ⟨[], _, by rw [hbnil]; rfl, ?_⟩ (hsim'.stack_nil_iff.mp hend)
    exact Multiset.mem_filter.mpr ⟨hpending, hcheck⟩

/-- The callback of operation 0 pushes it again and calls `poll`, which notifies operation 1. -/
def nestedRun : List (Action Nat) :=
  [.push 0, .poll fun _ => true, .advance, .push 1, .push 0, .poll (· == 1), .advance]

theorem poll_reentrant_nested :
    ∃ s, (System.machine (Kind.lockFree.implementation Nat)).run nestedRun = some s ∧
      s.log = [.pushed 0, .notified 0, .pushed 1, .pushed 0, .notified 1] ∧ PollSafe .lockFree s := by
  have hall : ∀ s, (System.machine (Kind.lockFree.implementation Nat)).run nestedRun = some s →
      PollSafe .lockFree s := fun _ h => poll_reentrant (withinCapacity_of_hasRoom fun _ => rfl) h
  exact ⟨_, rfl, rfl, hall _ rfl⟩

end

/-! ## Several producers -/

namespace RingProtocol

variable {T O : Type} {k : Nat} {s : RingProtocol T O} {as : List (RingAction T O)}

/-- Operations are taken in the order of their tickets, each once. An operation whose sequence number is
stored stays in its cell until it is taken: no producer writes the cell before, and `poll` reads it only
after the producer. At most `capacity` operations are written and not read. A call of `poll` takes every
operation whose ticket and all earlier ones are stored when it starts. It can always make its next step, and
whatever the producers do in between, it is done with the ring after `3 * capacity + 2` steps of its own. Then
a thread whose ticket is among the next `capacity` ones passes its test, so that no ticket holds up the later
ones for ever. -/
structure RingSafe [DecidableEq T] (k : Nat) (s : RingProtocol T O) : Prop where
  in_order : s.taken = s.tickets.take s.taken.length
  taken_stored : ∀ n < s.taken.length, n ∈ s.stored
  kept : ∀ n ∈ s.stored, s.taken.length ≤ n →
    s.queue.buffer (n % 2 ^ k) = s.tickets[n]? ∧ s.queue.sequence (n % 2 ^ k) = n + 1
  no_overwrite : ∀ t op slot, s.producers t = .writing op slot → ∀ n ∈ s.written, n ≠ slot →
    s.taken.length ≤ n → n % 2 ^ k ≠ slot % 2 ^ k
  no_early_read : ∀ head available i, s.consumer = .reading head available i → i < available →
    head + i = s.taken.length ∧ head + i ∈ s.stored ∧
      s.queue.buffer ((head + i) % 2 ^ k) = s.tickets[head + i]?
  bounded : (s.written.filter fun n => s.taken.length ≤ n).card ≤ 2 ^ k
  poll_takes : ∀ m, (∀ n < m, n ∈ s.stored) → ∀ s₁ bs t, step (2 ^ k) s .poll = some s₁ →
    (machine (2 ^ k)).runFrom s₁ bs = some t → t.consumer = .idle → m ≤ t.taken.length
  poll_runs : s.consumer ≠ .idle → (step (2 ^ k) s .consume).isSome = true
  poll_ends : ∀ bs t, (machine (2 ^ k)).runFrom s bs = some t →
    3 * 2 ^ k + 2 ≤ bs.countP RingAction.isConsume → ∃ cs ds u, bs = cs ++ ds ∧
      cs.countP RingAction.isConsume ≤ 3 * 2 ^ k + 2 ∧
      (machine (2 ^ k)).runFrom s cs = some u ∧ u.consumer = .idle
  poll_takes_in_time : ∀ m, (∀ n < m, n ∈ s.stored) → ∀ s₁ bs t, step (2 ^ k) s .poll = some s₁ →
    (machine (2 ^ k)).runFrom s₁ bs = some t → 3 * 2 ^ k + 2 ≤ bs.countP RingAction.isConsume →
    m ≤ t.taken.length
  push_passes : s.consumer = .idle → ∀ t op slot, s.producers t = .waiting op slot →
    slot < s.taken.length + 2 ^ k → step (2 ^ k) s (.produce t) =
      some { s with producers := Function.update s.producers t (.writing op slot) }

theorem ringBuffer_safe [DecidableEq T] (hk : 2 ≤ 2 ^ k) (h : (machine (2 ^ k)).run as = some s) :
    RingSafe k s := by
  have ht : Tied (2 ^ k) s := tied_of_run hk h
  have hread := released_le_read ht.consumer
  have hlen := ht.taken_length
  constructor
  · rw [hlen]
    exact ht.taken
  · intro n hn
    exact ht.stored_of_lt (by omega)
  · intro n hn hle
    refine ⟨ht.cell n hn (by omega), ?_⟩
    rw [ht.window n (by omega) (ht.written_lt n (ht.stored_written n hn)), if_pos hn]
  · intro t op slot hp n hn hne hle he
    have hown := ht.owns t
    rw [hp] at hown
    exact hne (eq_of_mod_eq (by omega) (ht.written_lt n hn) (ht.released_le hown.2.1) hown.2.2 he)
  · intro head available i hc hi
    exact ht.next_cell hc hi
  · have hsub : (s.written.filter fun n => s.taken.length ≤ n) ⊆
        Finset.Ico s.taken.length (s.taken.length + 2 ^ k) := by
      intro n hn
      obtain ⟨hn, hle⟩ := Finset.mem_filter.mp hn
      have := ht.written_lt n hn
      exact Finset.mem_Ico.mpr ⟨hle, by omega⟩
    simpa using Finset.card_le_card hsub
  · intro m hm s₁ bs t hs hr hend
    exact taken_by_poll hk ht hm hs hr hend
  · intro hne
    simp only [step, consume, index_eq]
    cases hc : s.consumer with
    | idle => exact absurd hc hne
    | counting head available => simp only; split <;> [rfl; (split <;> rfl)]
    | reading head available i =>
        simp only
        split
        · rename_i hi
          obtain ⟨-, hstored, hcell⟩ := ht.next_cell hc hi
          rw [hcell, List.getElem?_eq_getElem (ht.ticket _ hstored)]
          rfl
        · rfl
    | releasing head available i => simp only; split <;> rfl
  · intro bs t hr hmany
    exact poll_bounded hk ht hr hmany
  · intro m hm s₁ bs t hs hr hmany
    exact taken_in_time hk ht hm hs hr hmany
  · intro hidle t op slot hp hlt
    rw [hlen, read, hidle] at hlt
    have hseq : s.queue.sequence (slot &&& (2 ^ k - 1)) = slot := by
      have hown := ht.owns t
      rw [hp] at hown
      have hreleased : s.released = s.queue.head := by rw [released, hidle]; rfl
      rw [index_eq, ht.window slot (ht.released_le hown.2) (hreleased ▸ hlt), if_neg hown.2]
    simp only [step, produce, hp, hseq, ne_eq, not_true, if_false]

/-- Two threads push while `poll` runs; the second one stores its sequence number first. -/
def overtakingRun : List (RingAction Bool Nat) :=
  ([.push false 7, .push true 8, .produce true, .produce true, .produce true] :
      List (RingAction Bool Nat)) ++
    ([.poll, .consume, .consume, .consume] : List (RingAction Bool Nat)) ++
    ([.produce false, .produce false, .produce false, .poll, .consume, .consume, .consume, .consume] :
      List (RingAction Bool Nat))

theorem ringBuffer_safe_overtaking :
    ∃ s, (machine (2 ^ 1)).run overtakingRun = some s ∧ s.taken = [7, 8] ∧ RingSafe 1 s := by
  have hall : ∀ s, (machine (2 ^ 1)).run overtakingRun = some s → RingSafe 1 s := fun _ h =>
    ringBuffer_safe (by decide) h
  exact ⟨_, rfl, rfl, hall _ rfl⟩

end RingProtocol

namespace LockFreeProtocol

variable {T O : Type} [DecidableEq T] [DecidableEq O] {s : LockFreeProtocol T O}
  {as : List (LockFreeAction T O)}

/-- `l` is the list at `head_`, `lists` are those of `poll`, and `loose` the operations that the threads
have in their hands. They have no operation twice, so that no list runs in a circle, and they have those
that have been pushed and not been notified. -/
structure Places (s : LockFreeProtocol T O) (l : List O) (lists : List (Option O × List O))
    (loose : List O) : Prop where
  queued : Chain s.next s.head l
  polled : ∀ x ∈ lists, Chain s.next x.1 x.2
  polled_heads : lists.map Prod.fst = s.poller.completed :: s.poller.others
  in_hand : ∀ o, o ∈ loose ↔ ∃ u insertion, s.hand u = some insertion ∧ insertion.op = o
  one_hand : ∀ u u' i i', s.hand u = some i → s.hand u' = some i' → i.op = i'.op → u = u'
  nodup : (l ++ (lists.flatMap Prod.snd ++ loose)).Nodup
  mem_iff : ∀ o, o ∈ l ++ (lists.flatMap Prod.snd ++ loose) ↔
    s.log.count (.notified o) < s.log.count (.pushed o)

/-- Every operation is in one place. At every moment an operation has been notified as often as it has
been pushed, or once less, and never more often than `check_completion` has returned true for it. -/
theorem lockFree_safe (h : machine.run as = some s) :
    (∃ l lists loose, Places s l lists loose) ∧ ∀ log, log <+: s.log → Alternates log := by
  obtain ⟨⟨l, done, ls, loose, hl⟩, hlogs⟩ := safe_of_run h
  have hc := hl.held.chains
  have hperm : s.owned.Perm (l ++ (((s.poller.completed, done) :: ls).flatMap Prod.snd ++ loose)) := by
    rw [← List.append_assoc]
    exact hc.owned
  refine ⟨⟨l, (s.poller.completed, done) :: ls, loose, ?_⟩, hlogs⟩
  constructor
  · exact hc.chain _ List.mem_cons_self
  · exact fun x hx => hc.chain x (List.mem_cons_of_mem _ hx)
  · rw [List.map_cons, hl.others]
  · exact hl.held.mem_iff
  · exact hl.held.injective
  · exact hperm.nodup_iff.mp hc.nodup
  · intro o
    rw [← hperm.mem_iff, hl.pushed, ← List.count_pos_iff]
    omega

/-- A thread has read the head and written it to operation 2. Meanwhile the operation at the head is
notified and pushed again, so that the exchange finds the head that it expects. -/
def recurringRun : List (LockFreeAction Bool Nat) :=
  ([.push true 1, .produce true false, .produce true false, .produce true false] :
      List (LockFreeAction Bool Nat)) ++
    ([.push true 2, .produce true false, .produce true false] : List (LockFreeAction Bool Nat)) ++
    ([.poll, .advance false false, .advance false false, .advance true false, .advance false false] :
      List (LockFreeAction Bool Nat)) ++
    ([.advance false false, .advance false false, .advance false false] : List (LockFreeAction Bool Nat)) ++
    ([.push false 1, .produce false false, .produce false false, .produce false false] :
      List (LockFreeAction Bool Nat)) ++
    ([.produce true false] : List (LockFreeAction Bool Nat))

theorem lockFree_safe_recurring :
    ∃ s, machine.run recurringRun = some s ∧ s.head = some 2 ∧ s.next 2 = some 1 ∧
      s.log.count (.notified 1) = 1 ∧
      (∃ l lists loose, Places s l lists loose) ∧ ∀ log, log <+: s.log → Alternates log := by
  have hall : ∀ s : LockFreeProtocol Bool Nat, machine.run recurringRun = some s →
      (∃ l lists loose, Places s l lists loose) ∧ ∀ log, log <+: s.log → Alternates log :=
    fun _ h => lockFree_safe h
  exact ⟨_, rfl, rfl, rfl, rfl, hall _ rfl⟩

end LockFreeProtocol

end DsaStdexec.Queue

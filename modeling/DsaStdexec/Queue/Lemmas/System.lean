import DsaStdexec.Queue.Lemmas.Refinement
import DsaStdexec.Queue.System
import Mathlib.Tactic.Ring

/-!
# The queues as bags
-/

namespace DsaStdexec.Queue

open DsaStdexec.Lib DsaStdexec.Engine

variable {O : Type}

/-- A call of `poll`, the same call in the bag, and the list at its `completed_head`. -/
structure Frame.Stands (I : Implementation O) (f : Frame O) (g : BagFrame O) (x : Option O × List O) :
    Prop where
  head : f.completedHead = x.1
  todo : g.todo = (x.2 : Multiset O)
  notifying : g.notifying = f.notifying
  count : f.count + I.perNotify * (x.2.length + if f.notifying then 1 else 0) = g.total

inductive Stacks (I : Implementation O) :
    List (Frame O) → List (BagFrame O) → List (Option O × List O) → Prop where
  | nil : Stacks I [] [] []
  | cons {f g x fs gs xs} (h : Frame.Stands I f g x) (hs : Stacks I fs gs xs) :
      Stacks I (f :: fs) (g :: gs) (x :: xs)

theorem Stacks.heads {I : Implementation O} {fs gs xs} (h : Stacks I fs gs xs) :
    fs.map Frame.completedHead = xs.map Prod.fst := by
  induction h with
  | nil => rfl
  | cons h _ ih => simp [h.head, ih]

theorem Stacks.todo {I : Implementation O} {fs gs xs} (h : Stacks I fs gs xs) :
    (gs.map BagFrame.todo).sum = (xs.flatMap Prod.snd : Multiset O) := by
  induction h with
  | nil => rfl
  | cons h _ ih => simp [h.todo, ih]

theorem Stacks.uncons {I : Implementation O} {p : Option O} {count : Nat} {n : Bool} {fs gs xs}
    (h : Stacks I (⟨p, count, n⟩ :: fs) gs xs) : ∃ (l : List O) (gs' : _) (xs' : _),
      gs = ⟨(l : Multiset O), count + I.perNotify * (l.length + if n then 1 else 0), n⟩ :: gs' ∧
      xs = (p, l) :: xs' ∧ Stacks I fs gs' xs' := by
  cases h with
  | cons hf hs =>
      rename_i g x gs xs
      obtain ⟨todo, total, notifying⟩ := g
      obtain ⟨q, l⟩ := x
      obtain ⟨hhead, htodo, hn, hcount⟩ := hf
      simp only at hhead htodo hn hcount
      subst hhead htodo hn hcount
      exact ⟨l, gs, xs, rfl, rfl, hs⟩

variable [DecidableEq O] {I : Implementation O} {Q : TaskQueue O} {R : Refinement I Q}
  {s s' : System I} {b b' : Bag O} {a : Action O}

/-- The queue and the bag hold the same operations, and have done the same. -/
structure Simulates (R : Refinement I Q) (s : System I) (b : Bag O) : Prop where
  lists : ∃ t ls loose fs, R.Rep s.store t ls loose ∧ Chains s.heap (ls ++ fs) loose ∧
    b.pending = (Q.contents t : Multiset O) ∧ Stacks I s.stack b.stack fs
  log : s.log = b.log

omit [DecidableEq O] in
theorem Simulates.callable (h : Simulates R s b) : b.callable = s.callable := by
  obtain ⟨_, _, _, _, _, _, _, hst⟩ := h.lists
  unfold Bag.callable System.callable
  generalize s.stack = fs, b.stack = gs at hst
  cases hst with
  | nil => rfl
  | cons hf _ => exact hf.notifying

omit [DecidableEq O] in
theorem simulates_init (R : Refinement I Q) : Simulates R System.init Bag.init := by
  obtain ⟨ls, hrep, hc⟩ := R.init
  refine ⟨⟨Q.empty, ls, [], [], hrep, by rwa [List.append_nil], ?_, .nil⟩, rfl⟩
  rw [Q.contents_empty]
  rfl

/-! ## Steps -/

theorem Simulates.push {o : O} (h : Simulates R s b) (hcall : s.callable = true)
    (ho : o ∉ s.heap.owned) (hroom : I.hasRoom s.store = true) :
    ∃ s', s.step (.push o) = some s' ∧
      Simulates R s' { b with pending := o ::ₘ b.pending, log := b.log ++ [.pushed o] } := by
  obtain ⟨t, ls, loose, fs, hrep, hc, hp, hst⟩ := h.lists
  obtain ⟨heap', store', t', ls', loose', hpush, hqpush, hrep', hc'⟩ := R.push hrep hc hroom ho
  refine ⟨{ s with
    heap := heap'
    store := store'
    log := s.log ++ [.pushed o] }, by simp [System.step, hcall, ho, hpush], ?_, by simp [h.log]⟩
  refine ⟨t', ls', loose', fs, hrep', hc', ?_, hst⟩
  rw [hp, Multiset.cons_coe]
  exact (Multiset.coe_eq_coe.mpr (Q.push_perm hqpush)).symm

theorem Simulates.poll (h : Simulates R s b) (hcall : s.callable = true) (check : O → Bool) :
    ∃ s', s.step (.poll check) = some s' ∧
      Simulates R s'
        { b with
          pending := b.pending.filter fun o => !check o
          stack := ⟨b.pending.filter fun o => check o, (b.pending.filter fun o => check o).card, false⟩ ::
            b.stack } := by
  obtain ⟨t, ls, loose, fs, hrep, hc, hp, hst⟩ := h.lists
  obtain ⟨heap', store', completed, count, ls', loose', hsweep, hcount, hrep', hc'⟩ :=
    R.sweep check hrep hc
  have hdone : (b.pending.filter fun o => check o) = ((Q.sweep check t).1 : Multiset O) := by
    rw [hp, Multiset.filter_coe]
    exact Multiset.coe_eq_coe.mpr (by simpa using (Q.done_perm check t).symm)
  have hkept : (b.pending.filter fun o => !check o) =
      (Q.contents (Q.sweep check t).2 : Multiset O) := by
    rw [hp, Multiset.filter_coe]
    exact Multiset.coe_eq_coe.mpr (by simpa using (Q.kept_perm check t).symm)
  refine ⟨{ s with
    heap := heap'
    store := store'
    stack := ⟨completed, count, false⟩ :: s.stack }, by simp [System.step, hcall, hsweep], ?_, h.log⟩
  refine ⟨_, ls', loose', (completed, (Q.sweep check t).1) :: fs, hrep', hc', hkept, .cons ?_ hst⟩
  refine ⟨rfl, hdone, rfl, ?_⟩
  rw [hdone, Multiset.coe_card]
  exact hcount

theorem Simulates.notify {op : O} {count : Nat} {rest : List (Frame O)} (h : Simulates R s b)
    (hs : s.stack = ⟨some op, count, false⟩ :: rest) :
    ∃ s' b', s.advance = some s' ∧ b.Step .advance b' ∧ Simulates R s' b' := by
  obtain ⟨t, ls, loose, fs, hrep, hc, hp, hst⟩ := h.lists
  rw [hs] at hst
  obtain ⟨l, gs, xs, hb, rfl, hrest⟩ := hst.uncons
  have hc' := hc.perm_left List.perm_middle
  obtain ⟨l, rfl, -⟩ := chain_some_iff.mp (hc'.chain _ List.mem_cons_self)
  rw [← Multiset.cons_coe] at hb
  refine ⟨{ s with
    heap := s.heap.release op
    stack := ⟨s.heap.next op, count, true⟩ :: rest
    log := s.log ++ [.notified op] }, _, ?_, .B_Notify hb, ?_, by simp [h.log]⟩
  · simp [System.advance, hs, Heap.read_of_mem hc'.head_owned]
  · refine ⟨t, ls, loose, (s.heap.next op, l) :: xs, hrep, ?_, hp, .cons ⟨rfl, rfl, rfl, ?_⟩ hrest⟩
    · exact hc'.pop.release.perm_left List.perm_middle.symm
    · simp

theorem Simulates.return {count : Nat} {rest : List (Frame O)} (h : Simulates R s b)
    (hs : s.stack = ⟨none, count, false⟩ :: rest) :
    ∃ s' b', s.advance = some s' ∧ b.Step .advance b' ∧ Simulates R s' b' := by
  obtain ⟨t, ls, loose, fs, hrep, hc, hp, hst⟩ := h.lists
  rw [hs] at hst
  obtain ⟨l, gs, xs, hb, rfl, hrest⟩ := hst.uncons
  have hc' := hc.perm_left List.perm_middle
  obtain rfl := chain_none_iff.mp (hc'.chain _ List.mem_cons_self)
  refine ⟨{ s with stack := rest, log := s.log ++ [.returned count] }, _, ?_, .B_Return hb,
    ⟨t, ls, loose, xs, hrep, hc'.drop, hp, hrest⟩, by simp [h.log]⟩
  simp [System.advance, hs]

omit [DecidableEq O] in
theorem Simulates.callbackReturn {p : Option O} {count : Nat} {rest : List (Frame O)}
    (h : Simulates R s b) (hs : s.stack = ⟨p, count, true⟩ :: rest) :
    ∃ b', b.Step .callbackReturn b' ∧
      Simulates R { s with stack := ⟨p, count + I.perNotify, false⟩ :: rest } b' := by
  obtain ⟨t, ls, loose, fs, hrep, hc, hp, hst⟩ := h.lists
  rw [hs] at hst
  obtain ⟨l, gs, xs, hb, rfl, hrest⟩ := hst.uncons
  refine ⟨_, .B_CallbackReturn hb, ⟨t, ls, loose, _, hrep, hc, hp, .cons ⟨rfl, rfl, rfl, ?_⟩ hrest⟩, h.log⟩
  simp only [Bool.false_eq_true, if_false, if_true]
  ring

theorem Simulates.step (h : Simulates R s b) (hw : s.WithinCapacity a) (hs : s.step a = some s') :
    ∃ b', b.Step a b' ∧ Simulates R s' b' := by
  cases a with
  | push o =>
      simp only [System.step] at hs
      split at hs
      · rename_i hc
        obtain ⟨s'', hs'', hsim⟩ := h.push hc.1 hc.2 hw
        simp only [System.step, hc] at hs''
        cases hs''.symm.trans hs
        exact ⟨_, .B_Push (h.callable.trans hc.1), hsim⟩
      · cases hs
  | poll check =>
      by_cases hc : s.callable = true
      · obtain ⟨s'', hs'', hsim⟩ := h.poll hc check
        cases hs''.symm.trans hs
        exact ⟨_, .B_Poll (h.callable.trans hc), hsim⟩
      · simp [System.step, hc] at hs
  | advance =>
      change s.advance = some s' at hs
      rcases hst : s.stack with _ | ⟨⟨p, count, notifying⟩, rest⟩
      · simp [System.advance, hst] at hs
      · cases notifying with
        | true => cases p <;> simp [System.advance, hst] at hs
        | false =>
            cases p with
            | none =>
                obtain ⟨s'', b', hs'', hb, hsim⟩ := h.return hst
                cases hs''.symm.trans hs
                exact ⟨b', hb, hsim⟩
            | some op =>
                obtain ⟨s'', b', hs'', hb, hsim⟩ := h.notify hst
                cases hs''.symm.trans hs
                exact ⟨b', hb, hsim⟩
  | callbackReturn =>
      simp only [System.step] at hs
      split at hs
      · rename_i hst
        cases hs
        exact h.callbackReturn hst
      · cases hs

/-! ## Progress -/

/-- `poll` accesses nothing but the operations that have been pushed and not notified, and its loops
end. -/
theorem Simulates.advance_isSome (h : Simulates R s b) (hc : s.callable = false) :
    (s.step .advance).isSome = true := by
  change s.advance.isSome = true
  rcases hst : s.stack with _ | ⟨⟨p, count, notifying⟩, rest⟩
  · simp [System.callable, hst] at hc
  · obtain rfl : notifying = false := by simpa [System.callable, hst] using hc
    cases p with
    | none =>
        obtain ⟨s', _, hs, _⟩ := h.return hst
        rw [hs]
        rfl
    | some op =>
        obtain ⟨s', _, hs, _⟩ := h.notify hst
        rw [hs]
        rfl

/-! ## Runs -/

variable {as : List (Action O)}

/-- A queue without a capacity is never full. -/
theorem withinCapacity_of_hasRoom (hroom : ∀ store, I.hasRoom store = true) :
    (System.machine I).Meets System.WithinCapacity s as := by
  refine Machine.Meets.of_invariant (C := fun _ _ => True) (I := fun _ => True) (fun _ _ _ _ _ _ => True.intro)
    (fun t a _ _ => ?_) True.intro (Machine.meets_of_forall fun _ _ => True.intro)
  cases a <;> simp [System.WithinCapacity, hroom]

theorem simulates_runFrom (h : Simulates R s b)
    (hw : (System.machine I).Meets System.WithinCapacity s as)
    (hr : (System.machine I).runFrom s as = some s') : ∃ b', b.Run as b' ∧ Simulates R s' b' := by
  induction as generalizing s b with
  | nil =>
      cases hr
      exact ⟨b, .nil, h⟩
  | cons a as ih =>
      obtain ⟨s₁, hs, hr⟩ := Machine.runFrom_cons hr
      obtain ⟨b₁, hb, h₁⟩ := h.step hw.1 hs
      obtain ⟨b', hrun, h'⟩ := ih h₁ (hw.2 s₁ hs) hr
      exact ⟨b', .cons hb hrun, h'⟩

theorem simulates_run (R : Refinement I Q)
    (hw : (System.machine I).Meets System.WithinCapacity System.init as)
    (hr : (System.machine I).run as = some s) : ∃ b, Bag.init.Run as b ∧ Simulates R s b :=
  simulates_runFrom (simulates_init R) hw hr

section

omit [DecidableEq O]

/-- Both stacks have the same height. -/
theorem Simulates.stack_nil_iff (h : Simulates R s b) : s.stack = [] ↔ b.stack = [] := by
  obtain ⟨_, _, _, _, _, _, _, hst⟩ := h.lists
  generalize s.stack = fs, b.stack = gs at hst
  cases hst with
  | nil => simp
  | cons _ _ => simp

theorem Simulates.isEmpty_iff (h : Simulates R s b) : I.isEmpty s.store = true ↔ b.pending = 0 := by
  obtain ⟨t, ls, loose, fs, hrep, hc, hp, -⟩ := h.lists
  rw [R.isEmpty hrep hc, hp]
  exact Multiset.coe_eq_zero _ |>.symm

/-- The operations that the queue may access are those that the bag and its calls hold. -/
theorem Simulates.owned (h : Simulates R s b) :
    (s.heap.owned : Multiset O) = b.pending + (b.stack.map BagFrame.todo).sum := by
  obtain ⟨t, ls, loose, fs, hrep, hc, hp, hst⟩ := h.lists
  obtain ⟨-, -, hperm⟩ := R.lists hrep
  rw [hp, hst.todo, Multiset.coe_add]
  refine Multiset.coe_eq_coe.mpr (hc.owned.trans ?_)
  rw [List.flatMap_append, List.append_assoc]
  refine (List.Perm.append_left _ List.perm_append_comm).trans ?_
  rw [← List.append_assoc]
  exact hperm.symm.append_right _

theorem Simulates.nodup (h : Simulates R s b) : s.heap.owned.Nodup := by
  obtain ⟨_, _, _, _, _, hc, _⟩ := h.lists
  exact hc.nodup

theorem Simulates.chains (h : Simulates R s b) : ∃ ls,
    I.heads s.store ++ s.stack.map Frame.completedHead = ls.map Prod.fst ∧
    Chains s.heap ls (I.slots s.store) := by
  obtain ⟨t, ls, loose, fs, hrep, hc, -, hst⟩ := h.lists
  obtain ⟨hheads, hslots, -⟩ := R.lists hrep
  refine ⟨ls ++ fs, ?_, hslots ▸ hc⟩
  rw [hheads, hst.heads, List.map_append]

end

/-! ## The bag -/

namespace Bag

/-- Every push is notified, or still waits to be. -/
theorem Step.ledger (h : b.Step a b') (o : O)
    (hl : b.log.count (.pushed o) = b.log.count (.notified o) + b.pending.count o +
      (b.stack.map BagFrame.todo).sum.count o) :
    b'.log.count (.pushed o) = b'.log.count (.notified o) + b'.pending.count o +
      (b'.stack.map BagFrame.todo).sum.count o := by
  cases h with
  | B_Push hc =>
      rename_i x
      simp only [List.count_append, List.count_singleton, Multiset.count_cons, hl]
      by_cases hx : o = x
      · subst hx
        simp
        omega
      · simp [hx, Ne.symm hx]
  | B_Poll hc =>
      rename_i check
      rw [hl]
      simp only [List.map_cons, List.sum_cons, Multiset.count_add, Multiset.count_filter]
      cases check o <;> simp; omega
  | B_Notify hst =>
      rename_i x todo total rest
      rw [hst] at hl
      simp only [List.map_cons, List.sum_cons, Multiset.count_add, Multiset.count_cons] at hl ⊢
      simp only [List.count_append, List.count_singleton, hl]
      by_cases hx : o = x
      · subst hx
        simp
        omega
      · simp [hx, Ne.symm hx]
  | B_Return hst =>
      rw [hst] at hl
      simpa [List.count_append] using hl
  | B_CallbackReturn hst =>
      rw [hst] at hl
      exact hl

theorem Run.ledger (h : Bag.init.Run as b) (o : O) :
    b.log.count (.pushed o) = b.log.count (.notified o) + b.pending.count o +
      (b.stack.map BagFrame.todo).sum.count o := by
  have key : ∀ {b₀ b : Bag O} {as}, b₀.Run as b →
      b₀.log.count (.pushed o) = b₀.log.count (.notified o) + b₀.pending.count o +
        (b₀.stack.map BagFrame.todo).sum.count o →
      b.log.count (.pushed o) = b.log.count (.notified o) + b.pending.count o +
        (b.stack.map BagFrame.todo).sum.count o := by
    intro b₀ b as h
    induction h with
    | nil => exact id
    | cons hs _ ih => exact fun hl => ih (hs.ledger o hl)
  exact key h rfl

omit [DecidableEq O] in
theorem Step.log (h : b.Step a b') : ∃ events, b'.log = b.log ++ events := by
  cases h with
  | B_Push _ => exact ⟨_, rfl⟩
  | B_Poll _ => exact ⟨[], (List.append_nil _).symm⟩
  | B_Notify _ => exact ⟨_, rfl⟩
  | B_Return _ => exact ⟨_, rfl⟩
  | B_CallbackReturn _ => exact ⟨[], (List.append_nil _).symm⟩

theorem Run.count_le (h : b.Run as b') (e : Event O) : b.log.count e ≤ b'.log.count e := by
  induction h with
  | nil => exact Nat.le_refl _
  | cons hs _ ih =>
      obtain ⟨events, hlog⟩ := hs.log
      rw [hlog, List.count_append] at ih
      omega

/-- The call of `poll` that was made first has still to notify `o`. -/
def Awaits (b : Bag O) (o : O) : Prop := ∃ above f, b.stack = above ++ [f] ∧ o ∈ f.todo

omit [DecidableEq O] in
/-- The frame at the bottom changes when it is alone. -/
theorem Awaits.of_cons {o : O} {f : BagFrame O} {rest : List (BagFrame O)} (h : b.Awaits o)
    (hst : b.stack = f :: rest) : o ∈ f.todo ∧ rest = [] ∨ ∃ above g, rest = above ++ [g] ∧ o ∈ g.todo := by
  obtain ⟨above, g, hb, ho⟩ := h
  rw [hst] at hb
  cases above with
  | nil =>
      obtain ⟨rfl, rfl⟩ := List.cons.inj hb
      exact Or.inl ⟨ho, rfl⟩
  | cons f' above =>
      obtain ⟨rfl, rfl⟩ := List.cons.inj hb
      exact Or.inr ⟨above, g, rfl, ho⟩

theorem Step.awaits {o : O} (h : b.Step a b') (ho : b.Awaits o) :
    b'.Awaits o ∨ b.log.count (.notified o) < b'.log.count (.notified o) := by
  cases h with
  | B_Push _ => exact Or.inl ho
  | B_Poll _ =>
      obtain ⟨above, f, hst, ho⟩ := ho
      exact Or.inl ⟨_ :: above, f, by rw [hst]; rfl, ho⟩
  | B_Notify hst =>
      rcases ho.of_cons hst with ⟨hx, rfl⟩ | ⟨above, g, rfl, ho⟩
      · rcases Multiset.mem_cons.mp hx with rfl | hx
        · exact Or.inr (by simp [List.count_append])
        · exact Or.inl ⟨[], _, rfl, hx⟩
      · exact Or.inl ⟨_ :: above, g, rfl, ho⟩
  | B_Return hst =>
      rcases ho.of_cons hst with ⟨hx, rfl⟩ | ⟨above, g, rfl, ho⟩
      · exact absurd hx (Multiset.notMem_zero o)
      · exact Or.inl ⟨above, g, rfl, ho⟩
  | B_CallbackReturn hst =>
      rcases ho.of_cons hst with ⟨hx, rfl⟩ | ⟨above, g, rfl, ho⟩
      · exact Or.inl ⟨[], _, rfl, hx⟩
      · exact Or.inl ⟨_ :: above, g, rfl, ho⟩

theorem Run.notified {o : O} (h : b.Run as b') (ho : b.Awaits o) (hend : b'.stack = []) :
    b.log.count (.notified o) < b'.log.count (.notified o) := by
  induction h with
  | nil =>
      obtain ⟨above, f, hst, -⟩ := ho
      rw [hend] at hst
      simp at hst
  | cons hs hr ih =>
      have hlog := hs.log
      rcases hs.awaits ho with ho | hlt
      · obtain ⟨events, hlog⟩ := hlog
        have := ih ho hend
        rw [hlog, List.count_append] at this
        omega
      · exact Nat.lt_of_lt_of_le hlt (hr.count_le _)

/-! ## The counts -/

/-- The number of completed operations of each round. -/
def counts : List (Multiset O × (O → Bool)) → Multiset O → List Nat
  | [], _ => []
  | (pushed, check) :: rs, pending =>
      ((pending + pushed).filter fun o => check o).card ::
        counts rs ((pending + pushed).filter fun o => !check o)

omit [DecidableEq O] in
theorem returns_append (l l' : List (Event O)) : returns (l ++ l') = returns l ++ returns l' := by
  induction l with
  | nil => rfl
  | cons e l ih => cases e <;> simp [returns, ih]

/-- The values that calls of `poll` have returned or are going to return. -/
def tally (b : Bag O) : List Nat := returns b.log ++ b.stack.map BagFrame.total

omit [DecidableEq O] in
theorem Step.tally_push {o : O} (h : b.Step (.push o) b') :
    b'.tally = b.tally ∧ b'.stack = b.stack ∧ b'.pending = o ::ₘ b.pending := by
  cases h with
  | B_Push _ => simp [tally, returns_append, returns]

omit [DecidableEq O] in
theorem Step.tally_advance (h : b.Step .advance b') (hflat : b.stack.length ≤ 1) :
    b'.tally = b.tally ∧ b'.stack.length ≤ 1 ∧ b'.pending = b.pending := by
  cases h with
  | B_Notify hst =>
      rw [hst] at hflat
      simpa [tally, returns_append, returns, hst] using hflat
  | B_Return hst =>
      rename_i total rest
      rw [hst] at hflat
      obtain rfl : rest = [] := List.length_eq_zero_iff.mp (by simpa using hflat)
      simp [tally, returns_append, returns, hst]

omit [DecidableEq O] in
theorem Step.tally_callbackReturn (h : b.Step .callbackReturn b') :
    b'.tally = b.tally ∧ b'.stack.length = b.stack.length ∧ b'.pending = b.pending := by
  cases h with
  | B_CallbackReturn hst => simp [tally, hst]

end Bag

/-- What the calls of `poll` return depends on what has been pushed before each of them, and on nothing
else. -/
theorem tally_runFrom {pending pushed : Multiset O} (h : Simulates R s b)
    (hw : (System.machine I).Meets System.WithinCapacity s as)
    (hu : (System.machine I).Meets System.Unnested s as)
    (hr : (System.machine I).runFrom s as = some s') (hflat : b.stack.length ≤ 1)
    (hp : b.pending = pending + pushed) :
    ∃ b', Simulates R s' b' ∧ b'.tally = b.tally ++ Bag.counts (rounds as pushed) pending := by
  induction as generalizing s b pending pushed with
  | nil =>
      cases hr
      exact ⟨b, h, (List.append_nil _).symm⟩
  | cons a as ih =>
      obtain ⟨s₁, hs, hrun⟩ := Machine.runFrom_cons hr
      obtain ⟨b₁, hb, h₁⟩ := h.step hw.1 hs
      cases a with
      | push o =>
          obtain ⟨htally, hst, hpending⟩ := hb.tally_push
          rw [← htally]
          exact ih h₁ (hw.2 s₁ hs) (hu.2 s₁ hs) hrun (hst ▸ hflat)
            (by rw [hpending, hp, Multiset.add_cons])
      | poll check =>
          have hnil : b.stack = [] := h.stack_nil_iff.mp hu.1
          cases hb with
          | B_Poll _ =>
              obtain ⟨b', h', htally⟩ := ih h₁ (hw.2 s₁ hs) (hu.2 s₁ hs) hrun (by simp [hnil])
                (add_zero _).symm
              refine ⟨b', h', htally.trans ?_⟩
              simp [Bag.tally, hnil, rounds, Bag.counts, hp]
      | advance =>
          obtain ⟨htally, hst, hpending⟩ := hb.tally_advance hflat
          rw [← htally]
          exact ih h₁ (hw.2 s₁ hs) (hu.2 s₁ hs) hrun hst (hpending.trans hp)
      | callbackReturn =>
          obtain ⟨htally, hst, hpending⟩ := hb.tally_callbackReturn
          rw [← htally]
          exact ih h₁ (hw.2 s₁ hs) (hu.2 s₁ hs) hrun (hst ▸ hflat) (hpending.trans hp)

theorem returns_run (R : Refinement I Q)
    (hw : (System.machine I).Meets System.WithinCapacity System.init as)
    (hu : (System.machine I).Meets System.Unnested System.init as)
    (hr : (System.machine I).run as = some s) (hend : s.stack = []) :
    returns s.log = Bag.counts (rounds as 0) 0 := by
  obtain ⟨b, h, htally⟩ := tally_runFrom (simulates_init R) hw hu hr (Nat.zero_le _) (add_zero 0).symm
  have hnil := h.stack_nil_iff.mp hend
  simpa [Bag.tally, hnil, ← h.log, Bag.init, returns] using htally

end DsaStdexec.Queue

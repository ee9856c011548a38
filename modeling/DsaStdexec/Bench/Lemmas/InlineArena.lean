import DsaStdexec.Bench.InlineArena

/-!
# Slots that are released from inside a call

A slot goes back to the free list with the signal of its operation, wherever the loop is at that moment.
The storage of a slot on the free list belongs to an operation that was signalled.
-/

namespace DsaStdexec.Bench

open DsaStdexec.Lib

/-- The loop that starts operations is left. -/
def InlineStage.drains : InlineStage → Bool
  | .draining | .drainPolling | .returned => true
  | _ => false

namespace InlineArena

variable {S : Type} {K : SlotType S} {concurrency : Nat} {numOps : UInt64} {s s' : InlineArena S}
  {free : List Nat} {a : InlineAction}

/-- How many operations were started; inside the call that starts `next_op` it is one of them. -/
def count (s : InlineArena S) : Nat := if s.stage = .starting then s.nextOp + 1 else s.nextOp

variable (K concurrency numOps) in
structure Inv (s : InlineArena S) (free : List Nat) : Prop where
  list : s.arena.Free free
  slots : (free ++ s.unsignalled.map Prod.snd).Perm (List.range concurrency)
  started : s.started = List.range s.count
  bound : s.count ≤ numOps.toNat
  ops : (s.signalled ++ s.unsignalled.map Prod.fst).Perm s.started
  content : ∀ i op, K.content (s.slots i) = some op → op ∈ s.signalled ∨ (op, i) ∈ s.unsignalled
  vacated : ∀ op ∈ s.vacated, op ∈ s.signalled
  remaining : s.remaining.toNat + s.signalled.length = numOps.toNat
  drains : s.stage.drains = true → s.nextOp = numOps.toNat
  returned : s.stage = .returned → s.remaining = 0

theorem inv_new : Inv K concurrency numOps (new K concurrency numOps) (List.range concurrency).reverse where
  list := SlotArena.free_new concurrency
  slots := by simp [new]
  started := rfl
  bound := Nat.zero_le _
  ops := .refl _
  content i op h := by
    have : K.content K.fresh = some op := h
    rw [K.content_fresh] at this
    cases this
  vacated op h := by cases h
  remaining := rfl
  drains h := by cases h
  returned h := by cases h

namespace Inv

theorem length_eq (h : Inv K concurrency numOps s free) :
    s.signalled.length + s.unsignalled.length = s.count := by
  have := h.ops.length_eq
  rwa [h.started, List.length_append, List.length_map, List.length_range] at this

theorem not_unsignalled (h : Inv K concurrency numOps s free) {slot : Nat} (hslot : slot ∈ free) :
    slot ∉ s.unsignalled.map Prod.snd := by
  have hnodup := h.slots.nodup_iff.mpr List.nodup_range
  exact fun hmem => (List.nodup_append.mp hnodup).2.2 slot hslot slot hmem rfl

theorem not_free (h : Inv K concurrency numOps s free) {op slot : Nat}
    (hmem : (op, slot) ∈ s.unsignalled) : slot ∉ free := fun hslot =>
  h.not_unsignalled hslot (List.mem_map.mpr ⟨_, hmem, rfl⟩)

/-- Once no operation remains, all of them were signalled. -/
theorem settled (h : Inv K concurrency numOps s free) (hr : s.remaining = 0) :
    s.unsignalled = [] ∧ s.signalled.Perm (List.range numOps.toNat) := by
  have hlen := h.length_eq
  have hrem := h.remaining
  have hbound := h.bound
  rw [hr, UInt64.toNat_zero, Nat.zero_add] at hrem
  have hnil : s.unsignalled = [] := List.eq_nil_of_length_eq_zero (by omega)
  refine ⟨hnil, ?_⟩
  have hops := h.ops
  rw [hnil, List.map_nil, List.append_nil, h.started] at hops
  rwa [show s.count = numOps.toNat by rw [hnil, List.length_nil] at hlen; omega] at hops

theorem sound (h : Inv K concurrency numOps s free) : Sound concurrency numOps s where
  order := by
    rw [h.started, List.length_range]
    exact ⟨rfl, h.bound⟩
  once := h.ops
  bounded := by
    have := h.slots.length_eq
    rw [List.length_append, List.length_map, List.length_range] at this
    omega
  vacated := h.vacated
  free := by
    refine ⟨free, h.list, fun slot => ⟨fun hslot => ?_, fun hslot => ?_⟩⟩
    · have := h.slots.mem_iff.mp (List.mem_append_left _ hslot)
      exact ⟨List.mem_range.mp this, h.not_unsignalled hslot⟩
    · have := h.slots.mem_iff.mpr (List.mem_range.mpr hslot.1)
      exact (List.mem_append.mp this).resolve_right hslot.2
  returned hret := (h.settled (h.returned hret)).2

/-! ## Steps -/

/-- A step that only goes to another place of the loop. -/
theorem setStage (h : Inv K concurrency numOps s free) {stage : InlineStage} (hs : s.stage ≠ .starting)
    (hst : stage ≠ .starting) (hdrains : stage.drains = true → s.nextOp = numOps.toNat)
    (hret : stage ≠ .returned) : Inv K concurrency numOps { s with stage := stage } free := by
  have hcount : count { s with stage := stage } = s.count := by simp [count, hs, hst]
  exact
    { h with
      started := by rw [hcount]; exact h.started
      bound := by rw [hcount]; exact h.bound
      drains := hdrains
      returned := fun he => absurd he hret }

/-- The storage that is reused belongs to an operation that was signalled. -/
theorem start {slot : Nat} {arena : SlotArena} (h : Inv K concurrency numOps s (slot :: free))
    (hs : s.stage = .filling) (hop : s.nextOp < numOps.toNat) (ha : arena.Free free) :
    Inv K concurrency numOps (s.start K slot arena) free := by
  have hcount : s.count = s.nextOp := by simp [count, hs]
  refine ⟨ha, ?_, ?_, hop, ?_, ?_, ?_, h.remaining, ?_, ?_⟩
  · refine List.Perm.trans ?_ h.slots
    simp only [InlineArena.start, List.map_append, List.map_cons, List.map_nil]
    rw [← List.append_assoc]
    exact List.perm_append_comm
  · simp only [InlineArena.start, count, if_true, List.range_succ]
    rw [h.started, hcount]
  · simp only [InlineArena.start, List.map_append, List.map_cons, List.map_nil]
    rw [← List.append_assoc]
    exact h.ops.append_right _
  · intro i op hop
    by_cases hi : i = slot
    · subst hi
      simp only [InlineArena.start, Function.update_self, K.content_start, Option.some.injEq] at hop
      subst hop
      exact Or.inr (List.mem_append_right _ List.mem_cons_self)
    · simp only [InlineArena.start, Function.update_of_ne hi] at hop
      exact (h.content i op hop).imp_right (List.mem_append_left _)
  · intro op hop
    rcases List.mem_append.mp hop with hop | hop
    · exact h.vacated op hop
    · refine (h.content slot op (K.of_start _ _ op hop)).resolve_right fun hmem => ?_
      exact h.not_free hmem List.mem_cons_self
  · simp [InlineArena.start, InlineStage.drains]
  · simp [InlineArena.start]

/-- At the end every slot holds an operation that was signalled. -/
theorem finish (h : Inv K concurrency numOps s free) (hs : s.stage = .draining) (hr : s.remaining = 0) :
    Inv K concurrency numOps (s.finish K concurrency) free := by
  have hcount : count (s.finish K concurrency) = s.count := by
    simp [InlineArena.finish, count, hs]
  refine
    { h with
      started := by rw [hcount]; exact h.started
      bound := by rw [hcount]; exact h.bound
      vacated := fun op hop => ?_
      drains := fun _ => h.drains (by rw [hs]; rfl)
      returned := fun _ => hr }
  rcases List.mem_append.mp hop with hop | hop
  · exact h.vacated op hop
  · obtain ⟨slot, -, hslot⟩ := List.mem_flatMap.mp hop
    refine (h.content slot op (K.of_destroy _ op hslot)).resolve_right fun hmem => ?_
    rw [(h.settled hr).1] at hmem
    cases hmem

theorem advance (h : Inv K concurrency numOps s free)
    (hs : s.advance K concurrency numOps = some s') : ∃ free', Inv K concurrency numOps s' free' := by
  have hbound := h.bound
  unfold InlineArena.advance at hs
  split at hs
  · next hst =>
      cases hs
      rw [count, if_neg (by simp [hst])] at hbound
      refine ⟨free, h.setStage (by simp [hst]) ?_ ?_ ?_⟩
      · split <;> simp
      · split
        · simp [InlineStage.drains]
        · intro _
          omega
      · split <;> simp
  · next hst =>
      split at hs
      · next hop =>
          cases free with
          | nil =>
              rw [h.list.acquire_nil] at hs
              cases hs
              exact ⟨[], h.setStage (by simp [hst]) (by simp) (by simp [InlineStage.drains]) (by simp)⟩
          | cons slot free =>
              obtain ⟨arena, hacq, ha⟩ := h.list.acquire_cons
              rw [hacq] at hs
              cases hs
              exact ⟨free, h.start hst hop ha⟩
      · cases hs
        exact ⟨free, h.setStage (by simp [hst]) (by simp) (by simp [InlineStage.drains]) (by simp)⟩
  · next hst =>
      cases hs
      have hcount : count { s with nextOp := s.nextOp + 1, stage := .filling } = s.count := by
        simp [count, hst]
      exact ⟨free,
        { h with
          started := by rw [hcount]; exact h.started
          bound := by rw [hcount]; exact h.bound
          drains := by simp [InlineStage.drains]
          returned := by simp }⟩
  · next hst =>
      cases hs
      exact ⟨free, h.setStage (by simp [hst]) (by simp) (by simp [InlineStage.drains]) (by simp)⟩
  · next hst =>
      cases hs
      split
      · exact ⟨free, h.setStage (by simp [hst]) (by simp) (fun _ => h.drains (by rw [hst]; rfl)) (by simp)⟩
      · next hr => exact ⟨free, h.finish hst (by simpa [UInt64.pos_iff_ne_zero] using hr)⟩
  · next hst =>
      cases hs
      exact ⟨free, h.setStage (by simp [hst]) (by simp) (fun _ => h.drains (by rw [hst]; rfl)) (by simp)⟩
  · cases hs

theorem signal {op slot : Nat} (h : Inv K concurrency numOps s free)
    (hs : s.signal op slot = some s') : Inv K concurrency numOps s' (slot :: free) := by
  unfold InlineArena.signal at hs
  split at hs
  · next hh =>
      cases hs
      have hperm := List.perm_cons_erase hh.2
      have hlen := h.length_eq
      have hrem := h.remaining
      have hone : 1 ≤ s.remaining := by
        rw [UInt64.le_iff_toNat_le, UInt64.toNat_one]
        have := hperm.length_eq
        have := h.bound
        simp only [List.length_cons] at *
        omega
      refine
        { h with
          list := h.list.release (h.not_free hh.2)
          slots := ?_
          ops := ?_
          content := fun i op' hop => ?_
          vacated := fun op' hop => List.mem_append_left _ (h.vacated op' hop)
          remaining := ?_
          returned := ?_ }
      · refine List.Perm.trans ?_ h.slots
        exact List.perm_middle.symm.trans ((hperm.map Prod.snd).symm.append_left free)
      · refine List.Perm.trans ?_ h.ops
        rw [List.append_assoc]
        exact (hperm.map Prod.fst).symm.append_left _
      · rcases h.content i op' hop with hmem | hmem
        · exact Or.inl (List.mem_append_left _ hmem)
        · rcases List.mem_cons.mp (hperm.mem_iff.mp hmem) with heq | hmem
          · cases heq
            exact Or.inl (List.mem_append_right _ List.mem_cons_self)
          · exact Or.inr hmem
      · rw [UInt64.toNat_sub_of_le _ _ hone, List.length_append]
        rw [UInt64.le_iff_toNat_le] at hone
        simp only [UInt64.toNat_one, List.length_singleton] at *
        omega
      · intro hret
        have := hh.1
        rw [hret] at this
        cases this
  · cases hs

end Inv

theorem inv_step (h : ∃ free, Inv K concurrency numOps s free)
    (hs : s.step K concurrency numOps a = some s') : ∃ free, Inv K concurrency numOps s' free := by
  obtain ⟨free, h⟩ := h
  cases a with
  | advance => exact h.advance hs
  | signal op slot => exact ⟨_, h.signal hs⟩

theorem inv_of_run {as : List InlineAction} (h : (machine K concurrency numOps).run as = some s) :
    ∃ free, Inv K concurrency numOps s free :=
  Machine.run_invariant (M := machine K concurrency numOps)
    (I := fun s => ∃ free, Inv K concurrency numOps s free) ⟨_, inv_new⟩ (fun _ _ _ => inv_step) h

/-! ## The end of the run -/

/-- From a state in which all operations were signalled the loop returns, whatever it is at. -/
theorem returns_of_signalled (h : Inv K concurrency numOps s free)
    (hall : s.signalled.length = numOps.toNat) :
    ∃ n ≤ 5, ∃ t, (machine K concurrency numOps).runFrom s (List.replicate n .advance) = some t ∧
      t.stage = .returned := by
  have hlen := h.length_eq
  have hbound := h.bound
  have hrem : s.remaining = 0 := by
    have := h.remaining
    rw [← UInt64.toNat_inj, UInt64.toNat_zero]
    omega
  have hnext : s.stage ≠ .starting → ¬ s.nextOp < numOps.toNat := by
    intro hst
    rw [count, if_neg hst] at hlen
    omega
  have hnext' : s.stage = .starting → ¬ s.nextOp + 1 < numOps.toNat := by
    intro hst
    rw [count, if_pos hst] at hlen
    omega
  cases hst : s.stage with
  | starting =>
      refine ⟨5, Nat.le_refl 5, ?_⟩
      simp [Machine.runFrom, machine, step, InlineArena.advance, hst, hnext' hst, hrem,
        InlineArena.finish]
  | filling =>
      refine ⟨4, by decide, ?_⟩
      simp [Machine.runFrom, machine, step, InlineArena.advance, hst, hnext (by simp [hst]), hrem,
        InlineArena.finish]
  | polling =>
      refine ⟨3, by decide, ?_⟩
      simp [Machine.runFrom, machine, step, InlineArena.advance, hst, hnext (by simp [hst]), hrem,
        InlineArena.finish]
  | testing =>
      refine ⟨2, by decide, ?_⟩
      simp [Machine.runFrom, machine, step, InlineArena.advance, hst, hnext (by simp [hst]), hrem,
        InlineArena.finish]
  | drainPolling =>
      refine ⟨2, by decide, ?_⟩
      simp [Machine.runFrom, machine, step, InlineArena.advance, hst, hrem, InlineArena.finish]
  | draining =>
      refine ⟨1, by decide, ?_⟩
      simp [Machine.runFrom, machine, step, InlineArena.advance, hst, hrem, InlineArena.finish]
  | returned => exact ⟨0, by decide, s, rfl, hst⟩

variable (K concurrency numOps) in
/-- More than `n` operations can come to be signalled. -/
def CanSignal (n : Nat) (s : InlineArena S) : Prop :=
  (machine K concurrency numOps).CanReach
    (fun t => (∃ free, Inv K concurrency numOps t free) ∧ n < t.signalled.length) s

variable {n : Nat}

/-- The loop goes on to another place. -/
theorem canSignal_advance (h : Inv K concurrency numOps s free)
    (hst : s.step K concurrency numOps .advance = some s')
    (hnext : ∀ free', Inv K concurrency numOps s' free' → CanSignal K concurrency numOps n s') :
    CanSignal K concurrency numOps n s := by
  obtain ⟨free', h'⟩ := inv_step ⟨_, h⟩ hst
  exact .step (a := .advance) hst (hnext free' h')

theorem canSignal_inEngine (h : Inv K concurrency numOps s free) (hs : s.stage.inEngine = true)
    (hne : s.unsignalled ≠ []) (hn : n ≤ s.signalled.length) :
    CanSignal K concurrency numOps n s := by
  obtain ⟨⟨op, slot⟩, hmem⟩ := List.exists_mem_of_ne_nil _ hne
  have hst : s.signal op slot = some { s with
      remaining := s.remaining - 1
      arena := s.arena.release slot
      unsignalled := s.unsignalled.erase (op, slot)
      signalled := s.signalled ++ [op] } := if_pos ⟨hs, hmem⟩
  refine .step (a := .signal op slot) hst (.here ⟨⟨_, h.signal hst⟩, ?_⟩)
  rw [List.length_append, List.length_singleton]
  omega

/-- Where every operation was started and some were not signalled, one can be signalled. -/
theorem Inv.unsignalled_ne_nil (h : Inv K concurrency numOps s free) (hs : s.stage ≠ .starting)
    (hop : ¬ s.nextOp < numOps.toNat) (hall : s.signalled.length < numOps.toNat) :
    s.unsignalled ≠ [] := by
  have hlen := h.length_eq
  rw [count, if_neg hs] at hlen
  intro hnil
  rw [hnil, List.length_nil] at hlen
  omega

/-- Either a slot is free and takes the next operation, or every slot holds an operation. -/
theorem canSignal_filling (hc : 1 ≤ concurrency) (h : Inv K concurrency numOps s free)
    (hs : s.stage = .filling) (hall : s.signalled.length < numOps.toNat) (hn : n ≤ s.signalled.length) :
    CanSignal K concurrency numOps n s := by
  by_cases hop : s.nextOp < numOps.toNat
  · cases free with
    | nil =>
        have hne : s.unsignalled ≠ [] := by
          intro hnil
          have := h.slots.length_eq
          simp [hnil] at this
          omega
        have hst : s.step K concurrency numOps .advance = some { s with stage := .polling } := by
          simp [step, InlineArena.advance, hs, hop, h.list.acquire_nil]
        exact canSignal_advance h hst fun _ h' => canSignal_inEngine h' rfl hne hn
    | cons slot free =>
        obtain ⟨arena, hacq, -⟩ := h.list.acquire_cons
        have hst : s.step K concurrency numOps .advance = some (s.start K slot arena) := by
          simp [step, InlineArena.advance, hs, hop, hacq]
        exact canSignal_advance h hst fun _ h' => canSignal_inEngine h' rfl (by simp [InlineArena.start]) hn
  · have hne := h.unsignalled_ne_nil (by simp [hs]) hop hall
    have hst : s.step K concurrency numOps .advance = some { s with stage := .polling } := by
      simp [step, InlineArena.advance, hs, hop]
    exact canSignal_advance h hst fun _ h' => canSignal_inEngine h' rfl hne hn

theorem canSignal_draining (h : Inv K concurrency numOps s free) (hs : s.stage = .draining)
    (hall : s.signalled.length < numOps.toNat) (hn : n ≤ s.signalled.length) :
    CanSignal K concurrency numOps n s := by
  have hop := h.drains (by rw [hs]; rfl)
  have hne := h.unsignalled_ne_nil (by simp [hs]) (by omega) hall
  have hpos : 0 < s.remaining := by
    have := h.remaining
    rw [UInt64.lt_iff_toNat_lt, UInt64.toNat_zero]
    omega
  have hst : s.step K concurrency numOps .advance = some { s with stage := .drainPolling } := by
    simp [step, InlineArena.advance, hs, hpos]
  exact canSignal_advance h hst fun _ h' => canSignal_inEngine h' rfl hne hn

theorem canSignal_testing (hc : 1 ≤ concurrency) (h : Inv K concurrency numOps s free)
    (hs : s.stage = .testing) (hall : s.signalled.length < numOps.toNat) (hn : n ≤ s.signalled.length) :
    CanSignal K concurrency numOps n s := by
  by_cases hop : s.nextOp < numOps.toNat
  · have hst : s.step K concurrency numOps .advance = some { s with stage := .filling } := by
      simp [step, InlineArena.advance, hs, hop]
    exact canSignal_advance h hst fun _ h' => canSignal_filling hc h' rfl hall hn
  · have hst : s.step K concurrency numOps .advance = some { s with stage := .draining } := by
      simp [step, InlineArena.advance, hs, hop]
    exact canSignal_advance h hst fun _ h' => canSignal_draining h' rfl hall hn

theorem canSignal (hc : 1 ≤ concurrency) (h : Inv K concurrency numOps s free)
    (hall : s.signalled.length < numOps.toNat) :
    CanSignal K concurrency numOps s.signalled.length s := by
  cases hs : s.stage with
  | testing => exact canSignal_testing hc h hs hall (Nat.le_refl _)
  | filling => exact canSignal_filling hc h hs hall (Nat.le_refl _)
  | starting =>
      have hst : s.step K concurrency numOps .advance =
          some { s with nextOp := s.nextOp + 1, stage := .filling } := by
        simp [step, InlineArena.advance, hs]
      exact canSignal_advance h hst fun _ h' => canSignal_filling hc h' rfl hall (Nat.le_refl _)
  | polling =>
      have hst : s.step K concurrency numOps .advance = some { s with stage := .testing } := by
        simp [step, InlineArena.advance, hs]
      exact canSignal_advance h hst fun _ h' => canSignal_testing hc h' rfl hall (Nat.le_refl _)
  | draining => exact canSignal_draining h hs hall (Nat.le_refl _)
  | drainPolling =>
      have hop := h.drains (by rw [hs]; rfl)
      have hne := h.unsignalled_ne_nil (by simp [hs]) (by omega) hall
      exact canSignal_inEngine h (by rw [hs]; rfl) hne (Nat.le_refl _)
  | returned =>
      have := h.remaining
      rw [h.returned hs, UInt64.toNat_zero] at this
      omega

/-- The loop is never stuck: there is always a way for it to return. -/
theorem canReturn (hc : 1 ≤ concurrency) (h : ∃ free, Inv K concurrency numOps s free) :
    (machine K concurrency numOps).CanReach (fun t => t.stage = .returned) s := by
  obtain ⟨free, h⟩ := h
  -- on the number of operations that are still to be signalled
  obtain ⟨k, hk⟩ : ∃ k, numOps.toNat - s.signalled.length = k := ⟨_, rfl⟩
  induction k using Nat.strongRecOn generalizing s free with
  | ind k ih =>
      by_cases hall : s.signalled.length < numOps.toNat
      · refine (canSignal hc h hall).trans ?_
        rintro t ⟨⟨free', h'⟩, hlt⟩
        exact ih (numOps.toNat - t.signalled.length) (by omega) free' h' rfl
      · have hrem := h.remaining
        obtain ⟨m, -, t, ht, hret⟩ := returns_of_signalled h (by omega)
        exact ⟨_, t, ht, hret⟩

end InlineArena

end DsaStdexec.Bench

import DsaStdexec.Bench.ThreadedArena

/-!
# The free list between two threads

A slot that `acquire` has read stays on the free list until `acquire` takes it off, and what `release`
has read of `free_head` is still there or was taken off since. So a thread that finds `free_head`
unchanged pops or pushes as it would alone, and one that finds it changed drops a slot or puts one on
the list that is not free.
-/

namespace DsaStdexec.Bench

open DsaStdexec.Lib

/-! ## What the threads know -/

/-- What the submitting thread relies on when the free list is `free`. -/
def SubmitStage.Knows (a : SlotArena) (free : List Nat) : SubmitStage → Prop
  | .checking | .reading => a.freeHead ≠ none
  | .loading slot => slot ∈ free
  | .popping slot next => slot ∈ free ∧ a.nextFree slot = next
  | .crashed => False
  | .testing | .clearing _ | .starting _ | .finished => True

/-- `head` is still in `free_head`, or is one of the slots that were taken off. -/
def Seen (a : SlotArena) (taken : List Nat) (head : Option Nat) : Prop :=
  head = a.freeHead ∨ ∃ x ∈ taken, head = some x

def ReleaseStage.Knows (a : SlotArena) (taken : List Nat) : ReleaseStage → Prop
  | .linking _ head => Seen a taken head
  | .pushing slot head => a.nextFree slot = head ∧ Seen a taken head
  | .idle | .reading _ => True

theorem SubmitStage.Knows.mono {a a' : SlotArena} {free free' : List Nat} {stage : SubmitStage}
    (h : stage.Knows a free) (hhead : a.freeHead ≠ none → a'.freeHead ≠ none)
    (hnext : ∀ slot ∈ free, a'.nextFree slot = a.nextFree slot) (hsub : ∀ slot ∈ free, slot ∈ free') :
    stage.Knows a' free' := by
  cases stage with
  | checking | reading => exact hhead h
  | loading slot => exact hsub slot h
  | popping slot next => exact ⟨hsub slot h.1, (hnext slot h.1).trans h.2⟩
  | crashed => exact h
  | testing | clearing _ | starting _ | finished => trivial

theorem ReleaseStage.Knows.mono {a a' : SlotArena} {taken taken' : List Nat} {stage : ReleaseStage}
    (h : stage.Knows a taken) (hnext : ∀ slot ∈ stage.moving, a'.nextFree slot = a.nextFree slot)
    (hseen : ∀ head, Seen a taken head → Seen a' taken' head) : stage.Knows a' taken' := by
  cases stage with
  | idle | reading _ => trivial
  | linking slot head => exact hseen head h
  | pushing slot head => exact ⟨(hnext slot List.mem_cons_self).trans h.1, hseen head h.2⟩

namespace ThreadedArena

variable {concurrency numOps : Nat} {s s' : ThreadedArena} {free : List Nat} {a : ArenaAction}

/-- The slots that the submitting thread has taken off the free list. -/
def taken (s : ThreadedArena) : List Nat := s.submit.moving ++ s.held.map Prod.snd

structure Inv (concurrency : Nat) (s : ThreadedArena) (free : List Nat) : Prop where
  list : s.arena.Free free
  slots : (free ++ s.away).Perm (List.range concurrency)
  submit : s.submit.Knows s.arena free
  poller : s.poller.Knows s.arena s.taken

theorem inv_new : Inv concurrency (new numOps concurrency) (List.range concurrency).reverse where
  list := SlotArena.free_new concurrency
  slots := by
    have haway : (new numOps concurrency).away = [] := by
      unfold away new nextStage
      split <;> rfl
    rw [haway, List.append_nil]
    exact List.reverse_perm _
  submit := by
    unfold new nextStage
    split <;> trivial
  poller := trivial

theorem Inv.nodup (h : Inv concurrency s free) : (free ++ s.away).Nodup :=
  h.slots.nodup_iff.mpr List.nodup_range

theorem Inv.not_free (h : Inv concurrency s free) {slot : Nat} (hslot : slot ∈ s.away) : slot ∉ free :=
  fun hfree => (List.nodup_append.mp h.nodup).2.2 slot hfree slot hslot rfl

theorem Inv.accounted (h : Inv concurrency s free) (hc : 1 ≤ concurrency) : Accounted concurrency s where
  slots := ⟨free, h.list, h.slots⟩
  acquired hcrash := by
    have := h.submit
    rwa [hcrash] at this
  waits htest hhead := by
    -- no slot is free, so the slots of the pool are all with the poller thread
    have hperm := h.slots
    rw [h.list.eq_nil_iff.mpr hhead, List.nil_append, away, htest] at hperm
    by_contra hnone
    obtain ⟨hheld, hidle⟩ := not_or.mp hnone
    rw [not_not.mp hheld, not_not.mp hidle] at hperm
    have := hperm.length_eq
    simp [SubmitStage.moving, ReleaseStage.moving] at this
    omega

/-- A step of the submitting thread that only reads. -/
theorem Inv.setSubmit (h : Inv concurrency s free) {stage : SubmitStage}
    (hm : stage.moving = s.submit.moving) (hk : stage.Knows s.arena free) :
    Inv concurrency { s with submit := stage } free where
  list := h.list
  slots := by
    have := h.slots
    rwa [away, ← hm] at this
  submit := hk
  poller := by
    have := h.poller
    rwa [taken, ← hm] at this

theorem Inv.setPoller (h : Inv concurrency s free) {stage : ReleaseStage}
    (hm : stage.moving = s.poller.moving) (hk : stage.Knows s.arena s.taken) :
    Inv concurrency { s with poller := stage } free where
  list := h.list
  slots := by
    have := h.slots
    rwa [away, ← hm] at this
  submit := h.submit
  poller := hk

/-! ## The submitting thread -/

/-- The first slot of the free list is taken off. -/
theorem Inv.pop {slot : Nat} {next : Option Nat} (h : Inv concurrency s free)
    (hst : s.submit = .popping slot next) (hhead : s.arena.freeHead = some slot) :
    ∃ free', Inv concurrency
      { s with arena := { s.arena with freeHead := next }, submit := .clearing slot } free' := by
  have hsub := h.submit
  rw [hst] at hsub
  obtain ⟨-, rfl⟩ := hsub
  have hlist := h.list
  rw [SlotArena.Free, hhead, chain_some_iff] at hlist
  obtain ⟨free', rfl, hlist⟩ := hlist
  refine ⟨free', hlist, ?_, trivial, ?_⟩
  · have hslots := h.slots
    rw [away, hst] at hslots
    exact List.perm_middle.trans hslots
  · have hpoll := h.poller
    rw [taken, hst] at hpoll
    -- what `release` has seen is the slot that is taken off now, or one that was taken off before
    refine hpoll.mono (fun _ _ => rfl) ?_
    rintro head (rfl | ⟨x, hx, rfl⟩)
    · exact Or.inr ⟨slot, List.mem_cons_self, hhead⟩
    · exact Or.inr ⟨x, List.mem_cons_of_mem _ hx, rfl⟩

/-- Writing a field of a slot that the thread has in its hands. -/
theorem Inv.setNextFree {slot : Nat} {p : Option Nat} (h : Inv concurrency s free)
    (hslot : slot ∈ s.away)
    (hk : s.poller.Knows ⟨Function.update s.arena.nextFree slot p, s.arena.freeHead⟩ s.taken) :
    Inv concurrency { s with
      arena := { s.arena with nextFree := Function.update s.arena.nextFree slot p } } free where
  list := h.list.update (h.not_free hslot)
  slots := h.slots
  submit := by
    refine h.submit.mono id (fun x hx => ?_) (fun _ hx => hx)
    have hne : x ≠ slot := fun he => h.not_free hslot (he ▸ hx)
    exact Function.update_of_ne hne _ _
  poller := hk

theorem Inv.clear {slot : Nat} (h : Inv concurrency s free) (hst : s.submit = .clearing slot) :
    Inv concurrency { s with
      arena := { s.arena with nextFree := Function.update s.arena.nextFree slot none }
      submit := .starting slot } free := by
  have hmem : slot ∈ s.away := by simp [away, hst, SubmitStage.moving]
  refine (h.setNextFree hmem ?_).setSubmit (by rw [hst]; rfl) trivial
  refine h.poller.mono (fun x hx => ?_) (fun _ hseen => hseen)
  -- the two threads have different slots in their hands
  have hne : x ≠ slot := by
    have hnodup := (List.nodup_append.mp h.nodup).2.1
    simp only [away, hst, SubmitStage.moving, List.cons_append, List.nil_append, List.nodup_cons,
      List.mem_append, not_or] at hnodup
    exact fun he => hnodup.1.1 (he ▸ hx)
  exact Function.update_of_ne hne _ _

theorem Inv.start {slot k : Nat} {stage : SubmitStage} (h : Inv concurrency s free)
    (hst : s.submit = .starting slot) (hm : stage.moving = []) (hk : stage.Knows s.arena free) :
    Inv concurrency { s with
      held := s.held ++ [(s.opIdx, slot)], opIdx := k, submit := stage } free where
  list := h.list
  slots := by
    refine List.Perm.trans (List.Perm.append_left free ?_) h.slots
    rw [away, away, hm, hst, List.map_append, List.nil_append, ← List.append_assoc]
    exact List.perm_append_comm
  submit := hk
  poller := by
    refine h.poller.mono (fun _ _ => rfl) ?_
    rintro head (rfl | ⟨x, hx, rfl⟩)
    · exact Or.inl rfl
    · refine Or.inr ⟨x, ?_, rfl⟩
      rw [taken, hst] at hx
      rw [taken, hm, List.nil_append, List.map_append]
      exact List.mem_append.mpr (List.mem_append.mp hx).symm

theorem inv_advance (h : Inv concurrency s free) (hC : s.WritesUnchanged .submit)
    (hs : s.advance numOps = some s') : ∃ free', Inv concurrency s' free' := by
  have hsub := h.submit
  unfold advance at hs
  split at hs
  · next hst =>
      cases hs
      refine ⟨free, h.setSubmit ?_ ?_⟩
      · rw [hst]
        split <;> rfl
      · split
        · trivial
        · next hne => simpa [SlotArena.empty, SubmitStage.Knows] using hne
  · next hst =>
      cases hs
      rw [hst] at hsub
      have hsome : s.arena.freeHead.isNone = false := by
        simpa [SubmitStage.Knows, Option.ne_none_iff_isSome] using hsub
      rw [hsome]
      exact ⟨free, h.setSubmit (by rw [hst]; rfl) hsub⟩
  · next hst =>
      rw [hst] at hsub
      split at hs
      · next slot hhead =>
          cases hs
          have hlist := h.list
          rw [SlotArena.Free, hhead, chain_some_iff] at hlist
          obtain ⟨free', rfl, -⟩ := hlist
          exact ⟨_, h.setSubmit (by rw [hst]; rfl) List.mem_cons_self⟩
      · next hhead => exact absurd hhead hsub
  · next slot hst =>
      cases hs
      rw [hst] at hsub
      exact ⟨free, h.setSubmit (by rw [hst]; rfl) ⟨hsub, rfl⟩⟩
  · next slot next hst =>
      cases hs
      simp only [WritesUnchanged, hst] at hC
      exact h.pop hst hC
  · next slot hst =>
      cases hs
      exact ⟨free, h.clear hst⟩
  · next slot hst =>
      cases hs
      refine ⟨free, h.start hst ?_ ?_⟩
      · unfold nextStage
        split <;> rfl
      · unfold nextStage
        split <;> trivial
  · cases hs
  · cases hs

/-! ## The poller thread -/

theorem inv_signal {op slot : Nat} (h : Inv concurrency s free) (hs : s.signal op slot = some s') :
    Inv concurrency s' free := by
  unfold signal at hs
  split at hs
  · next hh =>
      cases hs
      refine ⟨h.list, ?_, h.submit, trivial⟩
      refine List.Perm.trans (List.Perm.append_left free (List.Perm.append_left _ ?_)) h.slots
      rw [hh.1]
      exact ((List.perm_cons_erase (List.contains_iff_mem.mp hh.2)).map Prod.snd).symm
  · cases hs

/-- The slot is put in front of the list whose first slot it points to. -/
theorem Inv.push {slot : Nat} (h : Inv concurrency s free)
    (hst : s.poller = .pushing slot s.arena.freeHead) :
    Inv concurrency { s with arena := { s.arena with freeHead := some slot }, poller := .idle }
      (slot :: free) where
  list := by
    have hpoll := h.poller
    rw [hst] at hpoll
    refine chain_cons_iff.mpr ⟨rfl, ?_⟩
    rw [hpoll.1]
    exact h.list
  slots := by
    refine List.Perm.trans ?_ h.slots
    rw [away, away, hst, ← List.append_assoc free s.submit.moving, List.cons_append, ← List.append_assoc]
    exact List.perm_middle.symm
  submit := h.submit.mono (fun _ => Option.some_ne_none slot) (fun _ _ => rfl)
    (fun _ hx => List.mem_cons_of_mem slot hx)
  poller := trivial

theorem inv_releaseStep (h : Inv concurrency s free) (hC : s.WritesUnchanged .release)
    (hs : s.releaseStep = some s') : ∃ free', Inv concurrency s' free' := by
  unfold releaseStep at hs
  split at hs
  · next slot hst =>
      cases hs
      exact ⟨free, h.setPoller (by rw [hst]; rfl) (Or.inl rfl)⟩
  · next slot head hst =>
      cases hs
      have hpoll := h.poller
      rw [hst] at hpoll
      have hmem : slot ∈ s.away := by simp [away, hst, ReleaseStage.moving]
      refine ⟨free, (h.setNextFree (p := head) hmem ?_).setPoller (by rw [hst]; rfl) ?_⟩
      · rw [hst]
        exact hpoll
      · exact ⟨Function.update_self _ _ _, hpoll⟩
  · next slot head hst =>
      cases hs
      simp only [WritesUnchanged, hst] at hC
      subst hC
      exact ⟨_, h.push hst⟩
  · cases hs

theorem inv_step (h : ∃ free, Inv concurrency s free) (hC : s.WritesUnchanged a)
    (hs : s.step numOps a = some s') : ∃ free, Inv concurrency s' free := by
  obtain ⟨free, h⟩ := h
  cases a with
  | submit => exact inv_advance h hC hs
  | signal op slot => exact ⟨free, inv_signal h hs⟩
  | release => exact inv_releaseStep h hC hs

/-! ## Stale writes -/

/-- Popping a slot that is not the first one drops the slots before it. -/
theorem head_of_pop {slot : Nat} {next : Option Nat} (h : Inv concurrency s free)
    (hst : s.submit = .popping slot next)
    (hacc : Accounted concurrency
      { s with arena := { s.arena with freeHead := next }, submit := .clearing slot }) :
    s.arena.freeHead = some slot := by
  have hsub := h.submit
  rw [hst] at hsub
  obtain ⟨hmem, rfl⟩ := hsub
  obtain ⟨front, rest, rfl⟩ := List.append_of_mem hmem
  obtain ⟨r, hfront, rfl, hrest⟩ := segment_append.mp h.list
  obtain ⟨free', hfree', hslots'⟩ := hacc.slots
  obtain rfl : free' = rest := Chain.unique hfree' hrest
  -- every slot is accounted for before and after, so there was none before this one
  have hlen := h.slots.length_eq
  have hlen' := hslots'.length_eq
  simp only [away, hst, SubmitStage.moving, List.length_append, List.length_cons, List.length_nil] at hlen hlen'
  have hnil : front = [] := List.eq_nil_of_length_eq_zero (by omega)
  subst hnil
  exact hfront

/-- A slot that was taken off the list since is put on the list again. -/
theorem head_of_push {slot : Nat} {head : Option Nat} (h : Inv concurrency s free)
    (hst : s.poller = .pushing slot head)
    (hacc : Accounted concurrency
      { s with arena := { s.arena with freeHead := some slot }, poller := .idle }) :
    s.arena.freeHead = head := by
  have hpoll := h.poller
  rw [hst] at hpoll
  obtain ⟨hnext, rfl | ⟨x, hx, rfl⟩⟩ := hpoll
  · rfl
  · exfalso
    obtain ⟨free', hfree', hslots'⟩ := hacc.slots
    obtain ⟨l, rfl, hl⟩ := chain_some_iff.mp hfree'
    rw [hnext] at hl
    obtain ⟨l', rfl, -⟩ := chain_some_iff.mp hl
    have hnodup := hslots'.nodup_iff.mpr List.nodup_range
    exact (List.nodup_append.mp hnodup).2.2 x (by simp) x hx rfl

theorem unchanged_of_accounted (h : Inv concurrency s free) (hs : s.step numOps a = some s')
    (hacc : Accounted concurrency s') : s.WritesUnchanged a := by
  cases a with
  | submit =>
      cases hst : s.submit with
      | popping slot next =>
          simp only [step, advance, hst, Option.some.injEq] at hs
          subst hs
          simp only [WritesUnchanged, hst]
          exact head_of_pop h hst hacc
      | testing | checking | reading | loading _ | clearing _ | starting _ | crashed | finished =>
          simp [WritesUnchanged, hst]
  | signal op slot => trivial
  | release =>
      cases hst : s.poller with
      | pushing slot head =>
          simp only [step, releaseStep, hst, Option.some.injEq] at hs
          subst hs
          simp only [WritesUnchanged, hst]
          exact head_of_push h hst hacc
      | idle | reading _ | linking _ _ => simp [WritesUnchanged, hst]

end ThreadedArena

end DsaStdexec.Bench

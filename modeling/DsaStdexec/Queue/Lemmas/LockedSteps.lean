import DsaStdexec.Queue.Lemmas.LockedProtocol

/-!
# The accesses of the locked queue

Every access of a call is possible, the bag can follow it, and it brings the call closer to its end unless
it waits for the lock.
-/

namespace DsaStdexec.Queue

open DsaStdexec.Lib

/-! ## How much a call has still to do -/

section Fuel

variable {S O : Type} [DecidableEq O]

/-- The number of nodes behind a link of the list `l`. -/
def behind (l : List O) : Link O → Nat
  | .head => l.length
  | .next n => (l.dropWhile (· ≠ n)).tail.length

theorem behind_linkAfter {front rest : List O} (h : (front ++ rest).Nodup) :
    behind (front ++ rest) (linkAfter front) = rest.length := by
  rcases List.eq_nil_or_concat front with rfl | ⟨front, n, rfl⟩
  · rfl
  · rw [List.concat_eq_append] at h ⊢
    have hn : ∀ m ∈ front, m ≠ n := by
      intro m hm he
      rw [List.append_assoc, List.nodup_append] at h
      exact h.2.2 m hm n (by simp) he
    have hdrop : (front ++ n :: rest).dropWhile (fun m => decide (m ≠ n)) = n :: rest := by
      rw [List.dropWhile_append_of_pos (by simpa using hn)]
      simp
    rw [linkAfter_concat, List.append_assoc, List.singleton_append, behind, hdrop]
    rfl

/-- A bound for the steps of the call: `n` is the number of all operations, `l` the list at `head_` and `h`
what the call has taken. -/
def LockedFrame.fuel (rank : S → Nat) (n : Nat) (l h : List O) : LockedFrame S O → Nat
  | .locking _ spin => rank spin + 10 * n + 6
  | .loading _ => 5
  | .linking _ _ => 4
  | .publishing _ => 3
  | .starting => 10 * l.length + 4
  | .checking pprev _ _ => 10 * behind l pprev + 4 * h.length + 3
  | .detaching pprev _ _ => 10 * behind l pprev + 4 * h.length + 2
  | .storing pprev _ _ _ => 10 * behind l pprev + 4 * h.length + 1
  | .chaining pprev _ _ => 10 * behind l pprev + 4 * h.length + 9
  | .reloading pprev _ => 10 * behind l pprev + 4 * h.length + 4
  | .passing curr _ => 10 * behind l (.next curr) + 4 * h.length + 4
  | .testing => 3
  | .unlocking (.swept _) => 4 * h.length + 2
  | .unlocking _ => 2
  | .notifying _ _ => 4 * h.length + 1
  | .invoking _ _ _ => 4 * h.length + 4

theorem LockedFrame.fuel_entered_lt {rank : S → Nat} {n : Nat} {l h : List O} (hl : l.length ≤ n)
    (call : LockedCall O) (spin : S) :
    (entered call : LockedFrame S O).fuel rank n l h < (locking call spin).fuel rank n l h := by
  cases call <;> simp only [entered, fuel] <;> omega

def BagThread.fuel (bt : BagThread O) : Nat := (bt.callbacks.map fun a => 4 * a.1.length + 3).sum

end Fuel

namespace LockedProtocol

variable {L : Lock} {T O : Type} [DecidableEq T] [Fintype T] {lawful : L.Lawful}
  {s s' : LockedProtocol L T O} {b b' : SharedBag T O} {l l' h : List O} {held : T → List O} {t : T}
  {f g : LockedFrame L.Spin O} {callbacks : List (Option O × Nat)}

/-! ## Accesses with the lock -/

variable [DecidableEq O]

omit [DecidableEq T] [Fintype T] in
/-- What thread `t` has still to do. -/
def fuel (lawful : L.Lawful) (s : LockedProtocol L T O) (b : SharedBag T O) (l : List O)
    (held : T → List O) (t : T) : Nat :=
  (s.threads t).frame.elim 0 (·.fuel lawful.rank s.heap.owned.length l (held t)) + (b.threads t).fuel

/-- The bag can follow a step to the state `s'`. -/
def Follows (lawful : L.Lawful) (s' : LockedProtocol L T O) (b : SharedBag T O) : Prop :=
  ∃ b' l' held', (b' = b ∨ b.Step b') ∧ Represents lawful s' b' l' held'

/-- The access is possible and the bag can follow. A call that has the lock, or could have it, comes closer
to its end. -/
def Succeeds (lawful : L.Lawful) (s : LockedProtocol L T O) (b : SharedBag T O) (l : List O)
    (held : T → List O) (t : T) (f : LockedFrame L.Spin O) : Prop :=
  ∃ s' next b' l' held', s.access f = some (s', next) ∧ (b' = b ∨ b.Step b') ∧
    Represents lawful (s'.proceed t next) b' l' held' ∧
    (f.inside = true ∨ lawful.held s.word = false →
      fuel lawful (s'.proceed t next) b' l' held' t < fuel lawful s b l held t)

omit [Fintype T] [DecidableEq O] in
theorem proceed_goto (ht : s.threads t = ⟨some f, callbacks⟩) (g : LockedFrame L.Spin O) :
    s.proceed t (.goto g) = s.setThread t ⟨some g, callbacks⟩ := by
  simp [proceed, ht]

section Cases

variable {heap : Heap O} {head : Option O} {stage stage' : BagStage O} {seen : O → Bool}
  {bcallbacks : List (List O × Nat)} {op curr : O} {front rest : List O} {completed : Option O}

/-- An access with the lock, without effect on the bag. -/
theorem succeeds_stutter (hr : Represents lawful s b l held) (ht : s.threads t = ⟨some f, callbacks⟩)
    (hb : b.threads t = ⟨some stage, bcallbacks⟩) (hin : f.inside = true) (hin' : g.inside = true)
    (ha : s.access f = some ({ s with heap := heap, head := head }, .goto g))
    (hchains : Chains heap ((head, l') :: (g.pointer, h) :: Represents.restLists s b held t)
      (g.loose ++ Represents.restLoose s t)) (howned : heap.owned = s.heap.owned)
    (hstage : Matches heap.next head s.ready l' h (some g) (some stage))
    (hperm : (l' ++ g.extra h).Perm (l ++ f.extra (held t)))
    (hfuel : ∀ rank n, g.fuel rank n l' h < f.fuel rank n l (held t)) :
    Succeeds lawful s b l held t f := by
  have hr' := hr.within_stutter ht hin hin' (by rw [hb]) howned hchains hstage hperm
  refine ⟨_, _, b, l', Function.update held t h, ha, .inl rfl,
    proceed_goto (s := { s with heap := heap, head := head }) ht g ▸ hr', fun _ => ?_⟩
  simpa [fuel, proceed, setThread, ht, howned] using hfuel _ _

/-- The access with which the call takes effect. -/
theorem succeeds_effect (hr : Represents lawful s b l held) (ht : s.threads t = ⟨some f, callbacks⟩)
    (hb : b.threads t = ⟨some stage, bcallbacks⟩) (hin : f.inside = true) (hin' : g.inside = true)
    (ha : s.access f = some ({ s with heap := heap, head := head }, .goto g))
    (hchains : Chains heap ((head, l') :: (g.pointer, h) :: Represents.restLists s b held t)
      (g.loose ++ Represents.restLoose s t)) (howned : heap.owned = s.heap.owned)
    (hstage : Matches heap.next head s.ready l' h (some g) (some stage'))
    (hinv : ∀ call seen, stage' ≠ .invoked call seen)
    (hstep : b.Step ({ b with pending := (l' ++ g.extra h : List O) }.setThread t
      ⟨some stage', bcallbacks⟩))
    (hfuel : ∀ rank n, g.fuel rank n l' h < f.fuel rank n l (held t)) :
    Succeeds lawful s b l held t f := by
  have hr' := hr.within ht hin hin' howned hchains hstage fun call seen he => (hinv call seen he).elim
  rw [hb] at hr'
  refine ⟨_, _, _, l', Function.update held t h, ha, .inr hstep,
    proceed_goto (s := { s with heap := heap, head := head }) ht g ▸ hr', fun _ => ?_⟩
  simpa [fuel, proceed, setThread, SharedBag.setThread, BagThread.fuel, ht, hb, howned] using hfuel _ _

theorem succeeds_loading (hr : Represents lawful s b l held)
    (ht : s.threads t = ⟨some (.loading op), callbacks⟩)
    (hb : b.threads t = ⟨some (.invoked (.push op) seen), bcallbacks⟩) :
    Succeeds lawful s b l held t (.loading op) := by
  have hc := hr.isolate_frame ht
  exact succeeds_stutter (g := .linking op s.head) (h := held t) hr ht hb rfl rfl rfl hc rfl .linking
    (.refl _) fun _ _ => by simp [LockedFrame.fuel]

theorem succeeds_linking (hr : Represents lawful s b l held)
    (ht : s.threads t = ⟨some (.linking op s.head), callbacks⟩)
    (hb : b.threads t = ⟨some (.invoked (.push op) seen), bcallbacks⟩) :
    Succeeds lawful s b l held t (.linking op s.head) := by
  have hc := hr.isolate_frame ht
  refine succeeds_stutter (g := .publishing op) (h := held t) hr ht hb rfl rfl ?_
    (hc.write_loose s.head) rfl (.publishing (Function.update_self _ _ _)) (.refl _)
    fun _ _ => by simp [LockedFrame.fuel]
  simp only [access, Heap.write_of_mem hc.loose_owned]
  rfl

theorem succeeds_publishing (hr : Represents lawful s b l held)
    (ht : s.threads t = ⟨some (.publishing op), callbacks⟩) (hn : s.heap.next op = s.head)
    (hb : b.threads t = ⟨some (.invoked (.push op) seen), bcallbacks⟩) :
    Succeeds lawful s b l held t (.publishing op) := by
  have hp : ((op :: l ++ [] : List O) : Multiset O) = op ::ₘ b.pending := by
    rw [hr.pending_of_inside ht rfl]
    rfl
  refine succeeds_effect (g := .unlocking .pushed) (h := held t) hr ht hb rfl rfl rfl
    ((hr.isolate_frame ht).push hn) rfl .pushed (by simp) ?_ fun _ _ => by simp [LockedFrame.fuel]
  simp only [LockedFrame.extra, LockedFrame.walking, Bool.false_eq_true, if_false, hp]
  exact .B_Push hb

theorem succeeds_starting (hr : Represents lawful s b l held)
    (ht : s.threads t = ⟨some .starting, callbacks⟩)
    (hb : b.threads t = ⟨some (.invoked .poll seen), bcallbacks⟩) :
    Succeeds lawful s b l held t .starting := by
  have hc := hr.isolate_frame ht
  have hheld : held t = [] := hc.swap.empty_iff.mpr rfl
  have hhead : s.head = l.head? := by
    rw [← List.nil_append l] at hc
    simpa [linkAfter, Heap.load] using hc.load
  refine succeeds_stutter (g := .checking .head s.head none) (h := held t) hr ht hb rfl rfl rfl hc rfl ?_ ?_ ?_
  · rw [hhead]
    have hw : Walked s.ready seen [] (held t) := ⟨by simp, by simp [hheld]⟩
    exact .checking (List.nil_append l).symm hw
  · simp [LockedFrame.extra, LockedFrame.walking, LockedFrame.loose, hheld]
  · simp [LockedFrame.fuel, behind, hheld]

/-- The end of the loop of `poll`. -/
theorem succeeds_checking_end (hr : Represents lawful s b l held)
    (ht : s.threads t = ⟨some (.checking (linkAfter l) none completed), callbacks⟩)
    (hb : b.threads t = ⟨some (.invoked .poll seen), bcallbacks⟩)
    (hw : Walked s.ready seen l (held t)) :
    Succeeds lawful s b l held t (.checking (linkAfter l) none completed) := by
  have hc := hr.isolate_frame ht
  refine succeeds_effect (g := .unlocking (.swept completed)) (h := held t) hr ht hb rfl rfl rfl hc rfl
    .swept (by simp) ?_ fun _ _ => by simp only [LockedFrame.fuel]; omega
  refine .B_Poll hb ?_ ?_ ?_
  · rw [hr.pending_of_inside ht rfl, Multiset.coe_add]
    refine Multiset.coe_eq_coe.mpr (List.perm_append_comm.trans ?_)
    simp [LockedFrame.extra, LockedFrame.walking, LockedFrame.loose]
  · rw [hr.ready]
    exact hw.taken
  · simpa [LockedFrame.extra, LockedFrame.walking] using hw.unseen

theorem succeeds_checking (hr : Represents lawful s b (front ++ curr :: rest) held)
    (ht : s.threads t = ⟨some (.checking (linkAfter front) (some curr) completed), callbacks⟩)
    (hb : b.threads t = ⟨some (.invoked .poll seen), bcallbacks⟩)
    (hw : Walked s.ready seen front (held t)) :
    Succeeds lawful s b (front ++ curr :: rest) held t (.checking (linkAfter front) (some curr) completed) := by
  have hc := hr.isolate_frame ht
  cases hready : s.ready curr with
  | true =>
      refine succeeds_stutter (g := .detaching (linkAfter front) curr completed) hr ht hb rfl rfl ?_ hc rfl
        (.detaching rfl hw hready) (.refl _) fun _ _ => by simp [LockedFrame.fuel]
      simp only [access, Heap.test_of_mem hc.mid_owned, hready]
      rfl
  | false =>
      -- an operation that was completed at the invocation still is
      have hcurr : seen curr = false := by
        rw [Bool.eq_false_iff]
        intro hs
        have := (hr.seen t _ _ (by rw [hb]) curr hs).1
        rw [hready] at this
        cases this
      refine succeeds_stutter (g := .passing curr completed) hr ht hb rfl rfl ?_ hc rfl
        (.passing rfl hw hcurr) (.refl _) ?_
      · simp only [access, Heap.test_of_mem hc.mid_owned, hready]
        rfl
      · have hnodup : (front ++ curr :: rest).Nodup := (hc.chain _ List.mem_cons_self).nodup
        have hbehind := behind_linkAfter hnodup
        rw [List.append_cons] at hnodup
        have hbehind' := behind_linkAfter hnodup
        rw [← List.append_cons, linkAfter_concat] at hbehind'
        intro rank n
        simp only [LockedFrame.fuel, hbehind, hbehind', List.length_cons]
        omega

theorem succeeds_detaching (hr : Represents lawful s b (front ++ curr :: rest) held)
    (ht : s.threads t = ⟨some (.detaching (linkAfter front) curr completed), callbacks⟩)
    (hb : b.threads t = ⟨some (.invoked .poll seen), bcallbacks⟩)
    (hw : Walked s.ready seen front (held t)) (hready : s.ready curr = true) :
    Succeeds lawful s b (front ++ curr :: rest) held t (.detaching (linkAfter front) curr completed) := by
  have hc := hr.isolate_frame ht
  refine succeeds_stutter (g := .storing (linkAfter front) curr (s.heap.next curr) completed) hr ht hb
    rfl rfl ?_ hc rfl (.storing rfl hw hready) (.refl _) fun _ _ => by simp [LockedFrame.fuel]
  simp only [access, Heap.read_of_mem hc.mid_owned]
  rfl

theorem succeeds_storing (hr : Represents lawful s b (front ++ curr :: rest) held)
    (ht : s.threads t = ⟨some (.storing (linkAfter front) curr (s.heap.next curr) completed), callbacks⟩)
    (hb : b.threads t = ⟨some (.invoked .poll seen), bcallbacks⟩)
    (hw : Walked s.ready seen front (held t)) (hready : s.ready curr = true) :
    Succeeds lawful s b (front ++ curr :: rest) held t (.storing (linkAfter front) curr (s.heap.next curr) completed) := by
  have hlist : (front ++ curr :: rest).Nodup := ((hr.isolate_frame ht).chain _ List.mem_cons_self).nodup
  obtain ⟨heap, head, hstore, hc, howned, -⟩ := (hr.isolate_frame ht).unlink
  have hlist' : (front ++ rest).Nodup := (hc.chain _ List.mem_cons_self).nodup
  refine succeeds_stutter (g := .chaining (linkAfter front) curr completed) (h := held t) hr ht hb
    rfl rfl ?_ hc howned (.chaining rfl hw hready) ?_ ?_
  · simp only [access, hstore]
    rfl
  · simp only [LockedFrame.extra, LockedFrame.walking, LockedFrame.loose, ↓reduceIte, List.append_assoc,
      List.cons_append, List.nil_append]
    refine List.Perm.append_left front ?_
    exact List.perm_middle
  · intro rank n
    simp only [LockedFrame.fuel, behind_linkAfter hlist, behind_linkAfter hlist', List.length_cons]
    omega

theorem succeeds_chaining (hr : Represents lawful s b (front ++ rest) held)
    (ht : s.threads t = ⟨some (.chaining (linkAfter front) curr completed), callbacks⟩)
    (hb : b.threads t = ⟨some (.invoked .poll seen), bcallbacks⟩)
    (hw : Walked s.ready seen front (held t)) (hready : s.ready curr = true) :
    Succeeds lawful s b (front ++ rest) held t (.chaining (linkAfter front) curr completed) := by
  have hc := hr.isolate_frame ht
  refine succeeds_stutter (g := .reloading (linkAfter front) (some curr)) (h := curr :: held t) hr ht hb
    rfl rfl ?_ hc.swap.link.swap rfl (.reloading rfl ⟨hw.unseen, ?_⟩) (.refl _) ?_
  · simp only [access, Heap.write_of_mem hc.loose_owned]
    rfl
  · rintro o (_ | ⟨_, ho⟩)
    · exact hready
    · exact hw.taken o ho
  · intro rank n
    simp only [LockedFrame.fuel, List.length_cons]
    omega

theorem succeeds_reloading (hr : Represents lawful s b (front ++ rest) held)
    (ht : s.threads t = ⟨some (.reloading (linkAfter front) completed), callbacks⟩)
    (hb : b.threads t = ⟨some (.invoked .poll seen), bcallbacks⟩)
    (hw : Walked s.ready seen front (held t)) :
    Succeeds lawful s b (front ++ rest) held t (.reloading (linkAfter front) completed) := by
  have hc := hr.isolate_frame ht
  refine succeeds_stutter (g := .checking (linkAfter front) rest.head? completed) hr ht hb rfl rfl ?_
    hc rfl (.checking rfl hw) (.refl _) fun _ _ => by simp [LockedFrame.fuel]
  simp only [access, hc.load]
  rfl

theorem succeeds_passing (hr : Represents lawful s b (front ++ curr :: rest) held)
    (ht : s.threads t = ⟨some (.passing curr completed), callbacks⟩)
    (hb : b.threads t = ⟨some (.invoked .poll seen), bcallbacks⟩)
    (hw : Walked s.ready seen front (held t)) (hcurr : seen curr = false) :
    Succeeds lawful s b (front ++ curr :: rest) held t (.passing curr completed) := by
  have hc := hr.isolate_frame ht
  refine succeeds_stutter (g := .checking (.next curr) rest.head? completed) hr ht hb rfl rfl ?_ hc rfl
    ?_ (.refl _) fun _ _ => by simp [LockedFrame.fuel]
  · simp only [access, Heap.read_of_mem hc.mid_owned, hc.next_eq]
    rfl
  · rw [← linkAfter_concat front curr]
    refine .checking (by simp) ⟨?_, hw.taken⟩
    intro o ho
    rcases List.mem_append.mp ho with ho | ho
    · exact hw.unseen o ho
    · exact List.mem_singleton.mp ho ▸ hcurr

theorem succeeds_testing (hr : Represents lawful s b l held)
    (ht : s.threads t = ⟨some .testing, callbacks⟩)
    (hb : b.threads t = ⟨some (.invoked .empty seen), bcallbacks⟩) :
    Succeeds lawful s b l held t .testing := by
  have hc := hr.isolate_frame ht
  have hp : b.pending = (l : List O) := by
    simpa [LockedFrame.extra, LockedFrame.walking] using hr.pending_of_inside ht rfl
  have hres : s.head.isNone = decide (b.pending = 0) := by
    rw [Bool.eq_iff_iff, Option.isNone_iff_eq_none, decide_eq_true_iff, ← hc.empty_iff, hp,
      Multiset.coe_eq_zero]
  refine succeeds_effect (g := .unlocking (.tested s.head.isNone)) (h := held t) hr ht hb rfl rfl rfl
    hc rfl .tested (by simp) ?_ fun _ _ => by simp [LockedFrame.fuel]
  have hsame : ({ b with pending := (l ++ [] : List O) } : SharedBag T O) = b := by
    rw [List.append_nil, ← hp]
  simp only [LockedFrame.extra, LockedFrame.walking, Bool.false_eq_true, if_false, hsame, hres]
  exact .B_Empty hb

/-! ## Steps that do not change the lists -/

/-- `lock` spins or returns. -/
theorem succeeds_locking (hr : Represents lawful s b l held) {call : LockedCall O} {spin : L.Spin}
    (ht : s.threads t = ⟨some (.locking call spin), callbacks⟩)
    (hb : b.threads t = ⟨some (.invoked call seen), bcallbacks⟩) :
    Succeeds lawful s b l held t (.locking call spin) := by
  have hbt : b.threads = Function.update b.threads t ⟨some (.invoked call seen), (b.threads t).callbacks⟩ := by
    simp [hb]
  have hth : ∀ w g, (({ s with word := w } : LockedProtocol L T O).proceed t (.goto g)).threads =
      Function.update s.threads t ⟨some g, (s.threads t).callbacks⟩ := fun _ _ => rfl
  rcases ha : L.attempt s.word spin with ⟨word, _ | spin'⟩
  · have hm : Matches s.heap.next s.head s.ready l (held t) (some (.entered call : LockedFrame L.Spin O))
        (some (.invoked call seen)) := by
      cases call with
      | push op => exact .loading
      | poll => exact .starting
      | empty => exact .testing
    have hg : Guards lawful word
        (({ s with word := word } : LockedProtocol L T O).proceed t (.goto (.entered call))).Inside := by
      have := guards_enter (s := s) hr.guards (i := spin) (by rw [ha]) (hth word (.entered call))
        (LockedFrame.inside_entered call)
      rwa [ha] at this
    refine ⟨{ s with word := word }, .goto (.entered call), b, l, held, by simp [access, ha], .inl rfl, ?_,
      fun _ => ?_⟩
    · refine hr.relabel (hth word _) hbt hg rfl rfl rfl ?_ ?_ ?_ hm rfl rfl hr.seen hr.log
      · rw [ht]; cases call <;> rfl
      · rw [ht]; cases call <;> rfl
      · rw [ht]; cases call <;> rfl
    · have hl : l.length ≤ s.heap.owned.length := hr.chains.length_le
      simpa [fuel, proceed, setThread, ht] using LockedFrame.fuel_entered_lt hl call spin
  · have hg : Guards lawful word (({ s with word := word } : LockedProtocol L T O).proceed t
        (.goto (.locking call spin'))).Inside := by
      have := hr.guards.spin (i := spin) (j := spin') (by rw [ha])
      rw [ha] at this
      exact guards_same (s := { s with word := word }) this (hth word _) (by simp [ht, LockedThread.inside]; rfl)
    refine ⟨{ s with word := word }, .goto (.locking call spin'), b, l, held, by simp [access, ha], .inl rfl,
      ?_, fun hfree => ?_⟩
    · refine hr.relabel (hth word _) hbt hg rfl rfl rfl ?_ ?_ ?_ .locking rfl rfl hr.seen hr.log
      · rw [ht]; cases call <;> rfl
      · rw [ht]; cases call <;> rfl
      · rw [ht]; cases call <;> rfl
    · have hrank : lawful.rank spin' < lawful.rank spin := by
        rcases hfree with hin | hfree
        · cases hin
        · exact lawful.rank_attempt _ _ _ hfree (by rw [ha])
      simpa [fuel, proceed, setThread, ht, LockedFrame.fuel] using hrank

omit [DecidableEq O] in
/-- A call returns. -/
theorem Represents.returns (hr : Represents lawful s b l held) {w : L.Word} {r : LockedResult}
    (hg : Guards lawful w (({ s with word := w } : LockedProtocol L T O).proceed t (.returns r)).Inside)
    (hpointer : (s.threads t).frame.elim none LockedFrame.pointer = none)
    (hloose : (s.threads t).loose = []) (hextra : (s.threads t).extra (held t) = []) :
    Represents lawful (({ s with word := w } : LockedProtocol L T O).proceed t (.returns r))
      ((b.setThread t ⟨none, (b.threads t).callbacks⟩).record (.returned t r)) l held := by
  refine hr.relabel (t := t) rfl rfl hg rfl rfl rfl hpointer.symm hloose.symm hextra.symm .idle rfl rfl ?_ ?_
  · exact seenOk_update (t := t) hr.seen rfl (by rintro _ _ ⟨⟩)
  · simp [SharedBag.record, SharedBag.setThread, proceed, record, setThread, hr.log]

omit [Fintype T] in
theorem fuel_returns {w : L.Word} {r : LockedResult} (hf : (s.threads t).frame = some f)
    (hpos : 0 < f.fuel lawful.rank s.heap.owned.length l (held t)) :
    fuel lawful (({ s with word := w } : LockedProtocol L T O).proceed t (.returns r))
      ((b.setThread t ⟨none, (b.threads t).callbacks⟩).record (.returned t r)) l held t <
      fuel lawful s b l held t := by
  simpa [fuel, proceed, setThread, record, SharedBag.record, SharedBag.setThread, BagThread.fuel, hf] using hpos

theorem succeeds_unlocking (hr : Represents lawful s b l held) {outcome : LockedOutcome O}
    (ht : s.threads t = ⟨some (.unlocking outcome), callbacks⟩) :
    Succeeds lawful s b l held t (.unlocking outcome) := by
  have hm := hr.stages t
  have hin : s.Inside t := by simp [Inside, LockedThread.inside, ht, LockedFrame.inside]
  have hb : b.threads t = ⟨(b.threads t).stage, (b.threads t).callbacks⟩ := rfl
  have hf : (s.threads t).frame = some (.unlocking outcome) := by rw [ht]
  rw [ht] at hm
  generalize hst : (b.threads t).stage = stage at hm hb
  cases hm with
  | pushed =>
      refine ⟨_, _, _, l, held, rfl, .inr (.B_Return hb), ?_, fun _ => fuel_returns hf (by simp [LockedFrame.fuel])⟩
      refine hr.returns (guards_leave (s := s) (t := t) hr.guards hin rfl rfl) ?_ ?_ ?_ <;> rw [ht] <;> rfl
  | tested =>
      refine ⟨_, _, _, l, held, rfl, .inr (.B_Return hb), ?_, fun _ => fuel_returns hf (by simp [LockedFrame.fuel])⟩
      refine hr.returns (guards_leave (s := s) (t := t) hr.guards hin rfl rfl) ?_ ?_ ?_ <;> rw [ht] <;> rfl
  | @swept completed =>
      refine ⟨_, _, b, l, held, rfl, .inl rfl, ?_, fun _ => ?_⟩
      · have hbt : b.threads = Function.update b.threads t
            ⟨some (.notifying (held t) (0 + (held t).length)), (b.threads t).callbacks⟩ := by
          rw [Nat.zero_add, ← hst]
          simp
        refine hr.relabel (t := t) rfl hbt (guards_leave (s := s) (t := t) hr.guards hin rfl rfl) rfl rfl rfl
          ?_ ?_ ?_ .notifying rfl rfl hr.seen hr.log <;> rw [ht] <;> rfl
      · simp [fuel, proceed, setThread, ht, LockedFrame.fuel]

/-- `poll` returns, or reads the next operation. -/
theorem succeeds_notifying (hr : Represents lawful s b l held) {count : Nat}
    (ht : s.threads t = ⟨some (.notifying completed count), callbacks⟩)
    (hb : b.threads t = ⟨some (.notifying (held t) (count + (held t).length)), bcallbacks⟩) :
    Succeeds lawful s b l held t (.notifying completed count) := by
  have hc := hr.isolate_frame ht
  cases completed with
  | none =>
      have hheld : held t = [] := hc.swap.empty_iff.mpr rfl
      have hf : (s.threads t).frame = some (.notifying none count) := by rw [ht]
      have hb' : b.threads t = ⟨some (.notifying [] count), (b.threads t).callbacks⟩ := by
        simp [hb, hheld]
      refine ⟨s, .returns (.polled count), _, l, held, rfl, .inr (.B_Polled hb'), ?_,
        fun _ => fuel_returns (w := s.word) hf (by simp [LockedFrame.fuel])⟩
      refine hr.returns (t := t) (w := s.word) ?_ ?_ ?_ ?_
      · exact guards_same (s := s) (t := t) hr.guards rfl (by rw [ht]; rfl)
      · rw [ht]; rfl
      · rw [ht]; rfl
      · rw [ht]; rfl
  | some op =>
      obtain ⟨todo, htodo, -⟩ : ∃ todo, held t = op :: todo ∧ Chain s.heap.next (s.heap.next op) todo :=
        chain_some_iff.mp (hc.swap.chain _ List.mem_cons_self)
      rw [htodo] at hb hc
      refine ⟨s, .goto (.invoking op (s.heap.next op) count), b, l, Function.update held t todo, ?_,
        .inl rfl, ?_, fun _ => ?_⟩
      · simp only [access, Heap.read_of_mem hc.swap.head_owned]
        rfl
      · have hbt : b.threads = Function.update b.threads t
            ⟨some (.notifying (op :: todo) (count + (todo.length + 1))), bcallbacks⟩ := by
          rw [← List.length_cons (a := op), ← hb, Function.update_eq_self]
        have hcounts := hr.counts t
        rw [ht, hb] at hcounts
        refine hr.apart (t := t) rfl hbt ?_ rfl rfl rfl ?_ .invoking ?_ ?_ rfl rfl hr.seen hr.log
        · exact guards_same (s := s) (t := t) hr.guards rfl (by rw [ht]; rfl)
        · have hc' := hc.swap.pop.swap
          rw [Represents.restLists, ht, hb] at hc'
          rw [ht]
          exact hc'
        · rw [ht]
          exact hcounts
        · rw [ht]
          rfl
      · simp only [fuel, proceed, setThread, Function.update_self, ht, Option.elim_some, LockedFrame.fuel,
          htodo, List.length_cons]
        omega

omit [DecidableEq T] in
/-- From the notification on, nothing that was seen of the operation matters. -/
theorem Represents.forget (hr : Represents lawful s b l held) (op : O) :
    Represents lawful s (b.forget op) l held where
  guards := hr.guards
  chains := hr.chains
  stages u := (hr.stages u).forget op
  counts := hr.counts
  pending := hr.pending
  ready := hr.ready
  seen u call seen hu o ho := by
    rcases hst : (b.threads u).stage with _ | stage
    · simp [SharedBag.forget, BagThread.forget, hst] at hu
    · simp only [SharedBag.forget, BagThread.forget, hst, Option.map_some, Option.some.injEq] at hu
      cases stage with
      | invoked call' seen' =>
          cases hu
          by_cases he : o = op
          · simp [he] at ho
          · exact hr.seen u _ _ hst o (by simpa [he] using ho)
      | done => cases hu
      | notifying => cases hu
  log := hr.log

omit [DecidableEq T] [Fintype T] in
theorem forget_unseen {call : LockedCall O} {u : T} (op : O)
    (hu : ((b.forget op).threads u).stage = some (.invoked call seen)) : seen op = false := by
  rcases hst : (b.threads u).stage with _ | stage
  · simp [SharedBag.forget, BagThread.forget, hst] at hu
  · simp only [SharedBag.forget, BagThread.forget, hst, Option.map_some, Option.some.injEq] at hu
    cases stage with
    | invoked call' seen' => cases hu; simp
    | done => cases hu
    | notifying => cases hu

theorem succeeds_invoking (hr : Represents lawful s b l held) {count : Nat}
    (ht : s.threads t = ⟨some (.invoking op completed count), callbacks⟩)
    (hb : b.threads t = ⟨some (.notifying (op :: held t) (count + ((held t).length + 1))), bcallbacks⟩) :
    Succeeds lawful s b l held t (.invoking op completed count) := by
  have hc := hr.isolate_frame ht
  have hown : op ∈ s.heap.owned := hc.loose_owned
  have hcounts := hr.counts t
  rw [ht, hb] at hcounts
  refine ⟨{ s with heap := s.heap.release op }, .callback op completed count, _, l,
    Function.update held t [], by simp [access, hown], .inr (.B_Notify hb), ?_, fun _ => ?_⟩
  on_goal 2 =>
    simp only [fuel, proceed, setThread, record, SharedBag.record, SharedBag.setThread, BagThread.fuel,
      Function.update_self, ht, hb, Option.elim_some, Option.elim_none, LockedFrame.fuel, List.map_cons,
      List.sum_cons]
    omega
  refine (hr.forget op).apart (t := t) rfl rfl ?_ rfl rfl rfl ?_ .idle ?_ ?_ rfl rfl ?_ ?_
  · exact guards_same (s := s) (t := t) hr.guards rfl (by rw [ht]; rfl)
  · have hc' := hc.release.addEmpty.swap
    rw [Represents.restLists, ht, hb] at hc'
    rw [ht]
    exact hc'
  · rw [ht]
    exact .cons rfl hcounts
  · rw [ht]
    rfl
  · refine Represents.seenOk_update (b := b.forget op) (t := t) ?_ rfl (by rintro _ _ ⟨⟩)
    intro u call seen hu o ho
    have hso := (hr.forget op).seen u call seen hu o ho
    refine ⟨hso.1, (List.mem_erase_of_ne ?_).mpr hso.2⟩
    rintro rfl
    rw [forget_unseen o hu] at ho
    cases ho
  · simp [SharedBag.record, SharedBag.setThread, SharedBag.forget, proceed, record, setThread, hr.log]

/-- No access of a call is stuck. -/
theorem succeeds (hr : Represents lawful s b l held) (hf : (s.threads t).frame = some f) :
    Succeeds lawful s b l held t f := by
  obtain ⟨callbacks, ht⟩ : ∃ callbacks, s.threads t = ⟨some f, callbacks⟩ := ⟨_, by rw [← hf]⟩
  obtain ⟨stage, bcallbacks, hb⟩ : ∃ stage bcallbacks, b.threads t = ⟨stage, bcallbacks⟩ := ⟨_, _, rfl⟩
  have hm := hr.stages t
  rw [ht, hb] at hm
  cases hm with
  | locking => exact succeeds_locking hr ht hb
  | loading => exact succeeds_loading hr ht hb
  | linking => exact succeeds_linking hr ht hb
  | publishing hn => exact succeeds_publishing hr ht hn hb
  | starting => exact succeeds_starting hr ht hb
  | @checking front rest _ _ hl hw =>
      subst hl
      cases rest with
      | nil =>
          rw [List.append_nil] at hr ⊢
          exact succeeds_checking_end hr ht hb hw
      | cons curr rest => exact succeeds_checking hr ht hb hw
  | detaching hl hw hc => subst hl; exact succeeds_detaching hr ht hb hw hc
  | storing hl hw hc => subst hl; exact succeeds_storing hr ht hb hw hc
  | chaining hl hw hc => subst hl; exact succeeds_chaining hr ht hb hw hc
  | reloading hl hw => subst hl; exact succeeds_reloading hr ht hb hw
  | passing hl hw hc => subst hl; exact succeeds_passing hr ht hb hw hc
  | testing => exact succeeds_testing hr ht hb
  | pushed => exact succeeds_unlocking hr ht
  | swept => exact succeeds_unlocking hr ht
  | tested => exact succeeds_unlocking hr ht
  | notifying => exact succeeds_notifying hr ht hb
  | invoking => exact succeeds_invoking hr ht hb

/-! ## Calls, callbacks and the device -/

omit [DecidableEq T] [DecidableEq O] in
theorem Represents.pending_owned (hr : Represents lawful s b l held) {o : O} (ho : o ∈ b.pending) :
    o ∈ s.heap.owned := by
  rw [hr.pending, Multiset.mem_coe, List.mem_append, mem_gather] at ho
  refine hr.chains.mem_owned.mpr ?_
  rcases ho with ho | ⟨u, ho⟩
  · exact .inl ⟨_, List.mem_cons_self, ho⟩
  · rcases hf : (s.threads u).frame with _ | f
    · simp [LockedThread.extra, hf] at ho
    · simp only [LockedThread.extra, hf, Option.elim_some, LockedFrame.extra] at ho
      split at ho
      · rcases List.mem_append.mp ho with ho | ho
        · exact .inr (mem_gather.mpr ⟨u, by simpa [LockedThread.loose, hf] using ho⟩)
        · refine .inl ⟨(f.pointer, held u), List.mem_cons_of_mem _ (mem_gather.mpr ⟨u, ?_⟩), ho⟩
          simp [LockedThread.lists, hf]
      · cases ho

omit [DecidableEq T] in
theorem seenOk_seen (hr : Represents lawful s b l held) {o : O} (ho : b.seen o = true) :
    s.ready o = true ∧ o ∈ s.heap.owned := by
  simp only [SharedBag.seen, Bool.and_eq_true, decide_eq_true_iff] at ho
  exact ⟨hr.ready ▸ ho.1, hr.pending_owned ho.2⟩

/-- A call is made: an operation that it brings is not in the queue yet. -/
theorem follows_call (hr : Represents lawful s b l held) {call : LockedCall O}
    (ht : s.threads t = ⟨none, callbacks⟩) (h : s.begin t call = some s') : Follows lawful s' b := by
  have hb : b.threads t = ⟨none, (b.threads t).callbacks⟩ := by
    have hm := hr.stages t
    rw [ht] at hm
    generalize hst : (b.threads t).stage = stage at hm
    cases hm
    rw [← hst]
  have hseen : ∀ {heap : Heap O}, (∀ o ∈ s.heap.owned, o ∈ heap.owned) → ∀ u,
      (((b.setThread t ⟨some (.invoked call b.seen), (b.threads t).callbacks⟩).record
        (.called t call)).threads u).SeenOk s.ready heap.owned := by
    intro heap howned u call' seen hu o ho
    suffices hs : s.ready o = true ∧ o ∈ s.heap.owned from ⟨hs.1, howned o hs.2⟩
    by_cases he : u = t
    · subst he
      simp only [SharedBag.record, SharedBag.setThread, Function.update_self, Option.some.injEq,
        BagStage.invoked.injEq] at hu
      obtain ⟨-, rfl⟩ := hu
      exact seenOk_seen hr ho
    · simp only [SharedBag.record, SharedBag.setThread, Function.update_of_ne he] at hu
      exact hr.seen u call' seen hu o ho
  suffices hrep : Represents lawful s' ((b.setThread t
      ⟨some (.invoked call b.seen), (b.threads t).callbacks⟩).record (.called t call)) l held from
    ⟨_, l, held, .inr (.B_Call hb), hrep⟩
  have hc := hr.isolate t
  -- a call that brings no operation
  have hrelabel : ∀ f : LockedFrame L.Spin O, f = .locking call L.enter → f.loose = [] →
      Represents lawful ((s.setThread t ⟨some f, (s.threads t).callbacks⟩).record (.called t call))
        ((b.setThread t ⟨some (.invoked call b.seen), (b.threads t).callbacks⟩).record (.called t call))
        l held := by
    rintro _ rfl hloose
    refine hr.relabel (t := t) rfl rfl ?_ rfl rfl rfl ?_ ?_ ?_ .locking rfl rfl (hseen fun _ h => h) ?_
    · exact guards_same (s := s) (t := t) hr.guards rfl (by rw [ht]; rfl)
    · rw [ht]; rfl
    · rw [ht]; exact hloose
    · rw [ht]; rfl
    · simp [SharedBag.record, SharedBag.setThread, record, setThread, hr.log]
  cases call with
  | push op =>
      simp only [begin] at h
      split at h
      · rename_i hnot
        cases h
        rw [← Function.update_eq_self t held]
        refine hr.apart (t := t) rfl rfl ?_ rfl rfl rfl ?_ .locking (hr.counts t) ?_ rfl rfl
          (hseen fun o ho => List.mem_cons_of_mem _ ho) ?_
        · exact guards_same (s := s) (t := t) hr.guards rfl (by rw [ht]; rfl)
        · have hc' := hc.acquire hnot
          rw [ht] at hc' ⊢
          exact hc'
        · rw [ht]
          rfl
        · simp [SharedBag.record, SharedBag.setThread, record, setThread, hr.log]
      · cases h
  | poll => cases h; exact hrelabel _ rfl rfl
  | empty => cases h; exact hrelabel _ rfl rfl

theorem succeeds_callbackReturn (hr : Represents lawful s b l held) {count : Nat}
    (ht : s.threads t = ⟨none, (completed, count) :: callbacks⟩) : ∃ b' l' held', b.Step b' ∧
      Represents lawful (s.setThread t ⟨some (.notifying completed (count + 1)), callbacks⟩) b' l' held' ∧
      fuel lawful (s.setThread t ⟨some (.notifying completed (count + 1)), callbacks⟩) b' l' held' t <
        fuel lawful s b l held t := by
  have hm := hr.stages t
  have hcounts := hr.counts t
  have hc := hr.isolate t
  obtain ⟨stage, bcallbacks, hb⟩ : ∃ stage bcallbacks, b.threads t = ⟨stage, bcallbacks⟩ := ⟨_, _, rfl⟩
  rw [ht, hb] at hm hcounts hc
  cases hm
  cases hcounts with
  | @cons _ a _ bcallbacks hcount hcounts =>
      obtain ⟨todo, total⟩ := a
      have hcount' : total = count + 1 + todo.length := by simp only at hcount; omega
      subst hcount'
      have hheld : held t = [] := hc.swap.empty_iff.mpr rfl
      refine ⟨_, l, Function.update held t todo, .B_CallbackReturn hb, ?_, ?_⟩
      on_goal 2 =>
        simp only [fuel, setThread, SharedBag.setThread, BagThread.fuel, Function.update_self, ht, hb,
          Option.elim_some, Option.elim_none, LockedFrame.fuel, List.map_cons, List.sum_cons]
        omega
      refine hr.apart (t := t) rfl rfl ?_ rfl rfl rfl ?_ .notifying hcounts ?_ rfl rfl ?_ hr.log
      · exact guards_same (s := s) (t := t) hr.guards rfl (by rw [ht]; rfl)
      · rw [hheld] at hc
        exact hc.swap.drop
      · rw [ht]
        rfl
      · exact Represents.seenOk_update (t := t) hr.seen rfl (by rintro _ _ ⟨⟩)

omit [DecidableEq T] [DecidableEq O] in
/-- The device changes the state of an operation; it takes a completion back only from an operation that
is not in the queue. -/
theorem Represents.device (hr : Represents lawful s b l held) {r : O → Bool} {e : LockedEvent T O}
    (hready : ∀ o ∈ s.heap.owned, s.ready o = true → r o = true) :
    Represents lawful ({ s with ready := r }.record e) ({ b with ready := r }.record e) l held where
  guards := hr.guards
  chains := hr.chains
  stages u := by
    refine (hr.stages u).of_ready (fun o ho => hready o ?_) (fun o ho => hready o ?_)
      fun o ho => hready o ?_
    · exact hr.chains.mem_owned.mpr (.inl ⟨_, List.mem_cons_self, ho⟩)
    · refine hr.chains.mem_owned.mpr (.inl ⟨((s.threads u).frame.elim none LockedFrame.pointer, held u),
        List.mem_cons_of_mem _ (mem_gather.mpr ⟨u, ?_⟩), ho⟩)
      exact List.mem_cons_self
    · exact hr.chains.mem_owned.mpr (.inr (mem_gather.mpr ⟨u, ho⟩))
  counts := hr.counts
  pending := hr.pending
  ready := rfl
  seen u call seen hu o ho := by
    have hs := hr.seen u call seen hu o ho
    exact ⟨hready o hs.2 hs.1, hs.2⟩
  log := by simp [SharedBag.record, record, hr.log]

theorem follows_step (hr : Represents lawful s b l held) {a : LockedAction T O} (h : s.step a = some s') :
    Follows lawful s' b := by
  cases a with
  | call t call =>
      simp only [step] at h
      split at h
      · have ht : s.threads t = ⟨none, (s.threads t).callbacks⟩ := by rw [← ‹_ = none›]
        exact follows_call hr ht h
      · cases h
  | advance t =>
      simp only [step, Option.bind_eq_bind, Option.bind_eq_some_iff] at h
      obtain ⟨f, hf, ⟨s₁, next⟩, ha, he⟩ := h
      obtain ⟨s₂, next', b', l', held', ha', hstep, hr', -⟩ := succeeds hr hf
      rw [ha] at ha'
      cases ha'
      cases he
      exact ⟨b', l', held', hstep, hr'⟩
  | callbackReturn t =>
      simp only [step] at h
      split at h
      · cases h
        obtain ⟨b', l', held', hstep, hr', -⟩ := succeeds_callbackReturn hr ‹_›
        exact ⟨b', l', held', .inr hstep, hr'⟩
      · cases h
  | finish op =>
      cases h
      have hr' := hr.device (e := .finished op) (r := Function.update s.ready op true) fun o _ ho => by
        by_cases he : o = op <;> simp [he, ho]
      rw [← hr.ready] at hr' ⊢
      exact ⟨_, l, held, .inr .B_Finish, hr'⟩
  | reuse op =>
      simp only [step] at h
      split at h
      · rename_i hnot
        cases h
        have hr' := hr.device (e := .reused op) (r := Function.update s.ready op false) fun o hown ho => by
          have he : o ≠ op := fun he => hnot (he ▸ hown)
          simp [he, ho]
        rw [← hr.ready] at hr' ⊢
        exact ⟨_, l, held, .inr (.B_Reuse fun ho => hnot (hr.pending_owned ho)), hr'⟩
      · cases h

omit [DecidableEq T] [DecidableEq O] in
theorem represents_init : Represents (T := T) (O := O) lawful init SharedBag.init [] fun _ => [] where
  guards := Guards.init.congr fun u => by simp [Inside, init, LockedThread.inside]
  chains := by
    have hlists : ∀ x ∈ gather fun u : T => ((init : LockedProtocol L T O).threads u).lists
        ((SharedBag.init : SharedBag T O).threads u) [], x = (none, []) := by
      intro x hx
      obtain ⟨u, hu⟩ := mem_gather.mp hx
      simpa [init, SharedBag.init, LockedThread.lists] using hu
    have hloose : gather (fun u : T => ((init : LockedProtocol L T O).threads u).loose) = [] :=
      gather_eq_nil fun u => rfl
    rw [hloose]
    refine ⟨?_, List.nodup_nil, ?_⟩
    · rintro x (_ | ⟨_, hx⟩)
      · exact Chain.nil
      · rw [hlists x hx]
        exact Chain.nil
    · rw [List.append_nil, List.flatMap_cons, List.nil_append]
      have hnil : (gather fun u : T => ((init : LockedProtocol L T O).threads u).lists
          ((SharedBag.init : SharedBag T O).threads u) []).flatMap Prod.snd = [] :=
        List.flatMap_eq_nil_iff.mpr fun x hx => by rw [hlists x hx]
      rw [hnil]
      exact .refl _
  stages u := .idle
  counts u := .nil
  pending := by
    rw [gather_eq_nil (f := fun u : T => ((init : LockedProtocol L T O).threads u).extra []) fun u => rfl]
    rfl
  ready := rfl
  seen u call seen hu := by cases hu
  log := rfl

/-- Every run is a run of the bag. -/
theorem run_represents (lawful : L.Lawful) {as : List (LockedAction T O)}
    (h : (machine L T O).run as = some s) :
    ∃ b l held, b.Reachable ∧ Represents lawful s b l held := by
  refine Machine.run_invariant
    (I := fun s : LockedProtocol L T O => ∃ b l held, b.Reachable ∧ Represents lawful s b l held)
    ⟨_, _, _, .init, represents_init⟩ ?_ h
  rintro s a s' ⟨b, l, held, hreach, hr⟩ hs
  obtain ⟨b', l', held', hstep, hr'⟩ := follows_step hr hs
  refine ⟨b', l', held', ?_, hr'⟩
  rcases hstep with rfl | hstep
  · exact hreach
  · exact .step hreach hstep

end Cases

end LockedProtocol

end DsaStdexec.Queue

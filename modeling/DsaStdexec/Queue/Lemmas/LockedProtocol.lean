import DsaStdexec.Lib.Gather
import DsaStdexec.Queue.LockedProtocol

/-!
# The locked queue represents a bag

The operations are divided among the list at `head_` and the calls of `poll`; only the thread with the
lock can be in the middle of a change of the list. The effect of a call is the write of `head_` in `push`,
the end of the loop with the lock in `poll`, and the read of `head_` in `empty`.
-/

namespace DsaStdexec.Queue

open DsaStdexec.Lib

/-! ## What a call has of the operations -/

namespace LockedFrame

variable {S O : Type}

/-- The first one of the completed operations that the call has taken. -/
def pointer : LockedFrame S O → Option O
  | .checking _ _ completed | .detaching _ _ completed | .storing _ _ _ completed
  | .chaining _ _ completed | .reloading _ completed | .passing _ completed
  | .unlocking (.swept completed) | .notifying completed _ | .invoking _ completed _ => completed
  | _ => none

/-- The operation that the call has outside of lists. -/
def loose : LockedFrame S O → List O
  | .locking (.push op) _ | .loading op | .linking op _ | .publishing op | .chaining _ op _
  | .invoking op _ _ => [op]
  | _ => []

/-- `poll` is in its first loop. -/
def walking : LockedFrame S O → Bool
  | .checking _ _ _ | .detaching _ _ _ | .storing _ _ _ _ | .chaining _ _ _ | .reloading _ _
  | .passing _ _ => true
  | _ => false

/-- What the call has taken out of the list and not yet out of the bag. -/
def extra (f : LockedFrame S O) (held : List O) : List O := if f.walking then f.loose ++ held else []

theorem inside_of_walking {f : LockedFrame S O} (h : f.walking = true) : f.inside = true := by
  cases f <;> first | rfl | cases h

theorem extra_of_outside {f : LockedFrame S O} (h : f.inside = false) (held : List O) :
    f.extra held = [] := by
  have hw : f.walking = false := by
    rw [Bool.eq_false_iff]
    intro hw
    rw [inside_of_walking hw] at h
    cases h
  simp [extra, hw]

theorem inside_entered (call : LockedCall O) : (entered call : LockedFrame S O).inside = true := by
  cases call <;> rfl

end LockedFrame

namespace LockedThread

variable {S O : Type}

def inside (th : LockedThread S O) : Bool := th.frame.elim false LockedFrame.inside

def loose (th : LockedThread S O) : List O := th.frame.elim [] LockedFrame.loose

def extra (th : LockedThread S O) (held : List O) : List O := th.frame.elim [] (·.extra held)

def lists (th : LockedThread S O) (bt : BagThread O) (held : List O) : List (Option O × List O) :=
  (th.frame.elim none LockedFrame.pointer, held) ::
    List.zipWith (fun c a => (c.1, a.1)) th.callbacks bt.callbacks

theorem extra_of_outside {th : LockedThread S O} (h : th.inside = false) (held : List O) :
    th.extra held = [] := by
  rcases hf : th.frame with _ | f
  · simp [extra, hf]
  · have hout : f.inside = false := by simpa [inside, hf] using h
    simpa [extra, hf] using LockedFrame.extra_of_outside hout held

end LockedThread

/-! ## The relation -/

section Relation

variable {S O : Type}

/-- `poll` has walked past `front` and taken `held`. -/
structure Walked (ready seen : O → Bool) (front held : List O) : Prop where
  unseen : ∀ o ∈ front, seen o = false
  taken : ∀ o ∈ held, ready o = true

/-- Where a call is in the code and in the bag. `l` is the list at `head`, and `held` the one that the call
has taken. -/
inductive Matches (next : O → Option O) (head : Option O) (ready : O → Bool) (l held : List O) :
    Option (LockedFrame S O) → Option (BagStage O) → Prop where
  | idle : Matches next head ready l held none none
  | locking {call spin seen} :
      Matches next head ready l held (some (.locking call spin)) (some (.invoked call seen))
  | loading {op seen} :
      Matches next head ready l held (some (.loading op)) (some (.invoked (.push op) seen))
  | linking {op seen} :
      Matches next head ready l held (some (.linking op head)) (some (.invoked (.push op) seen))
  | publishing {op seen} (hn : next op = head) :
      Matches next head ready l held (some (.publishing op)) (some (.invoked (.push op) seen))
  | starting {seen} : Matches next head ready l held (some .starting) (some (.invoked .poll seen))
  | checking {front rest completed seen} (hl : l = front ++ rest) (hw : Walked ready seen front held) :
      Matches next head ready l held (some (.checking (linkAfter front) rest.head? completed))
        (some (.invoked .poll seen))
  | detaching {front curr rest completed seen} (hl : l = front ++ curr :: rest)
      (hw : Walked ready seen front held) (hc : ready curr = true) :
      Matches next head ready l held (some (.detaching (linkAfter front) curr completed))
        (some (.invoked .poll seen))
  | storing {front curr rest completed seen} (hl : l = front ++ curr :: rest)
      (hw : Walked ready seen front held) (hc : ready curr = true) :
      Matches next head ready l held
        (some (.storing (linkAfter front) curr (next curr) completed)) (some (.invoked .poll seen))
  | chaining {front curr rest completed seen} (hl : l = front ++ rest)
      (hw : Walked ready seen front held) (hc : ready curr = true) :
      Matches next head ready l held (some (.chaining (linkAfter front) curr completed))
        (some (.invoked .poll seen))
  | reloading {front rest completed seen} (hl : l = front ++ rest) (hw : Walked ready seen front held) :
      Matches next head ready l held (some (.reloading (linkAfter front) completed))
        (some (.invoked .poll seen))
  | passing {front curr rest completed seen} (hl : l = front ++ curr :: rest)
      (hw : Walked ready seen front held) (hc : seen curr = false) :
      Matches next head ready l held (some (.passing curr completed)) (some (.invoked .poll seen))
  | testing {seen} : Matches next head ready l held (some .testing) (some (.invoked .empty seen))
  | pushed : Matches next head ready l held (some (.unlocking .pushed)) (some (.done .pushed))
  | swept {completed} :
      Matches next head ready l held (some (.unlocking (.swept completed)))
        (some (.notifying held held.length))
  | tested {result} :
      Matches next head ready l held (some (.unlocking (.tested result))) (some (.done (.tested result)))
  | notifying {completed count} :
      Matches next head ready l held (some (.notifying completed count))
        (some (.notifying held (count + held.length)))
  | invoking {op completed count} :
      Matches next head ready l held (some (.invoking op completed count))
        (some (.notifying (op :: held) (count + (held.length + 1))))

/-- Without the lock a call does not rely on the list. -/
theorem Matches.of_outside {next next' : O → Option O} {head head' : Option O} {ready : O → Bool}
    {l l' held : List O} {f : Option (LockedFrame S O)} {g : Option (BagStage O)}
    (hm : Matches next head ready l held f g) (h : f.elim false LockedFrame.inside = false) :
    Matches next' head' ready l' held f g := by
  cases hm with
  | idle => exact .idle
  | locking => exact .locking
  | notifying => exact .notifying
  | invoking => exact .invoking
  | _ => cases h

theorem Walked.mono {ready ready' seen seen' : O → Bool} {front held : List O}
    (h : Walked ready seen front held) (hr : ∀ o ∈ held, ready o = true → ready' o = true)
    (hs : ∀ o, seen o = false → seen' o = false) : Walked ready' seen' front held :=
  ⟨fun o ho => hs o (h.unseen o ho), fun o ho => hr o ho (h.taken o ho)⟩

/-- What the device does to operations that the call does not have. -/
theorem Matches.of_ready {next : O → Option O} {head : Option O} {ready ready' : O → Bool}
    {l held : List O} {f : Option (LockedFrame S O)} {g : Option (BagStage O)}
    (hm : Matches next head ready l held f g) (hl : ∀ o ∈ l, ready o = true → ready' o = true)
    (hheld : ∀ o ∈ held, ready o = true → ready' o = true)
    (hloose : ∀ o ∈ f.elim [] LockedFrame.loose, ready o = true → ready' o = true) :
    Matches next head ready' l held f g := by
  have hw : ∀ {seen front}, Walked ready seen front held → Walked ready' seen front held :=
    fun hw => hw.mono hheld fun _ h => h
  cases hm with
  | idle => exact .idle
  | locking => exact .locking
  | loading => exact .loading
  | linking => exact .linking
  | publishing hn => exact .publishing hn
  | starting => exact .starting
  | checking he h => exact .checking he (hw h)
  | detaching he h hc => exact .detaching he (hw h) (hl _ (by simp [he]) hc)
  | storing he h hc => exact .storing he (hw h) (hl _ (by simp [he]) hc)
  | chaining he h hc => exact .chaining he (hw h) (hloose _ (by simp [LockedFrame.loose]) hc)
  | reloading he h => exact .reloading he (hw h)
  | passing he h hc => exact .passing he (hw h) hc
  | testing => exact .testing
  | pushed => exact .pushed
  | swept => exact .swept
  | tested => exact .tested
  | notifying => exact .notifying
  | invoking => exact .invoking

theorem Matches.forget [DecidableEq O] {next : O → Option O} {head : Option O} {ready : O → Bool} {l held : List O}
    {f : Option (LockedFrame S O)} {g : Option (BagStage O)} (hm : Matches next head ready l held f g)
    (op : O) : Matches next head ready l held f (g.map (BagStage.forget op)) := by
  have hs : ∀ {seen : O → Bool} o, seen o = false → Function.update seen op false o = false := by
    intro seen o ho
    by_cases h : o = op <;> simp [h, ho]
  have hw : ∀ {seen front}, Walked ready seen front held →
      Walked ready (Function.update seen op false) front held :=
    fun hw => hw.mono (fun _ _ h => h) hs
  cases hm with
  | idle => exact .idle
  | locking => exact .locking
  | loading => exact .loading
  | linking => exact .linking
  | publishing hn => exact .publishing hn
  | starting => exact .starting
  | checking hl h => exact .checking hl (hw h)
  | detaching hl h hc => exact .detaching hl (hw h) hc
  | storing hl h hc => exact .storing hl (hw h) hc
  | chaining hl h hc => exact .chaining hl (hw h) hc
  | reloading hl h => exact .reloading hl (hw h)
  | passing hl h hc => exact .passing hl (hw h) (hs _ hc)
  | testing => exact .testing
  | pushed => exact .pushed
  | swept => exact .swept
  | tested => exact .tested
  | notifying => exact .notifying
  | invoking => exact .invoking

end Relation

/-- What has been seen is completed and still in the queue. -/
def BagThread.SeenOk {O : Type} (ready : O → Bool) (owned : List O) (bt : BagThread O) : Prop :=
  ∀ call seen, bt.stage = some (.invoked call seen) → ∀ o, seen o = true → ready o = true ∧ o ∈ owned

/-- `poll` is going to return the number of the operations that it has taken. -/
def CountsMatch {O : Type} : List (Option O × Nat) → List (List O × Nat) → Prop :=
  List.Forall₂ fun c a => a.2 = c.2 + (a.1.length + 1)

namespace LockedProtocol

variable {L : Lock} {T O : Type}

def Inside (s : LockedProtocol L T O) (t : T) : Prop := (s.threads t).inside = true

structure Represents [Fintype T] (lawful : L.Lawful) (s : LockedProtocol L T O) (b : SharedBag T O) (l : List O)
    (held : T → List O) : Prop where
  guards : Guards lawful s.word s.Inside
  chains : Chains s.heap ((s.head, l) :: gather fun u => (s.threads u).lists (b.threads u) (held u))
    (gather fun u => (s.threads u).loose)
  stages : ∀ u, Matches s.heap.next s.head s.ready l (held u) (s.threads u).frame (b.threads u).stage
  counts : ∀ u, CountsMatch (s.threads u).callbacks (b.threads u).callbacks
  pending : b.pending = (l ++ gather fun u => (s.threads u).extra (held u) : List O)
  ready : b.ready = s.ready
  seen : ∀ u, (b.threads u).SeenOk s.ready s.heap.owned
  log : b.log = s.log

/-! ## Steps of one thread -/

section Steps

variable [DecidableEq T] {lawful : L.Lawful} {s s' : LockedProtocol L T O} {b b' : SharedBag T O}
  {t : T} {th : LockedThread L.Spin O}

theorem inside_update (hth : s'.threads = Function.update s.threads t th) (u : T) :
    s'.Inside u ↔ (u = t ∧ th.inside = true) ∨ (u ≠ t ∧ s.Inside u) := by
  by_cases hu : u = t
  · subst hu; simp [Inside, hth]
  · simp [Inside, hth, hu]

theorem guards_same (hg : Guards lawful s.word s.Inside)
    (hth : s'.threads = Function.update s.threads t th) (hin : th.inside = (s.threads t).inside) :
    Guards lawful s.word s'.Inside := by
  refine hg.congr fun u => ?_
  rw [inside_update hth, hin]
  by_cases hu : u = t
  · subst hu; simp [Inside]
  · simp [hu]

theorem guards_enter (hg : Guards lawful s.word s.Inside) {i : L.Spin}
    (ha : (L.attempt s.word i).2 = none) (hth : s'.threads = Function.update s.threads t th)
    (hin : th.inside = true) : Guards lawful (L.attempt s.word i).1 s'.Inside := by
  refine .enter (t := t) ha fun u => ?_
  rw [inside_update hth]
  simp [hin, hg.nobody_inside ha u]

theorem guards_leave (hg : Guards lawful s.word s.Inside) (ht : s.Inside t)
    (hth : s'.threads = Function.update s.threads t th) (hin : th.inside = false) :
    Guards lawful (L.unlock s.word) s'.Inside := by
  refine hg.leave ht fun u hu => ?_
  rw [inside_update hth, hin] at hu
  simpa using hu

end Steps

variable [DecidableEq T] [Fintype T] {lawful : L.Lawful} {s s' : LockedProtocol L T O}
  {b b' : SharedBag T O} {l l' h : List O} {held : T → List O} {t : T} {f g : LockedFrame L.Spin O}
  {callbacks : List (Option O × Nat)}

namespace Represents

/-- What thread `t` has, and what all others have. -/
theorem isolate (hr : Represents lawful s b l held) (t : T) :
    Chains s.heap ((s.head, l) :: ((s.threads t).lists (b.threads t) (held t) ++
      gatherOthers t fun u => (s.threads u).lists (b.threads u) (held u)))
      ((s.threads t).loose ++ gatherOthers t fun u => (s.threads u).loose) :=
  hr.chains.perm (.cons _ (gather_perm t _)) (gather_perm t _)

/-- A step of thread `t`. -/
theorem update (hr : Represents lawful s b l held) {th : LockedThread L.Spin O} {bt : BagThread O}
    (hth : s'.threads = Function.update s.threads t th)
    (hbt : b'.threads = Function.update b.threads t bt)
    (hguards : Guards lawful s'.word s'.Inside)
    (hchains : Chains s'.heap ((s'.head, l') :: (th.lists bt h ++
      gatherOthers t fun u => (s.threads u).lists (b.threads u) (held u)))
      (th.loose ++ gatherOthers t fun u => (s.threads u).loose))
    (hstage : Matches s'.heap.next s'.head s'.ready l' h th.frame bt.stage)
    (hstages : ∀ u, u ≠ t →
      Matches s'.heap.next s'.head s'.ready l' (held u) (s.threads u).frame (b.threads u).stage)
    (hcounts : CountsMatch th.callbacks bt.callbacks)
    (hpending : b'.pending =
      (l' ++ (th.extra h ++ gatherOthers t fun u => (s.threads u).extra (held u)) : List O))
    (hready : b'.ready = s'.ready) (hseen : ∀ u, (b'.threads u).SeenOk s'.ready s'.heap.owned)
    (hlog : b'.log = s'.log) :
    Represents lawful s' b' l' (Function.update held t h) := by
  have hself : s'.threads t = th ∧ b'.threads t = bt ∧ Function.update held t h t = h := by
    simp [hth, hbt]
  have hother : ∀ u, u ≠ t → s'.threads u = s.threads u ∧ b'.threads u = b.threads u ∧
      Function.update held t h u = held u := by
    intro u hu
    simp [hth, hbt, hu]
  have hlists : gatherOthers t (fun u => (s'.threads u).lists (b'.threads u) (Function.update held t h u)) =
      gatherOthers t fun u => (s.threads u).lists (b.threads u) (held u) :=
    gatherOthers_congr fun u hu => by rw [(hother u hu).1, (hother u hu).2.1, (hother u hu).2.2]
  have hloose : gatherOthers t (fun u => (s'.threads u).loose) =
      gatherOthers t fun u => (s.threads u).loose :=
    gatherOthers_congr fun u hu => by rw [(hother u hu).1]
  have hextra : gatherOthers t (fun u => (s'.threads u).extra (Function.update held t h u)) =
      gatherOthers t fun u => (s.threads u).extra (held u) :=
    gatherOthers_congr fun u hu => by rw [(hother u hu).1, (hother u hu).2.2]
  refine ⟨hguards, ?_, ?_, ?_, ?_, hready, hseen, hlog⟩
  · refine hchains.perm (.cons _ (.trans ?_ (gather_perm t _).symm)) (.trans ?_ (gather_perm t _).symm)
    · rw [hlists, hself.1, hself.2.1, hself.2.2]
    · rw [hloose, hself.1]
  · intro u
    by_cases hu : u = t
    · subst hu
      rw [hself.1, hself.2.1, hself.2.2]
      exact hstage
    · rw [(hother u hu).1, (hother u hu).2.1, (hother u hu).2.2]
      exact hstages u hu
  · intro u
    by_cases hu : u = t
    · subst hu
      rw [hself.1, hself.2.1]
      exact hcounts
    · rw [(hother u hu).1, (hother u hu).2.1]
      exact hr.counts u
  · rw [hpending]
    refine Multiset.coe_eq_coe.mpr (.append_left _ (.trans ?_ (gather_perm t _).symm))
    rw [hextra, hself.1, hself.2.2]

variable (s b held t) in
/-- The lists that the call on thread `t` has nothing to do with. -/
noncomputable def restLists : List (Option O × List O) :=
  List.zipWith (fun c a => (c.1, a.1)) (s.threads t).callbacks (b.threads t).callbacks ++
    gatherOthers t fun u => (s.threads u).lists (b.threads u) (held u)

variable (s t) in
noncomputable def restLoose : List O := gatherOthers t fun u => (s.threads u).loose

theorem isolate_frame (hr : Represents lawful s b l held) (ht : s.threads t = ⟨some f, callbacks⟩) :
    Chains s.heap ((s.head, l) :: (f.pointer, held t) :: restLists s b held t)
      (f.loose ++ restLoose s t) := by
  simpa [LockedThread.lists, LockedThread.loose, restLists, restLoose, ht] using hr.isolate t

omit [DecidableEq T] in
theorem others_outside (hr : Represents lawful s b l held) (ht : s.threads t = ⟨some f, callbacks⟩)
    (hin : f.inside = true) {u : T} (hu : u ≠ t) : (s.threads u).inside = false := by
  rw [Bool.eq_false_iff]
  intro h
  exact hu (hr.guards.unique u t h (by simpa [Inside, LockedThread.inside, ht] using hin))

theorem others_extra (hr : Represents lawful s b l held) (ht : s.threads t = ⟨some f, callbacks⟩)
    (hin : f.inside = true) : gatherOthers t (fun u => (s.threads u).extra (held u)) = [] :=
  gatherOthers_eq_nil fun _ hu => LockedThread.extra_of_outside (hr.others_outside ht hin hu) _

theorem pending_of_inside (hr : Represents lawful s b l held)
    (ht : s.threads t = ⟨some f, callbacks⟩) (hin : f.inside = true) :
    b.pending = (l ++ f.extra (held t) : List O) := by
  rw [hr.pending]
  refine Multiset.coe_eq_coe.mpr (.append_left _ ((gather_perm t _).trans ?_))
  rw [hr.others_extra ht hin, List.append_nil]
  simp [LockedThread.extra, ht]

omit [Fintype T] in
theorem seenOk_update {ready : O → Bool} {owned : List O} {bt : BagThread O}
    (hseen : ∀ u, (b.threads u).SeenOk ready owned)
    (hbt : b'.threads = Function.update b.threads t bt)
    (hst : ∀ call seen, bt.stage = some (.invoked call seen) → (b.threads t).stage = bt.stage) (u : T) :
    (b'.threads u).SeenOk ready owned := by
  intro call seen hu
  by_cases he : u = t
  · subst he
    rw [hbt, Function.update_self] at hu
    exact hseen u call seen ((hst call seen hu).trans hu)
  · rw [hbt, Function.update_of_ne he] at hu
    exact hseen u call seen hu

/-- An access with the lock. The call may take effect in it. -/
theorem within (hr : Represents lawful s b l held) (ht : s.threads t = ⟨some f, callbacks⟩)
    (hin : f.inside = true) (hin' : g.inside = true) {heap : Heap O} {head : Option O}
    {stage : BagStage O} (howned : heap.owned = s.heap.owned)
    (hchains : Chains heap ((head, l') :: (g.pointer, h) :: restLists s b held t)
      (g.loose ++ restLoose s t))
    (hstage : Matches heap.next head s.ready l' h (some g) (some stage))
    (hseen : ∀ call seen, stage = .invoked call seen → (b.threads t).stage = some stage) :
    Represents lawful ({ s with heap := heap, head := head }.setThread t ⟨some g, callbacks⟩)
      ({ b with pending := (l' ++ g.extra h : List O) }.setThread t
        ⟨some stage, (b.threads t).callbacks⟩) l' (Function.update held t h) := by
  refine hr.update (t := t) rfl rfl ?_ ?_ hstage ?_ ?_ ?_ hr.ready ?_ hr.log
  · exact guards_same (s := s) (t := t) hr.guards rfl (by simp [LockedThread.inside, ht, hin, hin'])
  · simpa [LockedThread.lists, LockedThread.loose, restLists, restLoose, ht, setThread] using hchains
  · exact fun u hu => (hr.stages u).of_outside (hr.others_outside ht hin hu)
  · have := hr.counts t
    rwa [ht] at this
  · rw [hr.others_extra ht hin, List.append_nil]
    rfl
  · have hseen' : ∀ u, (b.threads u).SeenOk s.ready heap.owned := howned ▸ hr.seen
    exact seenOk_update (b := b) (t := t) hseen' rfl fun call seen hs => by
      cases hs
      exact hseen call seen rfl

/-- The same when the bag does not change. -/
theorem within_stutter (hr : Represents lawful s b l held) (ht : s.threads t = ⟨some f, callbacks⟩)
    (hin : f.inside = true) (hin' : g.inside = true) {heap : Heap O} {head : Option O}
    {stage : BagStage O} (hstg : (b.threads t).stage = some stage) (howned : heap.owned = s.heap.owned)
    (hchains : Chains heap ((head, l') :: (g.pointer, h) :: restLists s b held t)
      (g.loose ++ restLoose s t))
    (hstage : Matches heap.next head s.ready l' h (some g) (some stage))
    (hperm : (l' ++ g.extra h).Perm (l ++ f.extra (held t))) :
    Represents lawful ({ s with heap := heap, head := head }.setThread t ⟨some g, callbacks⟩) b l'
      (Function.update held t h) := by
  have hsame : ({ b with pending := (l' ++ g.extra h : List O) } : SharedBag T O).setThread t
      ⟨some stage, (b.threads t).callbacks⟩ = b := by
    have hp : ((l' ++ g.extra h : List O) : Multiset O) = b.pending := by
      rw [hr.pending_of_inside ht hin]
      exact Multiset.coe_eq_coe.mpr hperm
    have hthread : (⟨some stage, (b.threads t).callbacks⟩ : BagThread O) = b.threads t := by
      rw [← hstg]
    simp [SharedBag.setThread, hp, hthread]
  have := hr.within ht hin hin' howned hchains hstage fun _ _ _ => hstg
  rwa [hsame] at this

/-- A step that does not change the list. -/
theorem apart (hr : Represents lawful s b l held) {th : LockedThread L.Spin O} {bt : BagThread O}
    (hth : s'.threads = Function.update s.threads t th)
    (hbt : b'.threads = Function.update b.threads t bt) (hguards : Guards lawful s'.word s'.Inside)
    (hnext : s'.heap.next = s.heap.next) (hhead : s'.head = s.head) (hready : s'.ready = s.ready)
    (hchains : Chains s'.heap ((s.head, l) :: (th.lists bt h ++
      gatherOthers t fun u => (s.threads u).lists (b.threads u) (held u)))
      (th.loose ++ gatherOthers t fun u => (s.threads u).loose))
    (hstage : Matches s.heap.next s.head s.ready l h th.frame bt.stage)
    (hcounts : CountsMatch th.callbacks bt.callbacks)
    (hextra : th.extra h = (s.threads t).extra (held t)) (hpending : b'.pending = b.pending)
    (hbready : b'.ready = b.ready) (hseen : ∀ u, (b'.threads u).SeenOk s.ready s'.heap.owned)
    (hlog : b'.log = s'.log) : Represents lawful s' b' l (Function.update held t h) := by
  refine hr.update hth hbt hguards (hhead ▸ hchains) ?_ ?_ hcounts ?_ ?_ (hready ▸ hseen) hlog
  · rw [hnext, hhead, hready]
    exact hstage
  · intro u _
    rw [hnext, hhead, hready]
    exact hr.stages u
  · rw [hpending, hr.pending, hextra]
    exact Multiset.coe_eq_coe.mpr (.append_left _ (gather_perm t _))
  · rw [hbready, hr.ready, hready]

/-- A step that changes where the call is, and the word of the lock. -/
theorem relabel (hr : Represents lawful s b l held) {fo : Option (LockedFrame L.Spin O)}
    {go : Option (BagStage O)}
    (hth : s'.threads = Function.update s.threads t ⟨fo, (s.threads t).callbacks⟩)
    (hbt : b'.threads = Function.update b.threads t ⟨go, (b.threads t).callbacks⟩)
    (hguards : Guards lawful s'.word s'.Inside) (hheap : s'.heap = s.heap) (hhead : s'.head = s.head)
    (hready : s'.ready = s.ready)
    (hpointer : fo.elim none LockedFrame.pointer = (s.threads t).frame.elim none LockedFrame.pointer)
    (hloose : fo.elim [] LockedFrame.loose = (s.threads t).loose)
    (hextra : fo.elim [] (·.extra (held t)) = (s.threads t).extra (held t))
    (hstage : Matches s.heap.next s.head s.ready l (held t) fo go) (hpending : b'.pending = b.pending)
    (hbready : b'.ready = b.ready) (hseen : ∀ u, (b'.threads u).SeenOk s.ready s.heap.owned)
    (hlog : b'.log = s'.log) : Represents lawful s' b' l held := by
  have hr' := hr.apart (h := held t) hth hbt hguards (by rw [hheap]) hhead hready ?_ hstage (hr.counts t)
    hextra hpending hbready (hheap ▸ hseen) hlog
  · rwa [Function.update_eq_self] at hr'
  · have hc := hr.isolate t
    rw [hheap]
    simpa [LockedThread.lists, LockedThread.loose, hpointer, hloose] using hc

end Represents

end LockedProtocol

end DsaStdexec.Queue

import DsaStdexec.Submitter.Lemmas.RingLayout

/-!
# What the device reads from a descriptor ring

The list of a batch is the part of the log that was stored in it, and the doorbells rung so far
cover the log up to the batch that is being filled.
-/

namespace DsaStdexec.Submitter

open DsaStdexec.Lib

/-- The mirror repeats the ring where a batch can reach it. -/
def Geometry.Sound (g : Geometry) : Prop :=
  g.kind = .mirrored → g.maxBatch = 1 ∨ g.regionSize = g.ringSize * 64

theorem Geometry.regionSize_eq (k : RingKind) (args : InitArgs) :
    (Geometry.ofArgs k args).regionSize = (args.ringSize * 64 + 4095) / 4096 * 4096 := by
  have := args.ringSize_le
  show pageAlignUp (args.ringSize * 64 % 2 ^ 64) = _
  rw [args.bytes_eq, pageAlignUp_eq (by omega)]

/-- With three or more descriptors to a batch the ring fills whole pages. -/
theorem Geometry.region_of_maxBatch {k : RingKind} {args : InitArgs} (h : 2 < args.maxBatch) :
    (Geometry.ofArgs k args).regionSize = (Geometry.ofArgs k args).ringSize * 64 := by
  have hroom := (Geometry.ofArgs k args).room
  obtain ⟨n, hn⟩ := (Geometry.ofArgs k args).ringSize_isPow
  simp only [Geometry.ofArgs, kDefaultNumBatches] at hroom hn
  have h6 : 5 < n := (Nat.pow_lt_pow_iff_right (a := 2) (by decide)).mp (by omega)
  obtain ⟨m, hm⟩ : 64 ∣ args.ringSize := hn ▸ (Nat.pow_dvd_pow 2 (show 6 ≤ n by omega))
  rw [regionSize_eq]
  show _ = args.ringSize * 64
  omega

/-- A small ring leaves so much of its page unused that no batch reaches the mirror. -/
theorem Geometry.slack_of_maxBatch {k : RingKind} {args : InitArgs} (h : args.maxBatch ≤ 2) :
    (Geometry.ofArgs k args).ringSize + args.maxBatch ≤ (Geometry.ofArgs k args).regionSize / 64 := by
  have hsize : args.ringSize ≤ 2 ^ 5 :=
    args.ringSize_eq ▸ roundUpPow2_le args.batches_le (by simp only [kDefaultNumBatches]; omega)
  have hroom := (Geometry.ofArgs k args).room
  have hpos := args.maxBatch_pos
  rw [regionSize_eq]
  simp only [Geometry.ofArgs, kDefaultNumBatches] at hroom ⊢
  omega

namespace RingSubmitter

variable {D : Type*} {g : Geometry} {r : RingSubmitter D} {log : List D}

theorem Shape.count_le (h : Shape g r) {b : Nat} (hb : r.Live b) :
    (r.entry b).count ≤ g.maxBatch := by
  obtain ⟨h1, h2 | ⟨rfl, hf⟩⟩ := hb
  · exact (h.count b h1 h2).2
  · exact h.filling hf

theorem Placed.cell_eq (hg : g.Sound) {p k : Nat} {e : BatchEntry D} (hp : Placed g log p e)
    (hn : e.count ≤ g.maxBatch) (hk : k < e.count) : g.cell (e.start + k) = (p + k) % g.ringSize := by
  have hpos := ringSize_pos g
  have hmod : (e.start + k) % g.ringSize = (p + k) % g.ringSize := by
    rw [hp.start, Nat.mod_add_mod]
  cases hkind : g.kind with
  | ring =>
      have hfit := hp.fits hkind
      rw [RingSubmitter.cell_eq g (by omega), ← hmod, Nat.mod_eq_of_lt (by omega)]
  | mirrored =>
      rcases hg hkind with h1 | hreg
      · obtain rfl : k = 0 := by omega
        have hlt : e.start < g.ringSize := hp.start ▸ Nat.mod_lt _ hpos
        rw [RingSubmitter.cell_eq g (show e.start + 0 < g.ringSize from hlt), ← hmod,
          Nat.mod_eq_of_lt (show e.start + 0 < g.ringSize from hlt)]
      · simp only [Geometry.cell, hkind, hreg]
        rw [Nat.mul_div_cancel _ (by decide), hmod]

theorem Layout.head_le_begins (b : Nat) : r.descHead ≤ r.begins b := base_le_offset

/-- The slot behind entry `k` of the list of a batch holds the descriptor that was stored there. -/
theorem Layout.read (h : Shape g r) (hl : Layout g r log) (hg : g.Sound) {b k : Nat} (hb : r.Live b)
    (hk : k < (r.entry b).count) :
    log[r.begins b + k]? = some (r.descRing (g.cell ((r.entry b).start + k))) := by
  have hend := hl.ends_le hb
  have hhead : r.descHead ≤ r.begins b := head_le_begins b
  rw [(hl.placed b hb).cell_eq hg (h.count_le hb) hk]
  exact hl.stored _ (by omega) (by omega)

theorem Layout.taken_getElem? (hl : Layout g r log) {b k : Nat} (hb : r.Live b)
    (hk : k < (r.entry b).count) : (r.entry b).taken[k]? = log[r.begins b + k]? := by
  rw [(hl.placed b hb).taken, List.getElem?_take_of_lt hk, List.getElem?_drop]

theorem Layout.taken_length (hl : Layout g r log) {b : Nat} (hb : r.Live b) :
    (r.entry b).taken.length = (r.entry b).count := by
  have hend := hl.ends_le hb
  have hlog := hl.log_length
  rw [(hl.placed b hb).taken, List.length_take, List.length_drop]
  omega

theorem Layout.listAt_eq (h : Shape g r) (hl : Layout g r log) (hg : g.Sound) {b : Nat}
    (hb : r.Live b) : r.listAt g (r.entry b).start (r.entry b).count = (r.entry b).taken := by
  apply List.ext_getElem?
  intro k
  by_cases hk : k < (r.entry b).count
  · rw [hl.taken_getElem? hb hk, hl.read h hg hb hk]
    simp [listAt, hk]
  · have hlen := hl.taken_length hb
    rw [List.getElem?_eq_none (by simp [listAt]; omega), List.getElem?_eq_none (by omega)]

theorem Shape.live_of_inFlight (h : Shape g r) {i : Nat} (hi : i < kDefaultNumBatches)
    (hin : (r.batches i).state = .inFlight) : ∃ b, r.Live b ∧ r.entry b = r.batches i := by
  obtain ⟨b, h1, h2, hb⟩ := (h.inFlight_iff hi).mp hin
  exact ⟨b, ⟨h1, Or.inl h2⟩, by rw [entry, hb]⟩

/-! ## Doorbells -/

/-- The doorbells rung so far cover the log up to the batch that is being filled. -/
def Rung (r : RingSubmitter D) (log : List D) : Prop :=
  r.direct.portal.flatMap Doorbell.descs = log.take (r.begins r.batchFill)

theorem sealCurrent_portal : (r.sealCurrent g).direct.portal = r.direct.portal ++
    [if r.current.count = 1 then .single (r.descRing (g.cell r.current.start))
      else .batch r.current.count (r.listAt g r.current.start r.current.count)] := by
  unfold sealCurrent submitBatch
  split <;> rfl

theorem sealCurrent_descs (g : Geometry) (r : RingSubmitter D) :
    (r.sealCurrent g).direct.portal.flatMap Doorbell.descs =
      r.direct.portal.flatMap Doorbell.descs ++ r.listAt g r.current.start r.current.count := by
  rw [sealCurrent_portal, List.flatMap_append]
  split
  · rename_i h1
    simp [Doorbell.descs, listAt, h1]
  · simp [Doorbell.descs]

theorem Rung.sealCurrent (h : Shape g r) (hl : Layout g r log) (hg : g.Sound) (hr : Rung r log)
    (hf : r.current.state = .filling) : Rung (r.sealCurrent g) log := by
  have hlist := hl.listAt_eq h hg ⟨h.head_le, Or.inr ⟨rfl, hf⟩⟩
  have htaken := (hl.filling h.head_le hf).taken
  rw [← current_eq] at hlist
  have hbegins : r.begins (r.batchFill + 1) = r.begins r.batchFill + r.current.count :=
    offset_succ h.head_le
  rw [Rung, sealCurrent_descs, sealCurrent_batchFill, h.sealCurrent_begins hf (Nat.le_refl _),
    hbegins, List.take_add, hlist, htaken, hr]

theorem Rung.of_reclaimed {r' : RingSubmitter D} {n : Nat} (h : Shape g r) (hr : Rung r log)
    (hn : Reclaimed r r' n) : Rung r' log := by
  rw [Rung, hn.portal, hn.batchFill, hn.begins h hn.le (Nat.le_refl _)]
  exact hr

theorem Rung.sealAndSubmitCurrent (h : Shape g r) (hl : Layout g r log) (hg : g.Sound)
    (hr : Rung r log) : Rung (r.sealAndSubmitCurrent g) log := by
  rcases sealAndSubmitCurrent_cases g r with he | ⟨hf, hn, he | he⟩
  · rw [he]; exact hr
  · rw [he]; exact hr.sealCurrent h hl hg hf
  · rw [he]
    obtain ⟨n, hn'⟩ := (h.sealCurrent hf hn).reclaimed
    exact (hr.sealCurrent h hl hg hf).of_reclaimed (h.sealCurrent hf hn) hn'

theorem Rung.sealPartial (h : Shape g r) (hl : Layout g r log) (hg : g.Sound) (hr : Rung r log) :
    Rung (r.sealPartial g) log := by
  unfold RingSubmitter.sealPartial
  split
  · exact hr.sealAndSubmitCurrent h hl hg
  · exact hr

theorem Rung.beginBatch (h : Shape g r) (hr : Rung r log) (hc : r.current.state ≠ .inFlight) :
    Rung (r.beginBatch g) log := by
  unfold RingSubmitter.beginBatch
  split
  · have hb := h.setCurrent_begins hc ⟨0, descIndex g r.descTail, 0, .filling, []⟩ (Nat.le_refl _)
    exact hr.trans (congrArg log.take hb.symm)
  · exact hr

theorem Rung.append (h : Shape g r) (hl : Layout g r log) (hg : g.Sound) (hr : Rung r log)
    (hrd : Ready g r) (hw : r.atWrap g = false) (d : D) : Rung (r.append g d) (log ++ [d]) := by
  have hc : r.current.state ≠ .inFlight := by rw [hrd.1]; decide
  have hst : Rung (r.store g d) (log ++ [d]) := by
    have hb : (r.store g d).begins r.batchFill = r.begins r.batchFill :=
      h.setCurrent_begins hc _ (Nat.le_refl _)
    have htail := hl.tail
    have hlog := hl.log_length
    show r.direct.portal.flatMap Doorbell.descs = (log ++ [d]).take ((r.store g d).begins r.batchFill)
    rw [hb, List.take_append_of_le_length (by omega)]
    exact hr
  unfold RingSubmitter.append
  simp only
  split
  · exact hst.sealAndSubmitCurrent (h.store hrd d) (hl.store h hrd hw d) hg
  · exact hst

theorem Rung.staged (h : Shape g r) (hl : Layout g r log) (hr : Rung r log) :
    r.direct.portal.flatMap Doorbell.descs ++
      (if r.current.state = .filling then r.current.taken else []) = log := by
  have htail := hl.tail
  have hlog := hl.log_length
  split
  · rename_i hf
    have hs : r.staged = r.current.count := if_pos hf
    rw [(hl.filling h.head_le hf).taken, hr, ← List.take_add, List.take_of_length_le (by omega)]
  · rename_i hf
    have hs : r.staged = 0 := if_neg hf
    rw [hr, List.append_nil, List.take_of_length_le (by omega)]

end RingSubmitter

/-! ## Runs -/

namespace RingSystem

open RingSubmitter

variable {D : Type*} {g : Geometry}

theorem rung_effect {s s' : RingSystem D} {a : RingAction D} (hg : g.Sound) (h : Tidy g s)
    (hr : Rung s.ring s.log) (hc : Clean g s a) (he : Effect g s a s') : Rung s'.ring s'.log := by
  obtain ⟨hsh, hse, hl⟩ := h
  cases he with
  | E_Submit => exact hr
  | E_Idle _ hring hlog _ => rw [hring, hlog]; exact hr
  | E_Reclaim _ =>
      obtain ⟨n, hn⟩ := hsh.reclaimed
      exact hr.of_reclaimed hsh hn
  | E_PrePoll =>
      obtain ⟨n, hn⟩ := (hsh.sealPartial (g := g)).reclaimed
      exact (hr.sealPartial hsh hl hg).of_reclaimed hsh.sealPartial hn
  | E_Drain _ => exact hr.sealPartial hsh hl hg
  | E_Wrap _ _ _ => exact hr.sealAndSubmitCurrent hsh hl hg
  | E_Append _ hcur hw =>
      obtain ⟨hb, hrd⟩ := hsh.beginBatch hse hcur
      exact (hr.beginBatch hsh hcur).append hb (hl.beginBatch hsh hcur) hg hrd hw _
  | E_AppendAtZero hst hcur =>
      obtain ⟨hfree, hz⟩ := hc _ _ rfl hst hcur
      obtain ⟨hb, hrd⟩ := hsh.beginBatch hse hcur
      simp only [finish, beginBatchAtZero_eq hfree hz]
      exact (hr.beginBatch hsh hcur).append hb (hl.beginBatch hsh hcur) hg hrd (atWrap_of_free hfree) _
  | E_Complete _ _ _ _ =>
      rw [Rung, setStatus_begins]
      exact hr

theorem rung_of_run [Inhabited D] {k : RingKind} {args : InitArgs} {as : List (RingAction D)}
    {s : RingSystem D} (hg : (Geometry.ofArgs k args).Sound)
    (hc : (machine k args).Meets (Clean (Geometry.ofArgs k args)) (init args) as)
    (h : (machine k args).run as = some s) : Rung s.ring s.log := by
  have hinit : Tidy (Geometry.ofArgs k args) (init args : RingSystem D) ∧
      Rung (init args : RingSystem D).ring (init args : RingSystem D).log :=
    ⟨tidy_init args, by simp [Rung, init, RingSubmitter.init, DirectSubmitter.init]⟩
  refine (Machine.runFrom_invariant (I := fun s => Tidy (Geometry.ofArgs k args) s ∧
    Rung s.ring s.log) ?_ hinit hc h).2
  intro s a s' hs hc hst
  exact ⟨hs.1.effect hc (step_effect hst), rung_effect hg hs.1 hs.2 hc (step_effect hst)⟩

end RingSystem

/-! ## What the parts of a step leave alone -/

namespace RingSubmitter

variable {D : Type*} {g : Geometry} {r : RingSubmitter D}

theorem Shape.seal_descTail (h : Shape g r) : (r.sealAndSubmitCurrent g).descTail = r.descTail := by
  rcases sealAndSubmitCurrent_cases g r with he | ⟨hf, hn, he | he⟩
  · rw [he]
  · rw [he, sealCurrent_descTail]
  · rw [he]
    obtain ⟨n, hr⟩ := (h.sealCurrent hf hn).reclaimed
    rw [hr.descTail, sealCurrent_descTail]

theorem Shape.seal_descRing (h : Shape g r) : (r.sealAndSubmitCurrent g).descRing = r.descRing := by
  rcases sealAndSubmitCurrent_cases g r with he | ⟨hf, hn, he | he⟩
  · rw [he]
  · rw [he, sealCurrent_descRing]
  · rw [he]
    obtain ⟨n, hr⟩ := (h.sealCurrent hf hn).reclaimed
    rw [hr.descRing, sealCurrent_descRing]

theorem Shape.sealPartial_descRing (h : Shape g r) : (r.sealPartial g).descRing = r.descRing := by
  unfold RingSubmitter.sealPartial
  split
  · exact h.seal_descRing
  · rfl

theorem Shape.append_descRing (h : Shape g r) (hr : Ready g r) (d : D) :
    (r.append g d).descRing = Function.update r.descRing (g.cell (descIndex g r.descTail)) d := by
  unfold RingSubmitter.append
  simp only
  split
  · exact (h.store hr d).seal_descRing
  · rfl

@[simp] theorem beginBatch_descRing : (r.beginBatch g).descRing = r.descRing := by
  unfold RingSubmitter.beginBatch; split <;> rfl

@[simp] theorem beginBatch_descTail : (r.beginBatch g).descTail = r.descTail := by
  unfold RingSubmitter.beginBatch; split <;> rfl

theorem Shape.reclaim_descRing (h : Shape g r) : r.reclaimCompleted.descRing = r.descRing := by
  obtain ⟨n, hr⟩ := h.reclaimed
  exact hr.descRing

theorem sealPartial_eq (hnf : r.current.state ≠ .filling) : r.sealPartial g = r :=
  if_neg fun h => hnf h.1

theorem Shape.reclaim_not_filling (h : Shape g r) (hnf : r.current.state ≠ .filling) :
    r.reclaimCompleted.current.state ≠ .filling := by
  obtain ⟨n, hr⟩ := h.reclaimed
  exact fun hf => hnf (hr.current_filling h hf).2

theorem Shape.reclaim_descTail (h : Shape g r) : r.reclaimCompleted.descTail = r.descTail := by
  obtain ⟨n, hr⟩ := h.reclaimed
  exact hr.descTail

end RingSubmitter

/-! ## After a drain -/

namespace RingSystem

open RingSubmitter

variable {D : Type*} {g : Geometry}

/-- Nothing is staged and no call has a descriptor to store. -/
structure Quiet (g : Geometry) (s : RingSystem D) : Prop where
  tidy : Tidy g s
  rung : Rung s.ring s.log
  pending : s.pending = []
  staged : s.ring.current.state ≠ .filling

theorem Quiet.not_waiting {s : RingSystem D} (h : Quiet g s) {f : RingFrame D} {d : D}
    {rest : List (RingFrame D)} (hst : s.stack = f :: rest) : f.desc? ≠ some d := by
  intro hd
  have := h.pending
  rw [pending_cons hst hd] at this
  cases this

theorem Quiet.clean {s : RingSystem D} (h : Quiet g s) (a : RingAction D) : Clean g s a :=
  fun d _ _ hst _ => absurd rfl (h.not_waiting (d := d) hst)

theorem Quiet.effect {s s' : RingSystem D} {a : RingAction D} (hg : g.Sound) (h : Quiet g s)
    (ha : a.desc? = none) (he : Effect g s a s') : Quiet g s' := by
  have ht' := h.tidy.effect (h.clean a) he
  have hr' := rung_effect hg h.tidy h.rung (h.clean a) he
  have hp' : s'.pending = s.pending ∧ s'.ring.current.state ≠ .filling := by
    have hsh := h.tidy.shape
    cases he with
    | E_Submit => cases ha
    | E_Idle _ hr _ hk => exact ⟨hk.desc, hr ▸ h.staged⟩
    | E_Reclaim hk => exact ⟨hk.desc, hsh.reclaim_not_filling h.staged⟩
    | E_PrePoll =>
        simp only [RingSubmitter.prePoll, sealPartial_eq h.staged]
        exact ⟨rfl, hsh.reclaim_not_filling h.staged⟩
    | E_Drain hst =>
        simp only [sealPartial_eq h.staged]
        exact ⟨by simp [RingSystem.pending, hst, RingFrame.desc?, List.filterMap_cons], h.staged⟩
    | E_Wrap _ hf _ => exact absurd hf h.staged
    | E_Append hst _ _ => exact absurd rfl (h.not_waiting hst)
    | E_AppendAtZero hst _ => exact absurd rfl (h.not_waiting hst)
    | E_Complete _ _ _ _ => exact ⟨rfl, by rw [setStatus_current_state]; exact h.staged⟩
  exact ⟨ht', hr', hp'.1.trans h.pending, hp'.2⟩

theorem Tidy.drain {s s' : RingSystem D} (hg : g.Sound) (h : Tidy g s) (hr : Rung s.ring s.log)
    (hst : step g s .drain = some s') : Quiet g s' := by
  have hc : Clean g s .drain := fun _ _ ha => by cases ha
  have ht' := h.effect hc (step_effect hst)
  have hr' := rung_effect hg h hr hc (step_effect hst)
  simp only [step] at hst
  split at hst <;> cases hst
  refine ⟨ht', hr', rfl, ?_⟩
  by_cases hf : s.ring.current.state = .filling
  · have hn := (h.settled hf).1
    rw [show s.ring.sealPartial g = s.ring.sealAndSubmitCurrent g from if_pos ⟨hf, hn⟩]
    exact h.shape.seal_not_filling hf hn
  · rw [sealPartial_eq hf]; exact hf

theorem Quiet.all_rung {s : RingSystem D} (h : Quiet g s) :
    s.ring.direct.portal.flatMap Doorbell.descs = s.log := by
  have := h.rung.staged h.tidy.shape h.tidy.layout
  rwa [if_neg h.staged, List.append_nil] at this

end RingSystem

/-! ## Runs that are clean -/

namespace RingSystem

open RingSubmitter

variable {D : Type*} {g : Geometry}

/-- A step writes at most one slot of the ring, the one at the tail, and only when the entry at
`batch_fill_` is not in flight. -/
theorem Formed.descRing {s s' : RingSystem D} {a : RingAction D} (h : Formed g s)
    (he : Effect g s a s') : s'.ring.descRing = s.ring.descRing ∨
      s.ring.current.state ≠ .inFlight ∧ ∃ d, s'.ring.descRing =
        Function.update s.ring.descRing (g.cell (descIndex g s.ring.descTail)) d := by
  obtain ⟨hsh, hse⟩ := h
  cases he with
  | E_Submit => exact Or.inl rfl
  | E_Idle _ hr _ _ => exact Or.inl (by rw [hr])
  | E_Reclaim _ => exact Or.inl hsh.reclaim_descRing
  | E_PrePoll =>
      exact Or.inl ((hsh.sealPartial (g := g)).reclaim_descRing.trans hsh.sealPartial_descRing)
  | E_Drain _ => exact Or.inl hsh.sealPartial_descRing
  | E_Wrap _ _ _ => exact Or.inl hsh.seal_descRing
  | @E_Append d _ _ hc _ =>
      obtain ⟨hb, hr⟩ := hsh.beginBatch hse hc
      have he := hb.append_descRing hr d
      rw [beginBatch_descRing, beginBatch_descTail] at he
      exact Or.inr ⟨hc, d, he⟩
  | @E_AppendAtZero d _ _ hc =>
      obtain ⟨hb, hr⟩ := hsh.beginBatchAtZero hc
      exact Or.inr ⟨hc, d, hb.append_descRing hr d⟩
  | E_Complete _ _ _ _ => exact Or.inl rfl

/-- `submit_descriptor` is called from outside only. -/
def NoReentry (s : RingSystem D) (a : RingAction D) : Prop := ∀ d, a = .submit d → s.stack = []

instance (s : RingSystem D) (a : RingAction D) : Decidable (NoReentry s a) :=
  match a with
  | .submit _ => decidable_of_iff (s.stack.isEmpty = true) (by simp [NoReentry])
  | .prePoll | .drain | .advance | .pollReturn | .complete _ _ => isTrue nofun

/-- With one call at a time nothing is filled while a call waits at the end of the ring. -/
structure Flat (g : Geometry) (s : RingSystem D) : Prop where
  tidy : Tidy g s
  depth : s.stack.length ≤ 1
  wrap : ∀ d p, .waitWrap d p ∈ s.stack →
    s.ring.current.state ≠ .filling ∧ descIndex g s.ring.descTail = 0

theorem Flat.clean {s : RingSystem D} (h : Flat g s) (a : RingAction D) : Clean g s a := by
  intro d rest _ hst hcur
  obtain ⟨hnf, hz⟩ := h.wrap d false (by rw [hst]; exact List.mem_cons_self)
  refine ⟨?_, hz⟩
  cases hs : s.ring.current.state with
  | free => rfl
  | filling => exact absurd hs hnf
  | inFlight => exact absurd hs hcur

theorem flat_init [Inhabited D] (args : InitArgs) : Flat g (init args : RingSystem D) :=
  ⟨tidy_init args, by simp [init], fun d p hm => by simp [init] at hm⟩

theorem Flat.nil_of_cons {s : RingSystem D} (h : Flat g s) {f : RingFrame D}
    {rest : List (RingFrame D)} (hst : s.stack = f :: rest) : rest = [] := by
  have hd := h.depth
  rw [hst, List.length_cons] at hd
  exact List.length_eq_zero_iff.mp (by omega)

theorem Flat.effect {s s' : RingSystem D} {a : RingAction D} (h : Flat g s) (hn : NoReentry s a)
    (he : Effect g s a s') : Flat g s' := by
  have ht' := h.tidy.effect (h.clean a) he
  have hsh := h.tidy.shape
  cases he with
  | E_Submit =>
      rw [hn _ rfl] at ht' ⊢
      exact ⟨ht', by simp, fun d p hm => by simp at hm⟩
  | E_Idle _ hr _ hk =>
      refine ⟨ht', Nat.le_trans hk.1 h.depth, fun d p hm => ?_⟩
      obtain ⟨p', hm'⟩ := hk.2 d p hm
      rw [hr]; exact h.wrap d p' hm'
  | E_Reclaim hk =>
      refine ⟨ht', Nat.le_trans hk.1 h.depth, fun d p hm => ?_⟩
      obtain ⟨p', hm'⟩ := hk.2 d p hm
      obtain ⟨hnf, hz⟩ := h.wrap d p' hm'
      exact ⟨hsh.reclaim_not_filling hnf, hsh.reclaim_descTail.symm ▸ hz⟩
  | E_PrePoll =>
      refine ⟨ht', h.depth, fun d p hm => ?_⟩
      obtain ⟨hnf, hz⟩ := h.wrap d p hm
      simp only [RingSubmitter.prePoll, sealPartial_eq hnf]
      exact ⟨hsh.reclaim_not_filling hnf, hsh.reclaim_descTail.symm ▸ hz⟩
  | E_Drain _ => exact ⟨ht', by simp, fun d p hm => by simp at hm⟩
  | E_Wrap hst hf hw =>
      have hnil := h.nil_of_cons hst
      refine ⟨ht', by simp [hnil], fun d p hm => ⟨?_, ?_⟩⟩
      · exact hsh.seal_not_filling hf (h.tidy.settled hf).1
      · rw [hsh.seal_descTail]
        simp only [RingSubmitter.atWrap, Bool.and_eq_true, decide_eq_true_eq] at hw
        exact hw.2
  | E_Append hst _ _ =>
      have hnil := h.nil_of_cons hst
      exact ⟨ht', by simp [finish, hnil], fun d p hm => by simp [finish, hnil] at hm⟩
  | E_AppendAtZero hst _ =>
      have hnil := h.nil_of_cons hst
      exact ⟨ht', by simp [finish, hnil], fun d p hm => by simp [finish, hnil] at hm⟩
  | E_Complete _ _ _ _ =>
      refine ⟨ht', h.depth, fun d p hm => ?_⟩
      rw [setStatus_current_state]; exact h.wrap d p hm

theorem flat_of_run [Inhabited D] {k : RingKind} {args : InitArgs} {as : List (RingAction D)}
    {s : RingSystem D} (hn : (machine k args).Meets NoReentry (init args) as)
    (h : (machine k args).run as = some s) : Flat (Geometry.ofArgs k args) s :=
  Machine.runFrom_invariant (fun _ _ _ hs hn hst => hs.effect hn (step_effect hst)) (flat_init args)
    hn h

structure Open (g : Geometry) (s : RingSystem D) : Prop where
  tidy : Tidy g s
  wrap : ∀ d p, .waitWrap d p ∉ s.stack

theorem Open.clean {s : RingSystem D} (h : Open g s) (a : RingAction D) : Clean g s a :=
  fun d _ _ hst _ => absurd (hst ▸ List.mem_cons_self) (h.wrap d false)

theorem Open.effect {s s' : RingSystem D} {a : RingAction D} (hg : g.kind = .mirrored) (h : Open g s)
    (he : Effect g s a s') : Open g s' := by
  refine ⟨h.tidy.effect (h.clean a) he, ?_⟩
  cases he with
  | E_Submit => intro d p hm; exact h.wrap d p (by simpa using hm)
  | E_Idle _ _ _ hk => intro d p hm; obtain ⟨p', hm'⟩ := hk.2 d p hm; exact h.wrap d p' hm'
  | E_Reclaim hk => intro d p hm; obtain ⟨p', hm'⟩ := hk.2 d p hm; exact h.wrap d p' hm'
  | E_PrePoll => exact h.wrap
  | E_Drain _ => intro d p hm; simp at hm
  | E_Wrap _ _ hw => simp [RingSubmitter.atWrap, hg] at hw
  | E_Append hst _ _ => exact fun d p hm => h.wrap d p (hst ▸ List.mem_cons_of_mem _ hm)
  | E_AppendAtZero hst _ => exact absurd (hst ▸ List.mem_cons_self) (h.wrap _ false)
  | E_Complete _ _ _ _ => exact h.wrap

theorem open_init [Inhabited D] (args : InitArgs) : Open g (init args : RingSystem D) :=
  ⟨tidy_init args, fun d p hm => by simp [init] at hm⟩

theorem open_of_run [Inhabited D] {args : InitArgs} {as : List (RingAction D)} {s : RingSystem D}
    (h : (machine .mirrored args).run as = some s) : Open (Geometry.ofArgs .mirrored args) s :=
  Machine.run_invariant (open_init args)
    (fun _ _ _ hs hst => hs.effect rfl (step_effect hst)) h

end RingSystem

end DsaStdexec.Submitter

import DsaStdexec.Submitter.Lemmas.FixedRing
import DsaStdexec.Submitter.Lemmas.RingDelivery
import DsaStdexec.Submitter.Lemmas.Staging

/-!
# BATCH descriptors in batches

The submitters put any descriptor into any batch. What reaches the portal is well formed as long as a
BATCH descriptor has its batch for itself.
-/

namespace DsaStdexec.Submitter

open DsaStdexec.Lib

/-- The BATCH descriptors, and those of them that the device accepts. -/
structure BatchRule (D : Type*) where
  IsBatch : D → Prop
  Accepted : D → Prop

variable {D : Type*} {R : BatchRule D} {n : Nat} {l : List D}

structure Admits (R : BatchRule D) (contents : List D) (d : D) : Prop where
  plain : ∀ x ∈ contents, ¬ R.IsBatch x
  alone : R.IsBatch d → contents = [] ∧ R.Accepted d

/-- A batch that may be sealed: without BATCH descriptors, or an accepted one alone. -/
def Sealable (R : BatchRule D) (l : List D) : Prop :=
  (∀ x ∈ l, ¬ R.IsBatch x) ∨ ∃ d, l = [d] ∧ R.Accepted d

def Doorbell.Proper (R : BatchRule D) (n : Nat) : Doorbell D → Prop
  | .single d => R.IsBatch d → R.Accepted d
  | .batch descCount list => 2 ≤ descCount ∧ descCount ≤ n ∧ ∀ x ∈ list, ¬ R.IsBatch x

theorem sealable_nil : Sealable R [] := Or.inl fun _ h => by cases h

theorem Admits.sealable {d : D} (h : Admits R l d) : Sealable R (l ++ [d]) := by
  by_cases hd : R.IsBatch d
  · obtain ⟨rfl, ha⟩ := h.alone hd
    exact Or.inr ⟨d, rfl, ha⟩
  · left
    intro x hx
    rcases List.mem_append.mp hx with hx | hx
    · exact h.plain x hx
    · cases List.mem_singleton.mp hx
      exact hd

theorem Sealable.accepted (h : Sealable R l) {x : D} (hx : x ∈ l) (hb : R.IsBatch x) :
    R.Accepted x := by
  rcases h with h | ⟨d, rfl, ha⟩
  · exact absurd hb (h x hx)
  · cases List.mem_singleton.mp hx
    exact ha

theorem Sealable.not_isBatch (h : Sealable R l) (hl : l.length ≠ 1) : ∀ x ∈ l, ¬ R.IsBatch x := by
  rcases h with h | ⟨d, rfl, _⟩
  · exact h
  · exact absurd rfl hl

theorem proper_concat {portal : List (Doorbell D)} {b : Doorbell D}
    (h : ∀ c ∈ portal, c.Proper R n) (hb : b.Proper R n) : ∀ c ∈ portal ++ [b], c.Proper R n := by
  intro c hc
  rcases List.mem_append.mp hc with hc | hc
  · exact h c hc
  · cases List.mem_singleton.mp hc
    exact hb

/-! ## `StagingSubmitter` -/

namespace StagingSubmitter

variable {s : StagingSubmitter D}

theorem store_list (d : D) : (s.store d).list = s.list ++ [d] := by
  rw [list, list, ← map_range_update]
  simp [store]

theorem list_length : s.list.length = s.stagedCount := by simp [list]

theorem release_list : s.release.list = s.list := by simp [list]

theorem flushTail_portal : s.flushTail.direct.portal = s.direct.portal ++
    [if s.stagedCount = 1 then .single (s.staged s.activeBuf 0)
      else .batch (s.stagedCount % 2 ^ 32) s.list] := by
  simp only [flushTail, swap, ring, release_stagedCount]
  split
  · simp
  · simp [release_list]

theorem flushTail_proper (hs : Sealable R s.list) (hpos : 0 < s.stagedCount)
    (hle : s.stagedCount ≤ n) (hn : n < 2 ^ 32) (h : ∀ b ∈ s.direct.portal, b.Proper R n) :
    ∀ b ∈ s.flushTail.direct.portal, b.Proper R n := by
  rw [flushTail_portal]
  refine proper_concat h ?_
  split
  · rename_i h1
    exact hs.accepted (by simp [list, h1])
  · rename_i h1
    have hmod : s.stagedCount % 2 ^ 32 = s.stagedCount := Nat.mod_eq_of_lt (by omega)
    rw [hmod]
    exact ⟨by omega, hle, hs.not_isBatch (by rwa [list_length])⟩

end StagingSubmitter

namespace StagingSystem

open StagingSubmitter

variable {s s' : StagingSystem D} {a : StagingAction D}

/-- A BATCH descriptor is staged in an empty buffer, and nothing is staged behind it. -/
def BatchAlone (R : BatchRule D) (s : StagingSystem D) (a : StagingAction D) : Prop :=
  ∀ d, a = .submit d → Admits R s.sub.list d

structure Proper (R : BatchRule D) (n : Nat) (s : StagingSystem D) : Prop where
  swapped : Swapped n s
  staged : Sealable R s.sub.list
  portal : ∀ b ∈ s.sub.direct.portal, b.Proper R n

theorem Proper.effect (h : Proper R n s) (hn : 0 < n) (hlt : n < 2 ^ 32) (ha : BatchAlone R s a)
    (he : Effect n s a s') : Proper R n s' := by
  have hsw := h.swapped.effect hn he
  cases he with
  | E_Submit _ => exact ⟨hsw, store_list (s := s.sub) _ ▸ (ha _ rfl).sealable, h.portal⟩
  | E_Flush _ _ => exact ⟨hsw, h.staged, h.portal⟩
  | E_Wait _ => exact h
  | E_Ring hf _ =>
      refine ⟨hsw, sealable_nil, ?_⟩
      exact flushTail_proper h.staged (h.swapped.flushing hf) h.swapped.count hlt h.portal
  | E_Complete => exact ⟨hsw, h.staged, h.portal⟩

theorem proper_of_run [Inhabited D] {args : InitArgs} {as : List (StagingAction D)}
    (ha : (machine args).Meets (BatchAlone R) (init args) as) (h : (machine args).run as = some s) :
    Proper R args.maxBatch s := by
  have hinit : Proper R args.maxBatch (init args : StagingSystem D) :=
    ⟨swapped_init args, sealable_nil, fun _ h => by cases h⟩
  exact Machine.runFrom_invariant (fun _ _ _ hs ha hst =>
    hs.effect args.maxBatch_pos args.maxBatch_lt ha (step_effect hst)) hinit ha h

end StagingSystem

/-! ## `FixedRingSubmitter` -/

namespace FixedRingSubmitter

variable {r r' : FixedRingSubmitter D}

def contents (r : FixedRingSubmitter D) : List D :=
  if r.current.state = .filling then r.current.list else []

theorem list_length (e : FixedEntry D) : e.list.length = e.count := by simp [FixedEntry.list]

structure Proper (R : BatchRule D) (n : Nat) (r : FixedRingSubmitter D) : Prop where
  staged : Sealable R r.contents
  portal : ∀ b ∈ r.direct.portal, b.Proper R n

theorem contents_of_not_filling (h : r.current.state ≠ .filling) : r.contents = [] := if_neg h

theorem Proper.of_reclaimed (h : Proper R n r) (hr : Reclaimed r r') : Proper R n r' := by
  refine ⟨?_, hr.portal ▸ h.portal⟩
  by_cases hf : r'.current.state = .filling
  · have hstaged := h.staged
    rwa [contents, ← hr.current_filling hf] at hstaged
  · rw [contents_of_not_filling hf]; exact sealable_nil

theorem sealCurrent_portal : r.sealCurrent.direct.portal = r.direct.portal ++
    [if r.current.count = 1 then .single (r.current.descs 0)
      else .batch r.current.count r.current.list] := by
  unfold sealCurrent submitBatch
  split <;> rfl

theorem Proper.sealCurrent (h : Proper R n r) (hsh : Shape r) (hf : r.current.state = .filling)
    (hpos : 0 < r.current.count) (hle : r.current.count ≤ n) : Proper R n r.sealCurrent := by
  refine ⟨?_, ?_⟩
  · rw [contents_of_not_filling (hsh.sealCurrent_not_filling _)]; exact sealable_nil
  · have hs := h.staged
    rw [contents, if_pos hf] at hs
    rw [sealCurrent_portal]
    refine proper_concat h.portal ?_
    split
    · rename_i h1
      exact hs.accepted (by simp [FixedEntry.list, h1])
    · rename_i h1
      exact ⟨by omega, hle, hs.not_isBatch (by rwa [list_length])⟩

theorem Proper.sealAndSubmitCurrent (h : Proper R n r) (hsh : Shape r) (hle : r.current.count ≤ n) :
    Proper R n r.sealAndSubmitCurrent := by
  rcases sealAndSubmitCurrent_cases r with ⟨he, _⟩ | ⟨hf, hpos, he | he⟩
  · rw [he]; exact h
  · rw [he]; exact h.sealCurrent hsh hf hpos hle
  · rw [he]
    exact (h.sealCurrent hsh hf hpos hle).of_reclaimed (hsh.sealCurrent hf).reclaimed

theorem Proper.sealPartial (h : Proper R n r) (hsh : Shape r) (hs : Settled n r) :
    Proper R n r.sealPartial := by
  unfold FixedRingSubmitter.sealPartial
  split
  · rename_i hc
    exact h.sealAndSubmitCurrent hsh (Nat.le_of_lt (hs hc.1).2)
  · exact h

theorem beginBatch_list (hc : r.current.state ≠ .inFlight) : r.beginBatch.current.list = r.contents := by
  unfold beginBatch contents
  cases hst : r.current.state with
  | free => simp [setCurrent_current, FixedEntry.list]
  | filling => simp
  | inFlight => exact absurd hst hc

theorem beginBatch_store_portal (d : D) : (r.beginBatch.store d).direct.portal = r.direct.portal := by
  unfold beginBatch store; split <;> rfl

/-- The descriptor is staged behind the ones that were. -/
theorem Shape.store_contents (h : Shape r) (hs : Settled n r) (hn : 0 < n) (hlt : n < 2 ^ 32)
    (hc : r.current.state ≠ .inFlight) (d : D) : (r.beginBatch.store d).contents = r.contents ++ [d] := by
  obtain ⟨_, hf⟩ := h.beginBatch hc
  have hcur := store_current r.beginBatch d (by have := hs.beginBatch_count hn hf; omega)
  rw [contents, if_pos (by rw [hcur]; exact hf), hcur, ← beginBatch_list hc]
  exact map_range_update _ _ d

theorem Proper.append (h : Proper R n r) (hsh : Shape r) (hs : Settled n r) (hn : 0 < n)
    (hlt : n < 2 ^ 32) (hc : r.current.state ≠ .inFlight) {d : D} (ha : Admits R r.contents d) :
    Proper R n (r.append n d) := by
  obtain ⟨hb, hf⟩ := hsh.beginBatch hc
  have hcount := hs.beginBatch_count hn hf
  have hcur := store_current r.beginBatch d (by omega)
  have hst := hb.store hf d
  have hp : Proper R n (r.beginBatch.store d) := by
    refine ⟨?_, ?_⟩
    · rw [hsh.store_contents hs hn hlt hc]; exact ha.sealable
    · rw [beginBatch_store_portal]; exact h.portal
  unfold FixedRingSubmitter.append
  split
  · exact hp.sealAndSubmitCurrent hst (by rw [hcur]; exact hcount)
  · exact hp

end FixedRingSubmitter

namespace FixedSystem

open FixedRingSubmitter

variable {s s' : FixedSystem D} {a : FixedAction D}

/-- A call that is about to store a BATCH descriptor finds an empty batch, and no call finds one. -/
def BatchAlone (R : BatchRule D) (s : FixedSystem D) (_ : FixedAction D) : Prop :=
  ∀ d, s.call = some (.waitSlot d) → s.ring.current.state ≠ .inFlight → Admits R s.ring.contents d

theorem proper_effect (hf : Formed n s) (h : Proper R n s.ring) (hn : 0 < n) (hlt : n < 2 ^ 32)
    (ha : BatchAlone R s a) (he : Effect n s s') : Proper R n s'.ring := by
  obtain ⟨hsh, hse, _⟩ := hf
  cases he with
  | E_Idle hr _ => rw [hr]; exact h
  | E_Reclaim => exact h.of_reclaimed hsh.reclaimed
  | E_PrePoll _ => exact (h.sealPartial hsh hse).of_reclaimed hsh.sealPartial.reclaimed
  | E_Drain => exact h.sealPartial hsh hse
  | E_Append hw hc => exact h.append hsh hse hn hlt hc (ha _ hw hc)
  | @E_Complete i status _ =>
      obtain ⟨status', he⟩ := setStatus_entry (r := s.ring) i status
        (RingSubmitter.batchIndex s.ring.batchFill)
      have hcur : (s.ring.setStatus i status).current = { s.ring.current with status := status' } := he
      refine ⟨?_, h.portal⟩
      rw [contents, hcur]
      exact h.staged

theorem proper_of_run [Inhabited D] {args : InitArgs} {as : List (FixedAction D)}
    (ha : (machine args).Meets (BatchAlone R) (init args) as) (h : (machine args).run as = some s) :
    Proper R args.maxBatch s.ring := by
  have hinit : Proper R args.maxBatch (init args : FixedSystem D).ring :=
    ⟨sealable_nil, fun _ h => by cases h⟩
  refine (Machine.runFrom_invariant (I := fun s => Formed args.maxBatch s ∧
    Proper R args.maxBatch s.ring) (fun _ _ _ hs ha hst => ?_) ⟨formed_init args, hinit⟩ ha h).2
  have he := step_effect hst
  exact ⟨hs.1.effect args.maxBatch_pos args.maxBatch_lt he,
    proper_effect hs.1 hs.2 args.maxBatch_pos args.maxBatch_lt ha he⟩

end FixedSystem

/-! ## `RingSubmitter` and `MirroredRingSubmitter` -/

namespace RingSubmitter

variable {g : Geometry} {r r' : RingSubmitter D} {log : List D}

def contents (r : RingSubmitter D) : List D :=
  if r.current.state = .filling then r.current.taken else []

theorem contents_of_not_filling (h : r.current.state ≠ .filling) : r.contents = [] := if_neg h

/-- A batch either reaches the mirror at its beginning or does not reach it. -/
def Spaced (g : Geometry) : Prop :=
  g.regionSize = g.ringSize * 64 ∨ g.ringSize + g.maxBatch ≤ g.regionSize / 64

theorem spaced_ofArgs (k : RingKind) (args : InitArgs) : Spaced (Geometry.ofArgs k args) := by
  rcases Nat.lt_or_ge 2 args.maxBatch with hlt | hge
  · exact Or.inl (Geometry.region_of_maxBatch hlt)
  · exact Or.inr (Geometry.slack_of_maxBatch hge)

/-- The device reads a descriptor of the batch or a place behind the ring. -/
theorem Placed.cell_or (hg : Spaced g) {p k : Nat} {e : BatchEntry D} (hp : Placed g log p e)
    (hn : e.count ≤ g.maxBatch) (hk : k < e.count) :
    g.cell (e.start + k) = (p + k) % g.ringSize ∨ g.ringSize ≤ g.cell (e.start + k) := by
  rcases Nat.lt_or_ge (e.start + k) g.ringSize with hlt | hge
  · left
    rw [RingSubmitter.cell_eq g hlt, ← Nat.mod_eq_of_lt hlt, hp.start, Nat.mod_add_mod]
  · cases hkind : g.kind with
    | ring =>
        have := hp.fits hkind
        omega
    | mirrored =>
        rcases hg with hreg | hslack
        · exact Or.inl (hp.cell_eq (fun _ => Or.inr hreg) hn hk)
        · right
          have hlt : e.start < g.ringSize := hp.start ▸ Nat.mod_lt _ (ringSize_pos g)
          simp only [Geometry.cell, hkind]
          rw [Nat.mod_eq_of_lt (by omega)]
          exact hge

theorem beginBatch_taken (hc : r.current.state ≠ .inFlight) :
    (r.beginBatch g).current.taken = r.contents := by
  unfold beginBatch contents
  cases hst : r.current.state with
  | free => simp [setCurrent_current]
  | filling => simp
  | inFlight => exact absurd hst hc

theorem setStatus_contents (i : Nat) (status : UInt8) : (r.setStatus i status).contents = r.contents := by
  have ht : (r.setStatus i status).current.taken = r.current.taken := by
    rw [current_eq, setStatus_entry]; split <;> rfl
  rw [contents, setStatus_current_state, ht, contents]

structure Proper [Inhabited D] (R : BatchRule D) (g : Geometry) (r : RingSubmitter D) : Prop where
  staged : Sealable R r.contents
  portal : ∀ b ∈ r.direct.portal, b.Proper R g.maxBatch
  beyond : ∀ j, g.ringSize ≤ j → r.descRing j = default

variable [Inhabited D]

theorem Proper.mem_listAt (h : Proper R g r) (hsh : Shape g r) (hl : Layout g r log) (hg : Spaced g)
    (hf : r.current.state = .filling) {x : D}
    (hx : x ∈ r.listAt g r.current.start r.current.count) : x ∈ r.contents ∨ x = default := by
  have hlive : r.Live r.batchFill := ⟨hsh.head_le, Or.inr ⟨rfl, hf⟩⟩
  rw [contents, if_pos hf]
  simp only [listAt, List.mem_map, List.mem_range] at hx
  obtain ⟨k, hk, rfl⟩ := hx
  rcases (hl.filling hsh.head_le hf).cell_or hg (hsh.filling hf) hk with he | he
  · left
    have hend := hl.ends_le hlive
    have hhead : r.descHead ≤ r.begins r.batchFill := Layout.head_le_begins _
    rw [← current_eq] at hend
    have hread := hl.stored (r.begins r.batchFill + k) (by omega) (by omega)
    rw [← hl.taken_getElem? hlive hk, ← he] at hread
    exact List.mem_of_getElem? hread
  · exact Or.inr (h.beyond _ he)

theorem Proper.of_reclaimed {m : Nat} (h : Proper R g r) (hsh : Shape g r) (hr : Reclaimed r r' m) :
    Proper R g r' := by
  refine ⟨?_, hr.portal ▸ h.portal, hr.descRing ▸ h.beyond⟩
  by_cases hf : r'.current.state = .filling
  · have hstaged := h.staged
    rwa [contents, ← (hr.current_filling hsh hf).1] at hstaged
  · rw [contents_of_not_filling hf]; exact sealable_nil

theorem Proper.sealCurrent (hR : ¬ R.IsBatch default) (h : Proper R g r) (hsh : Shape g r)
    (hl : Layout g r log) (hg : Spaced g) (hf : r.current.state = .filling)
    (hpos : 0 < r.current.count) : Proper R g (r.sealCurrent g) := by
  have hlen : r.contents.length = r.current.count := by
    rw [contents, if_pos hf, current_eq]
    exact hl.taken_length ⟨hsh.head_le, Or.inr ⟨rfl, hf⟩⟩
  refine ⟨?_, ?_, ?_⟩
  · rw [contents_of_not_filling (hsh.sealCurrent_not_filling hf)]; exact sealable_nil
  · rw [sealCurrent_portal]
    refine proper_concat h.portal ?_
    split
    · rename_i h1
      intro hb
      have hmem : r.descRing (g.cell r.current.start) ∈
          r.listAt g r.current.start r.current.count := by simp [listAt, h1]
      rcases h.mem_listAt hsh hl hg hf hmem with hx | hx
      · exact h.staged.accepted hx hb
      · rw [hx] at hb; exact absurd hb hR
    · rename_i h1
      refine ⟨by omega, hsh.filling hf, fun x hx => ?_⟩
      rcases h.mem_listAt hsh hl hg hf hx with hx | hx
      · exact h.staged.not_isBatch (by rwa [hlen]) x hx
      · rw [hx]; exact hR
  · rw [sealCurrent_descRing]; exact h.beyond

theorem Proper.sealAndSubmitCurrent (hR : ¬ R.IsBatch default) (h : Proper R g r) (hsh : Shape g r)
    (hl : Layout g r log) (hg : Spaced g) : Proper R g (r.sealAndSubmitCurrent g) := by
  rcases sealAndSubmitCurrent_cases g r with he | ⟨hf, hn, he | he⟩
  · rw [he]; exact h
  · rw [he]; exact h.sealCurrent hR hsh hl hg hf hn
  · rw [he]
    obtain ⟨m, hr⟩ := (hsh.sealCurrent hf hn).reclaimed
    exact (h.sealCurrent hR hsh hl hg hf hn).of_reclaimed (hsh.sealCurrent hf hn) hr

theorem Proper.sealPartial (hR : ¬ R.IsBatch default) (h : Proper R g r) (hsh : Shape g r)
    (hl : Layout g r log) (hg : Spaced g) : Proper R g (r.sealPartial g) := by
  unfold RingSubmitter.sealPartial
  split
  · exact h.sealAndSubmitCurrent hR hsh hl hg
  · exact h

theorem Proper.append (hR : ¬ R.IsBatch default) (h : Proper R g r) (hsh : Shape g r)
    (hse : Settled g r) (hl : Layout g r log) (hg : Spaced g) (hc : r.current.state ≠ .inFlight)
    (hw : (r.beginBatch g).atWrap g = false) {d : D} (ha : Admits R r.contents d) :
    Proper R g ((r.beginBatch g).append g d) := by
  obtain ⟨hb, hrd⟩ := hsh.beginBatch hse hc
  have hlb := hl.beginBatch hsh hc
  have hp : Proper R g ((r.beginBatch g).store g d) := by
    refine ⟨?_, ?_, fun j hj => ?_⟩
    · have htaken : ((r.beginBatch g).store g d).current.taken = r.contents ++ [d] := by
        rw [hrd.store_current, beginBatch_taken hc]
      rw [contents]
      split
      · rw [htaken]; exact ha.sealable
      · exact sealable_nil
    · have hportal : ((r.beginBatch g).store g d).direct.portal = r.direct.portal := by
        unfold beginBatch store; split <;> rfl
      rw [hportal]; exact h.portal
    · have hslot : descIndex g (r.beginBatch g).descTail < g.ringSize := by
        rw [descIndex_eq]; exact Nat.mod_lt _ (ringSize_pos g)
      show Function.update (r.beginBatch g).descRing _ d j = default
      rw [RingSubmitter.cell_eq g hslot, Function.update_of_ne (by omega), beginBatch_descRing]
      exact h.beyond j hj
  unfold RingSubmitter.append
  simp only
  split
  · exact hp.sealAndSubmitCurrent hR (hb.store hrd d) (hlb.store hb hrd hw d) hg
  · exact hp

end RingSubmitter

namespace RingSystem

open RingSubmitter

variable {g : Geometry} {s s' : RingSystem D} {a : RingAction D}

/-- The descriptor that the innermost call stores when it goes on. -/
def storing (g : Geometry) (s : RingSystem D) : Option D :=
  match s.stack with
  | .waitSlot d false :: _ =>
      if s.ring.current.state = .inFlight ∨ (s.ring.beginBatch g).atWrap g then none else some d
  | .waitWrap d false :: _ => if s.ring.current.state = .inFlight then none else some d
  | _ => none

/-- A call that is about to store a BATCH descriptor finds an empty batch, and no call finds one. -/
def BatchAlone (R : BatchRule D) (g : Geometry) (s : RingSystem D) (a : RingAction D) : Prop :=
  ∀ d, a = .advance → s.storing g = some d → Admits R s.ring.contents d

variable [Inhabited D]

theorem proper_effect (hR : ¬ R.IsBatch default) (ht : Tidy g s) (hg : Spaced g)
    (h : Proper R g s.ring) (hc : Clean g s a) (ha : BatchAlone R g s a) (he : Effect g s a s') :
    Proper R g s'.ring := by
  obtain ⟨hsh, hse, hl⟩ := ht
  cases he with
  | E_Submit => exact h
  | E_Idle _ hr _ _ => rw [hr]; exact h
  | E_Reclaim _ =>
      obtain ⟨m, hr⟩ := hsh.reclaimed
      exact h.of_reclaimed hsh hr
  | E_PrePoll =>
      obtain ⟨m, hr⟩ := (hsh.sealPartial (g := g)).reclaimed
      exact (h.sealPartial hR hsh hl hg).of_reclaimed hsh.sealPartial hr
  | E_Drain _ => exact h.sealPartial hR hsh hl hg
  | E_Wrap _ _ _ => exact h.sealAndSubmitCurrent hR hsh hl hg
  | @E_Append d _ hst hcur hw =>
      have hstore : s.storing g = some d := by simp [storing, hst, hcur, hw]
      exact h.append hR hsh hse hl hg hcur hw (ha _ rfl hstore)
  | @E_AppendAtZero d _ hst hcur =>
      obtain ⟨hfree, hz⟩ := hc _ _ rfl hst hcur
      have hstore : s.storing g = some d := by simp [storing, hst, hcur]
      simp only [finish, beginBatchAtZero_eq hfree hz]
      exact h.append hR hsh hse hl hg hcur (atWrap_of_free hfree) (ha _ rfl hstore)
  | E_Complete _ _ _ _ => exact ⟨(setStatus_contents _ _).symm ▸ h.staged, h.portal, h.beyond⟩

theorem proper_of_run {k : RingKind} {args : InitArgs} {as : List (RingAction D)}
    (hR : ¬ R.IsBatch default) (ha : (machine k args).Meets (fun s a =>
      Clean (Geometry.ofArgs k args) s a ∧ BatchAlone R (Geometry.ofArgs k args) s a) (init args) as)
    (h : (machine k args).run as = some s) : Proper R (Geometry.ofArgs k args) s.ring := by
  have hinit : Proper R (Geometry.ofArgs k args) (init args : RingSystem D).ring :=
    ⟨sealable_nil, fun _ h => by (cases h), fun _ _ => rfl⟩
  refine (Machine.runFrom_invariant (I := fun s => Tidy (Geometry.ofArgs k args) s ∧
    Proper R (Geometry.ofArgs k args) s.ring) (fun _ _ _ hs ha hst => ?_) ⟨tidy_init args, hinit⟩
    ha h).2
  have he := step_effect hst
  exact ⟨hs.1.effect ha.1 he, proper_effect hR hs.1 (spaced_ofArgs k args) hs.2 ha.1 ha.2 he⟩

theorem proper_of_mirrored_run {args : InitArgs} {as : List (RingAction D)} (hR : ¬ R.IsBatch default)
    (ha : (machine .mirrored args).Meets (BatchAlone R (Geometry.ofArgs .mirrored args)) (init args) as)
    (h : (machine .mirrored args).run as = some s) :
    Proper R (Geometry.ofArgs .mirrored args) s.ring :=
  proper_of_run hR (ha.of_invariant (I := Open (Geometry.ofArgs .mirrored args))
    (fun _ _ _ hs _ hst => hs.effect rfl (step_effect hst)) (fun _ a hs hb => ⟨hs.clean a, hb⟩)
    (open_init args)) h

end RingSystem

end DsaStdexec.Submitter

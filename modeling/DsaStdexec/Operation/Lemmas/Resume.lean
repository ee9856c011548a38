import DsaStdexec.Lib.Tiling
import DsaStdexec.Operation.Lemmas.DataMove
import DsaStdexec.Operation.Resume

/-!
# Resuming the other operations
-/

namespace DsaStdexec.Operation

open DsaStdexec.Lib

variable {ρ : Type} {o : DsaOperation ρ} {crc : BitVec 32 → List UInt8 → BitVec 32} {m : Memory}
  {d : HwDesc} {c ok : CompletionRecord} {cs : List CompletionRecord}
  {perform : Memory → HwDesc → CompletionRecord → Memory}

/-! ## One record -/

@[simp] theorem processed_fault (hc : c.code = compPageFaultNobof) :
    processed d c = c.bytesCompleted.toNat := if_pos hc

@[simp] theorem processed_success (h : o.succeeds c = true) : processed d c = d.xferSize.toNat :=
  if_neg (DsaOperation.not_fault_of_succeeds h)

@[simp] theorem adjust_opcode : (adjustForPageFault d c).opcode = d.opcode := by
  cases h : d.opcode <;> simp [adjustForPageFault, h]

/-- The opcodes whose descriptor has a transfer size. -/
def Opcode.transfers : Opcode → Bool
  | .noop | .batch => false
  | _ => true

theorem adjust_xferSize (ht : d.opcode.transfers = true) (hn : c.bytesCompleted ≤ d.xferSize) :
    (adjustForPageFault d c).xferSize.toNat = d.xferSize.toNat - c.bytesCompleted.toNat := by
  have hsub : (adjustForPageFault d c).xferSize = d.xferSize - c.bytesCompleted := by
    cases h : d.opcode <;> simp [h, Opcode.transfers] at ht <;> simp [adjustForPageFault, h]
  rw [hsub, BitVec.toNat_sub_of_le hn]

theorem performForwards_compare (hd : d.opcode = .compare ∨ d.opcode = .compval) :
    performForwards m d c = m := by
  rcases hd with hd | hd <;> simp [performForwards, work, hd]

theorem compare_run (hd : d.opcode = .compare ∨ d.opcode = .compval)
    (h : o.Answered crc ok m d cs) :
    o.run performForwards m d (cs ++ [ok]) = some (o.extractResult ok, m) := by
  induction cs generalizing d with
  | nil => rw [List.nil_append, DsaOperation.run_success h.1, performForwards_compare hd]
  | cons c cs ih =>
      obtain ⟨hc, _, _, hrest⟩ := h
      rw [performForwards_compare hd] at hrest
      rw [List.cons_append, DsaOperation.run_fault hc, performForwards_compare hd]
      exact ih (by rw [adjust_opcode]; exact hd) hrest

/-! ## All submissions -/

/-- What holds of the first descriptor and is kept at every fault holds of all descriptors that are
submitted. -/
theorem DsaOperation.Answered.submissions_forall {P : HwDesc → Prop}
    (hstep : ∀ d c, P d → c.bytesCompleted ≤ d.xferSize → P (adjustForPageFault d c))
    (h : o.Answered crc ok m d cs) (hd : P d) : ∀ x ∈ o.submissions d (cs ++ [ok]), P x.1 := by
  induction cs generalizing m d with
  | nil =>
      simp only [List.nil_append, submissions_success h.1, List.mem_singleton]
      rintro x rfl
      exact hd
  | cons c cs ih =>
      obtain ⟨hc, hn, _, hrest⟩ := h
      simp only [List.cons_append, submissions_fault hc, List.mem_cons]
      rintro x (rfl | hx)
      · exact hd
      · exact ih hrest (hstep d c hd hn) x hx

theorem DsaOperation.Answered.processed_le (h : o.Answered crc ok m d cs) :
    ∀ x ∈ o.submissions d (cs ++ [ok]), processed x.1 x.2 ≤ x.1.xferSize.toNat := by
  induction cs generalizing m d with
  | nil =>
      simp only [List.nil_append, submissions_success h.1, List.mem_singleton]
      rintro x rfl
      rw [processed_success h.1]
  | cons c cs ih =>
      obtain ⟨hc, hn, _, hrest⟩ := h
      simp only [List.cons_append, submissions_fault hc, List.mem_cons]
      rintro x (rfl | hx)
      · rw [processed_fault hc]; exact hn
      · exact ih hrest x hx

/-- The opcodes at which a fault moves the source address. -/
def Opcode.movesSource : Opcode → Bool
  | .noop | .batch | .memfill | .cflush => false
  | _ => true

theorem adjust_srcAddr (hs : d.opcode.movesSource = true) :
    (adjustForPageFault d c).srcAddr = d.srcAddr + BitVec.ofNat 64 c.bytesCompleted.toNat := by
  cases h : d.opcode <;> simp [h, Opcode.movesSource] at hs <;> simp [adjustForPageFault, h]

theorem transfers_of_movesSource {op : Opcode} (h : op.movesSource = true) : op.transfers = true := by
  cases op <;> simp_all [Opcode.movesSource, Opcode.transfers]

/-- The submissions work on consecutive ranges, up to the size of the first descriptor. -/
theorem DsaOperation.Answered.tiles {src : BitVec 64} {n : Nat}
    (h : o.Answered crc ok m d cs) (hs : d.opcode.movesSource = true)
    (hsrc : d.srcAddr = src + BitVec.ofNat 64 n) (hn : n + d.xferSize.toNat < 2 ^ 64) :
    Tiles n (n + d.xferSize.toNat) ((o.submissions d (cs ++ [ok])).map (sourceRange src)) := by
  have hoff : (d.srcAddr - src).toNat = n := by
    rw [hsrc, add_sub_cancel_left, BitVec.toNat_ofNat, Nat.mod_eq_of_lt (by omega)]
  induction cs generalizing m d n with
  | nil =>
      rw [List.nil_append, submissions_success h.1]
      exact ⟨hoff, by rw [processed_success h.1]; rfl⟩
  | cons c cs ih =>
      obtain ⟨hc, hle, _, hrest⟩ := h
      have hle' : c.bytesCompleted.toNat ≤ d.xferSize.toNat := hle
      have hx := adjust_xferSize (transfers_of_movesSource hs) hle
      rw [List.cons_append, submissions_fault hc]
      refine ⟨hoff, ?_⟩
      have hsrc' : (adjustForPageFault d c).srcAddr =
          src + BitVec.ofNat 64 (n + c.bytesCompleted.toNat) := by
        rw [adjust_srcAddr hs, hsrc, add_assoc, BitVec.ofNat_add]
      have hend : n + c.bytesCompleted.toNat + (adjustForPageFault d c).xferSize.toNat =
          n + d.xferSize.toNat := by rw [hx]; omega
      rw [processed_fault hc, ← hend]
      refine ih hrest (by rw [adjust_opcode]; exact hs) hsrc' (by omega) ?_
      rw [hsrc', add_sub_cancel_left, BitVec.toNat_ofNat, Nat.mod_eq_of_lt (by omega)]

/-- `d` begins at some offset of the source and asks for all that is left of `size` bytes. -/
structure AsksForRest (src : BitVec 64) (size : Nat) (d : HwDesc) : Prop where
  moves : d.opcode.movesSource = true
  offset : ∃ n : BitVec 64, d.srcAddr = src + n ∧ n.toNat + d.xferSize.toNat = size

theorem AsksForRest.adjust {src : BitVec 64} {size : Nat} (hs : size < 2 ^ 64)
    (h : AsksForRest src size d) (hn : c.bytesCompleted ≤ d.xferSize) :
    AsksForRest src size (adjustForPageFault d c) := by
  obtain ⟨n, he, hsum⟩ := h.offset
  have hle : c.bytesCompleted.toNat ≤ d.xferSize.toNat := hn
  refine ⟨by rw [adjust_opcode]; exact h.moves, n + c.bytesCompleted.setWidth 64, ?_, ?_⟩
  · rw [adjust_srcAddr h.moves, he, add_assoc, BitVec.ofNat_toNat]
  · rw [adjust_xferSize (transfers_of_movesSource h.moves) hn, BitVec.toNat_add, toNat_setWidth_64,
      Nat.mod_eq_of_lt (by omega)]
    omega

/-- Within the 32 bits of the transfer size the submissions cover the whole buffer. -/
theorem DsaOperation.Answered.covers (h : o.Answered crc ok m d cs)
    (hs : d.opcode.movesSource = true) :
    Covers d.srcAddr d.xferSize.toNat (o.submissions d (cs ++ [ok])) := by
  have hlt := d.xferSize.isLt
  have hsrc : d.srcAddr = d.srcAddr + BitVec.ofNat 64 0 := by simp
  have htiles := h.tiles hs hsrc (by omega)
  rw [Nat.zero_add] at htiles
  refine ⟨fun x hx => ⟨?_, h.processed_le x hx⟩, fun k hk => ?_⟩
  · have hfirst : AsksForRest d.srcAddr d.xferSize.toNat d := ⟨hs, 0, by simp, by simp⟩
    obtain ⟨n, he, hn⟩ :=
      (h.submissions_forall (fun e c he hn => he.adjust (by omega) hn) hfirst x hx).offset
    rw [he, add_sub_cancel_left, hn]
  · obtain ⟨j, ⟨r, hj, hr⟩, huniq⟩ := htiles.existsUnique (Nat.zero_le k) hk
    rw [List.getElem?_map, Option.map_eq_some_iff] at hj
    obtain ⟨x, hx, rfl⟩ := hj
    refine ⟨j, ⟨x, hx, hr⟩, ?_⟩
    rintro i ⟨y, hy, hyr⟩
    exact huniq i ⟨_, by rw [List.getElem?_map, hy]; rfl, hyr⟩

theorem Covers.size_lt {src : BitVec 64} {size : Nat} {subs : List (HwDesc × CompletionRecord)}
    (h : Covers src size subs) (h' : Covers src (size % 2 ^ 32) subs) : size < 2 ^ 32 := by
  by_contra hge
  obtain ⟨j, ⟨x, hx, _⟩, _⟩ := h.once 0 (by omega)
  have h1 := (h.left x (List.mem_of_getElem? hx)).1
  have h2 := (h'.left x (List.mem_of_getElem? hx)).1
  omega

end DsaStdexec.Operation

import Mathlib.Algebra.Order.BigOperators.Group.List
import Mathlib.Tactic.Ring

/-!
# The protobuf wire format

Encoders of fields and the lengths of what they write.
-/

namespace DsaStdexec.Lib.Wire

abbrev Bytes := List UInt8

/-- Seven bits in a byte, the lowest first; every byte but the last has its top bit set. -/
def varint (n : Nat) : Bytes :=
  if n < 128 then [UInt8.ofNat n] else UInt8.ofNat (n % 128 + 128) :: varint (n / 128)

def wireVarint : Nat := 0
def wireLen : Nat := 2

def key (field wire : Nat) : Bytes := varint (field * 8 + wire)

def lenDelimited (field : Nat) (payload : Bytes) : Bytes :=
  key field wireLen ++ varint payload.length ++ payload

/-- A singular integer field; zero is not written. -/
def uint (field n : Nat) : Bytes := if n = 0 then [] else key field wireVarint ++ varint n

/-- A singular string or bytes field; an empty one is not written. -/
def bytes (field : Nat) (b : Bytes) : Bytes := if b = [] then [] else lenDelimited field b

/-- A repeated field of strings, bytes or messages. -/
def repeated (field : Nat) (bs : List Bytes) : Bytes := bs.flatMap (lenDelimited field)

/-- A packed repeated field of integers. -/
def packed (field : Nat) (ns : List Nat) : Bytes :=
  if ns = [] then [] else lenDelimited field (ns.flatMap varint)

/-! ## Lengths -/

theorem length_varint_small {n : Nat} (h : n < 128) : (varint n).length = 1 := by
  rw [varint, if_pos h]
  rfl

theorem one_le_length_varint (n : Nat) : 1 ≤ (varint n).length := by
  rw [varint]
  split <;> simp

theorem length_varint_large {n : Nat} (h : 128 ≤ n) :
    (varint n).length = (varint (n / 128)).length + 1 := by
  rw [varint, if_neg (Nat.not_lt.mpr h), List.length_cons]

theorem length_varint_two {n : Nat} (h : 128 ≤ n) (h' : n < 128 * 128) : (varint n).length = 2 := by
  rw [length_varint_large h, length_varint_small (Nat.div_lt_of_lt_mul h')]

theorem length_varint_mono {m n : Nat} (h : m ≤ n) : (varint m).length ≤ (varint n).length := by
  induction n using Nat.strongRecOn generalizing m with
  | ind n ih =>
      rcases Nat.lt_or_ge m 128 with hm | hm
      · rw [length_varint_small hm]
        exact one_le_length_varint n
      · have hn : 128 ≤ n := hm.trans h
        rw [length_varint_large hm, length_varint_large hn]
        exact Nat.succ_le_succ (ih (n / 128) (Nat.div_lt_self (by omega) (by decide))
          (Nat.div_le_div_right h))

/-- The length of a field with a payload of `n` bytes. -/
def lenSize (field n : Nat) : Nat := (key field wireLen).length + (varint n).length + n

theorem length_lenDelimited (field : Nat) (payload : Bytes) :
    (lenDelimited field payload).length = lenSize field payload.length := by
  simp only [lenDelimited, lenSize, List.length_append]

theorem lenSize_lt {field m n : Nat} (h : m < n) : lenSize field m < lenSize field n := by
  have := length_varint_mono h.le
  unfold lenSize
  omega

theorem lenSize_inj {field m n : Nat} : lenSize field m = lenSize field n ↔ m = n := by
  refine ⟨fun h => ?_, congrArg _⟩
  rcases Nat.lt_trichotomy m n with hlt | heq | hgt
  · exact absurd h (lenSize_lt hlt).ne
  · exact heq
  · exact absurd h (lenSize_lt hgt).ne'

theorem length_uint {field n : Nat} (h : n ≠ 0) :
    (uint field n).length = (key field wireVarint).length + (varint n).length := by
  rw [uint, if_neg h, List.length_append]

theorem length_bytes {field n : Nat} {b : Bytes} (hb : b.length = n) (hn : n ≠ 0) :
    (bytes field b).length = lenSize field n := by
  have hne : b ≠ [] := by
    rintro rfl
    exact hn hb.symm
  rw [bytes, if_neg hne, length_lenDelimited, hb]

theorem length_repeated {field n : Nat} {bs : List Bytes} (h : ∀ b ∈ bs, b.length = n) :
    (repeated field bs).length = bs.length * lenSize field n := by
  induction bs with
  | nil => simp [repeated]
  | cons b bs ih =>
      rw [List.forall_mem_cons] at h
      have htail := ih h.2
      rw [repeated] at htail
      rw [repeated, List.flatMap_cons, List.length_append, length_lenDelimited, h.1, htail, List.length_cons]
      ring

theorem length_packed {field : Nat} {ns : List Nat} (hne : ns ≠ []) (h : ∀ n ∈ ns, n < 128) :
    (packed field ns).length = lenSize field ns.length := by
  have hlen : (ns.flatMap varint).length = ns.length := by
    clear hne
    induction ns with
    | nil => rfl
    | cons n ns ih =>
        rw [List.forall_mem_cons] at h
        rw [List.flatMap_cons, List.length_append, length_varint_small h.1, ih h.2, List.length_cons,
          Nat.add_comm]
  rw [packed, if_neg hne, length_lenDelimited, hlen]

end DsaStdexec.Lib.Wire

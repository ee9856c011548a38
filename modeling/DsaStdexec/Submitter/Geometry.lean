import DsaStdexec.Lib.Bits
import DsaStdexec.Lib.Index
import DsaStdexec.Submitter.Direct
import Mathlib.Tactic.NormNum

/-!
# The sizes that `init` computes

All four batching submitters derive their flush threshold from `batch_size` and from the maximum
batch size of the WQ in the same way. The two ring submitters size their descriptor ring from it.
-/

namespace DsaStdexec.Submitter

open DsaStdexec.Lib

def kDefaultBatchSize : Nat := 32

def kDefaultNumBatches : Nat := 16

/-- `round_up_pow2` on a 64-bit `size_t`. -/
def roundUpPow2 (n : Nat) : Nat :=
  if n ≤ 1 then 1
  else
    let n := n - 1
    let n := n ||| n >>> 1
    let n := n ||| n >>> 2
    let n := n ||| n >>> 4
    let n := n ||| n >>> 8
    let n := n ||| n >>> 16
    let n := n ||| n >>> 32
    (n + 1) % 2 ^ 64

/-- Up to `2 ^ 63` the result is the power of two just above `n - 1`. -/
theorem roundUpPow2_eq {n : Nat} (h1 : 1 < n) (h : n ≤ 2 ^ 63) :
    roundUpPow2 n = 2 ^ ((n - 1).log2 + 1) := by
  have hs : Spread 64 (n - 1) _ :=
    (Spread.one (n - 1)).double.double.double.double.double.double
  have hm : n - 1 ≠ 0 := by omega
  have hlt : n - 1 < 2 ^ 63 := by omega
  have hones := hs.eq_ones hm (by omega)
  have hle := two_pow_log2_succ_le hm hlt
  have hpos := Nat.two_pow_pos ((n - 1).log2 + 1)
  simp only [roundUpPow2, show ¬ n ≤ 1 by omega, ↓reduceIte]
  rw [hones, Nat.mod_eq_of_lt] <;> omega

theorem le_roundUpPow2 {n : Nat} (h : n ≤ 2 ^ 63) : n ≤ roundUpPow2 n := by
  by_cases h1 : n ≤ 1
  · simp [roundUpPow2, h1]
  · rw [roundUpPow2_eq (by omega) h]
    have := @Nat.lt_log2_self (n - 1)
    omega

theorem roundUpPow2_isPow {n : Nat} (h : n ≤ 2 ^ 63) : ∃ k, roundUpPow2 n = 2 ^ k := by
  by_cases h1 : n ≤ 1
  · exact ⟨0, by simp [roundUpPow2, h1]⟩
  · exact ⟨_, roundUpPow2_eq (by omega) h⟩

theorem roundUpPow2_le {n k : Nat} (h : n ≤ 2 ^ 63) (hk : n ≤ 2 ^ k) : roundUpPow2 n ≤ 2 ^ k := by
  by_cases h1 : n ≤ 1
  · simpa [roundUpPow2, h1] using Nat.one_le_two_pow
  · rw [roundUpPow2_eq (by omega) h]
    exact two_pow_log2_succ_le (by omega) (by omega)

/-- A subtraction of `size_t`. -/
def subSize (m n : Nat) : Nat := if n ≤ m then m - n else m + 2 ^ 64 - n

theorem subSize_eq {m n : Nat} (h : n ≤ m) : subSize m n = m - n := if_pos h

/-- `desc_ring_size_`, which the `init` of both ring submitters computes from `max_batch_size_` in
64-bit arithmetic. -/
def descRingSize (maxBatch : Nat) : Nat := roundUpPow2 (maxBatch * kDefaultNumBatches % 2 ^ 64)

/-- `desc_index` in a ring of `size` slots. -/
def descIndexIn (size pos : Nat) : Nat := pos &&& subSize size 1

theorem descRingSize_eq {maxBatch : Nat} (h : maxBatch * kDefaultNumBatches ≤ 2 ^ 63) :
    descRingSize maxBatch = roundUpPow2 (maxBatch * kDefaultNumBatches) := by
  rw [descRingSize, Nat.mod_eq_of_lt (by omega)]

theorem descIndexIn_two_pow (k pos : Nat) : descIndexIn (2 ^ k) pos = pos % 2 ^ k := by
  rw [descIndexIn, subSize_eq (Nat.two_pow_pos k)]
  exact and_sub_one_eq_mod rfl pos

/-- `page_align_up` on a 64-bit `size_t` with pages of 4096 bytes; `2 ^ 64 - 4096` is
`~(page - 1)`. -/
def pageAlignUp (n : Nat) : Nat := (n + 4096 - 1) % 2 ^ 64 &&& (2 ^ 64 - 4096)

theorem pageAlignUp_eq {n : Nat} (h : n ≤ 2 ^ 63) : pageAlignUp n = (n + 4095) / 4096 * 4096 := by
  have hlt : n + 4096 - 1 < 2 ^ 64 := by omega
  rw [pageAlignUp, Nat.mod_eq_of_lt hlt, show n + 4096 - 1 = n + 4095 by omega] at *
  apply Nat.eq_of_testBit_eq
  intro i
  rw [Nat.testBit_and, show (2 ^ 64 - 4096 : Nat) = (2 ^ 52 - 1) * 2 ^ 12 by norm_num,
    show (4096 : Nat) = 2 ^ 12 by norm_num, Nat.testBit_mul_two_pow, Nat.testBit_mul_two_pow,
    Nat.testBit_div_two_pow, Nat.testBit_two_pow_sub_one]
  by_cases h12 : 12 ≤ i
  · rw [show i - 12 + 12 = i by omega]
    by_cases h64 : i < 64
    · simp [h12, show i - 12 < 52 by omega]
    · -- there is no bit 64 or above to lose
      have hbit : (n + 4095).testBit i = false := Nat.testBit_lt_two_pow
        (Nat.lt_of_lt_of_le hlt (Nat.pow_le_pow_right (by omega) (by omega)))
      simp [hbit]
  · simp [h12]

theorem le_pageAlignUp {n : Nat} (h : n ≤ 2 ^ 63) : n ≤ pageAlignUp n := by
  rw [pageAlignUp_eq h]; omega

/-- The flush threshold: the requested batch size or the default one, cut to what the WQ allows. -/
def maxBatchSize (batchSize : Nat) (wq : Wq) : Nat :=
  let size := if batchSize > 0 then batchSize else kDefaultBatchSize
  if wq.maxBatchSize > 0 then min size wq.maxBatchSize.toNat else size

/-- The arguments of `init`. `desc_count` and the count of a batch entry are `uint32_t`, so where the WQ
reports no maximum, `batch_size` itself has to fit. (Larger batches would take 512 GiB when they are
staged in two buffers, and 4 TiB in a ring.) -/
structure InitArgs where
  batchSize : Nat
  mode : WqMode
  wq : Wq
  accepted : 0 < wq.maxBatchSize ∨ batchSize < 2 ^ 32

def InitArgs.maxBatch (args : InitArgs) : Nat := maxBatchSize args.batchSize args.wq

theorem InitArgs.maxBatch_pos (args : InitArgs) : 0 < args.maxBatch := by
  simp only [maxBatch, maxBatchSize, kDefaultBatchSize]
  split <;> split <;> omega

theorem InitArgs.maxBatch_lt (args : InitArgs) : args.maxBatch < 2 ^ 32 := by
  have h := args.accepted
  have hlt := args.wq.maxBatchSize_lt
  simp only [maxBatch, maxBatchSize, kDefaultBatchSize]
  split <;> split <;> omega

theorem InitArgs.maxBatch_le_wq (args : InitArgs) (h : 0 < args.wq.maxBatchSize) :
    (args.maxBatch : Int) ≤ args.wq.maxBatchSize := by
  simp only [maxBatch, maxBatchSize, gt_iff_lt, h, ↓reduceIte]
  split <;> omega

end DsaStdexec.Submitter

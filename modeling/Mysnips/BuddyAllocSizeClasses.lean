import Mysnips.Bits
import Mysnips.BuddyAlloc
import Mysnips.PowersOfTwo

/-! Size classes over full words: the bit scans of the allocator and of the bit
library find the lowest set bit of every word, and a request of any length up to
`2 ^ 63` is rounded up to the least power of two that a block can have. -/
namespace Mysnips.BuddyAlloc
open Machine PowersOfTwo BitScan

theorem firstSetTable_two_pow {j : Nat} (below : j < 8) : firstSetTable.getD (2 ^ j) 0 = j := by
  interval_cases j <;> rfl

/-- What `first_set` looks up in its table is a power of two below 256. -/
theorem firstSetByte_narrowed {x k : Nat} (fits : x < 2 ^ 64) (least : IsLeast (setBits x) k) :
    Narrowed k 8 (firstSetByte x) := by
  have bound : 2 ^ k < 2 ^ 64 := Nat.lt_of_le_of_lt (Nat.ge_two_pow_of_testBit least.1) fits
  have below : k < 64 := (Nat.pow_lt_pow_iff_right (by decide)).mp bound
  simp only [firstSetByte, Bits.isolated fits least]
  exact Bits.narrowed_byte below

theorem firstSetByte_inside {x k : Nat} (fits : x < 2 ^ 64) (least : IsLeast (setBits x) k) :
    (firstSetByte x).2 < firstSetTable.length := by
  obtain ⟨j, short, power, -⟩ := firstSetByte_narrowed fits least
  have length : firstSetTable.length = 2 ^ 8 := by decide +kernel
  rw [power, length]
  exact Nat.pow_lt_pow_right (by decide) short

/-- `first_set` is the lowest set bit. -/
theorem firstSet_eq {x k : Nat} (fits : x < 2 ^ 64) (least : IsLeast (setBits x) k) :
    firstSet x = (k : Int) := by
  have bound : 2 ^ k ≤ x := Nat.ge_two_pow_of_testBit least.1
  have nonzero : x ≠ 0 := Nat.ne_of_gt (Nat.lt_of_lt_of_le (Nat.two_pow_pos k) bound)
  have search := firstSetByte_narrowed fits least
  simp only [firstSet, nonzero, if_false]
  generalize firstSetByte x = found at search
  obtain ⟨j, short, power, sum⟩ := search
  simp only [power, firstSetTable_two_pow short]
  omega

/-- The lowest set bit of a power of two is its only one. -/
theorem lowest_two_pow (k : Nat) : IsLeast (setBits (2 ^ k)) k := by
  refine ⟨Nat.testBit_two_pow_self, ?_⟩
  intro j bit
  have set : (2 ^ k).testBit j = true := bit
  rw [Nat.testBit_two_pow, decide_eq_true_eq] at set
  exact Nat.le_of_eq set

theorem firstSet_two_pow {k : Nat} (below : k < 64) : firstSet (2 ^ k) = (k : Int) :=
  firstSet_eq (Nat.pow_lt_pow_right (by decide) below) (lowest_two_pow k)

theorem isPow2_two_pow {k : Nat} (below : k < 64) : isPow2 (2 ^ k) = true := by
  have fits : 2 ^ k < 2 ^ 64 := Nat.pow_lt_pow_right (by decide) below
  rw [isPow2, sub64_eq (Nat.two_pow_pos k) fits, and_pred (lowest_two_pow k), Nat.sub_self]
  rfl

theorem listIndexForSize_two_pow {k : Nat} (low : 4 ≤ k) (high : k ≤ 12) :
    listIndexForSize (2 ^ k) = ((k - 4 : Nat) : Int) := by
  rw [listIndexForSize, firstSet_two_pow (by omega), minBlockLog2]
  omega

/-! ### Rounding a request up -/

/-- `round_pow2` rounds up to a power of two. -/
theorem roundPow2_eq {v : Nat} (positive : 0 < v) (small : v ≤ 2 ^ 63) :
    roundPow2 v = 2 ^ ceilLog v := by
  have predecessor : sub64 v 1 = v - 1 := sub64_eq positive (by omega)
  have smeared := (smeared_one (v - 1)).double.double.double.double.double.double
  have mask := smeared.eq_mask (by omega)
  have bound : ceilLog v ≤ 63 := (ceilLog_le_iff positive).mpr small
  have power : 2 ^ ceilLog v ≤ 2 ^ 63 := Nat.pow_le_pow_right (by omega) bound
  have nonzero : 0 < 2 ^ ceilLog v := Nat.two_pow_pos _
  simp only [roundPow2, predecessor]
  norm_num at mask
  rw [mask, ← ceilLog, add64_eq (by omega)]
  omega

/-- `normalize_len` gives the smallest block, or the least power of two that holds
the request. -/
theorem normalizeLen_pow {len : Nat} (positive : 1 ≤ len) (small : len ≤ 2 ^ 63) :
    normalizeLen len = 2 ^ max minBlockLog2 (ceilLog len) := by
  have nonzero : len ≠ 0 := Nat.ne_of_gt positive
  by_cases tiny : len < minBlockSize
  · have short : ceilLog len ≤ minBlockLog2 := (ceilLog_le_iff positive).mpr (Nat.le_of_lt tiny)
    rw [normalizeLen, if_neg nonzero, if_pos tiny, Nat.max_eq_left short]
  · have long : minBlockLog2 ≤ ceilLog len := by
      have past : ¬ ceilLog len ≤ 3 := by
        rw [ceilLog_le_iff positive]
        exact fun within => tiny (Nat.lt_of_le_of_lt within (by decide))
      exact Nat.lt_of_not_le past
    rw [normalizeLen, if_neg nonzero, if_neg tiny, roundPow2_eq positive small,
      Nat.max_eq_right long]

/-- A request is served from the least size class that holds it. -/
theorem normalizeLen_eq {len : Nat} (positive : 0 < len) (small : len ≤ 2 ^ 12) :
    ∃ k, 4 ≤ k ∧ k ≤ 12 ∧ normalizeLen len = 2 ^ k ∧ len ≤ 2 ^ k :=
  ⟨_, Nat.le_max_left _ _, Nat.max_le.mpr ⟨by decide, (ceilLog_le_iff positive).mpr small⟩,
    normalizeLen_pow positive (Nat.le_trans small (by decide)),
    (ceilLog_le_iff positive).mp (Nat.le_max_right _ _)⟩

/-- The powers of two that hold a request and are not below the smallest block. -/
def blockSizesFor (len : Nat) : Set Nat := {size | ∃ k, size = 2 ^ k ∧ max len minBlockSize ≤ size}

theorem isLeast_normalizeLen {len : Nat} (positive : 1 ≤ len) (small : len ≤ 2 ^ 63) :
    IsLeast (blockSizesFor len) (normalizeLen len) := by
  rw [normalizeLen_pow positive small]
  constructor
  · refine ⟨_, rfl, Nat.max_le.mpr ⟨?_, ?_⟩⟩
    · exact (ceilLog_le_iff positive).mp (Nat.le_max_right _ _)
    · exact Nat.pow_le_pow_right (by decide) (Nat.le_max_left _ _)
  · rintro _ ⟨k, rfl, holds⟩
    obtain ⟨request, smallest⟩ := Nat.max_le.mp holds
    have above : minBlockLog2 ≤ k := (Nat.pow_le_pow_iff_right (by decide)).mp smallest
    exact Nat.pow_le_pow_right (by decide)
      (Nat.max_le.mpr ⟨above, (ceilLog_le_iff positive).mpr request⟩)

/-- The lists whose blocks hold a request. -/
def listsFor (len : Nat) : Set Nat := {i | len ≤ 2 ^ (i + minBlockLog2)}

theorem isLeast_listIndexForSize {len : Nat} (positive : 1 ≤ len) (small : len ≤ 2 ^ 63) :
    ∃ i : Nat, listIndexForSize (normalizeLen len) = (i : Int) ∧ IsLeast (listsFor len) i := by
  have level : max minBlockLog2 (ceilLog len) ≤ 63 :=
    Nat.max_le.mpr ⟨by decide, (ceilLog_le_iff positive).mpr small⟩
  refine ⟨max minBlockLog2 (ceilLog len) - minBlockLog2, ?_, ?_, ?_⟩
  · have above : minBlockLog2 ≤ max minBlockLog2 (ceilLog len) := Nat.le_max_left _ _
    rw [normalizeLen_pow positive small, listIndexForSize,
      firstSet_two_pow (Nat.lt_succ_of_le level)]
    omega
  · show len ≤ _
    rw [Nat.sub_add_cancel (Nat.le_max_left _ _)]
    exact (ceilLog_le_iff positive).mp (Nat.le_max_right _ _)
  · intro i holds
    have request : ceilLog len ≤ i + minBlockLog2 := (ceilLog_le_iff positive).mpr holds
    exact Nat.sub_le_of_le_add (Nat.max_le.mpr ⟨Nat.le_add_left _ _, request⟩)

/-- Both scans find the lowest set bit of every 64-bit word and read inside their
tables; every request is rounded up to the least block size that holds it, whose
list is the first one with blocks that large. -/
theorem size_classes_exact :
    (∀ x, 0 < x → x < 2 ^ 64 → ∃ k : Nat, IsLeast (setBits x) k ∧ firstSet x = (k : Int) ∧
      (firstSetByte x).2 < firstSetTable.length ∧ Bits.findFirstSetBit x = some (k : Int)) ∧
    (∀ len, 1 ≤ len → len ≤ 2 ^ 63 → IsLeast (blockSizesFor len) (normalizeLen len) ∧
      ∃ i : Nat, listIndexForSize (normalizeLen len) = (i : Int) ∧ IsLeast (listsFor len) i) := by
  constructor
  · intro x positive fits
    obtain ⟨k, least⟩ := exists_lowest positive
    exact ⟨k, least, firstSet_eq fits least, firstSetByte_inside fits least,
      Bits.findFirstSetBit_eq fits least⟩
  · intro len positive small
    exact ⟨isLeast_normalizeLen positive small, isLeast_listIndexForSize positive small⟩

theorem size_classes_of_largest :
    (∃ k : Nat, IsLeast (setBits (2 ^ 63)) k ∧ firstSet (2 ^ 63) = (k : Int) ∧
      (firstSetByte (2 ^ 63)).2 < firstSetTable.length ∧
      Bits.findFirstSetBit (2 ^ 63) = some (k : Int)) ∧
    IsLeast (blockSizesFor (2 ^ 63)) (normalizeLen (2 ^ 63)) :=
  ⟨size_classes_exact.1 (2 ^ 63) (by decide) (by decide),
    (size_classes_exact.2 (2 ^ 63) (by decide) (by decide)).1⟩

end Mysnips.BuddyAlloc

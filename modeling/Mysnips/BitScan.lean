import Mathlib.Data.Nat.Bitwise
import Mathlib.Data.Nat.Find
import Mathlib.Order.Bounds.Basic

/-! Scanning a word for its lowest set bit: the bit is isolated by clearing it in
a copy, and its index is found by halving the part of the word that holds it. -/
namespace Mysnips.BitScan

/-- The set bits of a word. -/
def setBits (x : Nat) : Set Nat := {k | x.testBit k = true}

/-- A word other than zero has a lowest set bit. -/
theorem exists_lowest {x : Nat} (positive : 0 < x) : ∃ k, IsLeast (setBits x) k := by
  have some_bit : ∃ k, x.testBit k = true := by
    by_contra none
    simp only [not_exists, Bool.not_eq_true] at none
    exact Nat.ne_of_gt positive (Nat.zero_of_testBit_eq_false none)
  refine ⟨Nat.find some_bit, Nat.find_spec some_bit, ?_⟩
  intro j bit
  exact Nat.find_min' some_bit bit

/-- The word is an odd multiple of its lowest bit. -/
theorem eq_odd_mul {x k : Nat} (least : IsLeast (setBits x) k) :
    ∃ q, x = 2 ^ k * (2 * q + 1) := by
  have bit : x.testBit k = true := least.1
  have low : x % 2 ^ k = 0 := by
    apply Nat.zero_of_testBit_eq_false
    intro j
    rw [Nat.testBit_mod_two_pow]
    by_cases below : j < k
    · have clear : ¬ x.testBit j = true := fun set => Nat.not_le.mpr below (least.2 set)
      simp [clear]
    · simp [below]
  have odd : x / 2 ^ k % 2 = 1 := by
    rwa [Nat.testBit_eq_decide_div_mod_eq, decide_eq_true_eq] at bit
  refine ⟨x / 2 ^ k / 2, ?_⟩
  have whole := Nat.div_add_mod x (2 ^ k)
  have half := Nat.div_add_mod (x / 2 ^ k) 2
  rw [odd] at half
  rw [half]
  omega

/-- And-ing a word with its predecessor clears the lowest bit. -/
theorem and_pred {x k : Nat} (least : IsLeast (setBits x) k) : x &&& (x - 1) = x - 2 ^ k := by
  obtain ⟨q, rfl⟩ := eq_odd_mul least
  have positive : 0 < 2 ^ k := Nat.two_pow_pos k
  have pred : 2 ^ k * (2 * q + 1) - 1 = 2 ^ k * (2 * q) + (2 ^ k - 1) := by
    rw [Nat.mul_add, Nat.mul_one]
    omega
  have cleared : 2 ^ k * (2 * q + 1) - 2 ^ k = 2 ^ k * (2 * q) := by
    rw [Nat.mul_add, Nat.mul_one, Nat.add_sub_cancel]
  have pairs : (2 * q + 1) &&& (2 * q) = 2 * q := by
    apply Nat.eq_of_testBit_eq
    intro i
    cases i with
    | zero => simp
    | succ i =>
      have upper : (2 * q + 1) / 2 = q := by omega
      simp [Nat.testBit_succ, Nat.and_div_two, upper]
  rw [pred, cleared]
  apply Nat.eq_of_testBit_eq
  intro i
  rw [Nat.testBit_and, Nat.testBit_two_pow_mul, Nat.testBit_two_pow_mul_add _ (by omega),
    Nat.testBit_two_pow_mul]
  by_cases below : i < k
  · simp [Nat.not_le.mpr below]
  · have digit := congrArg (fun n => n.testBit (i - k)) pairs
    simp only [Nat.testBit_and] at digit
    simp only [below, if_false, Nat.not_lt.mp below, decide_true, Bool.true_and, digit]

/-- What clearing the lowest bit took away is that bit. -/
theorem sub_and_pred {x k : Nat} (least : IsLeast (setBits x) k) :
    x - (x &&& (x - 1)) = 2 ^ k := by
  have bound : 2 ^ k ≤ x := Nat.ge_two_pow_of_testBit least.1
  rw [and_pred least, Nat.sub_sub_self bound]

/-- One halving: an index that was added up so far, and the part of the word that
remains; the upper half is kept when it is not zero. -/
def narrow (width : Nat) (found : Nat × Nat) : Nat × Nat :=
  let t := found.2 >>> width
  if t ≠ 0 then (found.1 + width, t) else found

/-- The search for bit `k` went down to fewer than `limit` bits. -/
def Narrowed (k limit : Nat) (found : Nat × Nat) : Prop :=
  ∃ j < limit, found.2 = 2 ^ j ∧ found.1 + j = k

theorem narrowed_start {k limit : Nat} (below : k < limit) : Narrowed k limit (0, 2 ^ k) :=
  ⟨k, below, rfl, Nat.zero_add k⟩

/-- A halving keeps the bit and halves the limit. -/
theorem Narrowed.narrow {k width : Nat} {found : Nat × Nat}
    (narrowed : Narrowed k (2 * width) found) : Narrowed k width (narrow width found) := by
  obtain ⟨j, bound, power, sum⟩ := narrowed
  have shifted : found.2 >>> width = 2 ^ j / 2 ^ width := by
    rw [Nat.shiftRight_eq_div_pow, power]
  unfold BitScan.narrow
  by_cases upper : width ≤ j
  · have half : found.2 >>> width = 2 ^ (j - width) := by
      rw [shifted, Nat.pow_div upper (by decide)]
    have nonzero : 2 ^ (j - width) ≠ 0 := Nat.ne_of_gt (Nat.two_pow_pos _)
    simp only [half, ne_eq, nonzero, not_false_eq_true, if_true]
    exact ⟨j - width, by omega, rfl, by omega⟩
  · have zero : found.2 >>> width = 0 := by
      rw [shifted, Nat.div_eq_of_lt (Nat.pow_lt_pow_right (by decide) (Nat.not_le.mp upper))]
    simp only [zero, ne_eq, not_true_eq_false, if_false]
    exact ⟨j, Nat.not_le.mp upper, power, sum⟩

end Mysnips.BitScan

import Mathlib.Data.Nat.Size
import Mathlib.Data.Nat.Bitwise

/-! Rounding up to a power of two by smearing the bits of the predecessor, and
bit masks of powers of two. -/
namespace Mysnips.PowersOfTwo

/-- Every bit of `v` copied to the `width - 1` positions below it. -/
def Smeared (width v w : Nat) : Prop :=
  ∀ i, w.testBit i = true ↔ ∃ j < width, v.testBit (i + j) = true

theorem smeared_one (v : Nat) : Smeared 1 v v := by
  intro i
  constructor
  · exact fun bit => ⟨0, Nat.one_pos, bit⟩
  · rintro ⟨j, bound, bit⟩
    obtain rfl : j = 0 := by omega
    exact bit

/-- Or-ing the value with itself shifted by its width doubles the width. -/
theorem Smeared.double {width v w : Nat} (smeared : Smeared width v w) :
    Smeared (2 * width) v (w ||| w >>> width) := by
  intro i
  rw [Nat.testBit_or, Nat.testBit_shiftRight, Bool.or_eq_true, smeared i, smeared (width + i)]
  constructor
  · rintro (⟨j, bound, bit⟩ | ⟨j, bound, bit⟩)
    · exact ⟨j, by omega, bit⟩
    · exact ⟨width + j, by omega, by rwa [show i + (width + j) = width + i + j by omega]⟩
  · rintro ⟨j, bound, bit⟩
    by_cases low : j < width
    · exact Or.inl ⟨j, low, bit⟩
    · exact Or.inr ⟨j - width, by omega, by rwa [show width + i + (j - width) = i + j by omega]⟩

/-- Smeared over its whole width, a value becomes the mask of its bits. -/
theorem Smeared.eq_mask {width v w : Nat} (smeared : Smeared width v w) (fits : v < 2 ^ width) :
    w = 2 ^ v.size - 1 := by
  apply Nat.eq_of_testBit_eq
  intro i
  rw [Nat.testBit_two_pow_sub_one, Bool.eq_iff_iff, smeared i, decide_eq_true_eq, Nat.lt_size]
  constructor
  · rintro ⟨j, _, bit⟩
    exact Nat.le_trans (Nat.pow_le_pow_right (by omega) (Nat.le_add_right i j))
      (Nat.ge_two_pow_of_testBit bit)
  · intro le
    obtain ⟨top, above, bit⟩ := Nat.exists_ge_and_testBit_of_ge_two_pow le
    have bound : 2 ^ top < 2 ^ width := Nat.lt_of_le_of_lt (Nat.ge_two_pow_of_testBit bit) fits
    have short : top < width := (Nat.pow_lt_pow_iff_right (by omega)).mp bound
    exact ⟨top - i, by omega, by rwa [show i + (top - i) = top by omega]⟩

/-- The exponent of the least power of two that is at least `n`. -/
def ceilLog (n : Nat) : Nat := (n - 1).size

theorem ceilLog_le_iff {n k : Nat} (positive : 0 < n) : ceilLog n ≤ k ↔ n ≤ 2 ^ k := by
  rw [ceilLog, Nat.size_le]
  omega

theorem le_pow_ceilLog {n : Nat} (positive : 0 < n) : n ≤ 2 ^ ceilLog n :=
  (ceilLog_le_iff positive).mp (Nat.le_refl _)

end Mysnips.PowersOfTwo

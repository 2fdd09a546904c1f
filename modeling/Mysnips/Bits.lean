import Mathlib.Tactic.IntervalCases
import Mysnips.BitScan
import Mysnips.Machine

/-! The bit scan of `bits/bits.c`. -/
namespace Mysnips.Bits
open Machine BitScan

/-- The table of `find_first_set_bit`: the logarithms of the powers of two below
256, and zeros. -/
def table : List Nat :=
  [0, 0, 1, 0, 2, 0, 0, 0, 3, 0, 0, 0, 0, 0, 0, 0,
   4, 0, 0, 0, 0, 0, 0, 0, 0, 0, 0, 0, 0, 0, 0, 0,
   5, 0, 0, 0, 0, 0, 0, 0, 0, 0, 0, 0, 0, 0, 0, 0,
   0, 0, 0, 0, 0, 0, 0, 0, 0, 0, 0, 0, 0, 0, 0, 0,
   6, 0, 0, 0, 0, 0, 0, 0, 0, 0, 0, 0, 0, 0, 0, 0,
   0, 0, 0, 0, 0, 0, 0, 0, 0, 0, 0, 0, 0, 0, 0, 0,
   0, 0, 0, 0, 0, 0, 0, 0, 0, 0, 0, 0, 0, 0, 0, 0,
   0, 0, 0, 0, 0, 0, 0, 0, 0, 0, 0, 0, 0, 0, 0, 0,
   7, 0, 0, 0, 0, 0, 0, 0, 0, 0, 0, 0, 0, 0, 0, 0,
   0, 0, 0, 0, 0, 0, 0, 0, 0, 0, 0, 0, 0, 0, 0, 0,
   0, 0, 0, 0, 0, 0, 0, 0, 0, 0, 0, 0, 0, 0, 0, 0,
   0, 0, 0, 0, 0, 0, 0, 0, 0, 0, 0, 0, 0, 0, 0, 0,
   0, 0, 0, 0, 0, 0, 0, 0, 0, 0, 0, 0, 0, 0, 0, 0,
   0, 0, 0, 0, 0, 0, 0, 0, 0, 0, 0, 0, 0, 0, 0, 0,
   0, 0, 0, 0, 0, 0, 0, 0, 0, 0, 0, 0, 0, 0, 0, 0,
   0, 0, 0, 0, 0, 0, 0, 0, 0, 0, 0, 0, 0, 0, 0, 0]

/-- `find_first_set_bit`; a read outside the table is a fault. -/
def findFirstSetBit (bits : Nat) : Option Int :=
  if bits = 0 then some (-1)
  else
    let bitsNoRightmost := bits &&& sub64 bits 1
    let bitsOnlyRightmost := sub64 bits bitsNoRightmost
    let (index, bitsOnlyRightmost) :=
      narrow 8 (narrow 16 (narrow 32 (0, bitsOnlyRightmost)))
    table[bitsOnlyRightmost]?.map fun entry : Nat => (index : Int) + entry

theorem table_two_pow {j : Nat} (below : j < 8) : table[2 ^ j]? = some j := by
  interval_cases j <;> rfl

/-- In 64 bits, what clearing the lowest bit took away is that bit. -/
theorem isolated {x k : Nat} (fits : x < 2 ^ 64) (least : IsLeast (setBits x) k) :
    sub64 x (x &&& sub64 x 1) = 2 ^ k := by
  have positive : 0 < x := Nat.lt_of_lt_of_le (Nat.two_pow_pos k) (Nat.ge_two_pow_of_testBit least.1)
  rw [sub64_eq positive fits, sub64_eq Nat.and_le_left fits, sub_and_pred least]

/-- The three halvings of a 64-bit word leave a byte. -/
theorem narrowed_byte {k : Nat} (below : k < 64) :
    Narrowed k 8 (narrow 8 (narrow 16 (narrow 32 (0, 2 ^ k)))) := by
  have start : Narrowed k (2 * 32) (0, 2 ^ k) := narrowed_start below
  have half : Narrowed k (2 * 16) (narrow 32 (0, 2 ^ k)) := start.narrow
  have quarter : Narrowed k (2 * 8) (narrow 16 (narrow 32 (0, 2 ^ k))) := half.narrow
  exact quarter.narrow

/-- The scan returns the lowest set bit, and reads inside the table. -/
theorem findFirstSetBit_eq {x k : Nat} (fits : x < 2 ^ 64) (least : IsLeast (setBits x) k) :
    findFirstSetBit x = some (k : Int) := by
  have bound : 2 ^ k ≤ x := Nat.ge_two_pow_of_testBit least.1
  have nonzero : x ≠ 0 := Nat.ne_of_gt (Nat.lt_of_lt_of_le (Nat.two_pow_pos k) bound)
  have below : k < 64 := (Nat.pow_lt_pow_iff_right (by decide)).mp (Nat.lt_of_le_of_lt bound fits)
  have search := narrowed_byte below
  simp only [findFirstSetBit, nonzero, if_false, isolated fits least]
  generalize narrow 8 (narrow 16 (narrow 32 (0, 2 ^ k))) = found at search
  obtain ⟨j, short, power, sum⟩ := search
  simp only [power, table_two_pow short, Option.map_some, Option.some.injEq]
  omega

end Mysnips.Bits

import Mathlib.Algebra.Group.Int.Defs
import Mathlib.Algebra.Group.Nat.Defs
import Mathlib.Data.Int.Basic
import Mathlib.Tactic.Common

/-! Fixed-width C integers. Unsigned words are natural numbers reduced after
each operation; `int` values are integers folded back into the signed 32-bit
range. Each operation has one lemma saying when it is the exact one. -/
namespace Mysnips.Machine

/-- `size_t`, `uintptr_t` and `uint64_t` sums. -/
def add64 (a b : Nat) : Nat := (a + b) % 2 ^ 64

/-- `size_t`, `uintptr_t` and `uint64_t` differences, which borrow from `2 ^ 64`. -/
def sub64 (a b : Nat) : Nat := (a + (2 ^ 64 - b % 2 ^ 64)) % 2 ^ 64

/-- `size_t`, `uintptr_t` and `uint64_t` products. -/
def mul64 (a b : Nat) : Nat := (a * b) % 2 ^ 64

/-- A value converted to `uint32_t`. -/
def uint32 (a : Nat) : Nat := a % 2 ^ 32

/-- `uint32_t` sums. -/
def add32 (a b : Nat) : Nat := (a + b) % 2 ^ 32

/-- `uint32_t` differences. -/
def sub32 (a b : Nat) : Nat := (a + (2 ^ 32 - b % 2 ^ 32)) % 2 ^ 32

/-- `uint32_t` products. -/
def mul32 (a b : Nat) : Nat := (a * b) % 2 ^ 32

/-- A value converted to `int`, two's complement. -/
def int32 (value : Int) : Int := value.bmod (2 ^ 32)

/-- An `int` converted to `size_t` or `uintptr_t`: negative values wrap around. -/
def ofInt (value : Int) : Nat := (value % 2 ^ 64).toNat

theorem add64_eq {a b : Nat} (fits : a + b < 2 ^ 64) : add64 a b = a + b :=
  Nat.mod_eq_of_lt fits

theorem sub64_eq {a b : Nat} (le : b ≤ a) (fits : a < 2 ^ 64) : sub64 a b = a - b := by
  unfold sub64
  omega

theorem mul64_eq {a b : Nat} (fits : a * b < 2 ^ 64) : mul64 a b = a * b :=
  Nat.mod_eq_of_lt fits

theorem uint32_eq {a : Nat} (fits : a < 2 ^ 32) : uint32 a = a := Nat.mod_eq_of_lt fits

theorem add32_eq {a b : Nat} (fits : a + b < 2 ^ 32) : add32 a b = a + b :=
  Nat.mod_eq_of_lt fits

theorem sub32_eq {a b : Nat} (le : b ≤ a) (fits : a < 2 ^ 32) : sub32 a b = a - b := by
  unfold sub32
  omega

theorem mul32_eq {a b : Nat} (fits : a * b < 2 ^ 32) : mul32 a b = a * b :=
  Nat.mod_eq_of_lt fits

theorem int32_eq {value : Int} (low : -2 ^ 31 ≤ value) (high : value < 2 ^ 31) :
    int32 value = value := by
  unfold int32
  exact Int.bmod_eq_of_le (by omega) (by omega)

theorem int32_lt (value : Int) : int32 value < 2 ^ 31 := by
  have bound : value.bmod (2 ^ 32) < ((2 ^ 32 : Nat) + 1) / 2 := Int.bmod_lt (by decide)
  unfold int32
  omega

/-- The fold takes away a multiple of `2 ^ 32`. -/
theorem int32_folds (value : Int) :
    ∃ m : Int, int32 value = value - 2 ^ 32 * m ∧ -2 ^ 31 ≤ int32 value ∧ int32 value < 2 ^ 31 := by
  refine ⟨value.bdiv (2 ^ 32), ?_, ?_, int32_lt value⟩
  · exact Int.bmod_eq_self_sub_mul_bdiv value (2 ^ 32)
  · have bound := Int.le_bmod (x := value) (m := 2 ^ 32) (by decide)
    unfold int32
    omega

/-- It makes no number larger. -/
theorem int32_le (a : Nat) : int32 (a : Int) ≤ a := by
  obtain ⟨m, folded, low, high⟩ := int32_folds a
  omega

theorem ofInt_eq {value : Int} (low : 0 ≤ value) (high : value < 2 ^ 64) :
    ofInt value = value.toNat := by
  unfold ofInt
  omega

theorem int32_natCast {a : Nat} (fits : a < 2 ^ 31) : int32 (a : Int) = a :=
  int32_eq (by omega) (by omega)

theorem int32_natCast_iff (a : Nat) : int32 (a : Int) = a ↔ a < 2 ^ 31 := by
  refine ⟨fun same => ?_, int32_natCast⟩
  have below := int32_lt a
  omega

theorem ofInt_natCast {a : Nat} (fits : a < 2 ^ 64) : ofInt (a : Int) = a := by
  rw [ofInt_eq (by omega) (by omega), Int.toNat_natCast]

/-- A counter that is set to zero where it reaches its limit. -/
theorem wrapping_succ {count limit : Nat} (below : count < limit) :
    (if count + 1 = limit then 0 else count + 1) = (count + 1) % limit := by
  split
  · rename_i reached
    rw [reached, Nat.mod_self]
  · exact (Nat.mod_eq_of_lt (by omega)).symm

/-- `-p & (align - 1)` for a power of two: the distance to the next multiple. -/
theorem negated_mask (p : Nat) {k : Nat} (le : k ≤ 64) :
    sub64 0 p &&& (2 ^ k - 1) = (2 ^ k - p % 2 ^ k) % 2 ^ k := by
  have divides : 2 ^ k ∣ 2 ^ 64 := Nat.pow_dvd_pow 2 le
  have reduced : p % 2 ^ 64 % 2 ^ k = p % 2 ^ k := Nat.mod_mod_of_dvd p divides
  have below := Nat.mod_lt p (Nat.two_pow_pos 64)
  have inside := Nat.mod_lt p (Nat.two_pow_pos k)
  obtain ⟨d, split⟩ := divides
  rw [sub64, Nat.and_two_pow_sub_one_eq_mod, Nat.zero_add, Nat.mod_mod_of_dvd _ ⟨d, split⟩]
  have parts := Nat.div_add_mod (p % 2 ^ 64) (2 ^ k)
  rw [reduced] at parts
  have positive : p % 2 ^ 64 / 2 ^ k < d := by
    rw [Nat.div_lt_iff_lt_mul (Nat.two_pow_pos k), Nat.mul_comm, ← split]
    exact below
  -- Both sides differ by a multiple of the alignment.
  obtain ⟨e, rest⟩ := Nat.exists_eq_add_of_lt positive
  have whole : 2 ^ 64 - p % 2 ^ 64 = 2 ^ k - p % 2 ^ k + 2 ^ k * e := by
    rw [rest, Nat.mul_add, Nat.mul_add, Nat.mul_one] at split
    omega
  rw [whole, Nat.add_mul_mod_self_left]

end Mysnips.Machine

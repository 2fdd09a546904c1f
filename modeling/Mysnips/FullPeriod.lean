import Mathlib.Algebra.Ring.Parity
import Mathlib.Data.Fintype.EquivFin
import Mathlib.Data.Nat.ModEq
import Mathlib.Data.Nat.Prime.Basic
import Mathlib.Tactic.Ring

/-! The recurrence `x ↦ (5 * x + 1) mod 2 ^ n` visits every residue before it
repeats itself. Two equal terms that are `d` steps apart make `2 ^ n` divide the
sum of the first `d` powers of 5, and that sum is even only as often as `d` is. -/
namespace Mysnips.FullPeriod

/-- The sum of the first powers of 5. -/
def powers : Nat → Nat
  | 0 => 0
  | d + 1 => 5 * powers d + 1

/-- The terms of the recurrence from a starting residue, before reduction. -/
def orbit (x : Nat) : Nat → Nat
  | 0 => x
  | k + 1 => 5 * orbit x k + 1

theorem pow_eq (d : Nat) : 5 ^ d = 4 * powers d + 1 := by
  induction d with
  | zero => rfl
  | succ d ih =>
    rw [pow_succ, ih, powers]
    ring

theorem orbit_add (x d k : Nat) : orbit x (k + d) = orbit (orbit x k) d := by
  induction d with
  | zero => rfl
  | succ d ih => rw [Nat.add_succ, orbit, ih, orbit]

theorem orbit_eq (x d : Nat) : orbit x d = x + powers d * (4 * x + 1) := by
  induction d with
  | zero => simp [orbit, powers]
  | succ d ih =>
    rw [orbit, ih, powers]
    ring

private theorem powers_double (e : Nat) : powers (e + e) = powers e * (5 ^ e + 1) := by
  have doubled := pow_eq (e + e)
  have single := pow_eq e
  have product : 5 ^ (e + e) = 5 ^ e * 5 ^ e := pow_add 5 e e
  rw [single] at product ⊢
  have expanded : (4 * powers e + 1) * (4 * powers e + 1) =
      4 * (powers e * (4 * powers e + 1 + 1)) + 1 := by ring
  omega

private theorem powers_parity (d : Nat) : powers d % 2 = d % 2 := by
  induction d with
  | zero => rfl
  | succ d ih =>
    rw [powers]
    omega

/-- The sum is divisible by a power of two only when the number of terms is. -/
theorem dvd_of_dvd_powers (n d : Nat) (divides : 2 ^ n ∣ powers d) : 2 ^ n ∣ d := by
  induction n generalizing d with
  | zero => simp
  | succ n ih =>
    have parity := powers_parity d
    have even : powers d % 2 = 0 :=
      Nat.mod_eq_zero_of_dvd (Nat.dvd_trans (Dvd.intro_left (2 ^ n) rfl) divides)
    obtain ⟨e, rfl⟩ : ∃ e, d = e + e := ⟨d / 2, by omega⟩
    -- the second factor is twice an odd number
    have single := pow_eq e
    have factor : 5 ^ e + 1 = 2 * (2 * powers e + 1) := by omega
    rw [powers_double, factor, pow_succ, Nat.mul_comm (2 ^ n) 2, Nat.mul_left_comm,
      Nat.mul_dvd_mul_iff_left (by omega)] at divides
    have odd : Nat.Coprime (2 ^ n) (2 * powers e + 1) := by
      apply Nat.Coprime.pow_left
      rw [Nat.coprime_two_left]
      exact ⟨powers e, rfl⟩
    have half := ih e (odd.dvd_of_dvd_mul_right divides)
    rw [pow_succ, Nat.mul_two]
    rw [← Nat.mul_two, ← Nat.mul_two]
    exact Nat.mul_dvd_mul_right half 2

/-- Terms less than a period apart differ. -/
private theorem orbit_injective {n x k l : Nat} (before : k < l) (close : l < 2 ^ n) :
    orbit x k % 2 ^ n ≠ orbit x l % 2 ^ n := by
  intro same
  obtain ⟨d, rfl⟩ := Nat.exists_eq_add_of_lt before
  rw [show k + d + 1 = k + (d + 1) by omega, orbit_add, orbit_eq (orbit x k)] at same
  have divides := (Nat.modEq_iff_dvd' (Nat.le_add_right _ _)).mp same
  rw [Nat.add_sub_cancel_left] at divides
  have odd : Nat.Coprime (2 ^ n) (4 * orbit x k + 1) := by
    apply Nat.Coprime.pow_left
    rw [Nat.coprime_two_left]
    exact ⟨2 * orbit x k, by ring⟩
  have period := dvd_of_dvd_powers n (d + 1) (odd.dvd_of_dvd_mul_right divides)
  have := Nat.le_of_dvd (Nat.succ_pos d) period
  omega

/-- Every residue is a term before the recurrence repeats itself. -/
theorem orbit_surjective (n x : Nat) {target : Nat} (inside : target < 2 ^ n) :
    ∃ k < 2 ^ n, orbit x k % 2 ^ n = target := by
  have positive : 0 < 2 ^ n := Nat.two_pow_pos n
  let visit : Fin (2 ^ n) → Fin (2 ^ n) := fun k => ⟨orbit x k % 2 ^ n, Nat.mod_lt _ positive⟩
  have injective : Function.Injective visit := by
    intro k l same
    have terms : orbit x k % 2 ^ n = orbit x l % 2 ^ n := congrArg Fin.val same
    rcases Nat.lt_trichotomy k.val l.val with before | equal | behind
    · exact absurd terms (orbit_injective before l.isLt)
    · exact Fin.ext equal
    · exact absurd terms.symm (orbit_injective behind k.isLt)
  obtain ⟨k, visited⟩ := Finite.surjective_of_injective injective ⟨target, inside⟩
  exact ⟨k, k.isLt, congrArg Fin.val visited⟩

end Mysnips.FullPeriod

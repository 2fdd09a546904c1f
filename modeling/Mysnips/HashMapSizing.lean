import Mathlib.Order.Bounds.Basic
import Mysnips.HashMapTermination

/-! The sizes of the hash map and the `int` arithmetic on them. A requested size is
rounded up exactly up to `2 ^ 30`; the product of the load test needs the pool to
stay at `2 ^ 28` slots, and nothing checks that it does. -/
namespace Mysnips.HashMap
open Machine PowersOfTwo Transition

/-- The value is in the range of an `int`. -/
def IsInt (value : Int) : Prop := -2 ^ 31 ≤ value ∧ value < 2 ^ 31

instance (value : Int) : Decidable (IsInt value) :=
  inferInstanceAs (Decidable (-2 ^ 31 ≤ value ∧ value < 2 ^ 31))

/-- The size that `resize` rounds up, for a resize to twice the size. -/
def resizeTarget (used size : Int) : Int :=
  let newSize := int32 (2 * size)
  let newSize := if newSize < used then used else newSize
  if newSize < 8 then 8 else newSize

/-- The products of the load test, the doubling, and the two increments of
`next_pow2` in `resize` are in the range of an `int`. -/
structure OverflowFree (used size : Int) : Prop where
  usedProduct : IsInt (used * 10)
  sizeProduct : IsInt (size * 7)
  doubled : IsInt (2 * size)
  predecessor : IsInt (resizeTarget used size - 1)
  successor : IsInt ((smear (resizeTarget used size)).toInt + 1)

/-- An insert that finds the load test true does so at fewer than `2 ^ 28` slots. -/
def GrowsInRange (map : Map) : Call → Prop
  | .insert _ _ => shouldResize map = true → map.size < 2 ^ 28
  | _ => True

instance (map : Map) (call : Call) : Decidable (GrowsInRange map call) :=
  match call with
  | .insert _ _ => inferInstanceAs (Decidable (shouldResize map = true → map.size < 2 ^ 28))
  | .remove _ => inferInstanceAs (Decidable True)
  | .select _ => inferInstanceAs (Decidable True)
  | .exists _ => inferInstanceAs (Decidable True)
  | .count => inferInstanceAs (Decidable True)

/-- The powers of two that are not below a requested size, nor below 8. -/
def sizesFor (initSize : Int) : Set Int := {size | ∃ k : Nat, size = 2 ^ k ∧ max initSize 8 ≤ size}

variable {reentrant : Bool} {map map' : Map} {n : Nat}

/-! ### Overflow -/

/-- The last increment of `next_pow2` gives a power of two. -/
theorem smear_succ {v : Nat} (positive : 0 < v) (small : v ≤ 2 ^ 30) :
    (smear v).toInt + 1 = (2 ^ ceilLog v : Nat) := by
  have bound : 2 ^ ceilLog v ≤ 2 ^ 30 :=
    Nat.pow_le_pow_right (by decide) ((ceilLog_le_iff positive).mpr small)
  have nonzero := Nat.two_pow_pos (ceilLog v)
  have word := smear_toNat positive (Nat.lt_of_le_of_lt small (by decide))
  rw [BitVec.toInt_eq_toNat_of_lt (by omega), word]
  omega

/-- Up to `2 ^ 28` slots, and with a load that the load test lets through, all of the
arithmetic is exact. -/
theorem overflowFree_of_small {used size : Int} (nonneg : 0 ≤ used)
    (load : used * 10 < size * 7 + 10) (low : 8 ≤ size) (high : size ≤ 2 ^ 28) :
    OverflowFree used size := by
  have doubled : int32 (2 * size) = 2 * size := int32_eq (by omega) (by omega)
  have target : resizeTarget used size = ((2 * size).toNat : Int) := by
    simp only [resizeTarget, doubled, if_neg (show ¬ 2 * size < used by omega),
      if_neg (show ¬ 2 * size < 8 by omega)]
    omega
  have bound : ceilLog (2 * size).toNat ≤ 30 := (ceilLog_le_iff (by omega)).mpr (by omega)
  have power : 2 ^ ceilLog (2 * size).toNat ≤ 2 ^ 30 := Nat.pow_le_pow_right (by decide) bound
  refine ⟨⟨by omega, by omega⟩, ⟨by omega, by omega⟩, ⟨by omega, by omega⟩, ?_, ?_⟩
  · rw [target]
    exact ⟨by omega, by omega⟩
  · have nonneg : (0 : Int) ≤ (2 ^ ceilLog (2 * size).toNat : Nat) := Int.natCast_nonneg _
    rw [target, smear_succ (by omega) (by omega)]
    exact ⟨by omega, by omega⟩

theorem Valid.overflowFree (valid : Valid map n) : OverflowFree map.used map.size :=
  overflowFree_of_small valid.used_bounds.1 valid.load valid.size_bounds.1 valid.size_bounds.2

/-- The inserts that a resize calls back run at twice the size, and their load tests
are exact when that is at most `2 ^ 28`. -/
theorem Valid.resized_overflowFree_iff (valid : Valid map n) :
    (∀ used, 0 ≤ used → used ≤ map.used →
      OverflowFree used (nextPow2 (resizeTarget map.used map.size))) ↔ map.size < 2 ^ 28 := by
  have bounds := valid.size_bounds
  have used := valid.used_bounds
  have load := valid.load
  have doubled : 2 * map.size = ((2 ^ (n + 1) : Nat) : Int) := by
    rw [valid.size, Nat.pow_succ]
    push_cast
    ring
  have target : resizeTarget map.used map.size = 2 * map.size := by
    simp only [resizeTarget, int32_eq (show -2 ^ 31 ≤ 2 * map.size by omega) (by omega),
      if_neg (show ¬ 2 * map.size < map.used by omega), if_neg (show ¬ 2 * map.size < 8 by omega)]
  have rounded : nextPow2 (resizeTarget map.used map.size) = 2 * map.size := by
    rw [target, doubled, nextPow2_two_pow (Nat.succ_le_succ (Nat.le_trans valid.high (by decide)))]
  rw [rounded]
  constructor
  · intro fits
    have upper := (fits 0 (Int.le_refl 0) used.1).sizeProduct.2
    omega
  · intro small k nonneg below
    have level := valid.lt_of_size small
    have power : 2 ^ (n + 1) ≤ 2 ^ 28 := Nat.pow_le_pow_right (by decide) level
    exact overflowFree_of_small nonneg (by omega) (by omega) (by omega)

/-! ### Creation -/

section Create

variable {initSize : Int}

theorem create_size_exact (isInt : initSize < 2 ^ 31) (small : initSize ≤ 2 ^ 30) :
    (create reentrant initSize).size = (2 ^ ceilLog (max initSize 8).toNat : Nat) := by
  have bound : ceilLog (max initSize 8).toNat ≤ 30 := (ceilLog_le_iff (by omega)).mpr (by omega)
  have power : 2 ^ ceilLog (max initSize 8).toNat ≤ 2 ^ 30 := Nat.pow_le_pow_right (by decide) bound
  rw [create_size reentrant isInt, int32_natCast (by omega)]

theorem create_size_overflow (isInt : initSize < 2 ^ 31) (large : 2 ^ 30 < initSize) :
    (create reentrant initSize).size = -2 ^ 31 := by
  have bound : ceilLog (max initSize 8).toNat ≤ 31 := (ceilLog_le_iff (by omega)).mpr (by omega)
  have past : ¬ ceilLog (max initSize 8).toNat ≤ 30 := by
    rw [ceilLog_le_iff (by omega)]
    omega
  have top : ceilLog (max initSize 8).toNat = 31 := by omega
  rw [create_size reentrant isInt, top]
  decide

/-- The size is the least power of two in range exactly up to `2 ^ 30`. -/
theorem create_least_iff (isInt : initSize < 2 ^ 31) :
    IsLeast (sizesFor initSize) (create reentrant initSize).size ↔ initSize ≤ 2 ^ 30 := by
  have positive : 0 < (max initSize 8).toNat := by omega
  constructor
  · rintro ⟨⟨k, -, above⟩, -⟩
    by_contra large
    rw [create_size_overflow isInt (by omega)] at above
    omega
  · intro small
    rw [create_size_exact isInt small]
    constructor
    · have holds := le_pow_ceilLog positive
      refine ⟨ceilLog (max initSize 8).toNat, by push_cast; rfl, by omega⟩
    · rintro _ ⟨k, rfl, above⟩
      have request : (max initSize 8).toNat ≤ 2 ^ k := by
        have cast : ((2 ^ k : Nat) : Int) = 2 ^ k := by push_cast; rfl
        omega
      have level := (ceilLog_le_iff positive).mpr request
      exact_mod_cast Nat.pow_le_pow_right (show 0 < 2 by decide) level

theorem create_positive (reentrant : Bool) (isInt : initSize < 2 ^ 31) (small : initSize ≤ 2 ^ 28) :
    0 < (create reentrant initSize).size ∧ (create reentrant initSize).size ≤ 2 ^ 28 := by
  have bound : ceilLog (max initSize 8).toNat ≤ 28 := (ceilLog_le_iff (by omega)).mpr (by omega)
  have power : 2 ^ ceilLog (max initSize 8).toNat ≤ 2 ^ 28 := Nat.pow_le_pow_right (by decide) bound
  have nonzero := Nat.two_pow_pos (ceilLog (max initSize 8).toNat)
  rw [create_size_exact isInt (by omega)]
  omega

/-- The arithmetic on a created map is exact up to `2 ^ 28`. -/
theorem create_overflowFree_iff (isInt : initSize < 2 ^ 31) :
    OverflowFree 0 (create reentrant initSize).size ↔ initSize ≤ 2 ^ 28 := by
  constructor
  · intro fits
    obtain ⟨lower, upper⟩ := fits.sizeProduct
    by_contra large
    by_cases rounded : initSize ≤ 2 ^ 30
    · have holds := le_pow_ceilLog (n := (max initSize 8).toNat) (by omega)
      rw [create_size_exact isInt rounded] at upper
      have level : 28 < ceilLog (max initSize 8).toNat := by
        by_contra short
        have within := (ceilLog_le_iff (by omega)).mp (Nat.le_of_not_lt short)
        omega
      have power : 2 ^ 29 ≤ 2 ^ ceilLog (max initSize 8).toNat :=
        Nat.pow_le_pow_right (by decide) level
      omega
    · rw [create_size_overflow isInt (by omega)] at lower
      omega
  · intro small
    obtain ⟨positive, bound⟩ := create_positive reentrant isInt small
    obtain ⟨n, valid, -, -⟩ := create_spec isInt positive bound
    exact valid.overflowFree

end Create

/-! ### Runs -/

/-- A call that grows the pool in range keeps the map valid. -/
theorem Valid.step {call : Call} {fuel : Nat} {result : Result} (valid : Valid map n)
    (grows : GrowsInRange map call) (performed : map.perform fuel call = .ok (map', result)) :
    ∃ n', Valid map' n' := by
  rcases perform_cases valid performed with
    ⟨key, value, rfl, inserted⟩ | ⟨key, answer, rfl, removed⟩ | rfl
  · obtain ⟨-, -, -, outcome⟩ :=
      insert_spec valid (fun full => valid.lt_of_size (grows full)) inserted
    rcases outcome with ⟨-, placed⟩ | ⟨-, doubled, -⟩
    · exact ⟨n, placed.valid⟩
    · exact ⟨n + 1, doubled⟩
  · exact ⟨n, (remove_spec valid removed).1⟩
  · exact ⟨n, valid⟩

/-- In a run whose inserts grow the pool in range, every map is valid. -/
theorem valid_of_reachable {initSize : Int} (isInt : initSize < 2 ^ 31) (small : initSize ≤ 2 ^ 28)
    (reached : ((maps reentrant initSize).restrict fun map step => GrowsInRange map step.1).Reachable map) :
    ∃ n, Valid map n := by
  apply reached.invariant (P := fun map => ∃ n, Valid map n)
  · rintro map rfl
    obtain ⟨positive, bound⟩ := create_positive reentrant isInt small
    obtain ⟨n, valid, -, -⟩ := create_spec isInt positive bound
    exact ⟨n, valid⟩
  · rintro map ⟨call, fuel⟩ map' _ ⟨n, valid⟩ moved
    obtain ⟨grows, moved⟩ := System.restrict_next.mp moved
    obtain ⟨result, performed⟩ := maps_next moved
    exact valid.step grows performed

/-- A requested size is rounded up exactly up to `2 ^ 30`. The arithmetic of a created
map is exact up to `2 ^ 28`, and stays so in every run whose inserts resize at fewer
than `2 ^ 28` slots; in such a run that is also when the inserts that a resize calls
back are exact. -/
theorem hash_map_sizing (reentrant : Bool) {initSize : Int} (isInt : IsInt initSize) :
    (IsLeast (sizesFor initSize) (create reentrant initSize).size ↔ initSize ≤ 2 ^ 30) ∧
    (OverflowFree 0 (create reentrant initSize).size ↔ initSize ≤ 2 ^ 28) ∧
    (initSize ≤ 2 ^ 28 → ∀ map : Map,
      ((maps reentrant initSize).restrict fun map step => GrowsInRange map step.1).Reachable map →
        OverflowFree map.used map.size ∧
        ((∀ used, 0 ≤ used → used ≤ map.used →
          OverflowFree used (nextPow2 (resizeTarget map.used map.size))) ↔ map.size < 2 ^ 28)) := by
  refine ⟨create_least_iff isInt.2, create_overflowFree_iff isInt.2, fun small map reached => ?_⟩
  obtain ⟨n, valid⟩ := valid_of_reachable isInt.2 small reached
  exact ⟨valid.overflowFree, valid.resized_overflowFree_iff⟩

theorem hash_map_sizing_of_default :
    IsLeast (sizesFor 8) (create false 8).size ∧
      OverflowFree (create false 8).used (create false 8).size := by
  obtain ⟨least, -, runs⟩ := hash_map_sizing false (show IsInt 8 by decide)
  exact ⟨least.mpr (by decide),
    (runs (by decide) (create false 8) (System.Reachable.start rfl)).1⟩

/-- Past `2 ^ 30` the size of a new map is negative; at `2 ^ 29` slots the first load test
overflows. -/
theorem hash_map_sizing_overflows :
    (create true (2 ^ 30 + 1)).size = -2 ^ 31 ∧
      (create true (2 ^ 29)).size = 2 ^ 29 ∧ ¬ IsInt ((create true (2 ^ 29)).size * 7) := by
  have half : (create true (2 ^ 29)).size = 2 ^ 29 := by decide
  refine ⟨by decide, half, ?_⟩
  rw [half]
  decide

end Mysnips.HashMap

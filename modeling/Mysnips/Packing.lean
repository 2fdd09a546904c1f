import Mathlib.Data.List.Perm.Subperm
import Mathlib.Data.List.Range

/-! Items of one size in a window: how many positions fit when no two items
overlap. Positions on a grid are the densest ones. -/
namespace Mysnips.Packing

/-- No two items of the given size at these positions overlap. -/
def Apart (size : Nat) (points : List Nat) : Prop :=
  points.Pairwise fun x y => x + size ≤ y ∨ y + size ≤ x

/-- An item behind another one starts in a later cell of the window. -/
theorem cell_lt {size low x y : Nat} (positive : 0 < size) (window : low ≤ x) (far : x + size ≤ y) :
    (x - low) / size < (y - low) / size := by
  have step : (x - low + size) / size ≤ (y - low) / size := Nat.div_le_div_right (by omega)
  rwa [Nat.add_div_right _ positive] at step

/-- Items that lie apart in a window are at most as many as the strides that fit. -/
theorem Apart.span_le {size low high n : Nat} {points : List Nat} (positive : 0 < size)
    (apart : Apart size points) (inside : ∀ x ∈ points, low ≤ x ∧ x ≤ high)
    (count : points.length = n + 1) : low + n * size ≤ high := by
  -- every item has a cell of the window to itself
  have distinct : (points.map fun x => (x - low) / size).Nodup := by
    rw [List.Nodup, List.pairwise_map]
    refine apart.imp_of_mem ?_
    intro x y xIn yIn far
    rcases far with far | far
    · exact Nat.ne_of_lt (cell_lt positive (inside x xIn).1 far)
    · exact Nat.ne_of_gt (cell_lt positive (inside y yIn).1 far)
  have cells : (points.map fun x => (x - low) / size) ⊆ List.range ((high - low) / size + 1) := by
    intro cell member
    obtain ⟨x, xIn, rfl⟩ := List.mem_map.mp member
    have bound := (inside x xIn).2
    exact List.mem_range.mpr (Nat.lt_succ_of_le (Nat.div_le_div_right (by omega)))
  have few := (List.subperm_of_subset distinct cells).length_le
  rw [List.length_map, List.length_range, count] at few
  have nonempty : points ≠ [] := List.ne_nil_of_length_eq_add_one count
  obtain ⟨x, xIn⟩ := List.exists_mem_of_ne_nil points nonempty
  have window := inside x xIn
  have strides := (Nat.le_div_iff_mul_le positive).mp (Nat.le_of_succ_le_succ few)
  omega

/-- The first `n` positions of a grid. -/
def grid (start stride n : Nat) : List Nat := (List.range n).map fun i => start + i * stride

@[simp] theorem length_grid (start stride n : Nat) : (grid start stride n).length = n := by
  simp [grid]

theorem mem_grid {start stride n x : Nat} :
    x ∈ grid start stride n ↔ ∃ i < n, start + i * stride = x := by
  simp [grid]

theorem grid_apart {size stride : Nat} (le : size ≤ stride) (start n : Nat) :
    Apart size (grid start stride n) := by
  rw [Apart, grid, List.pairwise_map]
  refine List.pairwise_lt_range.imp ?_
  intro i j less
  have step : i * stride + stride ≤ j * stride := by
    rw [← Nat.succ_mul]
    exact Nat.mul_le_mul_right stride less
  omega

end Mysnips.Packing

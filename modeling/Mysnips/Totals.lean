import Mathlib.Algebra.Order.BigOperators.Group.Finset
import Mathlib.Data.Fintype.Basic

/-! What finitely many threads contribute together, each by where it is. When one
thread moves, the total changes by what that thread contributes less and more. -/
namespace Mysnips.Totals

section Total

variable {Thread Place Amount : Type*} [Fintype Thread] [AddCommMonoid Amount]

/-- The sum of what the threads contribute. -/
def total (weight : Place → Amount) (place : Thread → Place) : Amount :=
  ∑ thread, weight (place thread)

variable {weight : Place → Amount} {place : Thread → Place}

theorem total_zero (none : ∀ thread, weight (place thread) = 0) : total weight place = 0 :=
  Finset.sum_eq_zero fun thread _ => none thread

theorem total_pos {weight : Place → Nat} {thread : Thread} (positive : 0 < weight (place thread)) :
    0 < total weight place := by
  have part : weight (place thread) ≤ ∑ thread, weight (place thread) :=
    Finset.single_le_sum (f := fun thread => weight (place thread)) (fun _ _ => Nat.zero_le _)
      (Finset.mem_univ thread)
  exact Nat.lt_of_lt_of_le positive part

variable [DecidableEq Thread]

theorem total_update (weight : Place → Amount) (place : Thread → Place) (thread : Thread)
    (target : Place) :
    total weight (Function.update place thread target) + weight (place thread) =
      total weight place + weight target := by
  have others : ∑ other ∈ Finset.univ.erase thread,
        weight (Function.update place thread target other) =
      ∑ other ∈ Finset.univ.erase thread, weight (place other) := by
    apply Finset.sum_congr rfl
    intro other member
    rw [Function.update_of_ne (Finset.ne_of_mem_erase member)]
  rw [total, total, ← Finset.add_sum_erase _ _ (Finset.mem_univ thread), others,
    Function.update_self, ← Finset.add_sum_erase _ _ (Finset.mem_univ thread)]
  ac_rfl

theorem total_same [IsCancelAdd Amount] {thread : Thread} {target : Place}
    (same : weight target = weight (place thread)) :
    total weight (Function.update place thread target) = total weight place := by
  have moved := total_update weight place thread target
  rw [same] at moved
  exact add_right_cancel moved

end Total

/-- How many of some places have a property, where one of them is changed. -/
theorem countP_update {Thread Place : Type*} [DecidableEq Thread] {places : List Thread} (distinct : places.Nodup) (p : Place → Bool)
    (place : Thread → Place) {thread : Thread} (member : thread ∈ places) (target : Place) :
    places.countP (fun other => p (Function.update place thread target other)) +
        (p (place thread)).toNat =
      places.countP (fun other => p (place other)) + (p target).toNat := by
  have split := fun q : Thread → Bool => (List.perm_cons_erase member).countP_eq q
  have others : (places.erase thread).countP (fun other => p (Function.update place thread target other)) =
      (places.erase thread).countP (fun other => p (place other)) := by
    apply List.countP_congr
    intro other left
    rw [Function.update_of_ne ((List.Nodup.mem_erase_iff distinct).mp left).1]
  rw [split, split, List.countP_cons, List.countP_cons, others, Function.update_self]
  cases p (place thread) <;> cases p target <;> simp [Nat.add_comm]

end Mysnips.Totals

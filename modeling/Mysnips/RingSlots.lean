import Mathlib.Data.Int.ModEq
import Mathlib.Data.Nat.ModEq
import Mysnips.Memory

/-! Rings of equal cells. A region of `size` cells is addressed by indices that
only grow: an index uses the cell at its remainder. Indices less than `size` apart
use different cells, so a window of at most `size` indices is stored without
overlap. A queue in a ring is such a window: it grows behind its last item and
shrinks at its first one. -/
namespace Mysnips.RingSlots
open Memory

variable {α : Type*} {region : List α} {cell size : Nat}

/-- Where the cell of an index starts. -/
def slot (cell size index : Nat) : Nat := cell * (index % size)

/-- The item in the cell of an index. -/
def item (region : List α) (cell size index : Nat) : Option (List α) :=
  load region (slot cell size index) cell

/-- Indices in one window use different cells. -/
theorem mod_ne_of_window (low : Nat) {i j : Nat} (different : i ≠ j) (lowI : low ≤ i)
    (highI : i < low + size) (lowJ : low ≤ j) (highJ : j < low + size) : i % size ≠ j % size := by
  intro same
  rcases Nat.lt_or_gt_of_ne different with less | less
  · have divides := (Nat.modEq_iff_dvd' (Nat.le_of_lt less)).mp same
    exact absurd (Nat.le_of_dvd (by omega) divides) (by omega)
  · have divides := (Nat.modEq_iff_dvd' (Nat.le_of_lt less)).mp same.symm
    exact absurd (Nat.le_of_dvd (by omega) divides) (by omega)

/-- The cell of an index lies inside the ring. -/
theorem slot_inside (positive : 0 < size) (index : Nat) :
    slot cell size index + cell ≤ cell * size := by
  have below := Nat.mod_lt index positive
  calc slot cell size index + cell = cell * (index % size + 1) := by rw [slot, Nat.mul_succ]
    _ ≤ cell * size := Nat.mul_le_mul_left _ below

/-- Different cells do not overlap. -/
theorem slots_apart {i j : Nat} (different : i % size ≠ j % size) :
    slot cell size i + cell ≤ slot cell size j ∨ slot cell size j + cell ≤ slot cell size i := by
  have ordered : ∀ {a b : Nat}, a < b → cell * a + cell ≤ cell * b := by
    intro a b less
    calc cell * a + cell = cell * (a + 1) := by rw [Nat.mul_succ]
      _ ≤ cell * b := Nat.mul_le_mul_left _ less
  rcases Nat.lt_or_gt_of_ne different with less | less
  · exact Or.inl (ordered less)
  · exact Or.inr (ordered less)

/-- The cells up to the end of the ring lie behind each other. -/
theorem slot_add {start k : Nat} (inside : start % size + k < size) :
    slot cell size (start + k) = slot cell size start + cell * k := by
  have turn : (start + k) % size = start % size + k := by
    rw [← Nat.mod_add_mod, Nat.mod_eq_of_lt inside]
  rw [slot, slot, turn, Nat.mul_add]

/-- Items that do not wrap around are read in one piece. -/
theorem load_run (whole : region.length = cell * size) {start count : Nat}
    (inside : start % size + count ≤ size) :
    ∃ values : List (List α), (List.range' start count).map (item region cell size) = values.map some ∧
      load region (slot cell size start) (cell * count) = some values.flatten := by
  induction count with
  | zero =>
    have start_le : slot cell size start ≤ cell * size := Nat.mul_le_mul_left _ inside
    exact ⟨[], rfl, load_eq (by omega)⟩
  | succ count ih =>
    obtain ⟨values, items, loaded⟩ := ih (by omega)
    have last : slot cell size (start + count) + cell ≤ region.length := by
      rw [whole]
      exact slot_inside (by omega) _
    refine ⟨values ++ [(region.drop (slot cell size (start + count))).take cell], ?_, ?_⟩
    · rw [List.range'_concat, List.map_append, items, List.map_append, Nat.one_mul,
        List.map_singleton, List.map_singleton, item, load_eq last]
    · rw [slot_add (by omega)] at last ⊢
      rw [Nat.mul_succ, List.flatten_append, List.flatten_singleton]
      exact load_append loaded (load_eq last)

/-- An item written to its cell is read back, and no other cell changes. -/
theorem write_item (positive : 0 < size) (whole : region.length = cell * size) {value : List α}
    (length : value.length = cell) (index : Nat) :
    ∃ result, store region (slot cell size index) value = some result ∧
      result.length = region.length ∧ item result cell size index = some value ∧
      ∀ j, j % size ≠ index % size → item result cell size j = item region cell size j := by
  have inside : slot cell size index + value.length ≤ region.length := by
    rw [length, whole]
    exact slot_inside positive index
  obtain ⟨result, stored⟩ : ∃ result, store region (slot cell size index) value = some result :=
    ⟨_, store_eq inside⟩
  refine ⟨result, stored, store_length stored, ?_, fun j different => ?_⟩
  · have same := load_store_same stored
    rwa [length] at same
  · apply load_store_apart stored
    rw [length]
    exact slots_apart different

/-! ## Displaced indices

An index that is displaced before its remainder is taken uses another cell. As long as
a whole window is displaced alike its indices still use different cells. -/

section Displaced

variable {low i j : Nat}

theorem displaced_inj (d : Int) (lowI : low ≤ i) (highI : i < low + size) (lowJ : low ≤ j)
    (highJ : j < low + size) (same : (i + d) % size = (j + d) % size) : i = j := by
  by_contra different
  have congruent : (i : Int) ≡ j [ZMOD size] := Int.ModEq.add_right_cancel' d same
  exact mod_ne_of_window low different lowI highI lowJ highJ (Int.natCast_modEq_iff.mp congruent)

/-- The indices of a window are displaced by `d` up to `border` and by `d'` from there on. -/
def displaced (border : Nat) (d d' : Int) (index : Nat) : Int :=
  if index < border then index + d else index + d'

/-- A window of `size` indices with a border inside it uses different cells exactly when
both displacements are the same around the ring. -/
theorem displaced_inj_iff {border : Nat} {d d' : Int} (before : low < border)
    (behind : border < low + size) :
    (∀ {i j}, low ≤ i → i < low + size → low ≤ j → j < low + size →
      displaced border d d' i % size = displaced border d d' j % size → i = j) ↔
      (size : Int) ∣ d' - d := by
  constructor
  · intro injective
    by_contra apart
    -- the index that many cells before the end, or the border, comes to lie on an earlier one
    obtain ⟨t, shift⟩ := Int.eq_ofNat_of_zero_le (Int.emod_nonneg (d' - d) (by omega : (size : Int) ≠ 0))
    have positive : t ≠ 0 := by
      rintro rfl
      exact apart (Int.dvd_of_emod_eq_zero shift)
    have less : (d' - d) % size < size := Int.emod_lt_of_pos _ (by omega)
    obtain ⟨c, last⟩ : ∃ c, c = max border (low + size - t) := ⟨_, rfl⟩
    have collide := injective (i := c + t - size) (j := c) (by omega) (by omega) (by omega) (by omega)
    rw [displaced, displaced, if_pos (by omega), if_neg (by omega)] at collide
    have same : (((c + t - size : Nat) : Int) + d) % size = (c + d') % size := by
      apply Int.modEq_iff_dvd.mpr
      refine ⟨1 + (d' - d) / size, ?_⟩
      have parts := Int.mul_ediv_add_emod (d' - d) size
      rw [Int.mul_add, Int.mul_one]
      omega
    have equal := collide same
    omega
  · intro divides i j lowI highI lowJ highJ same
    have alike : ∀ index, displaced border d d' index % size = (index + d) % size := by
      intro index
      rw [displaced]
      split
      · rfl
      · apply Int.modEq_iff_dvd.mpr
        rw [Int.add_sub_add_left, ← Int.neg_sub]
        exact Int.dvd_neg.mpr divides
    rw [alike, alike] at same
    exact displaced_inj d lowI highI lowJ highJ same

end Displaced

/-! ## Queues -/

section Queue

variable {Item : Type*} {cells : Nat → Item} {head count : Nat}

/-- The items of a queue, first one first. -/
def queue (cells : Nat → Item) (size head count : Nat) : List Item :=
  (List.range count).map fun k => cells ((head + k) % size)

theorem queue_length (cells : Nat → Item) (size head count : Nat) :
    (queue cells size head count).length = count := by
  rw [queue, List.length_map, List.length_range]

/-- An item in the cell behind the last one is the new last one. -/
theorem queue_push {cells' : Nat → Item} {new : Item} (room : count < size)
    (stored : cells' ((head + count) % size) = new)
    (others : ∀ i, i ≠ (head + count) % size → cells' i = cells i) :
    queue cells' size head (count + 1) = queue cells size head count ++ [new] := by
  rw [queue, List.range_succ, List.map_append, List.map_singleton, stored]
  congr 1
  apply List.map_congr_left
  intro k member
  have before := List.mem_range.mp member
  apply others
  exact mod_ne_of_window head (by omega) (by omega) (by omega) (by omega) (by omega)

/-- The first item is given up. -/
theorem queue_pop (inside : head < size) (nonempty : 0 < count) :
    queue cells size head count =
      cells head :: queue cells size ((head + 1) % size) (count - 1) := by
  obtain ⟨n, rfl⟩ := Nat.exists_eq_succ_of_ne_zero (Nat.ne_of_gt nonempty)
  rw [queue, List.range_succ_eq_map, List.map_cons, List.map_map, Nat.add_zero,
    Nat.mod_eq_of_lt inside]
  congr 1
  apply List.map_congr_left
  intro k _
  rw [Function.comp_apply, Nat.mod_add_mod, Nat.succ_eq_add_one, Nat.add_assoc, Nat.add_comm 1 k]

end Queue

end Mysnips.RingSlots

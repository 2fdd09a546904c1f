import Mathlib.Data.List.Basic
import Mathlib.Tactic.Common

/-! Bounded memory regions. A region is the list of its cells; reading or writing
outside it is a fault (`none`), so a result of an operation says that it stayed
inside. `memcpy` and `memmove` between regions are a `load` followed by a
`store`. -/
namespace Mysnips.Memory

/-- The bytes of a C string literal. -/
def ascii (text : String) : List UInt8 := text.toUTF8.toList

variable {α : Type*}

/-- The `len` cells from offset `off`. -/
def load (region : List α) (off len : Nat) : Option (List α) :=
  if off + len ≤ region.length then some ((region.drop off).take len) else none

/-- Overwrite the cells from offset `off` with `cells`. -/
def store (region : List α) (off : Nat) (cells : List α) : Option (List α) :=
  if off + cells.length ≤ region.length then
    some (region.take off ++ cells ++ region.drop (off + cells.length))
  else none

theorem load_eq {region : List α} {off len : Nat} (inside : off + len ≤ region.length) :
    load region off len = some ((region.drop off).take len) := if_pos inside

theorem store_eq {region cells : List α} {off : Nat}
    (inside : off + cells.length ≤ region.length) :
    store region off cells =
      some (region.take off ++ cells ++ region.drop (off + cells.length)) := if_pos inside

theorem load_inside {region cells : List α} {off len : Nat}
    (loaded : load region off len = some cells) : off + len ≤ region.length := by
  by_contra outside
  rw [load, if_neg outside] at loaded
  cases loaded

theorem store_inside {region cells result : List α} {off : Nat}
    (stored : store region off cells = some result) : off + cells.length ≤ region.length := by
  by_contra outside
  rw [store, if_neg outside] at stored
  cases stored

theorem load_length {region cells : List α} {off len : Nat}
    (loaded : load region off len = some cells) : cells.length = len := by
  have inside := load_inside loaded
  rw [load_eq inside] at loaded
  cases loaded
  rw [List.length_take, List.length_drop]
  omega

theorem store_length {region cells result : List α} {off : Nat}
    (stored : store region off cells = some result) : result.length = region.length := by
  have inside := store_inside stored
  rw [store_eq inside] at stored
  cases stored
  simp only [List.length_append, List.length_take, List.length_drop]
  omega

/-- Reading cells between others. -/
theorem load_middle (front cells back : List α) :
    load (front ++ cells ++ back) front.length cells.length = some cells := by
  rw [load_eq (by simp only [List.length_append]; omega), List.append_assoc, List.drop_left,
    List.take_left]

/-- Overwriting cells between others. -/
theorem store_middle (front back : List α) {old cells : List α} (same : old.length = cells.length) :
    store (front ++ old ++ back) front.length cells = some (front ++ cells ++ back) := by
  rw [store_eq (by simp only [List.length_append]; omega), ← same, ← List.length_append,
    List.drop_left, List.append_assoc front old back, List.take_left]

/-- Reading back what was just written. -/
theorem load_store_same {region cells result : List α} {off : Nat}
    (stored : store region off cells = some result) :
    load result off cells.length = some cells := by
  have inside := store_inside stored
  rw [load_eq (by rw [store_length stored]; exact inside)]
  rw [store_eq inside] at stored
  cases stored
  have before : (region.take off).length = off := by
    rw [List.length_take]
    omega
  simp [List.append_assoc, before]

/-- Reading away from what was just written. -/
theorem load_store_apart {region cells result : List α} {off off' len : Nat}
    (stored : store region off cells = some result)
    (apart : off' + len ≤ off ∨ off + cells.length ≤ off') :
    load result off' len = load region off' len := by
  have inside := store_inside stored
  have same := store_length stored
  rw [store_eq inside] at stored
  cases stored
  rw [load, load, same]
  by_cases within : off' + len ≤ region.length
  · rw [if_pos within, if_pos within]
    have before : (region.take off).length = off := by
      rw [List.length_take]
      omega
    rcases apart with front | back
    · rw [List.append_assoc, List.drop_append_of_le_length (by omega), List.drop_take,
        List.take_append_of_le_length (by rw [List.length_take, List.length_drop]; omega),
        List.take_take, Nat.min_eq_left (by omega)]
    · obtain ⟨d, rfl⟩ := Nat.exists_eq_add_of_le back
      have front : (region.take off ++ cells).length = off + cells.length := by
        rw [List.length_append, before]
      rw [← front, List.drop_length_add_append, front, List.drop_drop]
  · rw [if_neg within, if_neg within]

/-- Two ranges behind each other read in one piece. -/
theorem load_append {region front back : List α} {off len len' : Nat}
    (first : load region off len = some front) (second : load region (off + len) len' = some back) :
    load region off (len + len') = some (front ++ back) := by
  have inside := load_inside second
  rw [load_eq (by omega)]
  rw [load_eq (load_inside first)] at first
  rw [load_eq inside] at second
  cases first
  cases second
  rw [List.take_add, List.drop_drop]

/-- Writing right behind a range extends what is read from its start. -/
theorem load_store_behind {region cells read result : List α} {off len : Nat}
    (loaded : load region off len = some read)
    (stored : store region (off + len) cells = some result) :
    load result off (len + cells.length) = some (read ++ cells) := by
  have kept := load_store_apart stored (Or.inl (Nat.le_refl _))
  exact load_append (kept.trans loaded) (load_store_same stored)

/-- The beginning of a range read on its own. -/
theorem load_take {region read : List α} {off len : Nat}
    (loaded : load region off len = some read) (n : Nat) (within : n ≤ len) :
    load region off n = some (read.take n) := by
  have inside := load_inside loaded
  rw [load_eq (by omega)]
  rw [load_eq inside] at loaded
  cases loaded
  rw [List.take_take, Nat.min_eq_left within]

/-- The end of a range read on its own. -/
theorem load_drop {region read : List α} {off len : Nat}
    (loaded : load region off len = some read) (n : Nat) (within : n ≤ len) :
    load region (off + n) (len - n) = some (read.drop n) := by
  have inside := load_inside loaded
  rw [load_eq (by omega)]
  rw [load_eq inside] at loaded
  cases loaded
  rw [List.drop_take, List.drop_drop]

end Mysnips.Memory

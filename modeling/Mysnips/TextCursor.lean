import Mathlib.Data.List.Basic
import Mathlib.Tactic.Common

/-! A text with a cursor: what comes before it and what comes after it, over any
kind of symbol. -/
namespace Mysnips.TextCursor

structure Cursor (Symbol : Type*) where
  before : List Symbol
  after : List Symbol
  deriving DecidableEq, Repr

namespace Cursor

variable {Symbol : Type*} (c : Cursor Symbol)

def text : List Symbol := c.before ++ c.after

def count : Nat := c.text.length

/-- Insert before the cursor. -/
def insert (symbols : List Symbol) : Cursor Symbol := ⟨c.before ++ symbols, c.after⟩

/-- Put the cursor behind `n` symbols, or at the end. -/
def moveAbsolute (n : Nat) : Cursor Symbol :=
  ⟨c.text.take (min n c.count), c.text.drop (min n c.count)⟩

/-- Move the cursor by `k` symbols, within the text. -/
def moveRelative (k : Int) : Cursor Symbol :=
  c.moveAbsolute (max 0 (min (c.before.length + k) c.count)).toNat

/-- Drop up to `n` symbols after the cursor. -/
def removeForwards (n : Nat) : Cursor Symbol := ⟨c.before, c.after.drop (min n c.after.length)⟩

/-- Drop up to `n` symbols before the cursor. -/
def removeBackwards (n : Nat) : Cursor Symbol :=
  ⟨c.before.take (c.before.length - min n c.before.length), c.after⟩

theorem count_eq : c.count = c.before.length + c.after.length := by
  rw [count, text, List.length_append]

theorem moveAbsolute_text (n : Nat) : (c.moveAbsolute n).text = c.text :=
  List.take_append_drop _ _

/-- Moving to a place in front of the cursor. -/
theorem moveAbsolute_before {n : Nat} (le : n ≤ c.before.length) :
    c.moveAbsolute n = ⟨c.before.take n, c.before.drop n ++ c.after⟩ := by
  have clamped : min n c.count = n := by
    rw [count_eq]
    omega
  rw [moveAbsolute, clamped, text, List.take_append_of_le_length le, List.drop_append_of_le_length le]

/-- Moving to a place behind the cursor. -/
theorem moveAbsolute_after (d : Nat) :
    c.moveAbsolute (c.before.length + d) = ⟨c.before ++ c.after.take d, c.after.drop d⟩ := by
  by_cases inside : d ≤ c.after.length
  · have clamped : min (c.before.length + d) c.count = c.before.length + d := by
      rw [count_eq]
      omega
    rw [moveAbsolute, clamped, text, List.take_length_add_append, List.drop_length_add_append]
  · have clamped : min (c.before.length + d) c.count = c.before.length + c.after.length := by
      rw [count_eq]
      omega
    rw [moveAbsolute, clamped, text, List.take_length_add_append, List.drop_length_add_append,
      List.take_of_length_le (Nat.le_refl _), List.drop_eq_nil_of_le (Nat.le_refl _),
      List.take_of_length_le (by omega), List.drop_eq_nil_of_le (by omega)]

theorem moveRelative_forwards (k : Nat) :
    c.moveRelative k = ⟨c.before ++ c.after.take k, c.after.drop k⟩ := by
  have place : (max 0 (min ((c.before.length : Int) + k) c.count)).toNat =
      c.before.length + min k c.after.length := by
    rw [count_eq]
    omega
  rw [moveRelative, place, moveAbsolute_after]
  by_cases inside : k ≤ c.after.length
  · rw [Nat.min_eq_left inside]
  · rw [Nat.min_eq_right (by omega), List.take_of_length_le (Nat.le_refl _),
      List.drop_eq_nil_of_le (Nat.le_refl _), List.take_of_length_le (by omega),
      List.drop_eq_nil_of_le (by omega)]

theorem moveRelative_backwards (k : Nat) :
    c.moveRelative (-k) = ⟨c.before.take (c.before.length - k),
      c.before.drop (c.before.length - k) ++ c.after⟩ := by
  have place : (max 0 (min ((c.before.length : Int) + -k) c.count)).toNat =
      c.before.length - k := by
    rw [count_eq]
    omega
  rw [moveRelative, place, moveAbsolute_before _ (Nat.sub_le _ _)]

end Cursor

end Mysnips.TextCursor

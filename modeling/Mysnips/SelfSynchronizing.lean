import Mathlib.Data.List.Basic
import Mathlib.Tactic.Common

/-! Self-synchronizing codes. A word starts with a leading letter that says how
long the word is, and has no other leading letter. So the words of a text can be
walked forwards by their first letters and backwards by skipping the letters that
are not leading. -/
namespace Mysnips.SelfSynchronizing

variable {Letter : Type*}

/-- Which letters start a word, and how long the word then is. -/
structure Code (Letter : Type*) where
  leading : Letter → Bool
  length : Letter → Nat

/-- A word of the code. -/
structure Code.Word (code : Code Letter) (word : List Letter) : Prop where
  first : ∃ letter rest, word = letter :: rest ∧ code.leading letter = true ∧
    word.length = code.length letter ∧ ∀ other ∈ rest, code.leading other = false

variable {code : Code Letter} {word : List Letter}

theorem Code.Word.positive (isWord : code.Word word) : 0 < word.length := by
  obtain ⟨letter, rest, rfl, _⟩ := isWord.first
  exact Nat.succ_pos _

/-- The first letter of a word inside a text. -/
theorem Code.Word.read_first (isWord : code.Word word) (front back : List Letter) :
    ∃ letter, (front ++ word ++ back)[front.length]? = some letter ∧
      code.leading letter = true ∧ code.length letter = word.length := by
  obtain ⟨letter, rest, rfl, leads, length, _⟩ := isWord.first
  exact ⟨letter, by simp, leads, length.symm⟩

/-- Any other letter of a word inside a text. -/
theorem Code.Word.read_rest (isWord : code.Word word) (front back : List Letter) {k : Nat}
    (inside : k + 1 < word.length) :
    ∃ letter, (front ++ word ++ back)[front.length + (k + 1)]? = some letter ∧
      code.leading letter = false := by
  obtain ⟨letter, rest, rfl, _, _, others⟩ := isWord.first
  rw [List.length_cons, Nat.add_lt_add_iff_right] at inside
  refine ⟨rest.get ⟨k, inside⟩, ?_, others _ (List.get_mem _ _)⟩
  rw [List.append_assoc, List.getElem?_append_right (by omega), Nat.add_sub_cancel_left,
    List.getElem?_append_left (by simpa using inside), List.getElem?_cons_succ,
    List.getElem?_eq_getElem inside]
  rfl

end Mysnips.SelfSynchronizing

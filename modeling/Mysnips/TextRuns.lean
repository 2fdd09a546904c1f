import Mathlib.Data.List.TakeWhile
import Mathlib.Tactic.Common

/-! Runs of symbols in a text. A scanner with an index skips the symbols that pass a test and
goes on with what stands behind them. -/
namespace Mysnips.TextRuns

variable {Symbol : Type*} {p : Symbol → Bool} {text run tail : List Symbol} {cur : Nat}

/-- What is left behind a run does not start with more of it. -/
theorem dropWhile_stops (p : Symbol → Bool) (text : List Symbol) :
    ∀ c ∈ (text.dropWhile p).head?, p c = false := by
  intro c first
  have stopped := List.head?_dropWhile_not p text
  rw [first] at stopped
  exact stopped

/-- A text is a run followed by what does not go on with it. -/
theorem run_split (p : Symbol → Bool) (text : List Symbol) :
    ∃ run tail, text = run ++ tail ∧ (∀ c ∈ run, p c = true) ∧ ∀ c ∈ tail.head?, p c = false :=
  ⟨text.takeWhile p, text.dropWhile p, List.takeWhile_append_dropWhile.symm,
    fun _ member => List.mem_takeWhile_imp member, dropWhile_stops p text⟩

/-- A text whose first symbol passes starts with a run that is not empty. -/
theorem run_split_first {c : Symbol} (first : p c = true) (text : List Symbol) :
    ∃ run tail, c :: text = run ++ tail ∧ run ≠ [] ∧ (∀ c ∈ run, p c = true) ∧
      ∀ c ∈ tail.head?, p c = false := by
  obtain ⟨run, tail, split, inside, stops⟩ := run_split p (c :: text)
  refine ⟨run, tail, split, ?_, inside, stops⟩
  rintro rfl
  have refused := stops c (by rw [← List.nil_append tail, ← split]; rfl)
  exact Bool.false_ne_true (refused.symm.trans first)

theorem takeWhile_run (inside : ∀ c ∈ run, p c = true) (stops : ∀ c ∈ tail.head?, p c = false) :
    (run ++ tail).takeWhile p = run := by
  have nothing : tail.takeWhile p = [] := by
    cases tail with
    | nil => rfl
    | cons c tail => exact List.takeWhile_cons_of_neg (Bool.eq_false_iff.mp (stops c rfl))
  rw [List.takeWhile_append_of_pos inside, nothing, List.append_nil]

/-- Where the index is once a run was skipped, and what stands there. -/
theorem skip_run (here : text.drop cur = run ++ tail) (inside : ∀ c ∈ run, p c = true)
    (stops : ∀ c ∈ tail.head?, p c = false) :
    cur + ((text.drop cur).takeWhile p).length = cur + run.length ∧
      text.drop (cur + run.length) = tail := by
  constructor
  · rw [here, takeWhile_run inside stops]
  · rw [← List.drop_drop, here, List.drop_left]

theorem drop_skipped (p : Symbol → Bool) (text : List Symbol) (cur : Nat) :
    text.drop (cur + ((text.drop cur).takeWhile p).length) = (text.drop cur).dropWhile p := by
  rw [← List.drop_drop]
  nth_rewrite 2 [← List.takeWhile_append_dropWhile (p := p) (l := text.drop cur)]
  rw [List.drop_left]

/-- The symbol under the index. -/
theorem at_cursor (here : text.drop cur = tail) : text[cur]? = tail.head? := by
  rw [← here, List.head?_drop]

/-- The text from a symbol on. -/
theorem drop_at {c : Symbol} (found : text[cur]? = some c) :
    text.drop cur = c :: text.drop (cur + 1) := by
  rw [List.drop_eq_getElem?_toList_append, found]
  rfl

theorem length_at (here : text.drop cur = tail) (nonempty : tail ≠ []) :
    cur + tail.length = text.length := by
  rw [← here, List.length_drop]
  have inside := List.length_pos_iff.mpr nonempty
  rw [← here, List.length_drop] at inside
  omega

end Mysnips.TextRuns

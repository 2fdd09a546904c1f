import Mathlib.Data.FinEnum
import Mysnips.GapBuffer
import Mysnips.SelfSynchronizing

/-! The UTF-8 walks of the gap buffer. The strings that `isValidUTF8` accepts are
the concatenations of symbols, and symbols are words of a self-synchronizing
code: their first byte is not an auxiliary byte and says how many auxiliary bytes
follow. -/
namespace Mysnips.GapBuffer
open SelfSynchronizing

/-- Symbols as the walks of the gap buffer see them. -/
def utf8 : Code UInt8 where
  leading byte := !isSymbolAuxiliaryByte byte
  length := getSymbolLengthFromFirstByte

/-- One UTF-8 sequence: `getSymbolRune` takes exactly these bytes. -/
def IsSymbol (symbol : List UInt8) : Prop :=
  symbol ≠ [] ∧ ∃ rune, getSymbolRune symbol = some (symbol.length, rune)

set_option maxRecDepth 10000 in
private theorem first_byte : ∀ a : UInt8,
    (a &&& 0x80 = 0 ↔ isSymbolAuxiliaryByte a = false ∧ ¬ a ≥ 0xc0) ∧
      (a ≥ 0xc0 → isSymbolAuxiliaryByte a = false) ∧ (a ≥ 0xe0 → a ≥ 0xc0) ∧
      (a ≥ 0xf0 → a ≥ 0xe0) := by decide

/-- A first byte with the auxiliary bytes it announces. -/
private theorem multibyte_word {a : UInt8} {auxiliary : List UInt8} (large : a ≥ 0xc0)
    (length : getSymbolLengthFromFirstByte a = auxiliary.length + 1)
    (all : ∀ byte ∈ auxiliary, isSymbolAuxiliaryByte byte = true) : utf8.Word (a :: auxiliary) := by
  refine ⟨a, auxiliary, rfl, ?_, length.symm, fun byte member => ?_⟩
  · simp [utf8, (first_byte a).2.1 large]
  · simp [utf8, all byte member]

/-- What `getSymbolRune` takes from the front of a string is a word. -/
private theorem getSymbolRune_word {str : List UInt8} {n rune : Nat} (nonempty : str ≠ [])
    (taken : getSymbolRune str = some (n, rune)) :
    ∃ symbol rest, str = symbol ++ rest ∧ symbol.length = n ∧ utf8.Word symbol := by
  cases str with
  | nil => exact absurd rfl nonempty
  | cons a tail =>
    obtain ⟨ascii, leads, toThree, toFour⟩ := first_byte a
    simp only [getSymbolRune] at taken
    by_cases high : a &&& 0x80 ≠ 0
    · rw [if_pos high] at taken
      by_cases four : a ≥ 0xf0
      · rw [if_pos four] at taken
        rcases tail with _ | ⟨b, _ | ⟨c, _ | ⟨d, rest⟩⟩⟩
        · cases taken
        · cases taken
        · cases taken
        · simp only [Option.ite_none_right_eq_some, Option.ite_none_left_eq_some,
            Option.some.injEq, Prod.mk.injEq] at taken
          obtain ⟨auxiliary, _, rfl, _⟩ := taken
          refine ⟨[a, b, c, d], rest, rfl, rfl, multibyte_word (toThree (toFour four)) ?_ ?_⟩
          · simp [getSymbolLengthFromFirstByte, four]
          · simpa [and_assoc] using auxiliary
      rw [if_neg four] at taken
      by_cases three : a ≥ 0xe0
      · rw [if_pos three] at taken
        rcases tail with _ | ⟨b, _ | ⟨c, rest⟩⟩
        · cases taken
        · cases taken
        · simp only [Option.ite_none_right_eq_some, Option.ite_none_left_eq_some,
            Option.some.injEq, Prod.mk.injEq] at taken
          obtain ⟨auxiliary, _, rfl, _⟩ := taken
          refine ⟨[a, b, c], rest, rfl, rfl, multibyte_word (toThree three) ?_ ?_⟩
          · simp only [getSymbolLengthFromFirstByte, if_neg four, if_pos three, List.length_cons,
              List.length_nil]
          · simpa using auxiliary
      rw [if_neg three] at taken
      by_cases two : a ≥ 0xc0
      · rw [if_pos two] at taken
        rcases tail with _ | ⟨b, rest⟩
        · cases taken
        · simp only [Option.ite_none_right_eq_some, Option.ite_none_left_eq_some,
            Option.some.injEq, Prod.mk.injEq] at taken
          obtain ⟨auxiliary, _, rfl, _⟩ := taken
          refine ⟨[a, b], rest, rfl, rfl, multibyte_word two ?_ ?_⟩
          · simp only [getSymbolLengthFromFirstByte, if_neg four, if_neg three, if_pos two,
              List.length_cons, List.length_nil]
          · simpa using auxiliary
      · rw [if_neg two] at taken
        cases taken
    · rw [if_neg high] at taken
      cases taken
      obtain ⟨auxiliary, small⟩ := ascii.mp (not_not.mp high)
      have notThree : ¬ a ≥ 0xe0 := fun large => small (toThree large)
      have notFour : ¬ a ≥ 0xf0 := fun large => notThree (toFour large)
      refine ⟨[a], tail, rfl, rfl, ⟨a, [], rfl, ?_, ?_, by simp⟩⟩
      · simp [utf8, auxiliary]
      · simp only [utf8, getSymbolLengthFromFirstByte, if_neg small, if_neg notThree,
          if_neg notFour, List.length_singleton]

/-- `getSymbolRune` does not look behind a word. -/
private theorem getSymbolRune_local {symbol : List UInt8} (word : utf8.Word symbol)
    (rest rest' : List UInt8) : getSymbolRune (symbol ++ rest) = getSymbolRune (symbol ++ rest') := by
  obtain ⟨a, tail, rfl, leads, length, _⟩ := word
  simp only [utf8, getSymbolLengthFromFirstByte, List.length_cons] at length
  by_cases four : a ≥ 0xf0
  · rw [if_pos four] at length
    obtain ⟨b, c, d, rfl⟩ := List.length_eq_three.mp (Nat.succ.inj length)
    rfl
  rw [if_neg four] at length
  by_cases three : a ≥ 0xe0
  · rw [if_pos three] at length
    obtain ⟨b, c, rfl⟩ := List.length_eq_two.mp (Nat.succ.inj length)
    simp only [List.cons_append, List.nil_append, getSymbolRune, if_neg four]
  rw [if_neg three] at length
  by_cases two : a ≥ 0xc0
  · rw [if_pos two] at length
    obtain ⟨b, rfl⟩ := List.length_eq_one_iff.mp (Nat.succ.inj length)
    simp only [List.cons_append, List.nil_append, getSymbolRune, if_neg four, if_neg three]
  · rw [if_neg two] at length
    cases List.eq_nil_of_length_eq_zero (Nat.succ.inj length)
    have low : a &&& 0x80 = 0 := (first_byte a).1.mpr ⟨by simpa [utf8] using leads, two⟩
    simp [getSymbolRune, low]

/-- What `getSymbolRune` takes from the front of a string is a symbol, whatever
follows. -/
theorem getSymbolRune_spec {str : List UInt8} {n rune : Nat} (nonempty : str ≠ [])
    (taken : getSymbolRune str = some (n, rune)) :
    ∃ symbol rest, str = symbol ++ rest ∧ symbol.length = n ∧ utf8.Word symbol ∧
      ∀ rest, getSymbolRune (symbol ++ rest) = some (n, rune) := by
  obtain ⟨symbol, rest, rfl, length, word⟩ := getSymbolRune_word nonempty taken
  exact ⟨symbol, rest, rfl, length, word, fun rest' => (getSymbolRune_local word rest' rest).trans taken⟩

/-- A symbol is a word of the code, and is taken from the front of any string. -/
theorem IsSymbol.spec {symbol : List UInt8} (isSymbol : IsSymbol symbol) :
    utf8.Word symbol ∧
      ∃ rune, ∀ rest, getSymbolRune (symbol ++ rest) = some (symbol.length, rune) := by
  obtain ⟨nonempty, rune, taken⟩ := isSymbol
  obtain ⟨front, rest, shape, length, word, locality⟩ := getSymbolRune_spec nonempty taken
  have none : rest = [] := by
    have lengths := congrArg List.length shape
    rw [List.length_append] at lengths
    exact List.eq_nil_of_length_eq_zero (by omega)
  rw [none, List.append_nil] at shape
  subst shape
  exact ⟨word, rune, locality⟩

theorem IsSymbol.word {symbol : List UInt8} (isSymbol : IsSymbol symbol) : utf8.Word symbol :=
  isSymbol.spec.1

/-! ### Strings of symbols -/

/-- The symbols of a string, up to the first byte that starts none. -/
def symbolsFrom : (fuel : Nat) → (str : List UInt8) → List (List UInt8)
  | 0, _ => []
  | fuel + 1, str =>
    if str.isEmpty then []
    else
      match getSymbolRune str with
      | none => []
      | some (n, _) => str.take n :: symbolsFrom fuel (str.drop n)

def symbols (str : List UInt8) : List (List UInt8) := symbolsFrom str.length str

/-- A string of symbols is accepted, and its symbols are found. -/
private theorem accepted_from {text : List (List UInt8)} (areSymbols : ∀ s ∈ text, IsSymbol s)
    (fuel : Nat) (enough : text.flatten.length ≤ fuel) :
    isValidFrom fuel text.flatten = true ∧ symbolsFrom fuel text.flatten = text := by
  induction text generalizing fuel with
  | nil => cases fuel <;> simp [isValidFrom, symbolsFrom]
  | cons symbol rest ih =>
    have isSymbol := areSymbols symbol List.mem_cons_self
    have positive := isSymbol.word.positive
    obtain ⟨_, rune, taken⟩ := isSymbol.spec
    rw [List.flatten_cons] at enough ⊢
    rw [List.length_append] at enough
    cases fuel with
    | zero => omega
    | succ fuel =>
      obtain ⟨valid, found⟩ := ih (fun s member => areSymbols s (List.mem_cons_of_mem _ member)) fuel
        (by omega)
      have nonempty : (symbol ++ rest.flatten).isEmpty = false := by
        rw [List.isEmpty_eq_false_iff]
        intro empty
        have lengths := congrArg List.length empty
        rw [List.length_append, List.length_nil] at lengths
        omega
      simp only [isValidFrom, symbolsFrom, nonempty, taken, Bool.false_eq_true, if_false,
        List.drop_left, List.take_left, valid, found]
      exact ⟨trivial, trivial⟩

/-- An accepted string is a string of symbols. -/
private theorem symbols_from (fuel : Nat) {str : List UInt8} (valid : isValidFrom fuel str = true) :
    ∃ text : List (List UInt8), (∀ s ∈ text, IsSymbol s) ∧ text.flatten = str := by
  induction fuel generalizing str with
  | zero =>
    rw [isValidFrom, List.isEmpty_iff] at valid
    exact ⟨[], by simp, by simp [valid]⟩
  | succ fuel ih =>
    rw [isValidFrom] at valid
    by_cases empty : str.isEmpty = true
    · exact ⟨[], by simp, by simp [List.isEmpty_iff.mp empty]⟩
    · rw [if_neg empty] at valid
      cases taken : getSymbolRune str with
      | none => simp [taken] at valid
      | some result =>
        obtain ⟨n, rune⟩ := result
        simp only [taken] at valid
        have nonempty : str ≠ [] := fun none => empty (List.isEmpty_iff.mpr none)
        obtain ⟨symbol, rest, rfl, rfl, word, locality⟩ := getSymbolRune_spec nonempty taken
        rw [List.drop_left] at valid
        obtain ⟨text, areSymbols, flat⟩ := ih valid
        refine ⟨symbol :: text, ?_, by rw [List.flatten_cons, flat]⟩
        intro s member
        rcases List.mem_cons.mp member with rfl | member
        · refine ⟨List.ne_nil_of_length_pos word.positive, rune, ?_⟩
          have whole := locality []
          rwa [List.append_nil] at whole
        · exact areSymbols s member

theorem symbols_flatten {text : List (List UInt8)} (areSymbols : ∀ s ∈ text, IsSymbol s) :
    symbols text.flatten = text := (accepted_from areSymbols _ (Nat.le_refl _)).2

/-- `isValidUTF8` accepts exactly the strings of symbols. -/
theorem isValidUTF8_iff {str : List UInt8} :
    isValidUTF8 str = true ↔ ∃ text : List (List UInt8), (∀ s ∈ text, IsSymbol s) ∧
      text.flatten = str := by
  constructor
  · exact symbols_from str.length
  · rintro ⟨text, areSymbols, rfl⟩
    exact (accepted_from areSymbols _ (Nat.le_refl _)).1

end Mysnips.GapBuffer

import Mathlib.Data.Set.Basic
import Mysnips.GapBufferText

/-! The three ways to find the symbol boundaries of a string: decoding symbol after
symbol, jumping by the length that a first byte announces, and stepping back from
the end over auxiliary bytes. On an accepted string none of them faults and all of
them find the same boundaries, at which the string may be cut. -/
namespace Mysnips.GapBuffer
open Machine SelfSynchronizing

/-- Where the loop of `isValidUTF8` stands after some rounds, begun at the index `i`;
no result when `getSymbolRune` finds no symbol. -/
def runesFrom (str : List UInt8) : (num i : Nat) → Option Nat
  | 0, i => some i
  | num + 1, i =>
    if i < str.length then do
      let (n, _) ← getSymbolRune (str.drop i)
      runesFrom str num (add64 i n)
    else some i

/-- A buffer that holds a string behind its gap, which is empty. -/
def gapless (str : List UInt8) : Buffer := ⟨0, 0, str.length, str⟩

/-- The places a walk may have reached. -/
def boundaries (walk : Nat → Option Nat) : Set Nat := {i | ∃ num, walk num = some i}

/-- The boundaries found by repeated `getSymbolRune` from the start. -/
def decodedBoundaries (str : List UInt8) : Set Nat := boundaries fun num => runesFrom str num 0

/-- The boundaries found by repeated `getSymbolLengthFromFirstByte` from the start. -/
def announcedBoundaries (str : List UInt8) : Set Nat :=
  boundaries fun num => followingFrom (gapless str) num 0

/-- The boundaries found by stepping back over auxiliary bytes from the end. -/
def auxiliaryBoundaries (str : List UInt8) : Set Nat :=
  boundaries fun num => precedingFrom str num str.length

section Walks

variable {text : List (List UInt8)}

/-- Decoding walks to a boundary, or to the end. -/
theorem runesFrom_symbols {str : List UInt8} (areSymbols : ∀ s ∈ text, IsSymbol s)
    (front : List UInt8) (shape : str = front ++ text.flatten) (fits : str.length < 2 ^ 64)
    (num : Nat) :
    runesFrom str num front.length = some (front.length + (text.take num).flatten.length) := by
  induction num generalizing text front with
  | zero => simp [runesFrom]
  | succ num ih =>
    cases text with
    | nil => simp [runesFrom, shape]
    | cons symbol rest =>
      obtain ⟨word, rune, taken⟩ := (areSymbols symbol List.mem_cons_self).spec
      have positive := word.positive
      have next := ih (fun s member => areSymbols s (List.mem_cons_of_mem _ member))
        (front ++ symbol) (by rw [shape, List.flatten_cons, List.append_assoc])
      have remaining : str.drop front.length = symbol ++ rest.flatten := by
        rw [shape, List.drop_left, List.flatten_cons]
      have total : str.length = front.length + (symbol.length + rest.flatten.length) := by
        rw [shape, List.flatten_cons, List.length_append, List.length_append]
      rw [List.length_append] at next
      rw [runesFrom, if_pos (by omega), remaining, taken]
      simp only [Option.bind_eq_bind, Option.bind_some]
      rw [add64_eq (by omega), next, List.take_succ_cons, List.flatten_cons, List.length_append,
        Nat.add_assoc]

/-- Where each walk stands after `num` rounds over a string of symbols. -/
private theorem walks (areSymbols : ∀ s ∈ text, IsSymbol s) (fits : text.flatten.length < 2 ^ 64)
    (num : Nat) :
    runesFrom text.flatten num 0 = some (text.take num).flatten.length ∧
      followingFrom (gapless text.flatten) num 0 = some (text.take num).flatten.length ∧
      precedingFrom text.flatten num text.flatten.length =
        some (text.take (text.length - num)).flatten.length := by
  have areWords : ∀ s ∈ text, utf8.Word s := fun s member => (areSymbols s member).word
  refine ⟨?_, ?_, ?_⟩
  · simpa using runesFrom_symbols areSymbols [] (List.nil_append _).symm fits num
  · have walked : followingFrom (gapless text.flatten) num ([] : List UInt8).length = _ :=
      followingFrom_symbols areWords [] (List.nil_append _).symm rfl fits num
    simpa using walked
  · simpa using precedingFrom_symbols areWords [] num

/-- The places behind the first symbols of a text. -/
def textBoundaries (text : List (List UInt8)) : Set Nat :=
  {i | ∃ k, (text.take k).flatten.length = i}

private theorem boundaries_of_walks (areSymbols : ∀ s ∈ text, IsSymbol s)
    (fits : text.flatten.length < 2 ^ 64) :
    decodedBoundaries text.flatten = textBoundaries text ∧
      announcedBoundaries text.flatten = textBoundaries text ∧
      auxiliaryBoundaries text.flatten = textBoundaries text := by
  have walks := walks areSymbols fits
  refine ⟨Set.ext fun i => ?_, Set.ext fun i => ?_, Set.ext fun i => ?_⟩
  · simp [decodedBoundaries, boundaries, textBoundaries, (walks _).1]
  · simp [announcedBoundaries, boundaries, textBoundaries, (walks _).2.1]
  · simp only [auxiliaryBoundaries, boundaries, textBoundaries, (walks _).2.2, Set.mem_ofPred_eq,
      Option.some.injEq]
    constructor
    · rintro ⟨num, reached⟩
      exact ⟨text.length - num, reached⟩
    · -- the boundary behind `k` symbols is as many rounds from the end as symbols follow it
      rintro ⟨k, reached⟩
      refine ⟨text.length - k, ?_⟩
      rw [← reached]
      rcases Nat.le_total k text.length with inside | outside
      · rw [Nat.sub_sub_self inside]
      · rw [Nat.sub_eq_zero_of_le outside, Nat.sub_zero, List.take_length,
          List.take_of_length_le outside]

end Walks

/-- Strings of symbols may be put together. -/
private theorem accepted_append {str other : List UInt8} (accepted : isValidUTF8 str = true)
    (otherAccepted : isValidUTF8 other = true) : isValidUTF8 (str ++ other) = true := by
  obtain ⟨text, areSymbols, rfl⟩ := isValidUTF8_iff.mp accepted
  obtain ⟨text', areSymbols', rfl⟩ := isValidUTF8_iff.mp otherAccepted
  refine isValidUTF8_iff.mpr ⟨text ++ text', ?_, List.flatten_append⟩
  intro s member
  rcases List.mem_append.mp member with first | second
  · exact areSymbols s first
  · exact areSymbols' s second

/-- A string of symbols may be cut behind any of them. -/
private theorem accepted_cut {text : List (List UInt8)} (areSymbols : ∀ s ∈ text, IsSymbol s)
    {i : Nat} (atBoundary : i ∈ textBoundaries text) :
    isValidUTF8 (text.flatten.take i) = true ∧ isValidUTF8 (text.flatten.drop i) = true := by
  obtain ⟨k, rfl⟩ := atBoundary
  have parts : text.flatten = (text.take k).flatten ++ (text.drop k).flatten := by
    rw [← List.flatten_append, List.take_append_drop]
  rw [parts, List.take_left, List.drop_left]
  exact ⟨isValidUTF8_iff.mpr ⟨_, fun s member => areSymbols s (List.mem_of_mem_take member), rfl⟩,
    isValidUTF8_iff.mpr ⟨_, fun s member => areSymbols s (List.mem_of_mem_drop member), rfl⟩⟩

/-- On an accepted string no walk faults, all three find the same boundaries, and the
string may be cut at each of them; accepted strings may be put together. -/
theorem symbol_boundaries_agree {str : List UInt8} (fits : str.length < 2 ^ 64)
    (accepted : isValidUTF8 str = true) :
    (∀ num, (runesFrom str num 0).isSome ∧ (followingFrom (gapless str) num 0).isSome ∧
      (precedingFrom str num str.length).isSome) ∧
      decodedBoundaries str = announcedBoundaries str ∧
      decodedBoundaries str = auxiliaryBoundaries str ∧
      (∀ other, isValidUTF8 other = true → isValidUTF8 (str ++ other) = true) ∧
      ∀ i ∈ decodedBoundaries str,
        isValidUTF8 (str.take i) = true ∧ isValidUTF8 (str.drop i) = true := by
  obtain ⟨text, areSymbols, rfl⟩ := isValidUTF8_iff.mp accepted
  obtain ⟨decoded, announced, auxiliary⟩ := boundaries_of_walks areSymbols fits
  refine ⟨fun num => ?_, by rw [decoded, announced], by rw [decoded, auxiliary],
    fun other => accepted_append accepted, fun i member => ?_⟩
  · obtain ⟨first, second, third⟩ := walks areSymbols fits num
    rw [first, second, third]
    exact ⟨rfl, rfl, rfl⟩
  · rw [decoded] at member
    exact accepted_cut areSymbols member

/-- The second symbol is written with a first byte that is no UTF-8 lead byte. -/
theorem symbol_boundaries_agree_applies :
    decodedBoundaries [0x61, 0xf8, 0x90, 0x80, 0x80] =
      auxiliaryBoundaries [0x61, 0xf8, 0x90, 0x80, 0x80] :=
  (symbol_boundaries_agree (by decide) (by decide +kernel)).2.2.1

end Mysnips.GapBuffer

import Mathlib.Data.List.DropRight
import Mathlib.Data.List.Infix
import Mysnips.CrlfLines
import Mysnips.HttpHead
import Mysnips.TextRuns

/-! The fields of a request: how names and values are compared, and how the values of
`Content-Length` and `Transfer-Encoding` are read. -/
namespace Mysnips.HttpParse
open CrlfLines TextRuns
open Memory (ascii)

/-! ## Case -/

/-- Two texts that differ in the case of letters only. -/
def SameUpToCase (x y : List UInt8) : Prop := x.map lowerCase = y.map lowerCase

instance (x y : List UInt8) : Decidable (SameUpToCase x y) :=
  inferInstanceAs (Decidable (x.map lowerCase = y.map lowerCase))

/-- `to_lower` shifts every byte, so that it keeps all differences, also those of case. -/
theorem toLower_injective : Function.Injective toLower := by
  have shifted : ∀ c, toLower c = c - 'A'.toUInt8 + 'a'.toUInt8 := by
    intro c
    rw [toLower, if_pos]
    rw [Bool.or_eq_true, decide_eq_true_iff, decide_eq_true_iff]
    rcases Nat.le_total 65 c.toNat with above | below
    · exact .inl above
    · exact .inr (Nat.le_trans below (by decide))
  intro a b same
  rw [shifted, shifted] at same
  grind

theorem stringMatchCaseInsensitive_iff (x y : List UInt8) :
    stringMatchCaseInsensitive x y = true ↔ x = y := by
  unfold stringMatchCaseInsensitive
  constructor
  · intro matched
    induction x generalizing y with
    | nil =>
      cases y with
      | nil => rfl
      | cons d y => simp at matched
    | cons c x ih =>
      cases y with
      | nil => simp at matched
      | cons d y =>
        simp only [List.length_cons, List.zip_cons_cons, List.all_cons, Bool.and_eq_true, beq_iff_eq,
          Nat.add_right_cancel_iff] at matched ih
        obtain ⟨length, same, rest⟩ := matched
        rw [toLower_injective same, ih y ⟨length, rest⟩]
  · rintro rfl
    induction x with
    | nil => rfl
    | cons c x ih => simpa using ih

theorem matchHeaderName_iff (x y : List UInt8) : matchHeaderName x y = true ↔ x = y :=
  stringMatchCaseInsensitive_iff x y

/-! ## White space -/

/-- The text neither starts nor ends with white space. -/
structure Bare (text : List UInt8) : Prop where
  first : ∀ c ∈ text.head?, isSpace c = false
  last : ∀ c ∈ text.getLast?, isSpace c = false

/-- The longest bare part of a text. -/
structure LongestBare (s part : List UInt8) : Prop where
  inside : part <:+: s
  bare : Bare part
  longest : ∀ other, other <:+: s → Bare other → other.length ≤ part.length

/-- A text without the white space around it. -/
def strip (s : List UInt8) : List UInt8 := (s.dropWhile isSpace).rdropWhile isSpace

/-- There is white space in front of something else. -/
def Indented (s : List UInt8) : Prop :=
  (∃ c ∈ s.head?, isSpace c = true) ∧ ∃ c ∈ s, isSpace c = false

theorem infix_behind_spaces {lead text part : List UInt8} (spaces : ∀ c ∈ lead, isSpace c = true)
    (first : ∀ c ∈ part.head?, isSpace c = false) (inside : part <:+: lead ++ text) :
    part <:+: text := by
  induction lead with
  | nil => exact inside
  | cons c lead ih =>
    obtain ⟨space, spaces⟩ := List.forall_mem_cons.mp spaces
    rcases List.infix_cons_iff.mp inside with starts | later
    · cases part with
      | nil => exact List.nil_infix
      | cons d part =>
        obtain ⟨rfl, -⟩ := List.cons_prefix_cons.mp starts
        have other := first d rfl
        rw [space] at other
        cases other
    · exact ih spaces later

theorem infix_before_spaces {tail text part : List UInt8} (spaces : ∀ c ∈ tail, isSpace c = true)
    (last : ∀ c ∈ part.getLast?, isSpace c = false) (inside : part <:+: text ++ tail) :
    part <:+: text := by
  have mirrored : part.reverse <:+: tail.reverse ++ text.reverse := by
    rw [← List.reverse_append]
    exact List.reverse_infix.mpr inside
  apply List.reverse_infix.mp
  apply infix_behind_spaces ?_ ?_ mirrored
  · intro c member
    exact spaces c (List.mem_reverse.mp member)
  · rwa [List.head?_reverse]

theorem strip_bare (s : List UInt8) : Bare (strip s) := by
  constructor
  · intro c first
    obtain ⟨tail, whole⟩ := List.rdropWhile_prefix isSpace (s.dropWhile isSpace)
    have start : (s.dropWhile isSpace).head? = some c := by
      rw [← whole, List.head?_append, ← strip, first]
      rfl
    exact dropWhile_stops isSpace s c start
  · intro c last
    obtain ⟨nonempty, rfl⟩ := List.mem_getLast?_eq_getLast last
    exact Bool.eq_false_iff.mpr (List.rdropWhile_last_not isSpace _ nonempty)

/-- What `strip` takes away is white space. -/
theorem strip_parts (s : List UInt8) : ∃ lead tail, s = lead ++ (strip s ++ tail) ∧
    (∀ c ∈ lead, isSpace c = true) ∧ ∀ c ∈ tail, isSpace c = true := by
  refine ⟨s.takeWhile isSpace, (s.dropWhile isSpace).rtakeWhile isSpace, ?_, ?_, ?_⟩
  · rw [strip, List.rdropWhile_append_rtakeWhile, List.takeWhile_append_dropWhile]
  · intro c member
    exact List.mem_takeWhile_imp member
  · intro c member
    exact List.mem_rtakeWhile_imp member

/-- The longest bare part is what is left without the white space around it. -/
theorem longestBare_iff (s part : List UInt8) : LongestBare s part ↔ part = strip s := by
  obtain ⟨lead, tail, whole, before, behind⟩ := strip_parts s
  have within : ∀ other, other <:+: s → Bare other → other <:+: strip s := by
    intro other inside bare
    rw [whole] at inside
    exact infix_before_spaces behind bare.last (infix_behind_spaces before bare.first inside)
  have here : strip s <:+: s := ⟨lead, tail, by rw [List.append_assoc, ← whole]⟩
  constructor
  · intro longest
    have inside := within part longest.inside longest.bare
    have length := longest.longest _ here (strip_bare s)
    exact inside.eq_of_length_le length
  · rintro rfl
    exact ⟨here, strip_bare s, fun other inside bare => (within other inside bare).length_le⟩

/-! ### `trim` -/

theorem trim_blank {s : List UInt8} (blank : ∀ c ∈ s, isSpace c = true) : trim s = [] := by
  rw [trim, if_pos (List.dropWhile_eq_nil_iff.mpr blank)]

/-- `trim` cuts off the white space behind, never the one in front. -/
theorem trim_filled {s : List UInt8} (filled : ∃ c ∈ s, isSpace c = false) :
    trim s = s.rdropWhile isSpace := by
  obtain ⟨c, member, other⟩ := filled
  rw [trim, if_neg]
  · rfl
  · intro nothing
    have space := List.dropWhile_eq_nil_iff.mp nothing c member
    rw [other] at space
    cases space

theorem trim_of_not_indented {s : List UInt8} (clean : ¬ Indented s) : trim s = strip s := by
  by_cases filled : ∃ c ∈ s, isSpace c = false
  · have start : s.dropWhile isSpace = s := by
      cases s with
      | nil => rfl
      | cons c s =>
        apply List.dropWhile_cons_of_neg
        intro space
        exact clean ⟨⟨c, rfl, space⟩, filled⟩
    rw [trim_filled filled, strip, start]
  · have blank : ∀ c ∈ s, isSpace c = true := by
      intro c member
      by_contra other
      exact filled ⟨c, member, Bool.eq_false_iff.mpr other⟩
    rw [trim_blank blank, strip, List.dropWhile_eq_nil_iff.mpr blank, List.rdropWhile_nil]

theorem Indented.trim_not_bare {s : List UInt8} (indented : Indented s) : ¬ Bare (trim s) := by
  obtain ⟨⟨c, start, space⟩, filled⟩ := indented
  rw [trim_filled filled]
  intro bare
  have nonempty : s.rdropWhile isSpace ≠ [] := by
    obtain ⟨d, member, other⟩ := filled
    intro nothing
    have space := List.rdropWhile_eq_nil_iff.mp nothing d member
    rw [other] at space
    cases space
  have first : (s.rdropWhile isSpace).head? = some c := by
    obtain ⟨tail, whole⟩ := List.rdropWhile_prefix isSpace s
    rw [← whole, List.head?_append_of_ne_nil _ nonempty] at start
    exact start
  have other := bare.first c first
  rw [space] at other
  cases other

theorem trim_bare_iff (s : List UInt8) : Bare (trim s) ↔ ¬ Indented s := by
  constructor
  · intro bare indented
    exact indented.trim_not_bare bare
  · intro clean
    rw [trim_of_not_indented clean]
    exact strip_bare s

/-- `trim` and `match_header_value` ignore the white space around a value and the case of its
letters exactly when there is no white space in front of the value, and a text that is the same
but for these is the same but for white space behind it. -/
theorem values_matched_iff (s t : List UInt8) :
    (LongestBare s (trim s) ∧ (matchHeaderValue s t = true ↔ SameUpToCase (strip s) (strip t))) ↔
      ¬ Indented s ∧ (SameUpToCase (strip s) (strip t) → strip s = strip t ∧ ¬ Indented t) := by
  have matched : matchHeaderValue s t = true ↔ trim s = trim t :=
    stringMatchCaseInsensitive_iff (trim s) (trim t)
  rw [matched]
  constructor
  · rintro ⟨longest, exactly⟩
    have trimmed := (longestBare_iff s _).mp longest
    refine ⟨(trim_bare_iff s).mp longest.bare, fun same => ?_⟩
    have equal := exactly.mpr same
    have clean : ¬ Indented t := by
      apply (trim_bare_iff t).mp
      rw [← equal]
      exact longest.bare
    exact ⟨by rw [← trimmed, equal, trim_of_not_indented clean], clean⟩
  · rintro ⟨clean, exactly⟩
    have trimmed := trim_of_not_indented clean
    refine ⟨(longestBare_iff s _).mpr trimmed, fun equal => ?_, fun same => ?_⟩
    · have other : ¬ Indented t := by
        apply (trim_bare_iff t).mp
        rw [← equal, trimmed]
        exact strip_bare s
      rw [← trimmed, equal, trim_of_not_indented other]
      exact rfl
    · obtain ⟨equal, other⟩ := exactly same
      rw [trimmed, equal, trim_of_not_indented other]

/-- A value as clients send it, with a space in front: `trim` keeps the space, and the value is
not matched. -/
theorem leading_space_kept :
    trim (ascii " close") = ascii " close" ∧ strip (ascii " close") = ascii "close" ∧
      ¬ LongestBare (ascii " close") (trim (ascii " close")) ∧
      matchHeaderValue (ascii " close") (ascii "close") = false ∧
      matchHeaderValue (ascii "Close") (ascii "close") = false := by
  refine ⟨by decide +kernel, by decide +kernel, ?_, by decide +kernel, by decide +kernel⟩
  intro longest
  exact absurd (longest.bare.first 32 (by decide +kernel)) (by decide)

/-! ## Content lengths -/

/-- The value of decimal digits that follow a number. -/
def decimalFrom (digits : List UInt8) (x : Nat) : Nat :=
  digits.foldl (fun n digit => n * 10 + digitValue digit) x

/-- White space, digits with the value, and white space. -/
def Spells (s : List UInt8) (n : Nat) : Prop :=
  ∃ lead digits tail, s = lead ++ (digits ++ tail) ∧ (∀ c ∈ lead, isSpace c = true) ∧
    digits ≠ [] ∧ (∀ c ∈ digits, isDigit c = true) ∧ (∀ c ∈ tail, isSpace c = true) ∧
    decimalFrom digits 0 = n

/-- The digit loop of `find_and_parse_content_length` and what follows it. -/
def lengthDigits (value : List UInt8) : (fuel cur x : Nat) → Option Nat
  | 0, _, _ => none
  | fuel + 1, cur, x => do
    let c ← value[cur]?
    let d := c.toNat - '0'.toNat
    if x > (sizeMax - d) / 10 then some sizeMax
    else
      let x := (x * 10 + d) % 2 ^ 64
      let cur := cur + 1
      if value[cur]?.any isDigit then lengthDigits value fuel cur x
      else if skipWhile isSpace value cur ≠ value.length then some sizeMax
      else some x

/-- `find_and_parse_content_length`, which has a copy of `parse_content_length`. -/
def findAndParseContentLength (src : List UInt8) (r : Request) : Option Nat :=
  match findHeader src r (ascii "Content-Length") with
  | none => some sizeMax
  | some value =>
    let cur := skipWhile isSpace value 0
    if !value[cur]?.any isDigit then some sizeMax
    else lengthDigits value (value.length + 1) cur 0

theorem digitValue_le {c : UInt8} (digit : isDigit c = true) : digitValue c ≤ 9 := by
  obtain ⟨-, high⟩ := Bool.and_eq_true_iff.mp digit
  have high : c.toNat ≤ 57 := of_decide_eq_true high
  have zero : '0'.toNat = 48 := rfl
  rw [digitValue, zero]
  omega

theorem not_digit_of_space {c : UInt8} (space : isSpace c = true) : isDigit c = false := by
  simp only [isSpace, Bool.or_eq_true, beq_iff_eq] at space
  rcases space with ((rfl | rfl) | rfl) | rfl
  · rfl
  · rfl
  · rfl
  · rfl

theorem not_space_of_digit {c : UInt8} (digit : isDigit c = true) : isSpace c = false := by
  by_contra space
  rw [not_digit_of_space ((Bool.not_eq_false _).mp space)] at digit
  cases digit

/-- The guard of the loop is exact. -/
theorem digit_overflows_iff {x d : Nat} (small : d ≤ 9) :
    x > (sizeMax - d) / 10 ↔ sizeMax < x * 10 + d := by
  have size : sizeMax = 18446744073709551615 := rfl
  omega

/-- Further digits make a number larger. -/
theorem le_decimalFrom (digits : List UInt8) (x : Nat) : x ≤ decimalFrom digits x := by
  induction digits generalizing x with
  | nil => exact Nat.le_refl x
  | cons digit digits ih =>
    have larger := ih (x * 10 + digitValue digit)
    rw [decimalFrom, List.foldl_cons, ← decimalFrom]
    omega

/-- The loop finds the value of the digits, or that it does not fit. -/
theorem parseDigits_run {digits rest : List UInt8} (valid : ∀ c ∈ digits, isDigit c = true)
    (stop : ∀ c ∈ rest.head?, isDigit c = false) {x : Nat} (fits : x ≤ sizeMax) :
    parseDigits (digits ++ rest) x =
      if decimalFrom digits x ≤ sizeMax then some (decimalFrom digits x, rest) else none := by
  induction digits generalizing x with
  | nil =>
    rw [decimalFrom, List.foldl_nil, if_pos fits, List.nil_append]
    cases rest with
    | nil => rfl
    | cons c rest => rw [parseDigits, stop c rfl, if_neg Bool.false_ne_true]
  | cons c digits ih =>
    obtain ⟨digit, valid⟩ := List.forall_mem_cons.mp valid
    have guarded := digit_overflows_iff (x := x) (digitValue_le digit)
    have larger := le_decimalFrom digits (x * 10 + digitValue c)
    rw [List.cons_append, parseDigits, if_pos digit, decimalFrom, List.foldl_cons, ← decimalFrom]
    dsimp only
    rw [← digitValue]
    by_cases overflow : x > (sizeMax - digitValue c) / 10
    · have above := guarded.mp overflow
      rw [if_pos overflow, if_neg (by omega)]
    · have below := guarded.not.mp overflow
      rw [if_neg overflow, ih valid (by omega)]

/-- What becomes of the digits: the value if only white space follows them. -/
def lengthOf : Option (Nat × List UInt8) → Nat
  | none => sizeMax
  | some (x, behind) => if behind.dropWhile isSpace = [] then x else sizeMax

theorem parseContentLength_digit {lead rest : List UInt8} {c : UInt8}
    (spaces : ∀ c ∈ lead, isSpace c = true) (digit : isDigit c = true) :
    parseContentLength (lead ++ c :: rest) = lengthOf (parseDigits (c :: rest) 0) := by
  have start : (lead ++ c :: rest).dropWhile isSpace = c :: rest := by
    rw [List.dropWhile_append_of_pos spaces, List.dropWhile_cons_of_neg]
    exact Bool.eq_false_iff.mp (not_space_of_digit digit)
  rw [parseContentLength, start, if_neg]
  · cases parseDigits (c :: rest) 0 with
    | none => rfl
    | some run => rfl
  · rw [List.head?_cons, Option.all_some, digit]
    exact Bool.false_ne_true

theorem parseContentLength_noDigit {lead rest : List UInt8} (spaces : ∀ c ∈ lead, isSpace c = true)
    (stop : ∀ c ∈ rest.head?, isSpace c = false ∧ isDigit c = false) :
    parseContentLength (lead ++ rest) = sizeMax := by
  have start : (lead ++ rest).dropWhile isSpace = rest := by
    rw [List.dropWhile_append_of_pos spaces]
    cases rest with
    | nil => rfl
    | cons c rest =>
      rw [List.dropWhile_cons_of_neg]
      exact Bool.eq_false_iff.mp (stop c rfl).1
  rw [parseContentLength, start, if_pos]
  cases rest with
  | nil => rfl
  | cons c rest => rw [List.head?_cons, Option.all_some, (stop c rfl).2, Bool.not_false]

/-- White space, digits and anything else. -/
theorem parseContentLength_run {lead digits rest : List UInt8} (spaces : ∀ c ∈ lead, isSpace c = true)
    (some : digits ≠ []) (valid : ∀ c ∈ digits, isDigit c = true)
    (stop : ∀ c ∈ rest.head?, isDigit c = false) :
    parseContentLength (lead ++ (digits ++ rest)) =
      if decimalFrom digits 0 ≤ sizeMax ∧ rest.all isSpace = true then decimalFrom digits 0
      else sizeMax := by
  have run := parseDigits_run valid stop (Nat.zero_le sizeMax)
  obtain ⟨c, digits, rfl⟩ := List.exists_cons_of_ne_nil some
  rw [List.cons_append] at run ⊢
  rw [parseContentLength_digit spaces (valid c List.mem_cons_self), run]
  by_cases fits : decimalFrom (c :: digits) 0 ≤ sizeMax
  · rw [if_pos fits, lengthOf]
    simp only [fits, true_and, List.dropWhile_eq_nil_iff, List.all_eq_true]
  · rw [if_neg fits, if_neg (fun both => fits both.1)]
    rfl

/-- Every value is white space, digits and something else. -/
theorem length_parts (s : List UInt8) : ∃ lead digits rest, s = lead ++ (digits ++ rest) ∧
    (∀ c ∈ lead, isSpace c = true) ∧ (∀ c ∈ digits, isDigit c = true) ∧
    (∀ c ∈ rest.head?, isDigit c = false) ∧
    (digits = [] → ∀ c ∈ rest.head?, isSpace c = false ∧ isDigit c = false) := by
  refine ⟨s.takeWhile isSpace, (s.dropWhile isSpace).takeWhile isDigit,
    (s.dropWhile isSpace).dropWhile isDigit, ?_, ?_, ?_, dropWhile_stops _ _, ?_⟩
  · rw [List.takeWhile_append_dropWhile, List.takeWhile_append_dropWhile]
  · intro c member
    exact List.mem_takeWhile_imp member
  · intro c member
    exact List.mem_takeWhile_imp member
  · intro none c first
    refine ⟨?_, dropWhile_stops _ _ c first⟩
    have whole := List.takeWhile_append_dropWhile (p := isDigit) (l := s.dropWhile isSpace)
    rw [none, List.nil_append] at whole
    rw [whole] at first
    exact dropWhile_stops _ _ c first

theorem parseContentLength_spelled {s : List UInt8} {n : Nat} (spelled : Spells s n)
    (fits : n < sizeMax) : parseContentLength s = n := by
  obtain ⟨lead, digits, tail, rfl, before, some, valid, behind, rfl⟩ := spelled
  have stop : ∀ c ∈ tail.head?, isDigit c = false := by
    intro c first
    exact not_digit_of_space (behind c (List.mem_of_mem_head? first))
  rw [parseContentLength_run before some valid stop,
    if_pos ⟨Nat.le_of_lt fits, List.all_eq_true.mpr behind⟩]

theorem parseContentLength_other {s : List UInt8} (other : ∀ n, Spells s n → sizeMax ≤ n) :
    parseContentLength s = sizeMax := by
  obtain ⟨lead, digits, rest, rfl, before, valid, stop, noDigit⟩ := length_parts s
  by_cases none : digits = []
  · rw [none, List.nil_append]
    exact parseContentLength_noDigit before (noDigit none)
  · rw [parseContentLength_run before none valid stop]
    split
    · next both =>
      have large := other _ ⟨lead, digits, rest, rfl, before, none, valid,
        List.all_eq_true.mp both.2, rfl⟩
      exact Nat.le_antisymm both.1 large
    · rfl

/-! ### The copy in `find_and_parse_content_length` -/

theorem getElem?_behind (front rest : List UInt8) : (front ++ rest)[front.length]? = rest.head? := by
  rw [List.head?_eq_getElem?]
  exact getElem?_front front rest 0

/-- A run reaches the end of a text where nothing is left behind it. -/
theorem skipWhile_end (p : UInt8 → Bool) (front rest : List UInt8) :
    skipWhile p (front ++ rest) front.length = (front ++ rest).length ↔ rest.dropWhile p = [] := by
  have parts := congrArg List.length (List.takeWhile_append_dropWhile (p := p) (l := rest))
  rw [List.length_append] at parts
  rw [skipWhile_append, List.length_append, ← List.length_eq_zero_iff]
  omega

theorem lengthDigits_step (front rest : List UInt8) {c : UInt8} (digit : isDigit c = true)
    (fuel x : Nat) :
    lengthDigits (front ++ c :: rest) (fuel + 1) front.length x =
      if x > (sizeMax - digitValue c) / 10 then some sizeMax
      else if rest.head?.any isDigit then
        lengthDigits (front ++ c :: rest) fuel (front.length + 1) (x * 10 + digitValue c)
      else some (lengthOf (some (x * 10 + digitValue c, rest))) := by
  have here : (front ++ c :: rest)[front.length]? = some c := getElem?_behind front (c :: rest)
  have next : (front ++ c :: rest)[front.length + 1]? = rest.head? := by
    rw [getElem?_front, List.getElem?_cons_succ, List.head?_eq_getElem?]
  have guarded := digit_overflows_iff (x := x) (digitValue_le digit)
  have size : sizeMax + 1 = 2 ^ 64 := rfl
  rw [lengthDigits, here, Option.bind_eq_bind, Option.bind_some]
  dsimp only
  rw [← digitValue, next]
  by_cases overflow : x > (sizeMax - digitValue c) / 10
  · rw [if_pos overflow, if_pos overflow]
  · have below := guarded.not.mp overflow
    rw [if_neg overflow, if_neg overflow, Nat.mod_eq_of_lt (by omega)]
    congr 1
    have behind := skipWhile_end isSpace (front ++ [c]) rest
    rw [List.length_append, List.length_singleton, List.append_assoc, List.singleton_append] at behind
    rw [lengthOf]
    by_cases ended : rest.dropWhile isSpace = []
    · rw [if_neg (fun more => more (behind.mpr ended)), if_pos ended]
    · rw [if_pos (fun all => ended (behind.mp all)), if_neg ended]

theorem lengthDigits_eq (rest : List UInt8) {c : UInt8} (digit : isDigit c = true) {x fuel : Nat}
    (enough : rest.length < fuel) (front : List UInt8) :
    lengthDigits (front ++ c :: rest) fuel front.length x = some (lengthOf (parseDigits (c :: rest) x)) := by
  obtain ⟨fuel, rfl⟩ := Nat.exists_eq_succ_of_ne_zero (Nat.ne_zero_of_lt enough)
  induction rest generalizing c x fuel front with
  | nil =>
    rw [lengthDigits_step front [] digit, parseDigits, if_pos digit]
    dsimp only
    rw [← digitValue]
    split
    · rfl
    · rfl
  | cons d rest ih =>
    rw [lengthDigits_step front (d :: rest) digit, parseDigits, if_pos digit]
    dsimp only
    rw [← digitValue, List.head?_cons, Option.any_some]
    split
    · rfl
    by_cases more : isDigit d = true
    · have shape : front ++ c :: d :: rest = (front ++ [c]) ++ d :: rest := List.append_cons _ _ _
      have position : front.length + 1 = (front ++ [c]).length := by
        rw [List.length_append, List.length_singleton]
      obtain ⟨fuel, rfl⟩ := Nat.exists_eq_succ_of_ne_zero
        (Nat.ne_zero_of_lt (Nat.lt_of_succ_lt_succ enough))
      rw [if_pos more, shape, position]
      exact ih more (front ++ [c]) fuel (Nat.lt_of_succ_lt_succ enough)
    · rw [if_neg more, parseDigits, if_neg more]

/-- The cursor behind the white space in front. -/
theorem skipWhile_spaces {lead rest : List UInt8} (spaces : ∀ c ∈ lead, isSpace c = true)
    (stop : ∀ c ∈ rest.head?, isSpace c = false) :
    skipWhile isSpace (lead ++ rest) 0 = lead.length := by
  rw [skipWhile, List.drop_zero, takeWhile_run spaces stop, Nat.zero_add]

/-- The copy reads what `parse_content_length` reads. -/
theorem findAndParseContentLength_eq (src : List UInt8) (r : Request) :
    findAndParseContentLength src r =
      some ((findHeader src r (ascii "Content-Length")).elim sizeMax parseContentLength) := by
  rw [findAndParseContentLength]
  cases findHeader src r (ascii "Content-Length") with
  | none => rfl
  | some value =>
    obtain ⟨lead, digits, rest, rfl, before, valid, stop, noDigit⟩ := length_parts value
    rw [Option.elim_some]
    dsimp only
    cases digits with
    | nil =>
      have other := noDigit rfl
      rw [List.nil_append, skipWhile_spaces before (fun c first => (other c first).1),
        getElem?_behind, parseContentLength_noDigit before other, if_pos]
      cases rest with
      | nil => rfl
      | cons c rest => rw [List.head?_cons, Option.any_some, (other c rfl).2, Bool.not_false]
    | cons c digits =>
      have digit := valid c List.mem_cons_self
      have plain : ∀ d ∈ (c :: (digits ++ rest)).head?, isSpace d = false := by
        rintro d ⟨⟩
        exact not_space_of_digit digit
      rw [List.cons_append, skipWhile_spaces before plain, getElem?_behind,
        parseContentLength_digit before digit, List.head?_cons, Option.any_some, digit,
        Bool.not_true, if_neg Bool.false_ne_true]
      apply lengthDigits_eq _ digit
      simp only [List.length_append, List.length_cons]
      omega

/-- `parse_content_length` reads a number between white space, and its copy reads the header. -/
theorem content_length_exact (src : List UInt8) (r : Request) (s : List UInt8) :
    (∀ n, Spells s n → n < sizeMax → parseContentLength s = n) ∧
      ((∀ n, Spells s n → sizeMax ≤ n) → parseContentLength s = sizeMax) ∧
      findAndParseContentLength src r =
        some ((findHeader src r (ascii "Content-Length")).elim sizeMax parseContentLength) :=
  ⟨fun _ spelled fits => parseContentLength_spelled spelled fits, parseContentLength_other,
    findAndParseContentLength_eq src r⟩

/-- A length with white space and zeros around it, and the first one that does not fit. -/
theorem content_length_exact_applies :
    parseContentLength (ascii " 0042\t") = 42 ∧
      parseContentLength (ascii "18446744073709551616") = sizeMax := by
  have small := content_length_exact [] ⟨.get, ⟨0, 0⟩, 1, 1, [], ⟨0, 0⟩⟩ (ascii " 0042\t")
  constructor
  · apply small.1 42 _ (by decide)
    exact ⟨[32], ascii "0042", [9], by decide +kernel, by decide +kernel, by decide +kernel,
      by decide +kernel, by decide +kernel, by decide +kernel⟩
  · decide +kernel

end Mysnips.HttpParse

import Mysnips.HttpFields
import Mysnips.HttpPathNormal

/-! Routes of the HTTP module. A handler is chosen by matching the path of a request
against a format such as `/users/:n/files/:l`: both are split into components, and a
component of the format is a literal or a directive that stores the component of the
path under it. -/
namespace Mysnips.HttpRoutes
open HttpParse HttpPath
open Memory (ascii)

/-- `LIMIT`, the length of both stacks. -/
def stackLimit : Nat := 32

/-- `UINT32_MAX`. -/
def uint32Max : Nat := 2 ^ 32 - 1

/-- What is stored through one of the pointers behind the format. -/
inductive Output where
  | text (comp : List UInt8)
  | number (n : Nat)
  deriving DecidableEq

/-- The bytes that `strlen` counts. -/
def cString (fmt : List UInt8) : List UInt8 := fmt.takeWhile (· != 0)

def isDirective (format : List UInt8) : Bool := format.head? == some ':'.toUInt8

def lineDirective : List UInt8 := [':'.toUInt8, 'l'.toUInt8]

def numberDirective : List UInt8 := [':'.toUInt8, 'n'.toUInt8]

/-- The digits of a component under `:n`, with `n` read so far: nothing where the
function gives up, at a number that is too large or a byte that is no digit. -/
def scanNumber : List UInt8 → Nat → Option Nat
  | [], n => some n
  | c :: rest, n =>
    if isDigit c then
      if n > (uint32Max - digitValue c) / 10 then none
      else scanNumber rest (n * 10 + digitValue c)
    else none

/-- One round of the loop of `match_path_format`: what it stores, or the code that the
function returns from inside the loop. -/
def matchComponent (format comp : List UInt8) : Except Int (List Output) :=
  if isDirective format then
    if format.length ≠ 2 then .error (-1)
    else if format = lineDirective then .ok [.text comp]
    else if format = numberDirective then
      match scanNumber comp 0 with
      | none => .error (-1)
      | some n => .ok [.number n]
    else .error (-1)
  else if format.length ≠ comp.length then .error 1
  -- `memcmp` finds a difference and the function returns `false`.
  else if format ≠ comp then .error 0
  else .ok []

/-- The loop of `match_path_format` over the components of both stacks: the returned
code and everything stored. Nothing stands for a failed assertion. -/
def matchComponents : List (List UInt8 × List UInt8) → List Output → Option (Int × List Output)
  | [], stored => some (0, stored)
  | (format, comp) :: rest, stored =>
    if format.length = 0 ∨ comp.length = 0 then none
    else
      match matchComponent format comp with
      | .error code => some (code, stored)
      | .ok new => matchComponents rest (stored ++ new)

/-- `match_path_format`: the returned code and what the pointers have received. -/
def matchPathFormat (path fmt : List UInt8) : Option (Int × List Output) :=
  match splitPathComponents path stackLimit false,
      splitPathComponents (cString fmt) stackLimit true with
  | some comps, some formats =>
    if comps.length ≠ formats.length then some (1, [])
    else matchComponents (formats.zip comps) []
  | _, _ => some (-1, [])

/-- The component of a path is one that the component of the format stands for. -/
def Agrees (pair : List UInt8 × List UInt8) : Prop :=
  if isDirective pair.1 then
    pair.1 = numberDirective →
      (∀ c ∈ pair.2, isDigit c = true) ∧ decimalFrom pair.2 0 ≤ uint32Max
  else pair.2 = pair.1

instance (pair : List UInt8 × List UInt8) : Decidable (Agrees pair) := by
  have digits : Decidable (∀ c ∈ pair.2, isDigit c = true) := List.decidableBAll _ pair.2
  unfold Agrees
  infer_instance

/-- What a component of the format captures from the component of the path. -/
def captured (pair : List UInt8 × List UInt8) : List Output :=
  if pair.1 = lineDirective then [.text pair.2]
  else if pair.1 = numberDirective then [.number (decimalFrom pair.2 0)]
  else []

/-- The first component that does not agree with the format. -/
def FirstFailure (pairs : List (List UInt8 × List UInt8)) (failed : List UInt8 × List UInt8) : Prop :=
  ∃ front rest, pairs = front ++ failed :: rest ∧ (∀ pair ∈ front, Agrees pair) ∧ ¬ Agrees failed

/-- What a matched route is to return for the components of a path and of a format. -/
structure Routed (comps formats : List (List UInt8)) (code : Int) (stored : List Output) : Prop where
  matched : code = 0 ↔ comps.length = formats.length ∧ ∀ pair ∈ formats.zip comps, Agrees pair
  outputs : code = 0 → stored = (formats.zip comps).flatMap captured
  lengths : comps.length ≠ formats.length → code = 1
  literal : comps.length = formats.length → ∀ failed, FirstFailure (formats.zip comps) failed →
    isDirective failed.1 = false → code = 1
  number : comps.length = formats.length → ∀ failed, FirstFailure (formats.zip comps) failed →
    isDirective failed.1 = true → code = -1

/-- The splitter leaves no empty component, with or without colons. -/
theorem splitFrom_nonempty {limit : Nat} {allowDdots : Bool} {stack comps : List (List UInt8)}
    {rest : List UInt8} (nonempty : ∀ c ∈ stack, c ≠ [])
    (done : splitFrom limit allowDdots stack rest = some comps) : ∀ c ∈ comps, c ≠ [] := by
  have pushed : ∀ {stack stack' : List (List UInt8)} {comp : List UInt8}, (∀ c ∈ stack, c ≠ []) →
      comp ≠ [] → resolve stack comp = some stack' → ∀ c ∈ stack', c ≠ [] := by
    intro stack stack' comp nonempty new resolved c member
    rcases resolve_cases resolved with ⟨-, -, rfl⟩ | ⟨-, rfl⟩ | ⟨-, -, rfl⟩
    · exact nonempty c (List.dropLast_subset _ member)
    · exact nonempty c member
    · rcases List.mem_append.mp member with old | last
      · exact nonempty c old
      · rwa [List.mem_singleton.mp last]
  fun_induction splitFrom limit allowDdots stack rest with
  | case1 stack =>
    cases done
    exact nonempty
  | case2 | case3 | case4 | case6 => cases done
  | case5 stack rest _ _ new stack' resolved last =>
    cases done
    exact pushed nonempty new resolved
  | case7 stack rest _ _ new stack' resolved c tail behind separator ih =>
    exact ih (pushed nonempty new resolved) done

/-- The digits are read as the number they spell, unless it is too large. -/
theorem scanNumber_eq (comp : List UInt8) {n : Nat} (fits : n ≤ uint32Max) :
    scanNumber comp n =
      if comp.all isDigit = true ∧ decimalFrom comp n ≤ uint32Max then
        some (decimalFrom comp n)
      else none := by
  induction comp generalizing n with
  | nil =>
    rw [if_pos ⟨by simp, fits⟩]
    rfl
  | cons c comp ih =>
    have first : decimalFrom (c :: comp) n = decimalFrom comp (n * 10 + digitValue c) := rfl
    have larger := le_decimalFrom comp (n * 10 + digitValue c)
    rw [scanNumber, first]
    by_cases digit : isDigit c = true
    · have small := digitValue_le digit
      have size : uint32Max = 4294967295 := rfl
      rw [if_pos digit]
      by_cases overflow : n > (uint32Max - digitValue c) / 10
      · rw [if_pos overflow, if_neg]
        rintro ⟨-, below⟩
        omega
      · rw [if_neg overflow, ih (by omega)]
        simp only [List.all_cons, digit, Bool.true_and]
    · rw [if_neg digit, if_neg]
      rintro ⟨digits, -⟩
      exact digit (List.all_eq_true.mp digits c List.mem_cons_self)

/-- A component of a format that is a literal or one of the two directives. -/
def Known (format : List UInt8) : Prop :=
  isDirective format = true → format = lineDirective ∨ format = numberDirective

theorem matchComponent_agrees {format comp : List UInt8} (known : Known format)
    (agrees : Agrees (format, comp)) : matchComponent format comp = .ok (captured (format, comp)) := by
  by_cases directive : isDirective format = true
  · rcases known directive with rfl | rfl
    · rfl
    · have number := scanNumber_eq comp (Nat.zero_le uint32Max)
      obtain ⟨digits, below⟩ := agrees rfl
      rw [if_pos ⟨List.all_eq_true.mpr digits, below⟩] at number
      simp only [matchComponent]
      rw [number]
      rfl
  · have same : comp = format := by simpa only [Agrees, if_neg directive] using agrees
    subst same
    have literal : comp ≠ lineDirective ∧ comp ≠ numberDirective :=
      ⟨fun equal => directive (by rw [equal]; rfl), fun equal => directive (by rw [equal]; rfl)⟩
    simp [matchComponent, captured, directive, literal]

/-- The code that a component gives which does not agree with its format. -/
theorem matchComponent_differs {format comp : List UInt8} (known : Known format)
    (differs : ¬ Agrees (format, comp)) :
    matchComponent format comp = .error
      (if isDirective format then -1 else if format.length ≠ comp.length then 1 else 0) := by
  by_cases directive : isDirective format = true
  · rcases known directive with rfl | rfl
    · exact absurd (fun wrong => by cases wrong) differs
    · have number := scanNumber_eq comp (Nat.zero_le uint32Max)
      rw [if_neg (fun both => differs (fun _ => ⟨List.all_eq_true.mp both.1, both.2⟩))] at number
      simp only [matchComponent]
      rw [number]
      rfl
  · have other : format ≠ comp := by
      intro same
      apply differs
      simp only [Agrees, if_neg directive]
      exact same.symm
    simp only [matchComponent, if_neg directive, if_pos other]
    split <;> rfl

/-- The components that agree are passed, and what they capture is stored. -/
theorem matchComponents_front {front : List (List UInt8 × List UInt8)}
    (rest : List (List UInt8 × List UInt8)) (stored : List Output)
    (nonempty : ∀ pair ∈ front, pair.1 ≠ [] ∧ pair.2 ≠ []) (known : ∀ pair ∈ front, Known pair.1)
    (agree : ∀ pair ∈ front, Agrees pair) :
    matchComponents (front ++ rest) stored =
      matchComponents rest (stored ++ front.flatMap captured) := by
  induction front generalizing stored with
  | nil => simp
  | cons pair front ih =>
    obtain ⟨format, comp⟩ := pair
    obtain ⟨filled, nonempty⟩ := List.forall_mem_cons.mp nonempty
    obtain ⟨knownFirst, known⟩ := List.forall_mem_cons.mp known
    obtain ⟨agreesFirst, agree⟩ := List.forall_mem_cons.mp agree
    have sizes : ¬ (format.length = 0 ∨ comp.length = 0) := by
      simpa only [List.length_eq_zero_iff, not_or] using filled
    rw [List.cons_append, matchComponents, if_neg sizes,
      matchComponent_agrees knownFirst agreesFirst]
    dsimp only
    rw [ih _ nonempty known agree, List.flatMap_cons, List.append_assoc]

/-- The first component that does not agree decides the code. -/
theorem matchComponents_failure {pairs : List (List UInt8 × List UInt8)}
    {failed : List UInt8 × List UInt8} (first : FirstFailure pairs failed)
    (nonempty : ∀ pair ∈ pairs, pair.1 ≠ [] ∧ pair.2 ≠ []) (known : ∀ pair ∈ pairs, Known pair.1) :
    ∃ stored, matchComponents pairs [] = some
      (if isDirective failed.1 then -1 else if failed.1.length ≠ failed.2.length then 1 else 0,
        stored) := by
  obtain ⟨front, rest, rfl, agree, differs⟩ := first
  obtain ⟨nonemptyFront, nonempty⟩ := List.forall_mem_append.mp nonempty
  obtain ⟨knownFront, known⟩ := List.forall_mem_append.mp known
  have sizes : ¬ (failed.1.length = 0 ∨ failed.2.length = 0) := by
    simpa only [List.length_eq_zero_iff, not_or] using nonempty failed List.mem_cons_self
  refine ⟨[] ++ front.flatMap captured, ?_⟩
  rw [matchComponents_front _ _ nonemptyFront knownFront agree, matchComponents, if_neg sizes,
    matchComponent_differs (known failed List.mem_cons_self) differs]

/-- The first failure is found by looking for it. -/
theorem firstFailure_iff {pairs : List (List UInt8 × List UInt8)}
    {failed : List UInt8 × List UInt8} :
    FirstFailure pairs failed ↔ pairs.find? (fun pair => !decide (Agrees pair)) = some failed := by
  rw [List.find?_eq_some_iff_append]
  constructor
  · rintro ⟨front, rest, split, agree, differs⟩
    exact ⟨by simpa using differs, front, rest, split, by simpa using agree⟩
  · rintro ⟨differs, front, rest, split, agree⟩
    exact ⟨front, rest, split, by simpa using agree, by simpa using differs⟩

theorem FirstFailure.unique {pairs : List (List UInt8 × List UInt8)}
    {failed other : List UInt8 × List UInt8} (first : FirstFailure pairs failed)
    (also : FirstFailure pairs other) : other = failed :=
  Option.some.inj ((firstFailure_iff.mp also).symm.trans (firstFailure_iff.mp first))

/-- Either every component agrees with the format or there is a first one that does
not. -/
theorem agree_or_firstFailure (pairs : List (List UInt8 × List UInt8)) :
    (∀ pair ∈ pairs, Agrees pair) ∨ ∃ failed, FirstFailure pairs failed := by
  cases found : pairs.find? (fun pair => !decide (Agrees pair)) with
  | none =>
    left
    simpa using found
  | some failed => exact .inr ⟨failed, firstFailure_iff.mpr found⟩

theorem FirstFailure.not_agree {pairs : List (List UInt8 × List UInt8)}
    {failed : List UInt8 × List UInt8} (first : FirstFailure pairs failed) :
    ¬ ∀ pair ∈ pairs, Agrees pair := by
  obtain ⟨front, rest, rfl, -, differs⟩ := first
  intro agree
  exact differs (agree failed (by simp))

/-- Where the components agree with the format everything is stored and the code is 0. -/
theorem matchComponents_agree {pairs : List (List UInt8 × List UInt8)}
    (nonempty : ∀ pair ∈ pairs, pair.1 ≠ [] ∧ pair.2 ≠ []) (known : ∀ pair ∈ pairs, Known pair.1)
    (agree : ∀ pair ∈ pairs, Agrees pair) :
    matchComponents pairs [] = some (0, pairs.flatMap captured) := by
  have passed := matchComponents_front [] [] nonempty known agree
  rw [List.append_nil, List.nil_append] at passed
  exact passed

theorem matchPathFormat_eq {path fmt : List UInt8} {comps formats : List (List UInt8)}
    (pathSplit : splitPathComponents path stackLimit false = some comps)
    (formatSplit : splitPathComponents (cString fmt) stackLimit true = some formats) :
    matchPathFormat path fmt =
      if comps.length ≠ formats.length then some (1, []) else matchComponents (formats.zip comps) [] := by
  unfold matchPathFormat
  rw [pathSplit, formatSplit]

theorem splitPathComponents_nonempty {src : List UInt8} {limit : Nat} {allowDdots : Bool}
    {comps : List (List UInt8)} (split : splitPathComponents src limit allowDdots = some comps) :
    ∀ c ∈ comps, c ≠ [] :=
  splitFrom_nonempty (by simp) split

/-- Nothing fails at a literal that is as long as the component of the path under it. -/
def NoEqualLengthFailure (comps formats : List (List UInt8)) : Prop :=
  comps.length = formats.length → ∀ failed, FirstFailure (formats.zip comps) failed →
    isDirective failed.1 = false → failed.1.length ≠ failed.2.length

theorem Routed.of_lengths {comps formats : List (List UInt8)} (differ : comps.length ≠ formats.length)
    (stored : List Output) : Routed comps formats 1 stored where
  matched := ⟨fun wrong => absurd wrong (by decide), fun both => absurd both.1 differ⟩
  outputs wrong := absurd wrong (by decide)
  lengths _ := rfl
  literal same := absurd same differ
  number same := absurd same differ

theorem Routed.of_agree {comps formats : List (List UInt8)} (same : comps.length = formats.length)
    (agree : ∀ pair ∈ formats.zip comps, Agrees pair) :
    Routed comps formats 0 ((formats.zip comps).flatMap captured) where
  matched := ⟨fun _ => ⟨same, agree⟩, fun _ => rfl⟩
  outputs _ := rfl
  lengths differ := absurd same differ
  literal _ _ first := absurd agree first.not_agree
  number _ _ first := absurd agree first.not_agree

/-- At a first failure the code is right if it tells a number from a literal. -/
theorem Routed.failure_iff {comps formats : List (List UInt8)} {failed : List UInt8 × List UInt8}
    (same : comps.length = formats.length) (first : FirstFailure (formats.zip comps) failed)
    (code : Int) (stored : List Output) :
    Routed comps formats code stored ↔ code = if isDirective failed.1 then -1 else 1 := by
  constructor
  · intro routed
    cases directive : isDirective failed.1 with
    | false => exact routed.literal same failed first directive
    | true => exact routed.number same failed first directive
  · rintro rfl
    have nonzero : (if isDirective failed.1 then -1 else 1 : Int) ≠ 0 := by split <;> decide
    exact {
      matched := ⟨fun zero => absurd zero nonzero, fun both => absurd both.2 first.not_agree⟩
      outputs := fun zero => absurd zero nonzero
      lengths := fun differ => absurd same differ
      literal := by
        intro _ other also literal
        rw [first.unique also] at literal
        simp [literal]
      number := by
        intro _ other also directive
        rw [first.unique also] at directive
        simp [directive] }

/-- A route is matched as it should be exactly if the first component that does not agree
with the format is not a literal of the same length: there the function returns `false`,
the code of a match. -/
theorem match_path_format_routes_iff {path fmt : List UInt8} {comps formats : List (List UInt8)}
    (pathSplit : splitPathComponents path stackLimit false = some comps)
    (formatSplit : splitPathComponents (cString fmt) stackLimit true = some formats)
    (known : ∀ format ∈ formats, Known format) :
    (∃ code stored, matchPathFormat path fmt = some (code, stored) ∧
        Routed comps formats code stored) ↔
      NoEqualLengthFailure comps formats := by
  have filled : ∀ pair ∈ formats.zip comps, pair.1 ≠ [] ∧ pair.2 ≠ [] := by
    intro pair member
    obtain ⟨format, comp⟩ := List.of_mem_zip member
    exact ⟨splitPathComponents_nonempty formatSplit _ format,
      splitPathComponents_nonempty pathSplit _ comp⟩
  have known : ∀ pair ∈ formats.zip comps, Known pair.1 := fun pair member =>
    known _ (List.of_mem_zip member).1
  rw [matchPathFormat_eq pathSplit formatSplit]
  by_cases same : comps.length = formats.length
  · rw [if_neg (not_not.mpr same)]
    rcases agree_or_firstFailure (formats.zip comps) with agree | ⟨failed, first⟩
    · rw [matchComponents_agree filled known agree]
      constructor
      · intro _ _ failed first
        exact absurd agree first.not_agree
      · intro _
        exact ⟨0, _, rfl, Routed.of_agree same agree⟩
    · obtain ⟨stored, failure⟩ := matchComponents_failure first filled known
      rw [failure]
      constructor
      · rintro ⟨code, stored', done, routed⟩ _ other also literal equal
        rw [first.unique also] at literal equal
        have right := (Routed.failure_iff same first code stored').mp routed
        cases done
        simp [literal, equal] at right
      · intro apart
        refine ⟨_, stored, rfl, (Routed.failure_iff same first _ stored).mpr ?_⟩
        cases directive : isDirective failed.1 with
        | false => simp [apart same failed first directive]
        | true => rfl
  · rw [if_pos same]
    constructor
    · exact fun _ equal => absurd equal same
    · intro _
      exact ⟨1, [], rfl, Routed.of_lengths same []⟩

theorem match_path_format_routes_iff_applies :
    (∃ code stored, matchPathFormat (ascii "/users/7") (ascii "/users/:n") = some (code, stored) ∧
        Routed [ascii "users", ascii "7"] [ascii "users", ascii ":n"] code stored) ↔
      NoEqualLengthFailure [ascii "users", ascii "7"] [ascii "users", ascii ":n"] := by
  apply match_path_format_routes_iff
  · decide +kernel
  · decide +kernel
  · unfold Known
    decide +kernel

/-- The path `/users/7` is taken for a match of the format `/files/:n`. -/
theorem match_path_format_equal_lengths :
    splitPathComponents (ascii "/users/7") stackLimit false = some [ascii "users", ascii "7"] ∧
      splitPathComponents (cString (ascii "/files/:n")) stackLimit true =
        some [ascii "files", ascii ":n"] ∧
      matchPathFormat (ascii "/users/7") (ascii "/files/:n") = some (0, []) ∧
      ¬ ∃ code stored, matchPathFormat (ascii "/users/7") (ascii "/files/:n") = some (code, stored) ∧
        Routed [ascii "users", ascii "7"] [ascii "files", ascii ":n"] code stored := by
  have zero : matchPathFormat (ascii "/users/7") (ascii "/files/:n") = some (0, []) := by
    decide +kernel
  have differs : ¬ Agrees (ascii "files", ascii "users") := by decide +kernel
  refine ⟨by decide +kernel, by decide +kernel, zero, ?_⟩
  rintro ⟨code, stored, done, routed⟩
  rw [zero] at done
  cases done
  exact differs ((routed.matched.mp rfl).2 _ List.mem_cons_self)

end Mysnips.HttpRoutes

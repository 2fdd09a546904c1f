import Mysnips.CrlfLines
import Mysnips.HttpParse

/-! The heads that `parse_request_head` accepts. A head is a request line, header lines and an
empty line, but the parser looks for these by their separators: a path ends at a space and a
name at a colon, wherever the lines end. -/
namespace Mysnips.HttpParse
open CrlfLines
open Memory (ascii)

/-- The name of a method. -/
def Method.name : Method → List UInt8
  | .get => ascii "GET"
  | .post => ascii "POST"
  | .head => ascii "HEAD"
  | .put => ascii "PUT"
  | .delete => ascii "DELETE"
  | .connect => ascii "CONNECT"
  | .options => ascii "OPTIONS"
  | .trace => ascii "TRACE"
  | .patch => ascii "PATCH"

/-- What a head says: the digits of its version, the second one if it is there, and its headers
as pairs of a name and a value. -/
structure Head where
  m : Method
  path : List UInt8
  major : UInt8
  minor : Option UInt8
  headers : List (List UInt8 × List UInt8)
  deriving DecidableEq, Repr

/-- The value of a digit. -/
def digitValue (digit : UInt8) : Nat := digit.toNat - '0'.toNat

def versionText (major : UInt8) (minor : Option UInt8) : List UInt8 :=
  ascii "HTTP/" ++ major :: minor.toList.flatMap (fun digit => ['.'.toUInt8, digit])

/-- The request line, without its end. -/
def Head.requestLine (head : Head) : List UInt8 :=
  head.m.name ++ 32 :: (head.path ++ 32 :: versionText head.major head.minor)

/-- A header line with its end. -/
def headerLine (header : List UInt8 × List UInt8) : List UInt8 :=
  header.1 ++ 58 :: (header.2 ++ crlf)

def Head.bytes (head : Head) : List UInt8 :=
  head.requestLine ++ crlf ++ head.headers.flatMap headerLine ++ crlf

/-- A name has no colon and does not look like the end of the head, a value has no carriage
return. -/
structure HeaderOk (header : List UInt8 × List UInt8) : Prop where
  name : 58 ∉ header.1
  notEnd : ¬ crlf <+: header.1
  value : 13 ∉ header.2

/-- The request line can be read back. -/
structure Head.LineOk (head : Head) : Prop where
  path : 32 ∉ head.path
  major : isDigit head.major = true
  minor : ∀ digit ∈ head.minor, isDigit digit = true

structure Head.Ok (head : Head) : Prop extends head.LineOk where
  headers : ∀ header ∈ head.headers, HeaderOk header

instance (header : List UInt8 × List UInt8) : Decidable (HeaderOk header) :=
  decidable_of_iff (58 ∉ header.1 ∧ ¬ crlf <+: header.1 ∧ 13 ∉ header.2)
    ⟨fun ⟨name, notEnd, value⟩ => ⟨name, notEnd, value⟩,
      fun valid => ⟨valid.name, valid.notEnd, valid.value⟩⟩

instance (head : Head) : Decidable head.Ok :=
  have : Decidable (∀ digit ∈ head.minor, isDigit digit = true) :=
    @Option.decidableForallMem UInt8 (fun digit => isDigit digit = true) _ head.minor
  decidable_of_iff (32 ∉ head.path ∧ isDigit head.major = true ∧
      (∀ digit ∈ head.minor, isDigit digit = true) ∧ ∀ header ∈ head.headers, HeaderOk header)
    ⟨fun ⟨path, major, minor, headers⟩ => ⟨⟨path, major, minor⟩, headers⟩,
      fun ok => ⟨ok.path, ok.major, ok.minor, ok.headers⟩⟩

/-! ### Cursors -/

section Cursor

variable {front rest : List UInt8}

theorem startsAt_append (front rest text : List UInt8) :
    startsAt (front ++ rest) front.length text = true ↔ text <+: rest := by
  rw [startsAt, List.drop_left, List.isPrefixOf_iff_prefix]

theorem skipWhile_append (front rest : List UInt8) (p : UInt8 → Bool) :
    skipWhile p (front ++ rest) front.length = front.length + (rest.takeWhile p).length := by
  rw [skipWhile, List.drop_left]

theorem getElem?_front (front rest : List UInt8) (k : Nat) :
    (front ++ rest)[front.length + k]? = rest[k]? := by
  rw [List.getElem?_append_right (Nat.le_add_right _ _), Nat.add_sub_cancel_left]

/-- A scan for a byte takes what is in front of it. -/
theorem takeWhile_until {text : List UInt8} {c : UInt8} (absent : c ∉ text) (rest : List UInt8) :
    (text ++ c :: rest).takeWhile (· != c) = text := by
  have other : ∀ d ∈ text, (d != c) = true := by
    intro d member
    exact bne_iff_ne.mpr fun same => absent (same ▸ member)
  rw [List.takeWhile_append_of_pos other, List.takeWhile_cons_of_neg (by simp), List.append_nil]

/-- A scan for a byte that does not occur takes everything. -/
theorem takeWhile_all {text : List UInt8} {c : UInt8} (absent : c ∉ text) :
    text.takeWhile (· != c) = text := by
  rw [List.takeWhile_eq_self_iff]
  intro d member
  exact bne_iff_ne.mpr fun same => absent (same ▸ member)

/-- A byte occurs for the first time somewhere, or nowhere. -/
theorem until_or_absent (text : List UInt8) (c : UInt8) :
    c ∉ text ∨ ∃ before rest, text = before ++ c :: rest ∧ c ∉ before := by
  by_cases occurs : c ∈ text
  · obtain ⟨before, rest, cut, absent⟩ := List.eq_append_cons_of_mem occurs
    exact .inr ⟨before, rest, cut, absent⟩
  · exact .inl occurs

end Cursor

theorem ascii_crlf : ascii "\r\n" = crlf := by decide +kernel

/-- A name is not the end of the head, whatever follows its colon. -/
theorem crlf_prefix_name {name rest : List UInt8} (notEnd : ¬ crlf <+: name) :
    ¬ crlf <+: name ++ 58 :: rest := by
  rintro ⟨tail, shape⟩
  rcases name with _ | ⟨c, _ | ⟨d, name⟩⟩
  · cases shape
  · cases shape
  · cases shape
    exact notEnd ⟨name, rfl⟩

/-! ### The header loop -/

section Headers

variable {front name value rest tail : List UInt8} {fuel : Nat} {hs : List Header}

theorem runHeaders_end (fuel : Nat) (ends : crlf <+: rest) :
    runHeaders (front ++ rest) (fuel + 1) front.length hs = some (some (front.length + 2), hs) := by
  rw [runHeaders, ascii_crlf, if_pos ((startsAt_append ..).mpr ends)]

/-- Without a colon there is no header. -/
theorem runHeaders_noColon (fuel : Nat) (more : ¬ crlf <+: rest) (absent : 58 ∉ rest) :
    runHeaders (front ++ rest) (fuel + 1) front.length hs = some (none, hs) := by
  have colon : skipWhile (· != ':'.toUInt8) (front ++ rest) front.length = (front ++ rest).length := by
    rw [skipWhile_append, List.length_append]
    exact congrArg _ (congrArg _ (takeWhile_all absent))
  rw [runHeaders, ascii_crlf, if_neg (fun starts => more ((startsAt_append ..).mp starts))]
  simp only [colon, if_true]

/-- The colon behind a name. -/
theorem colon_found (plain : 58 ∉ name) :
    skipWhile (· != ':'.toUInt8) (front ++ (name ++ 58 :: rest)) front.length =
      front.length + name.length := by
  rw [skipWhile_append]
  exact congrArg _ (congrArg _ (takeWhile_until plain rest))

/-- The end of the text behind a colon, up to the first carriage return. -/
theorem value_found (front name rest : List UInt8) :
    skipWhile (· != '\r'.toUInt8) (front ++ (name ++ 58 :: rest)) (front.length + name.length + 1) =
      front.length + name.length + 1 + (rest.takeWhile (· != 13)).length := by
  have position : front.length + name.length + 1 = (front ++ name ++ [58]).length := by
    simp only [List.length_append, List.length_singleton]
  have shape : front ++ (name ++ 58 :: rest) = front ++ name ++ [58] ++ rest := by
    simp only [List.append_assoc, List.singleton_append]
  rw [position, shape, skipWhile_append]
  rfl

theorem colon_inside : front.length + name.length ≠ (front ++ (name ++ 58 :: rest)).length := by
  simp only [List.length_append, List.length_cons]
  omega

/-- A value that is cut off: the byte behind the end is skipped, and the next one is read. -/
theorem runHeaders_cut (fuel : Nat) (plain : 58 ∉ name) (notEnd : ¬ crlf <+: name)
    (endless : 13 ∉ value) :
    runHeaders (front ++ (name ++ 58 :: value)) (fuel + 1) front.length hs = none := by
  have length : (front ++ (name ++ 58 :: value)).length =
      front.length + name.length + 1 + value.length := by
    simp only [List.length_append, List.length_cons]
    omega
  rw [runHeaders, ascii_crlf,
    if_neg (fun starts => crlf_prefix_name notEnd ((startsAt_append ..).mp starts))]
  simp only [colon_found plain, if_neg colon_inside, value_found, takeWhile_all endless, ← length]
  rw [if_neg (by omega), List.getElem?_eq_none (by omega)]
  rfl

/-- A value whose carriage return is the last byte. -/
theorem runHeaders_return (fuel : Nat) (plain : 58 ∉ name) (notEnd : ¬ crlf <+: name)
    (closed : 13 ∉ value) :
    runHeaders (front ++ (name ++ 58 :: (value ++ [13]))) (fuel + 1) front.length hs =
      some (none, hs) := by
  have length : (front ++ (name ++ 58 :: (value ++ [13]))).length =
      front.length + name.length + 1 + value.length + 1 := by
    simp only [List.length_append, List.length_cons, List.length_nil]
    omega
  rw [runHeaders, ascii_crlf,
    if_neg (fun starts => crlf_prefix_name notEnd ((startsAt_append ..).mp starts))]
  simp only [colon_found plain, if_neg colon_inside, value_found, takeWhile_until closed]
  rw [if_pos length.symm]

/-- A value whose carriage return is followed by a byte. -/
theorem runHeaders_line (fuel : Nat) (plain : 58 ∉ name) (notEnd : ¬ crlf <+: name)
    (closed : 13 ∉ value) (c : UInt8) (rest : List UInt8) :
    runHeaders (front ++ (name ++ 58 :: (value ++ 13 :: c :: rest))) (fuel + 1) front.length hs =
      if c != 10 then some (none, hs)
      else
        runHeaders (front ++ (name ++ 58 :: (value ++ 13 :: c :: rest))) fuel
          (front.length + name.length + 1 + value.length + 2)
          (if hs.length < maxHeaders then
            hs ++ [⟨⟨front.length, name.length⟩, ⟨front.length + name.length + 1, value.length⟩⟩]
          else hs) := by
  have length : (front ++ (name ++ 58 :: (value ++ 13 :: c :: rest))).length =
      front.length + name.length + 1 + value.length + 2 + rest.length := by
    simp only [List.length_append, List.length_cons]
    omega
  have next : (front ++ (name ++ 58 :: (value ++ 13 :: c :: rest)))[
      front.length + name.length + 1 + value.length + 1]? = some c := by
    have shape : front ++ (name ++ 58 :: (value ++ 13 :: c :: rest)) =
        front ++ name ++ [58] ++ value ++ [13] ++ c :: rest := by
      simp only [List.append_assoc, List.cons_append, List.nil_append]
    have position : front.length + name.length + 1 + value.length + 1 =
        (front ++ name ++ [58] ++ value ++ [13]).length + 0 := by
      simp only [List.length_append, List.length_singleton, Nat.add_zero]
    rw [shape, position, getElem?_front]
    rfl
  rw [runHeaders, ascii_crlf,
    if_neg (fun starts => crlf_prefix_name notEnd ((startsAt_append ..).mp starts))]
  simp only [colon_found plain, if_neg colon_inside, value_found, takeWhile_until closed]
  rw [if_neg (by omega), next]
  simp only [Option.bind_eq_bind, Option.bind_some, Nat.add_sub_cancel_left]
  rfl

/-- The slices of header lines from an offset on. -/
def sliceHeaders : (offset : Nat) → List (List UInt8 × List UInt8) → List Header
  | _, [] => []
  | offset, header :: headers =>
    ⟨⟨offset, header.1.length⟩, ⟨offset + header.1.length + 1, header.2.length⟩⟩ ::
      sliceHeaders (offset + (headerLine header).length) headers

theorem take_append_take {α : Type} (n : Nat) (l m : List α) :
    (l.take n ++ m).take n = (l ++ m).take n := by
  rw [List.take_append, List.take_append, List.take_take, Nat.min_self, List.length_take]
  congr 2
  omega

/-- The loop goes through header lines and keeps the first of them. -/
theorem runHeaders_lines {headers : List (List UInt8 × List UInt8)}
    (valid : ∀ header ∈ headers, HeaderOk header) (few : hs.length ≤ maxHeaders) (fuel : Nat)
    (front tail : List UInt8) :
    runHeaders (front ++ (headers.flatMap headerLine ++ tail)) (headers.length + fuel) front.length hs =
      runHeaders (front ++ (headers.flatMap headerLine ++ tail)) fuel
        (front ++ headers.flatMap headerLine).length
        ((hs ++ sliceHeaders front.length headers).take maxHeaders) := by
  induction headers generalizing front hs with
  | nil =>
    rw [sliceHeaders, List.append_nil, List.flatMap_nil, List.append_nil, List.take_of_length_le few,
      List.length_nil, Nat.zero_add]
  | cons header headers ih =>
    obtain ⟨⟨plain, notEnd, closed⟩, others⟩ := List.forall_mem_cons.mp valid
    have shape : front ++ ((header :: headers).flatMap headerLine ++ tail) =
        front ++ (header.1 ++ 58 :: (header.2 ++ 13 :: 10 :: (headers.flatMap headerLine ++ tail))) := by
      simp only [List.flatMap_cons, headerLine, crlf, List.append_assoc, List.cons_append,
        List.nil_append]
    have regroup : front ++ ((header :: headers).flatMap headerLine ++ tail) =
        front ++ headerLine header ++ (headers.flatMap headerLine ++ tail) := by
      simp only [List.flatMap_cons, List.append_assoc]
    have position : front.length + header.1.length + 1 + header.2.length + 2 =
        (front ++ headerLine header).length := by
      simp only [headerLine, crlf, List.length_append, List.length_cons, List.length_nil]
      omega
    have kept : ∀ last : Header, (if hs.length < maxHeaders then hs ++ [last] else hs) =
        (hs ++ [last]).take maxHeaders := by
      intro last
      split
      · rw [List.take_of_length_le]
        rw [List.length_append, List.length_singleton]
        omega
      · rw [List.take_append_of_le_length (by omega), List.take_of_length_le few]
    rw [shape, List.length_cons, Nat.add_right_comm, runHeaders_line _ plain notEnd closed,
      if_neg (by decide), ← shape, regroup, position, kept,
      ih others (List.length_take_le _ _), take_append_take, sliceHeaders, List.append_assoc hs,
      List.singleton_append]
    simp only [List.flatMap_cons, List.length_append, List.append_assoc, Nat.add_assoc]

/-- What is in front of the loop is not a header line. -/
def BadHeader (rest : List UInt8) : Prop :=
  ¬ crlf <+: rest ∧ (58 ∉ rest ∨ ∃ name value after, rest = name ++ 58 :: (value ++ 13 :: after) ∧
    58 ∉ name ∧ ¬ crlf <+: name ∧ 13 ∉ value ∧ after.head? ≠ some 10)

/-- What is in front of the loop is a header whose value does not end. -/
def CutHeader (rest : List UInt8) : Prop :=
  ∃ name value, rest = name ++ 58 :: value ∧ 58 ∉ name ∧ ¬ crlf <+: name ∧ 13 ∉ value

theorem runHeaders_bad (fuel : Nat) (bad : BadHeader rest) :
    runHeaders (front ++ rest) (fuel + 1) front.length hs = some (none, hs) := by
  obtain ⟨more, absent | ⟨name, value, after, rfl, plain, notEnd, closed, noFeed⟩⟩ := bad
  · exact runHeaders_noColon fuel more absent
  · cases after with
    | nil => exact runHeaders_return fuel plain notEnd closed
    | cons c after =>
      have other : (c != 10) = true := bne_iff_ne.mpr fun same => noFeed (congrArg some same)
      rw [runHeaders_line fuel plain notEnd closed, if_pos other]

/-- Every text is header lines, followed by the end of the head or by something that ends the
loop. -/
theorem headers_split (rest : List UInt8) : ∃ (headers : List (List UInt8 × List UInt8)) (tail : List UInt8),
    rest = headers.flatMap headerLine ++ tail ∧ (∀ header ∈ headers, HeaderOk header) ∧
      (crlf <+: tail ∨ BadHeader tail ∨ CutHeader tail) := by
  induction length : rest.length using Nat.strong_induction_on generalizing rest with
  | _ n ih =>
    by_cases ends : crlf <+: rest
    · exact ⟨[], rest, rfl, by simp, .inl ends⟩
    rcases until_or_absent rest 58 with absent | ⟨name, behind, rfl, plain⟩
    · exact ⟨[], rest, rfl, by simp, .inr (.inl ⟨ends, .inl absent⟩)⟩
    have notEnd : ¬ crlf <+: name := fun starts => ends (starts.trans (List.prefix_append _ _))
    rcases until_or_absent behind 13 with endless | ⟨value, after, rfl, closed⟩
    · exact ⟨[], _, rfl, by simp, .inr (.inr ⟨name, behind, rfl, plain, notEnd, endless⟩)⟩
    by_cases feed : after.head? = some 10
    · obtain ⟨more, rfl⟩ : ∃ more, after = 10 :: more := by
        cases after with
        | nil => cases feed
        | cons c more => exact ⟨more, congrArg (· :: more) (Option.some.inj feed)⟩
      have shorter : more.length < n := by
        simp only [List.length_append, List.length_cons] at length
        omega
      obtain ⟨headers, tail, rfl, valid, stops⟩ := ih more.length shorter more rfl
      refine ⟨(name, value) :: headers, tail, ?_, ?_, stops⟩
      · simp only [List.flatMap_cons, headerLine, crlf, List.append_assoc, List.cons_append,
          List.nil_append]
      · exact List.forall_mem_cons.mpr ⟨⟨plain, notEnd, closed⟩, valid⟩
    · exact ⟨[], _, rfl, by simp, .inr (.inl ⟨ends, .inr ⟨name, value, after, rfl, plain, notEnd, closed,
        feed⟩⟩)⟩

end Headers

end Mysnips.HttpParse

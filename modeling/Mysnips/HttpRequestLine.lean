import Mysnips.HttpHead

/-! What becomes of an input: the stages of `parse_request_head` from the method to the end of
the head. The parser reads past its input in two places, behind `HTTP/` and behind a header value
that is cut off. -/
namespace Mysnips.HttpParse
open CrlfLines
open Memory (ascii)

/-! ### The request line -/

theorem ascii_http : ascii "HTTP/" = [72, 84, 84, 80, 47] := by decide +kernel

theorem versionText_none (major : UInt8) : versionText major none = [72, 84, 84, 80, 47, major] := by
  rw [versionText, ascii_http]
  rfl

theorem versionText_some (major digit : UInt8) :
    versionText major (some digit) = [72, 84, 84, 80, 47, major, 46, digit] := by
  rw [versionText, ascii_http]
  rfl

/-- What `parse_request_head` makes of the bytes behind `HTTP/`. -/
theorem parseVersion_behind (front : List UInt8) (major : UInt8) (more : List UInt8) :
    parseVersion (front ++ (ascii "HTTP/" ++ major :: more)) front.length =
      if isDigit major then
        if more.head? = some 46 then
          match more[1]? with
          | none => some none
          | some minor =>
            if isDigit minor then some (some (digitValue major, digitValue minor, front.length + 8))
            else some none
        else some (some (digitValue major, 0, front.length + 6))
      else some none := by
  have starts : startsAt (front ++ (ascii "HTTP/" ++ major :: more)) front.length (ascii "HTTP/") =
      true := (startsAt_append ..).mpr (List.prefix_append _ _)
  rw [parseVersion, starts, getElem?_front, getElem?_front, getElem?_front, ascii_http]
  simp only [List.cons_append, List.nil_append, List.getElem?_cons_succ, List.getElem?_cons_zero,
    Option.bind_eq_bind, Option.bind_some, List.head?_eq_getElem?, Bool.not_true]
  cases isDigit major with
  | false => rfl
  | true =>
    by_cases point : more[0]? = some 46
    · have same : more[0]? = some '.'.toUInt8 := point
      simp only [Bool.not_true, Bool.false_eq_true, if_false, if_true, if_pos point, if_pos same]
      cases more[1]? with
      | none => rfl
      | some minor =>
        cases digit : isDigit minor with
        | false => simp only [digit, Bool.not_false, Bool.false_eq_true, if_false, if_true]
        | true =>
          simp only [digit, Bool.not_true, Bool.false_eq_true, if_false, if_true]
          rfl
    · have other : ¬ more[0]? = some '.'.toUInt8 := point
      simp only [Bool.not_true, Bool.false_eq_true, if_false, if_true, if_neg point, if_neg other]
      rfl

theorem parseVersion_text {major : UInt8} {minor : Option UInt8} (first : isDigit major = true)
    (second : ∀ digit ∈ minor, isDigit digit = true) (front : List UInt8) {rest : List UInt8}
    (follows : minor = none → rest.head? ≠ some 46) :
    parseVersion (front ++ (versionText major minor ++ rest)) front.length =
      some (some (digitValue major, (minor.map digitValue).getD 0,
        front.length + (versionText major minor).length)) := by
  cases minor with
  | none =>
    have shape : versionText major none ++ rest = ascii "HTTP/" ++ major :: rest := by
      rw [versionText_none, ascii_http]
      rfl
    rw [shape, parseVersion_behind, if_pos first, if_neg (follows rfl), versionText_none]
    rfl
  | some digit =>
    have shape : versionText major (some digit) ++ rest =
        ascii "HTTP/" ++ major :: 46 :: digit :: rest := by
      rw [versionText_some, ascii_http]
      rfl
    rw [shape, parseVersion_behind, if_pos first, if_pos List.head?_cons, versionText_some,
      List.getElem?_cons_succ, List.getElem?_cons_zero]
    dsimp only
    rw [if_pos (second digit rfl)]
    rfl

/-- Nothing but `HTTP/` is left: the digit is read behind the end. -/
theorem parseVersion_cut (front : List UInt8) :
    parseVersion (front ++ ascii "HTTP/") front.length = none := by
  have starts : startsAt (front ++ ascii "HTTP/") front.length (ascii "HTTP/") = true :=
    (startsAt_append ..).mpr (List.prefix_refl _)
  rw [parseVersion, starts, getElem?_front, ascii_http]
  rfl

/-- What is in front of the version is refused, or is a version with what follows it. -/
theorem parseVersion_split (front rest : List UInt8) : rest = ascii "HTTP/" ∨
    (∃ major minor tail, rest = versionText major minor ++ tail ∧ isDigit major = true ∧
      (∀ digit ∈ minor, isDigit digit = true) ∧ (minor = none → tail.head? ≠ some 46)) ∨
    parseVersion (front ++ rest) front.length = some none := by
  by_cases starts : startsAt (front ++ rest) front.length (ascii "HTTP/") = true
  swap
  · refine .inr (.inr ?_)
    rw [parseVersion, if_pos (by simpa using starts)]
  obtain ⟨more, rfl⟩ := (startsAt_append ..).mp starts
  cases more with
  | nil => exact .inl (List.append_nil _)
  | cons major more =>
    refine .inr ?_
    by_cases first : isDigit major = true
    swap
    · refine .inr ?_
      rw [parseVersion_behind, if_neg first]
    by_cases point : more.head? = some 46
    · obtain ⟨tail, rfl⟩ := List.head?_eq_some_iff.mp point
      cases tail with
      | nil =>
        refine .inr ?_
        rw [parseVersion_behind, if_pos first, if_pos point]
        rfl
      | cons digit tail =>
        by_cases second : isDigit digit = true
        · refine .inl ⟨major, some digit, tail, ?_, first, ?_, nofun⟩
          · rw [versionText_some, ascii_http]
            rfl
          · rintro _ ⟨⟩
            exact second
        · refine .inr ?_
          rw [parseVersion_behind, if_pos first, if_pos point, List.getElem?_cons_succ,
            List.getElem?_cons_zero]
          dsimp only
          rw [if_neg second]
    · refine .inl ⟨major, none, more, ?_, first, nofun, fun _ => point⟩
      rw [versionText_none, ascii_http]
      rfl

theorem methods_named : ∀ entry ∈ methods, entry.1 = entry.2.name := by decide +kernel

theorem mem_methods (m : Method) : (m.name, m) ∈ methods := by
  cases m <;> simp [methods, Method.name]

/-- No method starts like another one. -/
theorem methods_distinct : ∀ one ∈ methods, ∀ other ∈ methods,
    one.1.isPrefixOf other.1 = true → one = other := by decide +kernel

theorem method_found (m : Method) (rest : List UInt8) :
    methods.find? (fun entry => startsAt (m.name ++ rest) 0 entry.1) = some (m.name, m) := by
  cases found : methods.find? (fun entry => startsAt (m.name ++ rest) 0 entry.1) with
  | none =>
    have absent := List.find?_eq_none.mp found _ (mem_methods m)
    exact absurd ((startsAt_append [] _ _).mpr (List.prefix_append _ _)) absent
  | some entry =>
    have member := List.mem_of_find?_eq_some found
    have matched := List.find?_some found
    have starts : entry.1 <+: m.name ++ rest := (startsAt_append [] _ _).mp matched
    rcases List.prefix_or_prefix_of_prefix starts (List.prefix_append m.name rest) with shorter | longer
    · rw [methods_distinct _ member _ (mem_methods m) (List.isPrefixOf_iff_prefix.mpr shorter)]
    · rw [← methods_distinct _ (mem_methods m) _ member (List.isPrefixOf_iff_prefix.mpr longer)]

theorem method_split (src : List UInt8) : (∃ m rest, src = Method.name m ++ rest) ∨
    methods.find? (fun entry => startsAt src 0 entry.1) = none := by
  cases found : methods.find? (fun entry => startsAt src 0 entry.1) with
  | none => exact .inr rfl
  | some entry =>
    have starts := List.find?_some found
    obtain ⟨rest, rfl⟩ := (startsAt_append [] _ _).mp starts
    have named := methods_named entry (List.mem_of_find?_eq_some found)
    exact .inl ⟨entry.2, rest, by rw [← named]⟩

/-- The path of a head in its bytes. -/
def Head.pathSlice (head : Head) : Slice := ⟨head.m.name.length + 1, head.path.length⟩

/-- What is left behind once the header loop has ended. -/
def Head.parse (head : Head) (run : Option Nat × List Header) : Parse :=
  match run.1 with
  | none => ⟨.badHeader, some head.pathSlice, run.2, none⟩
  | some cur =>
    ⟨.ok ⟨head.m, head.pathSlice, digitValue head.major, (head.minor.map digitValue).getD 0, run.2,
      ⟨0, 0⟩⟩, some head.pathSlice, run.2, some cur⟩

theorem path_found (name path rest : List UInt8) (plain : 32 ∉ path) :
    skipWhile (· != ' '.toUInt8) (name ++ 32 :: (path ++ 32 :: rest)) (name.length + 1) =
      name.length + 1 + path.length := by
  have position : name.length + 1 = (name ++ [32]).length := by
    rw [List.length_append, List.length_singleton]
  rw [position, List.append_cons, skipWhile_append]
  exact congrArg _ (congrArg _ (takeWhile_until plain rest))

/-- The rest of `parse_request_head`, from the version on. -/
def runVersion (src : List UInt8) (m : Method) (path : Slice) (cur : Nat) : Option Parse := do
  match ← parseVersion src cur with
  | none => some ⟨.badVersion, some path, [], none⟩
  | some (major, minor, cur) =>
    if !startsAt src cur (ascii "\r\n") then some ⟨.incomplete, some path, [], none⟩
    else do
      match ← runHeaders src (src.length + 1) (cur + 2) [] with
      | (none, hs) => some ⟨.badHeader, some path, hs, none⟩
      | (some cur, hs) => some ⟨.ok ⟨m, path, major, minor, hs, ⟨0, 0⟩⟩, some path, hs, some cur⟩

theorem path_split (m : Method) (path rest : List UInt8) :
    m.name ++ 32 :: (path ++ 32 :: rest) = m.name ++ 32 :: (path ++ [32]) ++ rest := by
  simp only [List.append_assoc, List.cons_append, List.nil_append]

/-- A method and a path are read. -/
theorem runRequestHead_path (m : Method) {path : List UInt8} (plain : 32 ∉ path) (rest : List UInt8) :
    runRequestHead (m.name ++ 32 :: (path ++ 32 :: rest)) =
      runVersion (m.name ++ 32 :: (path ++ 32 :: rest)) m ⟨m.name.length + 1, path.length⟩
        (m.name ++ 32 :: (path ++ [32])).length := by
  generalize whole : m.name ++ 32 :: (path ++ 32 :: rest) = src
  have found : methods.find? (fun entry => startsAt src 0 entry.1) = some (m.name, m) := by
    rw [← whole]
    exact method_found m _
  have space : src[m.name.length]? = some ' '.toUInt8 := by
    rw [← whole]
    exact getElem?_front _ _ 0
  have stop : skipWhile (· != ' '.toUInt8) src (m.name.length + 1) =
      m.name.length + 1 + path.length := by
    rw [← whole]
    exact path_found _ _ _ plain
  have space2 : src[m.name.length + 1 + path.length]? = some ' '.toUInt8 := by
    have position : m.name.length + 1 + path.length = (m.name ++ 32 :: path).length + 0 := by
      simp only [List.length_append, List.length_cons]
      omega
    have shape : src = (m.name ++ 32 :: path) ++ 32 :: rest := by
      rw [← whole]
      simp only [List.append_assoc, List.cons_append]
    rw [shape, position, getElem?_front]
    rfl
  have position : m.name.length + 1 + path.length + 1 = (m.name ++ 32 :: (path ++ [32])).length := by
    simp only [List.length_append, List.length_cons, List.length_nil]
    omega
  rw [runRequestHead, found]
  simp only [space, stop, space2, position, Nat.add_sub_cancel_left, ne_eq, not_true_eq_false, if_false]
  rfl

/-- A request line is read, and the header loop starts behind it. -/
theorem runRequestHead_line {head : Head} (lineOk : head.LineOk) (rest : List UInt8) :
    runRequestHead (head.requestLine ++ crlf ++ rest) =
      (runHeaders (head.requestLine ++ crlf ++ rest) ((head.requestLine ++ crlf ++ rest).length + 1)
        (head.requestLine ++ crlf).length []).map head.parse := by
  have atPath : head.requestLine ++ crlf ++ rest = head.m.name ++ 32 :: (head.path ++ 32 ::
      (versionText head.major head.minor ++ (crlf ++ rest))) := by
    rw [Head.requestLine]
    simp only [List.append_assoc, List.cons_append]
  have atVersion : head.requestLine ++ crlf ++ rest = (head.m.name ++ 32 :: (head.path ++ [32])) ++
      (versionText head.major head.minor ++ (crlf ++ rest)) := by
    rw [atPath, path_split]
  rw [atPath, runRequestHead_path _ lineOk.path, ← atPath]
  generalize whole : head.requestLine ++ crlf ++ rest = src at atVersion
  have version : parseVersion src (head.m.name ++ 32 :: (head.path ++ [32])).length =
      some (some (digitValue head.major, (head.minor.map digitValue).getD 0,
        head.requestLine.length)) := by
    have length : (head.m.name ++ 32 :: (head.path ++ [32])).length +
        (versionText head.major head.minor).length = head.requestLine.length := by
      simp only [Head.requestLine, List.length_append, List.length_cons, List.length_nil]
      omega
    have follows : (crlf ++ rest).head? ≠ some 46 := by
      intro same
      cases same
    rw [atVersion, parseVersion_text lineOk.major lineOk.minor _ (fun _ => follows), length]
  have ends : startsAt src head.requestLine.length (ascii "\r\n") = true := by
    rw [← whole, List.append_assoc, startsAt_append, ascii_crlf]
    exact List.prefix_append _ _
  have after : head.requestLine.length + 2 = (head.requestLine ++ crlf).length := by
    rw [List.length_append]
    rfl
  rw [runVersion, version]
  simp only [ends, after, Option.bind_eq_bind, Option.bind_some, Bool.not_true, Bool.false_eq_true,
    if_false]
  cases runHeaders src (src.length + 1) (head.requestLine ++ crlf).length [] with
  | none => rfl
  | some run =>
    obtain ⟨_ | cur, hs⟩ := run
    · rfl
    · rfl

/-- The input ends right behind `HTTP/`. -/
def EndsInVersion (src : List UInt8) : Prop :=
  ∃ m path, 32 ∉ path ∧ src = Method.name m ++ 32 :: (path ++ 32 :: ascii "HTTP/")

theorem runRequestHead_endsInVersion {src : List UInt8} (cut : EndsInVersion src) :
    runRequestHead src = none := by
  obtain ⟨m, path, plain, rfl⟩ := cut
  rw [runRequestHead_path m plain, path_split, runVersion, parseVersion_cut]
  rfl

/-- No space follows the method. -/
theorem runRequestHead_noSpace (m : Method) {rest : List UInt8} (other : rest.head? ≠ some 32) :
    runRequestHead (m.name ++ rest) = some ⟨.incomplete, none, [], none⟩ := by
  have notSpace : (m.name ++ rest)[m.name.length]? ≠ some ' '.toUInt8 := by
    have first := getElem?_front m.name rest 0
    rw [Nat.add_zero, ← List.head?_eq_getElem?] at first
    rw [first]
    exact other
  rw [runRequestHead, method_found]
  exact if_pos notSpace

/-- No space follows the path. -/
theorem runRequestHead_endless (m : Method) {rest : List UInt8} (endless : 32 ∉ rest) :
    runRequestHead (m.name ++ 32 :: rest) =
      some ⟨.incomplete, some ⟨m.name.length + 1, rest.length⟩, [], none⟩ := by
  have stop : skipWhile (· != ' '.toUInt8) (m.name ++ 32 :: rest) (m.name.length + 1) =
      m.name.length + 1 + rest.length := by
    have position : m.name.length + 1 = (m.name ++ [32]).length := by
      rw [List.length_append, List.length_singleton]
    rw [position, List.append_cons, skipWhile_append]
    exact congrArg _ (congrArg _ (takeWhile_all endless))
  have space : (m.name ++ 32 :: rest)[m.name.length]? = some ' '.toUInt8 := getElem?_front _ _ 0
  have behind : (m.name ++ 32 :: rest)[m.name.length + 1 + rest.length]? = none := by
    apply List.getElem?_eq_none
    simp only [List.length_append, List.length_cons]
    omega
  rw [runRequestHead, method_found]
  simp only [space, stop, behind, ne_eq, not_true_eq_false, if_false, reduceCtorEq,
    not_false_eq_true, if_true, Nat.add_sub_cancel_left]

section Line

variable (m : Method) {path : List UInt8} (plain : 32 ∉ path) {major : UInt8} {minor : Option UInt8}
  {rest tail : List UInt8}
include plain

/-- The version is not followed by the end of the line. -/
theorem runRequestHead_noLineEnd (first : isDigit major = true)
    (second : ∀ digit ∈ minor, isDigit digit = true) (follows : minor = none → tail.head? ≠ some 46)
    (more : ¬ crlf <+: tail) :
    runRequestHead (m.name ++ 32 :: (path ++ 32 :: (versionText major minor ++ tail))) =
      some ⟨.incomplete, some ⟨m.name.length + 1, path.length⟩, [], none⟩ := by
  rw [runRequestHead_path m plain, runVersion, path_split, parseVersion_text first second _ follows]
  have refused : startsAt (m.name ++ 32 :: (path ++ [32]) ++ (versionText major minor ++ tail))
      ((m.name ++ 32 :: (path ++ [32])).length + (versionText major minor).length) (ascii "\r\n") =
        false := by
    rw [← List.append_assoc, ← List.length_append, ascii_crlf]
    exact Bool.eq_false_iff.mpr fun starts => more ((startsAt_append ..).mp starts)
  simp only [Option.bind_eq_bind, Option.bind_some, refused, Bool.not_false, if_true]

theorem runRequestHead_badVersion
    (refused : parseVersion (m.name ++ 32 :: (path ++ [32]) ++ rest)
      (m.name ++ 32 :: (path ++ [32])).length = some none) :
    runRequestHead (m.name ++ 32 :: (path ++ 32 :: rest)) =
      some ⟨.badVersion, some ⟨m.name.length + 1, path.length⟩, [], none⟩ := by
  rw [runRequestHead_path m plain, runVersion, path_split, refused]
  rfl

end Line

/-- The head is refused before any header is looked at. -/
def RefusedEarly (src : List UInt8) (parse : Parse) : Prop :=
  runRequestHead src = some parse ∧ parse.hs = [] ∧ (∀ r, parse.result ≠ .ok r) ∧
    ∀ path ∈ parse.path, path.start + path.size ≤ src.length

/-- Every input is a request line with what follows it, or ends in its version, or is refused
before any header is looked at. -/
theorem runRequestHead_split (src : List UInt8) :
    (∃ (head : Head) (rest : List UInt8), head.LineOk ∧ src = head.requestLine ++ crlf ++ rest) ∨
      EndsInVersion src ∨ ∃ parse, RefusedEarly src parse := by
  rcases method_split src with ⟨m, rest, rfl⟩ | absent
  swap
  · refine .inr (.inr ⟨⟨.badMethod, none, [], none⟩, ?_, rfl, by simp, by simp⟩)
    rw [runRequestHead, absent]
  by_cases space : rest.head? = some 32
  swap
  · exact .inr (.inr ⟨_, runRequestHead_noSpace m space, rfl, by simp, by simp⟩)
  obtain ⟨rest, rfl⟩ := List.head?_eq_some_iff.mp space
  rcases until_or_absent rest 32 with endless | ⟨path, rest, rfl, plain⟩
  · refine .inr (.inr ⟨_, runRequestHead_endless m endless, rfl, by simp, ?_⟩)
    rintro _ ⟨⟩
    simp only [List.length_append, List.length_cons]
    omega
  have pathInside : ∀ slice ∈ some (⟨m.name.length + 1, path.length⟩ : Slice),
      slice.start + slice.size ≤ (m.name ++ 32 :: (path ++ 32 :: rest)).length := by
    rintro _ ⟨⟩
    simp only [List.length_append, List.length_cons]
    omega
  rcases parseVersion_split (m.name ++ 32 :: (path ++ [32])) rest with
    cut | ⟨major, minor, tail, rfl, first, second, follows⟩ | refused
  · exact .inr (.inl ⟨m, path, plain, by rw [cut]⟩)
  · by_cases ends : crlf <+: tail
    · obtain ⟨rest, rfl⟩ := ends
      refine .inl ⟨⟨m, path, major, minor, []⟩, rest, ⟨plain, first, second⟩, ?_⟩
      simp only [Head.requestLine, List.append_assoc, List.cons_append]
    · exact .inr (.inr ⟨_, runRequestHead_noLineEnd m plain first second follows ends, rfl, by simp,
        pathInside⟩)
  · exact .inr (.inr ⟨_, runRequestHead_badVersion m plain refused, rfl, by simp, pathInside⟩)

/-! ### The whole head -/

theorem headers_length_le (headers : List (List UInt8 × List UInt8)) :
    headers.length ≤ (headers.flatMap headerLine).length := by
  induction headers with
  | nil => exact Nat.le_refl 0
  | cons header headers ih =>
    simp only [List.flatMap_cons, headerLine, List.length_append, List.length_cons]
    omega

/-- The headers that are kept from behind a request line. -/
def Head.kept (head : Head) : List Header :=
  (sliceHeaders (head.requestLine ++ crlf).length head.headers).take maxHeaders

/-- A head up to its last line. -/
def Head.start (head : Head) : List UInt8 :=
  head.requestLine ++ crlf ++ head.headers.flatMap headerLine

/-- All lines of a head are read, with what follows them still in front of the loop. -/
theorem runRequestHead_start {head : Head} (ok : head.Ok) (tail : List UInt8) :
    ∃ fuel, runRequestHead (head.start ++ tail) =
      (runHeaders (head.start ++ tail) (fuel + 1) head.start.length head.kept).map head.parse := by
  have shape : head.start ++ tail = head.requestLine ++ crlf ++
      (head.headers.flatMap headerLine ++ tail) := List.append_assoc ..
  obtain ⟨fuel, enough⟩ : ∃ fuel, (head.start ++ tail).length + 1 = head.headers.length + (fuel + 1) := by
    have few := headers_length_le head.headers
    refine ⟨(head.start ++ tail).length - head.headers.length, ?_⟩
    simp only [Head.start, List.length_append]
    omega
  refine ⟨fuel, ?_⟩
  have lines := runHeaders_lines ok.headers (show [].length ≤ maxHeaders from Nat.zero_le _) (fuel + 1)
    (head.requestLine ++ crlf) tail
  rw [List.nil_append, ← shape] at lines
  rw [shape, runRequestHead_line ok.toLineOk, ← shape, enough, lines]
  rfl

/-- A head is accepted, whatever follows it, and read to its end. -/
theorem runRequestHead_bytes {head : Head} (ok : head.Ok) (rest : List UInt8) :
    runRequestHead (head.bytes ++ rest) = some (head.parse (some head.bytes.length, head.kept)) := by
  have shape : head.bytes ++ rest = head.start ++ (crlf ++ rest) := by
    rw [Head.bytes, Head.start, List.append_assoc]
  have length : head.bytes.length = head.start.length + 2 := by
    rw [Head.bytes, Head.start, List.length_append]
    rfl
  obtain ⟨fuel, ran⟩ := runRequestHead_start ok (crlf ++ rest)
  rw [shape, ran, runHeaders_end fuel (List.prefix_append _ _), length]
  rfl

/-- The input ends in the value of a header. -/
def EndsInValue (src : List UInt8) : Prop :=
  ∃ (head : Head) (tail : List UInt8), head.Ok ∧ CutHeader tail ∧ src = head.start ++ tail

theorem runRequestHead_endsInValue {src : List UInt8} (cut : EndsInValue src) :
    runRequestHead src = none := by
  obtain ⟨head, _, ok, ⟨name, value, rfl, plain, notEnd, endless⟩, rfl⟩ := cut
  obtain ⟨fuel, ran⟩ := runRequestHead_start ok (name ++ 58 :: value)
  rw [ran, runHeaders_cut fuel plain notEnd endless]
  rfl

/-- What `parse_request_head` can come to. -/
inductive Outcome (src : List UInt8) : Prop where
  | head (head : Head) (rest : List UInt8) (ok : head.Ok) (shape : src = head.bytes ++ rest)
  | badHeader (head : Head) (tail : List UInt8) (ok : head.Ok) (shape : src = head.start ++ tail)
      (ran : runRequestHead src = some (head.parse (none, head.kept)))
  | refused (parse : Parse) (ran : runRequestHead src = some parse) (noHeaders : parse.hs = [])
      (notOk : ∀ r, parse.result ≠ .ok r)
      (path : ∀ path ∈ parse.path, path.start + path.size ≤ src.length)
  | endsInVersion (cut : EndsInVersion src)
  | endsInValue (cut : EndsInValue src)

theorem outcome (src : List UInt8) : Outcome src := by
  rcases runRequestHead_split src with ⟨line, rest, lineOk, rfl⟩ | cut | ⟨parse, ran, none, notOk, path⟩
  · obtain ⟨headers, tail, rfl, valid, stops⟩ := headers_split rest
    have ok : Head.Ok { line with headers } := ⟨⟨lineOk.path, lineOk.major, lineOk.minor⟩, valid⟩
    have shape : line.requestLine ++ crlf ++ (headers.flatMap headerLine ++ tail) =
        Head.start { line with headers } ++ tail := (List.append_assoc ..).symm
    rw [shape]
    rcases stops with ⟨rest, rfl⟩ | bad | cut
    · refine .head { line with headers } rest ok ?_
      simp only [Head.bytes, Head.start, List.append_assoc]
    · refine .badHeader { line with headers } tail ok rfl ?_
      obtain ⟨fuel, ran⟩ := runRequestHead_start ok tail
      rw [ran, runHeaders_bad fuel bad]
      rfl
    · exact .endsInValue ⟨{ line with headers }, tail, ok, cut, rfl⟩
  · exact .endsInVersion cut
  · exact .refused parse ran none notOk path

/-! ### Reading inside -/

/-- The slices of header lines lie inside the text. -/
theorem sliceHeaders_inside (headers : List (List UInt8 × List UInt8)) (offset : Nat) :
    ∀ header ∈ sliceHeaders offset headers,
      header.name.start + header.name.size ≤ offset + (headers.flatMap headerLine).length ∧
        header.value.start + header.value.size ≤ offset + (headers.flatMap headerLine).length := by
  induction headers generalizing offset with
  | nil => nofun
  | cons header headers ih =>
    intro found member
    simp only [List.flatMap_cons, List.length_append]
    rcases List.mem_cons.mp member with rfl | later
    · simp only [headerLine, List.length_append, List.length_cons]
      omega
    · have inside := ih _ found later
      omega

/-- `parse_request_head` returns, has read nothing behind its input, and has stored slices of it
only. -/
def ReadsInside (src : List UInt8) : Prop :=
  ∃ parse, runRequestHead src = some parse ∧ parseRequestHead src = some parse.result ∧
    ∀ slice ∈ parse.stored, slice.start + slice.size ≤ src.length

theorem Head.parse_path (head : Head) (run : Option Nat × List Header) :
    (head.parse run).path = some head.pathSlice := by
  obtain ⟨_ | cur, hs⟩ := run
  · rfl
  · rfl

theorem Head.parse_hs (head : Head) (run : Option Nat × List Header) : (head.parse run).hs = run.2 := by
  obtain ⟨_ | cur, hs⟩ := run
  · rfl
  · rfl

/-- The slices of a head lie inside any input that starts with its lines. -/
theorem Head.stored_inside (head : Head) (cur : Option Nat) (tail : List UInt8) :
    ∀ slice ∈ (head.parse (cur, head.kept)).stored,
      slice.start + slice.size ≤ (head.start ++ tail).length := by
  intro slice member
  rw [Parse.stored, Head.parse_path, Head.parse_hs] at member
  have length : (head.start ++ tail).length = (head.requestLine ++ crlf).length +
      (head.headers.flatMap headerLine).length + tail.length := by
    simp only [Head.start, List.length_append]
  rcases List.mem_append.mp member with path | header
  · cases List.mem_singleton.mp path
    simp only [length, Head.pathSlice, Head.requestLine, List.length_append, List.length_cons]
    omega
  · obtain ⟨header, kept, inside⟩ := List.mem_flatMap.mp header
    have bounds := sliceHeaders_inside head.headers _ header (List.mem_of_mem_take kept)
    simp only [List.mem_cons, List.not_mem_nil, or_false] at inside
    rcases inside with rfl | rfl
    · omega
    · omega

/-- `parse_request_head` reads inside its input exactly when the input does not end right behind
`HTTP/` or in the value of a header. -/
theorem readsInside_iff (src : List UInt8) :
    ReadsInside src ↔ ¬ EndsInVersion src ∧ ¬ EndsInValue src := by
  constructor
  · rintro ⟨parse, ran, -, -⟩
    constructor
    · intro cut
      rw [runRequestHead_endsInVersion cut] at ran
      cases ran
    · intro cut
      rw [runRequestHead_endsInValue cut] at ran
      cases ran
  · rintro ⟨version, value⟩
    have reads : ∀ parse, runRequestHead src = some parse →
        (∀ slice ∈ parse.stored, slice.start + slice.size ≤ src.length) → ReadsInside src := by
      intro parse ran inside
      refine ⟨parse, ran, ?_, inside⟩
      rw [parseRequestHead, ran]
      rfl
    cases outcome src with
    | head head rest ok shape =>
      subst shape
      refine reads _ (runRequestHead_bytes ok rest) ?_
      have inside := head.stored_inside (some head.bytes.length) (crlf ++ rest)
      rwa [← List.append_assoc] at inside
    | badHeader head tail ok shape ran =>
      subst shape
      exact reads _ ran (head.stored_inside none tail)
    | refused parse ran noHeaders notOk path =>
      refine reads parse ran fun slice member => ?_
      rw [Parse.stored, noHeaders, List.flatMap_nil, List.append_nil] at member
      exact path slice (Option.mem_toList.mp member)
    | endsInVersion cut => exact absurd cut version
    | endsInValue cut => exact absurd cut value

/-- An input of 11 bytes, of which the parser wants to know the twelfth, and one that ends in a
header value. -/
theorem truncated_head_read_past_end :
    (ascii "GET / HTTP/").length = 11 ∧ parseRequestHead (ascii "GET / HTTP/") = none ∧
      ¬ ReadsInside (ascii "GET / HTTP/") ∧
      parseRequestHead (ascii "GET / HTTP/1.1\r\nHost: a") = none ∧
      ¬ ReadsInside (ascii "GET / HTTP/1.1\r\nHost: a") := by
  have version : runRequestHead (ascii "GET / HTTP/") = none := by decide +kernel
  have value : runRequestHead (ascii "GET / HTTP/1.1\r\nHost: a") = none := by decide +kernel
  refine ⟨by decide +kernel, ?_, ?_, ?_, ?_⟩
  · rw [parseRequestHead, version]
    rfl
  · rintro ⟨parse, ran, -⟩
    rw [version] at ran
    cases ran
  · rw [parseRequestHead, value]
    rfl
  · rintro ⟨parse, ran, -⟩
    rw [value] at ran
    cases ran

end Mysnips.HttpParse

import Mysnips.HttpFraming

/-! The lines of an accepted head. A path may run over the ends of lines, because only a space
ends it, and so may a name, which only a colon ends: a line can hide in either. Nothing hides
where every line has the separator that is looked for in it. -/
namespace Mysnips.HttpParse
open CrlfLines HttpServer
open Memory (ascii)

/-- A text without a line break. -/
def Plain (text : List UInt8) : Prop := 13 ∉ text ∧ 10 ∉ text

instance (text : List UInt8) : Decidable (Plain text) :=
  inferInstanceAs (Decidable (13 ∉ text ∧ 10 ∉ text))

/-- The stored path, names and values have no line breaks, and the request line and the stored
headers are the first lines of the head. -/
structure KeepsLines (src : List UInt8) (r : Request) : Prop where
  path : Plain (r.path.bytes src)
  headers : ∀ header ∈ r.hs, Plain (header.name.bytes src) ∧ Plain (header.value.bytes src)
  lines : ∃ version, (lines src).take (r.hs.length + 1) =
    (r.m.name ++ 32 :: (r.path.bytes src ++ 32 :: version)) ::
      r.hs.map fun header => header.name.bytes src ++ 58 :: header.value.bytes src

/-- The first line has two spaces, the lines behind it, up to the empty one, have colons, and no
line has a stray carriage return or line feed. Lines behind those that are stored do not matter. -/
def PlainLines (src : List UInt8) : Prop :=
  ∃ first others, head src = first :: others ∧ 2 ≤ first.count 32 ∧ Plain first ∧
    ∀ line ∈ others.take maxHeaders, 58 ∈ line ∧ Plain line

/-! ### First lines -/

/-- The first line of a text is a prefix of it, and empty only where the text or the line ends. -/
theorem first_line {text line : List UInt8} {others : List (List UInt8)}
    (cut : lines text = line :: others) :
    line <+: text ∧ (line = [] → text = [] ∨ crlf <+: text) := by
  fun_induction lines text generalizing line others with
  | case1 =>
    cases cut
    exact ⟨List.prefix_refl _, fun _ => .inl rfl⟩
  | case2 c =>
    cases cut
    exact ⟨List.prefix_refl _, fun empty => absurd empty (List.cons_ne_nil _ _)⟩
  | case3 c d rest ends ih =>
    cases cut
    obtain ⟨rfl, rfl⟩ := ends
    exact ⟨List.nil_prefix, fun _ => .inr ⟨rest, rfl⟩⟩
  | case4 c d rest inside ih =>
    obtain ⟨first, more, later⟩ := List.exists_cons_of_ne_nil (lines_ne_nil (d :: rest))
    rw [later, List.modifyHead_cons] at cut
    cases cut
    exact ⟨List.cons_prefix_cons.mpr ⟨rfl, (ih later).1⟩,
      fun empty => absurd empty (List.cons_ne_nil _ _)⟩

/-- A line that contains a separator contains everything up to the first one. -/
theorem separator_in_line {line front rest : List UInt8} {c : UInt8} (first : line <+: front ++ c :: rest)
    (more : front.count c < line.count c) : front ++ [c] <+: line := by
  have start : front ++ [c] <+: front ++ c :: rest :=
    ⟨rest, by simp only [List.append_assoc, List.singleton_append]⟩
  rcases List.prefix_or_prefix_of_prefix first start with shorter | longer
  · rcases List.prefix_concat_iff.mp shorter with rfl | inside
    · exact List.prefix_refl _
    · have count := inside.sublist.count_le c
      omega
  · exact longer

theorem lines_line {line : List UInt8} (plain : 13 ∉ line) (rest : List UInt8) :
    lines (line ++ crlf ++ rest) = line :: lines rest := by
  rw [lines_append, lines_plain plain]
  rfl

theorem Plain.append {one other : List UInt8} (first : Plain one) (second : Plain other) :
    Plain (one ++ other) := by
  refine ⟨fun member => ?_, fun member => ?_⟩
  · exact (List.mem_append.mp member).elim first.1 second.1
  · exact (List.mem_append.mp member).elim first.2 second.2

theorem Plain.sublist {one other : List UInt8} (plain : Plain one) (inside : other.Sublist one) :
    Plain other :=
  ⟨fun member => plain.1 (inside.mem member), fun member => plain.2 (inside.mem member)⟩

/-! ### The lines of a head -/

/-- A header line without its end. -/
def fieldLine (header : List UInt8 × List UInt8) : List UInt8 := header.1 ++ 58 :: header.2

theorem headerLine_eq (header : List UInt8 × List UInt8) :
    headerLine header = fieldLine header ++ crlf := by
  rw [headerLine, fieldLine, List.append_assoc, List.cons_append]

theorem fieldLine_plain {header : List UInt8 × List UInt8} (name : Plain header.1)
    (value : Plain header.2) : Plain (fieldLine header) := by
  have colon : Plain [58] := ⟨by decide, by decide⟩
  exact name.append (colon.append value)

/-- Headers whose names and values have no line break are lines. -/
theorem lines_headers {headers : List (List UInt8 × List UInt8)}
    (plain : ∀ header ∈ headers, Plain header.1 ∧ Plain header.2) (tail : List UInt8) :
    lines (headers.flatMap headerLine ++ tail) = headers.map fieldLine ++ lines tail := by
  induction headers with
  | nil => rfl
  | cons header headers ih =>
    obtain ⟨⟨name, value⟩, others⟩ := List.forall_mem_cons.mp plain
    rw [List.flatMap_cons, headerLine_eq, List.append_assoc, lines_line (fieldLine_plain name value).1,
      ih others]
    rfl

/-- Where the first lines up to an empty one have colons and no stray line breaks, the first
headers are these lines. -/
theorem headers_plain {headers : List (List UInt8 × List UInt8)}
    (valid : ∀ header ∈ headers, HeaderOk header) (tail : List UInt8) (k : Nat)
    (clean : ∀ line ∈ ((lines (headers.flatMap headerLine ++ tail)).takeWhile (· ≠ [])).take k,
      58 ∈ line ∧ Plain line) :
    ∀ header ∈ headers.take k, Plain header.1 ∧ Plain header.2 := by
  induction headers generalizing k with
  | nil => simp
  | cons header headers ih =>
    cases k with
    | zero => simp
    | succ k =>
      obtain ⟨⟨noColon, notEnd, closed⟩, valid⟩ := List.forall_mem_cons.mp valid
      have shape : (header :: headers).flatMap headerLine ++ tail =
          header.1 ++ 58 :: (header.2 ++ (crlf ++ (headers.flatMap headerLine ++ tail))) := by
        simp only [List.flatMap_cons, headerLine, List.append_assoc, List.cons_append]
      obtain ⟨line, others, cut⟩ := List.exists_cons_of_ne_nil
        (lines_ne_nil ((header :: headers).flatMap headerLine ++ tail))
      obtain ⟨first, empty⟩ := first_line cut
      rw [shape] at first empty
      have nonempty : line ≠ [] := by
        intro nothing
        rcases empty nothing with none | ends
        · exact absurd none (by simp)
        · exact crlf_prefix_name notEnd ends
      rw [cut, List.takeWhile_cons_of_pos (by simpa using nonempty), List.take_succ_cons] at clean
      obtain ⟨⟨colon, plain⟩, later⟩ := List.forall_mem_cons.mp clean
      -- The colon of the line is the one that ends the name.
      have name : header.1 ++ [58] <+: line := by
        apply separator_in_line first
        rw [List.count_eq_zero_of_not_mem noColon]
        exact List.count_pos_iff.mpr colon
      have namePlain : Plain header.1 :=
        plain.sublist ((List.prefix_append _ _).sublist.trans name.sublist)
      have noReturn : 13 ∉ fieldLine header := by
        intro member
        rcases List.mem_append.mp member with inside | behind
        · exact namePlain.1 inside
        · rcases List.mem_cons.mp behind with other | inside
          · cases other
          · exact closed inside
      rw [List.flatMap_cons, headerLine_eq, List.append_assoc, lines_line noReturn] at cut
      cases cut
      have valuePlain : Plain header.2 :=
        plain.sublist ((List.sublist_cons_self _ _).trans (List.sublist_append_right _ _))
      rw [List.take_succ_cons]
      exact List.forall_mem_cons.mpr ⟨⟨namePlain, valuePlain⟩, ih valid k later⟩

/-- No separator of the request line in front of the path, and no line break but in the path. -/
theorem method_name_plain (m : Method) : 32 ∉ m.name ∧ Plain m.name := by
  cases m <;> decide +kernel

theorem versionText_plain {head : Head} (ok : head.LineOk) :
    Plain (versionText head.major head.minor) := by
  have other : ∀ digit : UInt8, isDigit digit = true → 13 ≠ digit ∧ 10 ≠ digit := by
    intro digit valid
    constructor
    · rintro rfl
      exact absurd valid (by decide)
    · rintro rfl
      exact absurd valid (by decide)
  have major := other _ ok.major
  cases shape : head.minor with
  | none =>
    rw [versionText_none]
    simp [Plain, major]
  | some digit =>
    have minor := other digit (ok.minor digit shape)
    rw [versionText_some]
    simp [Plain, major, minor]

theorem requestLine_plain {head : Head} (ok : head.LineOk) (path : Plain head.path) :
    Plain head.requestLine := by
  have space : Plain [32] := ⟨by decide, by decide⟩
  have tail := path.append (space.append (versionText_plain ok))
  exact (method_name_plain head.m).2.append (space.append tail)

/-- The path and the headers that are kept have no line breaks. -/
def Head.Plain (head : Head) : Prop :=
  HttpParse.Plain head.path ∧
    ∀ header ∈ head.headers.take maxHeaders, HttpParse.Plain header.1 ∧ HttpParse.Plain header.2

section Lines

variable {head : Head} {src rest : List UInt8} {r : Request}

/-- Without line breaks in them, the request line and the headers kept are the first lines. -/
theorem Head.Plain.lines (plain : head.Plain) (ok : head.LineOk) (rest : List UInt8) :
    lines (head.bytes ++ rest) = head.requestLine :: ((head.headers.take maxHeaders).map fieldLine ++
      CrlfLines.lines ((head.headers.drop maxHeaders).flatMap headerLine ++ (crlf ++ rest))) := by
  have shape : head.bytes ++ rest = head.requestLine ++ crlf ++
      ((head.headers.take maxHeaders).flatMap headerLine ++
        ((head.headers.drop maxHeaders).flatMap headerLine ++ (crlf ++ rest))) := by
    rw [Head.bytes, ← List.append_assoc ((head.headers.take maxHeaders).flatMap headerLine),
      ← List.flatMap_append, List.take_append_drop]
    simp only [List.append_assoc]
  rw [shape, lines_line (requestLine_plain ok plain.1).1, lines_headers plain.2]

/-- The request keeps the lines of a head where the head has no line breaks inside them. -/
theorem keepsLines_iff_plain (ok : head.Ok) (shape : src = head.bytes ++ rest)
    (held : head.HeldBy src r) : KeepsLines src r ↔ head.Plain := by
  have fields : r.hs.map (fun header => header.name.bytes src ++ 58 :: header.value.bytes src) =
      (head.headers.take maxHeaders).map fieldLine := by
    rw [← held.headers, List.map_map]
    rfl
  have count : r.hs.length = (head.headers.take maxHeaders).length := by
    rw [← held.headers, List.length_map]
  constructor
  · intro keeps
    refine ⟨held.path ▸ keeps.path, ?_⟩
    rw [← held.headers]
    intro header member
    obtain ⟨stored, inside, rfl⟩ := List.mem_map.mp member
    exact keeps.headers stored inside
  · intro plain
    refine ⟨held.path ▸ plain.1, ?_, versionText head.major head.minor, ?_⟩
    · intro header member
      have kept := List.mem_map_of_mem (f := fun header =>
        (header.name.bytes src, header.value.bytes src)) member
      rw [held.headers] at kept
      exact plain.2 _ kept
    · rw [fields, held.path, held.method, shape, plain.lines ok.toLineOk, count, List.take_succ_cons,
        ← List.length_map (f := fieldLine), List.take_left]
      rfl

/-- A head without line breaks inside its lines has its separators in them. -/
theorem Head.Plain.plainLines (plain : head.Plain) (ok : head.LineOk) (rest : List UInt8) :
    PlainLines (head.bytes ++ rest) := by
  have request := requestLine_plain ok plain.1
  have spaces : 2 ≤ head.requestLine.count 32 := by
    simp only [Head.requestLine, List.count_append, List.count_cons_self]
    omega
  have full : ∀ line ∈ (head.headers.take maxHeaders).map fieldLine, 58 ∈ line ∧
      HttpParse.Plain line := by
    intro line member
    obtain ⟨header, kept, rfl⟩ := List.mem_map.mp member
    obtain ⟨name, value⟩ := plain.2 header kept
    exact ⟨List.mem_append_right _ List.mem_cons_self, fieldLine_plain name value⟩
  have nonempty : head.requestLine ≠ [] := by
    intro none
    rw [none] at spaces
    cases spaces
  have keptNonempty : ∀ line ∈ (head.headers.take maxHeaders).map fieldLine,
      decide (line ≠ []) = true := by
    intro line member
    exact decide_eq_true (List.ne_nil_of_mem (full line member).1)
  have whole := plain.lines ok rest
  have firstLines := congrArg (List.takeWhile (· ≠ [])) whole
  rw [List.takeWhile_cons_of_pos (by simpa using nonempty),
    List.takeWhile_append_of_pos keptNonempty] at firstLines
  refine ⟨head.requestLine, _, firstLines, spaces, request, ?_⟩
  intro line member
  apply full line
  -- Either the table is full, or nothing follows the headers that are kept.
  by_cases few : head.headers.length ≤ maxHeaders
  · have ended : (CrlfLines.lines (crlf ++ rest)).takeWhile (· ≠ []) = [] := by
      rw [← List.nil_append crlf, lines_line (by simp)]
      rfl
    rw [List.drop_eq_nil_of_le few, List.flatMap_nil, List.nil_append, ended, List.append_nil] at member
    exact List.mem_of_mem_take member
  · have size : ((head.headers.take maxHeaders).map fieldLine).length = maxHeaders := by
      rw [List.length_map, List.length_take]
      omega
    rwa [List.take_append_of_le_length (Nat.le_of_eq size.symm), List.take_of_length_le
      (Nat.le_of_eq size)] at member

/-- Lines that have their separators keep line breaks out of the head. -/
theorem PlainLines.plain (clean : PlainLines (head.bytes ++ rest)) (ok : head.Ok) : head.Plain := by
  obtain ⟨first, others, cut, spaces, plain, clean⟩ := clean
  have shape : head.bytes ++ rest = (head.m.name ++ 32 :: head.path) ++ 32 ::
      (versionText head.major head.minor ++ (crlf ++ (head.headers.flatMap headerLine ++
        (crlf ++ rest)))) := by
    simp only [Head.bytes, Head.requestLine, List.append_assoc, List.cons_append]
  obtain ⟨line, more, whole⟩ := List.exists_cons_of_ne_nil (lines_ne_nil (head.bytes ++ rest))
  have same : line = first ∧ others = more.takeWhile (· ≠ []) := by
    rw [CrlfLines.head, whole, List.takeWhile_cons] at cut
    split at cut
    · cases cut
      exact ⟨rfl, rfl⟩
    · cases cut
  obtain ⟨rfl, rfl⟩ := same
  -- The second space of the line is the one that ends the path.
  have path : head.m.name ++ 32 :: head.path ++ [32] <+: line := by
    apply separator_in_line (shape ▸ (first_line whole).1)
    rw [List.count_append, List.count_cons_self,
      List.count_eq_zero_of_not_mem (method_name_plain head.m).1, List.count_eq_zero_of_not_mem ok.path]
    omega
  have pathPlain : HttpParse.Plain head.path := by
    apply plain.sublist
    refine List.Sublist.trans ?_ path.sublist
    refine List.Sublist.trans ?_ (List.prefix_append _ _).sublist
    exact (List.sublist_cons_self _ _).trans (List.sublist_append_right _ _)
  have behind : head.bytes ++ rest = head.requestLine ++ crlf ++
      (head.headers.flatMap headerLine ++ (crlf ++ rest)) := by
    simp only [Head.bytes, List.append_assoc]
  rw [behind, lines_line (requestLine_plain ok.toLineOk pathPlain).1] at whole
  cases whole
  exact ⟨pathPlain, headers_plain ok.headers _ _ clean⟩

end Lines

/-- An accepted head is kept line by line exactly when its lines have the separators that are
looked for in them and no stray line breaks. -/
theorem keepsLines_iff {src : List UInt8} {r : Request} (parsed : parseRequestHead src = some (.ok r)) :
    KeepsLines src r ↔ PlainLines src := by
  obtain ⟨head, rest, ok, shape, held⟩ := parseRequestHead_ok parsed
  rw [keepsLines_iff_plain ok shape held, shape]
  exact ⟨fun plain => plain.plainLines ok.toLineOk rest, fun clean => clean.plain ok⟩

/-- A request with one header, whose lines are kept. -/
theorem keepsLines_iff_applies : ∃ r,
    parseRequestHead (ascii "GET / HTTP/1.1\r\nHost: a\r\n\r\n") = some (.ok r) ∧
      KeepsLines (ascii "GET / HTTP/1.1\r\nHost: a\r\n\r\n") r := by
  refine ⟨_, (by decide +kernel : _ = some (HeadResult.ok ⟨.get, ⟨4, 1⟩, 1, 1,
    [⟨⟨16, 4⟩, ⟨21, 2⟩⟩], ⟨0, 0⟩⟩)), ?_⟩
  apply (keepsLines_iff (by decide +kernel)).mpr
  exact ⟨ascii "GET / HTTP/1.1", [ascii "Host: a"], by decide +kernel, by decide +kernel,
    by decide +kernel, by decide +kernel⟩

/-- A line that hides in the path, and one that hides in the name of a header. -/
theorem line_hidden_in_path : ∃ r,
    parseRequestHead (ascii "GET /\r\nContent-Length:5 HTTP/1.1\r\nA\r\nHost: b\r\n\r\n") =
      some (.ok r) ∧
    r.path.bytes (ascii "GET /\r\nContent-Length:5 HTTP/1.1\r\nA\r\nHost: b\r\n\r\n") =
      ascii "/\r\nContent-Length:5" ∧
    r.hs.map (·.name.bytes (ascii "GET /\r\nContent-Length:5 HTTP/1.1\r\nA\r\nHost: b\r\n\r\n")) =
      [ascii "A\r\nHost"] ∧
    ¬ KeepsLines (ascii "GET /\r\nContent-Length:5 HTTP/1.1\r\nA\r\nHost: b\r\n\r\n") r := by
  refine ⟨⟨.get, ⟨4, 19⟩, 1, 1, [⟨⟨34, 7⟩, ⟨42, 2⟩⟩], ⟨0, 0⟩⟩, by decide +kernel, by decide +kernel,
    by decide +kernel, ?_⟩
  intro keeps
  exact absurd keeps.path.1 (by decide +kernel)

end Mysnips.HttpParse

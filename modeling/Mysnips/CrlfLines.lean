import Mathlib.Data.List.TakeWhile

/-! Texts made of lines that end with a carriage return and a line feed. A head is the
lines up to the first empty one, and a field is a line with a name in front of a colon. -/
namespace Mysnips.CrlfLines

/-- The end of a line. -/
def crlf : List UInt8 := [13, 10]

/-- The lines of a text. The last one is what follows the last end of a line. -/
def lines : List UInt8 → List (List UInt8)
  | [] => [[]]
  | [c] => [[c]]
  | c :: d :: rest =>
    if c = 13 ∧ d = 10 then [] :: lines rest else (lines (d :: rest)).modifyHead (c :: ·)

theorem lines_ne_nil (text : List UInt8) : lines text ≠ [] := by
  fun_induction lines text with
  | case1 => simp
  | case2 c => simp
  | case3 c d rest ends ih => simp
  | case4 c d rest inside ih => simpa using ih

/-- The end of a line separates its lines from the ones behind it. -/
theorem lines_append (text rest : List UInt8) :
    lines (text ++ crlf ++ rest) = lines text ++ lines rest := by
  fun_induction lines text with
  | case1 => simp [crlf, lines]
  | case2 c => simp [crlf, lines]
  | case3 c d more ends ih =>
    rw [List.cons_append, List.cons_append, List.cons_append, List.cons_append, lines, if_pos ends, ih,
      List.cons_append]
  | case4 c d more inside ih =>
    rw [List.cons_append, List.cons_append] at ih ⊢
    rw [List.cons_append, List.cons_append, lines, if_neg inside, ih]
    obtain ⟨first, others, cut⟩ := List.exists_cons_of_ne_nil (lines_ne_nil (d :: more))
    rw [cut]
    rfl

/-- Bytes without a carriage return belong to the line that follows them. -/
theorem lines_prepend {front : List UInt8} (plain : 13 ∉ front) (text : List UInt8) :
    lines (front ++ text) = (lines text).modifyHead (front ++ ·) := by
  obtain ⟨first, others, cut⟩ := List.exists_cons_of_ne_nil (lines_ne_nil text)
  induction front with
  | nil => rw [List.nil_append, cut]; rfl
  | cons c front ih =>
    obtain ⟨other, plain⟩ := not_or.mp (List.mem_cons.not.mp plain)
    rw [cut] at ih ⊢
    cases following : front ++ text with
    | nil =>
      obtain ⟨rfl, rfl⟩ := List.append_eq_nil_iff.mp following
      cases cut
      rfl
    | cons d rest =>
      rw [List.cons_append, following, lines, if_neg (fun ends => other ends.1.symm), ← following,
        ih plain]
      rfl

/-- A text without a carriage return is one line. -/
theorem lines_plain {text : List UInt8} (plain : 13 ∉ text) : lines text = [text] := by
  have one := lines_prepend plain []
  rw [List.append_nil] at one
  rw [one, lines, List.modifyHead_cons, List.append_nil]

/-- Texts without a carriage return are one line each. -/
theorem flatMap_lines_plain {texts : List (List UInt8)} (plain : ∀ text ∈ texts, 13 ∉ text) :
    texts.flatMap lines = texts := by
  induction texts with
  | nil => rfl
  | cons text texts ih =>
    obtain ⟨first, rest⟩ := List.forall_mem_cons.mp plain
    rw [List.flatMap_cons, lines_plain first, ih rest]
    rfl

/-- The lines with their ends are the text with one. -/
theorem flatMap_lines (text : List UInt8) : (lines text).flatMap (· ++ crlf) = text ++ crlf := by
  fun_induction lines text with
  | case1 => rfl
  | case2 c => rfl
  | case3 c d rest ends ih =>
    rw [List.flatMap_cons, ih, ends.1, ends.2]
    rfl
  | case4 c d rest inside ih =>
    obtain ⟨first, others, cut⟩ := List.exists_cons_of_ne_nil (lines_ne_nil (d :: rest))
    rw [cut] at ih ⊢
    rw [List.modifyHead_cons, List.flatMap_cons, List.cons_append, List.cons_append,
      List.cons_append, ← ih]
    rfl

/-- The lines of texts that are written one behind the other. -/
theorem lines_texts (texts : List (List UInt8)) (rest : List UInt8) :
    lines (texts.flatMap (· ++ crlf) ++ rest) = texts.flatMap lines ++ lines rest := by
  induction texts with
  | nil => rfl
  | cons text texts ih =>
    rw [List.flatMap_cons, List.append_assoc, lines_append, ih, List.flatMap_cons, List.append_assoc]

theorem texts_eq_lines (texts : List (List UInt8)) :
    texts.flatMap (· ++ crlf) = (texts.flatMap lines).flatMap (· ++ crlf) := by
  induction texts with
  | nil => rfl
  | cons text texts ih =>
    rw [List.flatMap_cons, List.flatMap_cons, List.flatMap_append, flatMap_lines, ih]

/-! ## Heads -/

/-- The lines up to the first empty one. -/
def head (text : List UInt8) : List (List UInt8) := (lines text).takeWhile (· ≠ [])

/-- The head of a text ends where some bytes begin. -/
def EndsBefore (text body : List UInt8) : Prop :=
  text = (head text).flatMap (· ++ crlf) ++ crlf ++ body

private theorem nonempty_of_whole {all rest : List (List UInt8)}
    (whole : ((all ++ [] :: rest).takeWhile (· ≠ [])).flatMap (· ++ crlf) = all.flatMap (· ++ crlf)) :
    ∀ line ∈ all, line ≠ [] := by
  induction all with
  | nil => simp
  | cons line all ih =>
    by_cases empty : line = []
    · -- What stands in front of an empty line is shorter than everything.
      rw [List.cons_append, List.takeWhile_cons_of_neg (by simpa using empty), empty] at whole
      cases whole
    · rw [List.cons_append, List.takeWhile_cons_of_pos (by simpa using empty), List.flatMap_cons,
        List.flatMap_cons] at whole
      exact List.forall_mem_cons.mpr ⟨empty, ih (List.append_cancel_left whole)⟩

private theorem lines_body (texts : List (List UInt8)) (body : List UInt8) :
    lines (texts.flatMap (· ++ crlf) ++ crlf ++ body) = texts.flatMap lines ++ [] :: lines body := by
  rw [List.append_assoc, lines_texts]
  exact congrArg _ (lines_append [] body)

/-- Where no line of the texts is empty, the head is all of their lines. -/
theorem head_texts {texts : List (List UInt8)} (full : ∀ line ∈ texts.flatMap lines, line ≠ [])
    (body : List UInt8) :
    head (texts.flatMap (· ++ crlf) ++ crlf ++ body) = texts.flatMap lines := by
  rw [head, lines_body, List.takeWhile_append_of_pos (by simpa using full)]
  simp

/-- Texts, an empty line and a body: the head ends before the body exactly when no line of
the texts is empty. -/
theorem endsBefore_iff (texts : List (List UInt8)) (body : List UInt8) :
    EndsBefore (texts.flatMap (· ++ crlf) ++ crlf ++ body) body ↔
      ∀ line ∈ texts.flatMap lines, line ≠ [] := by
  constructor
  · intro ends
    rw [EndsBefore, head, lines_body, texts_eq_lines] at ends
    exact nonempty_of_whole (List.append_cancel_right (List.append_cancel_right ends)).symm
  · intro full
    rw [EndsBefore, head_texts full, texts_eq_lines]

/-! ## Fields -/

/-- A byte in lower case. -/
def lowerCase (c : UInt8) : UInt8 := if 65 ≤ c ∧ c ≤ 90 then c + 32 else c

/-- The bytes in front of the first colon. -/
def fieldName (text : List UInt8) : List UInt8 := text.takeWhile (· ≠ 58)

/-- The bytes behind the first colon. -/
def fieldValue (text : List UInt8) : List UInt8 := text.drop ((fieldName text).length + 1)

/-- The text is a field with the given name, up to case. -/
def isNamed (name text : List UInt8) : Bool :=
  58 ∈ text && (fieldName text).map lowerCase == name.map lowerCase

theorem fieldName_field {name : List UInt8} (plain : 58 ∉ name) (value : List UInt8) :
    fieldName (name ++ 58 :: value) = name := by
  rw [fieldName, List.takeWhile_append_of_pos]
  · simp
  · intro c member
    have other : c ≠ 58 := fun same => plain (same ▸ member)
    simpa using other

theorem isNamed_field {own : List UInt8} (plain : 58 ∉ own) (name value : List UInt8) :
    isNamed name (own ++ 58 :: value) = (own.map lowerCase == name.map lowerCase) := by
  rw [isNamed, fieldName_field plain]
  simp

theorem field_eq {text : List UInt8} (colon : 58 ∈ text) :
    text = fieldName text ++ 58 :: fieldValue text := by
  induction text with
  | nil => cases colon
  | cons c rest ih =>
    by_cases here : c = 58
    · simp [fieldValue, fieldName, here]
    · have later : 58 ∈ rest := (List.mem_cons.mp colon).resolve_left (Ne.symm here)
      have front : fieldName (c :: rest) = c :: fieldName rest :=
        List.takeWhile_cons_of_pos (by simpa using here)
      rw [fieldValue, front, List.length_cons, List.drop_succ_cons, List.cons_append]
      exact congrArg _ (ih later)

theorem colon_notMem_fieldName (text : List UInt8) : 58 ∉ fieldName text := by
  intro member
  simpa using List.mem_takeWhile_imp member

/-- The first line of a field has its name. -/
theorem isNamed_line {name text : List UInt8} (plain : 13 ∉ name.map lowerCase)
    (named : isNamed name text = true) : ∃ line ∈ lines text, isNamed name line = true := by
  obtain ⟨colon, same⟩ := Bool.and_eq_true_iff.mp named
  have same : (fieldName text).map lowerCase = name.map lowerCase := by simpa using same
  have front : 13 ∉ fieldName text ++ [58] := by
    intro member
    rcases List.mem_append.mp member with inside | last
    · rw [← same] at plain
      exact plain (List.mem_map_of_mem inside)
    · simp at last
  obtain ⟨first, others, cut⟩ := List.exists_cons_of_ne_nil (lines_ne_nil (fieldValue text))
  have whole : lines text = (fieldName text ++ 58 :: first) :: others := by
    have split : text = (fieldName text ++ [58]) ++ fieldValue text := by
      rw [List.append_assoc]
      exact field_eq (by simpa using colon)
    rw [split, lines_prepend front, ← split, cut, List.modifyHead_cons, List.append_assoc]
    rfl
  refine ⟨fieldName text ++ 58 :: first, by rw [whole]; exact List.mem_cons_self, ?_⟩
  rw [isNamed_field (colon_notMem_fieldName text), same]
  exact beq_self_eq_true _

end Mysnips.CrlfLines

import Mysnips.GapBufferRefinement

/-! The lines of a gap buffer. The iterator goes through the data up to the gap and then behind
it. The line that lies at the gap is put together in a buffer of the iterator's own, which has
room for 512 bytes; a longer one comes out with a length that the buffer does not have, and is
copied to the wrong place on the way. -/
namespace Mysnips.GapBuffer
open Machine Memory Transition

/-- `sizeof(iter->maybe)`. -/
abbrev sizeofMaybe : Nat := 512

/-- `GapBufferIter`. Its field `mem`, which is only ever cleared, is left out. -/
structure Iter where
  buff : Buffer
  crossedGap : Bool
  cur : Nat
  maybe : List UInt8
  deriving DecidableEq, Repr

/-- Where the text of a line is: in the data of the buffer, or in `maybe`. -/
inductive Str where
  | data (offset : Nat)
  | maybe
  deriving DecidableEq, Repr

/-- `GapBufferLine`. -/
structure Line where
  str : Str
  len : Nat
  deriving DecidableEq, Repr

/-- `GapBufferIter_init`. Nothing is written to `maybe`. -/
def Iter.init (buff : Buffer) (maybe : List UInt8) : Iter := ⟨buff, false, 0, maybe⟩

/-- The loops of `GapBufferIter_next`, which stop at a newline or at `stop`. -/
def scanFrom (data : List UInt8) (stop : Nat) : (fuel i : Nat) → Option Nat
  | 0, i => some i
  | fuel + 1, i =>
    if i < stop then do
      let byte ← data[i]?
      if byte ≠ 10 then scanFrom data stop fuel (i + 1) else some i
    else some i

/-- One of these loops from `i` on; it makes at most `stop - i` steps. -/
def scan (data : List UInt8) (stop i : Nat) : Option Nat := scanFrom data stop (stop - i) i

/-- `memcpy` of `len` bytes. -/
def memcpy (dst : List UInt8) (off : Nat) (src : List UInt8) (srcOff len : Nat) :
    Option (List UInt8) := do
  let bytes ← load src srcOff len
  store dst off bytes

/-- The copies of `GapBufferIter_next` into `maybe`. -/
def copyLine (maybe data : List UInt8) (lineOffset lineLength lineOffset2 lineLength2 : Nat) :
    Option (List UInt8) :=
  if add64 lineLength lineLength2 > sizeofMaybe then
    -- Line will be truncated
    if lineLength > sizeofMaybe then memcpy maybe 0 data lineOffset sizeofMaybe
    else do
      let maybe ← memcpy maybe 0 data lineOffset lineLength
      memcpy maybe lineOffset data lineOffset2 (sub64 sizeofMaybe lineLength)
  else do
    let maybe ← memcpy maybe 0 data lineOffset lineLength
    memcpy maybe lineLength data lineOffset2 lineLength2

/-- `GapBufferIter_next`; no line is the result `false`. -/
def Iter.next (iter : Iter) : Option (Iter × Option Line) :=
  let total := iter.buff.total
  let gapOffset := iter.buff.gapOffset
  let data := iter.buff.data
  if iter.crossedGap then do
    let lineOffset := iter.cur
    let i ← scan data total iter.cur
    let lineLength := sub64 i lineOffset
    if i < total then
      some ({ iter with cur := add64 i 1 }, some ⟨.data lineOffset, lineLength⟩)
    else if lineLength = 0 then some (iter, none)
    else some ({ iter with cur := i }, some ⟨.data lineOffset, lineLength⟩)
  else do
    let lineOffset := iter.cur
    let i ← scan data gapOffset iter.cur
    let lineLength := sub64 i lineOffset
    if i = gapOffset then do
      let lineOffset2 := add64 i iter.buff.gapLength
      let i ← scan data total lineOffset2
      let lineLength2 := sub64 i lineOffset2
      if ¬ i < total ∧ add64 lineLength lineLength2 = 0 then some (iter, none)
      else do
        let maybe ← copyLine iter.maybe data lineOffset lineLength lineOffset2 lineLength2
        some ({ iter with crossedGap := true, maybe, cur := if i < total then add64 i 1 else i },
          some ⟨.maybe, add64 lineLength lineLength2⟩)
    else some ({ iter with cur := add64 i 1 }, some ⟨.data lineOffset, lineLength⟩)

/-- A returned line: the bytes that there are at `str`, up to the length of the line, and this
length. -/
def Iter.read (iter : Iter) (line : Line) : List UInt8 × Nat :=
  match line.str with
  | .data offset => ((iter.buff.data.drop offset).take line.len, line.len)
  | .maybe => (iter.maybe.take line.len, line.len)

/-- The lines that are returned until `GapBufferIter_next` returns `false`, each read before the
next call. -/
def Iter.lines (iter : Iter) : (fuel : Nat) → Option (List (List UInt8 × Nat))
  | 0 => none
  | fuel + 1 => do
    let (iter, line) ← iter.next
    match line with
    | none => some []
    | some line => do
      let lines ← iter.lines fuel
      some (iter.read line :: lines)

/-! ### Lines of a text -/

/-- The lines of a text: its pieces between newlines, without the last one when it is empty. -/
def textLines (text : List UInt8) : List (List UInt8) :=
  let pieces := text.splitOn 10
  if pieces.getLast? = some [] then pieces.dropLast else pieces

/-- The part of the line at the gap that lies before the gap. -/
def lineBefore (before : List UInt8) : List UInt8 := (before.splitOn 10).getLastD []

/-- The part of the line at the gap that lies after the gap. -/
def lineAfter (after : List UInt8) : List UInt8 := (after.splitOn 10).headD []

/-- The lines that an iteration should return. A line on both sides of the gap may be cut off
behind its first 512 bytes. -/
def returnedLines (before after : List UInt8) : List (List UInt8) :=
  (textLines (before ++ after)).modify (before.count 10) fun line =>
    if lineBefore before ≠ [] ∧ lineAfter after ≠ [] then line.take sizeofMaybe else line

/-- Iteration ends, stays inside `maybe`, and returns the lines with their bytes and lengths. -/
def LinesExact (buff : Buffer) (maybe : List UInt8) : Prop :=
  ∃ fuel, (Iter.init buff maybe).lines fuel =
    some ((returnedLines (bytesBefore buff) (bytesAfter buff)).map fun line => (line, line.length))

section Text

variable {line more rest after : List UInt8}

theorem textLines_cons (plain : 10 ∉ line) (more : List UInt8) :
    textLines (line ++ 10 :: more) = line :: textLines more := by
  obtain ⟨piece, pieces, cut⟩ := List.exists_cons_of_ne_nil (List.splitOn_ne_nil 10 more)
  simp only [textLines, List.splitOn_append_cons_self_of_not_mem plain, cut, List.getLast?_cons_cons,
    List.dropLast_cons_cons]
  split
  · rfl
  · rfl

theorem textLines_plain (plain : 10 ∉ rest) : textLines rest = if rest = [] then [] else [rest] := by
  simp only [textLines, List.splitOn_eq_singleton plain, List.getLast?_singleton, Option.some.injEq,
    List.dropLast_singleton]

theorem lineBefore_cons (plain : 10 ∉ line) (more : List UInt8) :
    lineBefore (line ++ 10 :: more) = lineBefore more := by
  obtain ⟨piece, pieces, cut⟩ := List.exists_cons_of_ne_nil (List.splitOn_ne_nil 10 more)
  simp only [lineBefore, List.splitOn_append_cons_self_of_not_mem plain, cut, List.getLastD_cons]

theorem lineBefore_plain (plain : 10 ∉ rest) : lineBefore rest = rest := by
  rw [lineBefore, List.splitOn_eq_singleton plain]
  rfl

theorem lineAfter_cons (plain : 10 ∉ line) (more : List UInt8) :
    lineAfter (line ++ 10 :: more) = line := by
  rw [lineAfter, List.splitOn_append_cons_self_of_not_mem plain]
  rfl

theorem lineAfter_next {byte : UInt8} (other : byte ≠ 10) (bytes : List UInt8) :
    lineAfter (byte :: bytes) = byte :: lineAfter bytes := by
  obtain ⟨piece, pieces, cut⟩ := List.exists_cons_of_ne_nil (List.splitOn_ne_nil 10 bytes)
  have differs : ¬ (byte == 10) = true := fun same => other (eq_of_beq same)
  rw [lineAfter, lineAfter, List.splitOn_cons_eq_if_modifyHead, if_neg differs, cut]
  rfl

theorem lineAfter_plain (plain : 10 ∉ rest) : lineAfter rest = rest := by
  rw [lineAfter, List.splitOn_eq_singleton plain]
  rfl

theorem returnedLines_cons (plain : 10 ∉ line) (more after : List UInt8) :
    returnedLines (line ++ 10 :: more) after = line :: returnedLines more after := by
  have count : (line ++ 10 :: more).count 10 = more.count 10 + 1 := by
    rw [List.count_append, List.count_eq_zero.mpr plain, List.count_cons_self, Nat.zero_add]
  rw [returnedLines, count, List.append_assoc, List.cons_append, textLines_cons plain,
    List.modify_succ_cons, lineBefore_cons plain, returnedLines]

/-- A text is a last line, or begins with a line that ends. -/
theorem plain_or_line (text : List UInt8) :
    10 ∉ text ∨ ∃ line more, text = line ++ 10 :: more ∧ 10 ∉ line := by
  by_cases newline : 10 ∈ text
  · obtain ⟨line, more, cut, plain⟩ := List.eq_append_cons_of_mem newline
    exact .inr ⟨line, more, cut, plain⟩
  · exact .inl newline

/-- The first line of a text, and what follows it. -/
theorem lineAfter_split (text : List UInt8) :
    ∃ tail, text = lineAfter text ++ tail ∧ 10 ∉ lineAfter text ∧
      (tail = [] ∨ ∃ more, tail = 10 :: more) := by
  rcases plain_or_line text with plain | ⟨line, more, rfl, plain⟩
  · rw [lineAfter_plain plain]
    exact ⟨[], (List.append_nil text).symm, plain, .inl rfl⟩
  · rw [lineAfter_cons plain]
    exact ⟨10 :: more, rfl, plain, .inr ⟨more, rfl⟩⟩

/-- Where the line at the gap is short, it is not cut off. -/
theorem returnedLines_plain (plain : 10 ∉ rest)
    (short : (rest ++ lineAfter after).length ≤ sizeofMaybe) :
    returnedLines rest after = textLines (rest ++ after) := by
  have uncut : ∀ lines : List (List UInt8), (∀ line ∈ lines.head?, line = rest ++ lineAfter after) →
      lines.modify 0 (fun line => if lineBefore rest ≠ [] ∧ lineAfter after ≠ [] then
        line.take sizeofMaybe else line) = lines := by
    rintro (_ | ⟨line, lines⟩) first
    · rfl
    · rw [List.modify_zero_cons, first line rfl, List.take_of_length_le short, ite_self]
  rw [returnedLines, List.count_eq_zero.mpr plain, uncut]
  rcases plain_or_line after with last | ⟨line, more, rfl, ends⟩
  · have whole : 10 ∉ rest ++ after := by
      simp only [List.mem_append, plain, last, or_self, not_false_iff]
    rw [textLines_plain whole, lineAfter_plain last]
    split
    · rintro _ ⟨⟩
    · rintro _ ⟨⟩
      rfl
  · have whole : 10 ∉ rest ++ line := by
      simp only [List.mem_append, plain, ends, or_self, not_false_iff]
    rw [← List.append_assoc, textLines_cons whole, lineAfter_cons ends]
    rintro _ ⟨⟩
    rfl

end Text

/-! ### Scans -/

/-- A scan of bytes between others goes to the first newline among them, or over all of them. -/
theorem scan_middle (front bytes back : List UInt8) :
    scan (front ++ bytes ++ back) (front.length + bytes.length) front.length =
      some (front.length + (lineAfter bytes).length) := by
  rw [scan, Nat.add_sub_cancel_left]
  induction bytes generalizing front with
  | nil => rfl
  | cons byte bytes ih =>
    have here : (front ++ byte :: bytes ++ back)[front.length]? = some byte := by
      simp only [List.append_assoc, List.cons_append, List.getElem?_append_right (Nat.le_refl _),
        Nat.sub_self, List.getElem?_cons_zero]
    have inside : front.length < front.length + (byte :: bytes).length := by
      rw [List.length_cons]
      omega
    rw [List.length_cons, scanFrom, ← List.length_cons, if_pos inside, here]
    simp only [Option.bind_eq_bind, Option.bind_some]
    by_cases newline : byte = 10
    · subst newline
      rw [if_neg (not_not.mpr rfl), show lineAfter (10 :: bytes) = [] from lineAfter_cons List.not_mem_nil bytes]
      rfl
    · rw [if_pos newline, lineAfter_next newline]
      have further := ih (front ++ [byte])
      rw [List.append_cons front byte bytes, List.length_cons]
      rw [List.length_append, List.length_singleton] at further
      rw [show front.length + (bytes.length + 1) = front.length + 1 + bytes.length by omega, further,
        List.length_cons]
      congr 1
      omega

/-! ### Positions -/

/-- The iterator has crossed the gap, and `rest` is ahead of it. -/
structure Behind (iter : Iter) (rest : List UInt8) : Prop where
  crossed : iter.crossedGap = true
  data : ∃ front, iter.buff.data = front ++ rest ∧ front.length = iter.cur
  total : iter.buff.total = iter.buff.data.length
  fits : iter.buff.total < 2 ^ 64

/-- The iterator has `rest` ahead of it up to the gap, and `after` behind the gap. -/
structure Ahead (iter : Iter) (rest after : List UInt8) : Prop where
  crossed : iter.crossedGap = false
  data : ∃ front gap, iter.buff.data = front ++ rest ++ gap ++ after ∧ front.length = iter.cur ∧
    iter.buff.gapOffset = front.length + rest.length ∧ iter.buff.gapLength = gap.length
  total : iter.buff.total = iter.buff.data.length
  fits : iter.buff.total < 2 ^ 64
  size : iter.maybe.length = sizeofMaybe

section Positions

variable {iter : Iter} {line more rest after : List UInt8}

theorem Iter.lines_next {iter' : Iter} {returned : Line} (fuel : Nat)
    (next : iter.next = some (iter', some returned)) :
    iter.lines (fuel + 1) = (iter'.lines fuel).map (iter'.read returned :: ·) := by
  rw [Iter.lines, next]
  simp only [Option.bind_eq_bind, Option.bind_some]
  cases iter'.lines fuel with
  | none => rfl
  | some lines => rfl

theorem Behind.length (behind : Behind iter rest) : iter.cur + rest.length = iter.buff.total := by
  obtain ⟨front, data, cur⟩ := behind.data
  rw [behind.total, data, List.length_append, cur]

theorem Behind.scan (behind : Behind iter rest) :
    GapBuffer.scan iter.buff.data iter.buff.total iter.cur =
      some (iter.cur + (lineAfter rest).length) := by
  obtain ⟨front, data, cur⟩ := behind.data
  have scanned := scan_middle front rest []
  rwa [List.append_nil, ← data, cur, behind.length] at scanned

/-- Behind the gap, a line that ends is returned where it is. -/
theorem Behind.next_line (behind : Behind iter (line ++ 10 :: more)) (plain : 10 ∉ line) :
    ∃ iter' returned, iter.next = some (iter', some returned) ∧ Behind iter' more ∧
      iter'.read returned = (line, line.length) := by
  obtain ⟨front, data, cur⟩ := behind.data
  have length := behind.length
  have fits := behind.fits
  have scanned := behind.scan
  rw [List.length_append, List.length_cons] at length
  rw [lineAfter_cons plain] at scanned
  refine ⟨{ iter with cur := iter.cur + line.length + 1 }, ⟨.data iter.cur, line.length⟩, ?_, ?_, ?_⟩
  · simp only [Iter.next, behind.crossed, if_true, scanned, Option.bind_eq_bind, Option.bind_some]
    rw [if_pos (by omega), sub64_eq (by omega) (by omega), add64_eq (by omega),
      Nat.add_sub_cancel_left]
  · refine ⟨behind.crossed, ⟨front ++ line ++ [10], ?_, ?_⟩, behind.total, behind.fits⟩
    · simp only [data, List.append_assoc, List.singleton_append]
    · simp only [List.length_append, List.length_singleton, cur]
  · simp only [Iter.read, data, ← cur, List.drop_left, List.take_left]

/-- Behind the gap, what follows the last newline is a line unless it is empty. -/
theorem Behind.next_last (behind : Behind iter rest) (plain : 10 ∉ rest) (nonempty : rest ≠ []) :
    ∃ iter' returned, iter.next = some (iter', some returned) ∧ Behind iter' [] ∧
      iter'.read returned = (rest, rest.length) := by
  obtain ⟨front, data, cur⟩ := behind.data
  have length := behind.length
  have fits := behind.fits
  have scanned := behind.scan
  have positive := List.length_pos_of_ne_nil nonempty
  rw [lineAfter_plain plain] at scanned
  refine ⟨{ iter with cur := iter.cur + rest.length }, ⟨.data iter.cur, rest.length⟩, ?_, ?_, ?_⟩
  · simp only [Iter.next, behind.crossed, if_true, scanned, Option.bind_eq_bind, Option.bind_some]
    rw [if_neg (by omega), sub64_eq (by omega) (by omega), Nat.add_sub_cancel_left,
      if_neg (by omega)]
  · refine ⟨behind.crossed, ⟨front ++ rest, ?_, ?_⟩, behind.total, behind.fits⟩
    · rw [data, List.append_nil]
    · simp only [List.length_append, cur]
  · simp only [Iter.read, data, ← cur, List.drop_left, List.take_length]

theorem Behind.next_end (behind : Behind iter []) : iter.next = some (iter, none) := by
  have length := behind.length
  have fits := behind.fits
  have scanned := behind.scan
  rw [lineAfter_plain List.not_mem_nil] at scanned
  rw [List.length_nil] at length scanned
  simp only [Iter.next, behind.crossed, if_true, scanned, Option.bind_eq_bind, Option.bind_some]
  rw [if_neg (by omega), sub64_eq (by omega) (by omega), if_pos (by omega)]

/-- The lines behind the gap. -/
theorem Behind.lines {fuel : Nat} (behind : Behind iter rest) (enough : rest.length < fuel) :
    iter.lines fuel = some ((textLines rest).map fun line => (line, line.length)) := by
  induction fuel generalizing iter rest with
  | zero => omega
  | succ fuel ih =>
    rcases plain_or_line rest with plain | ⟨line, more, rfl, plain⟩
    · rw [textLines_plain plain]
      by_cases empty : rest = []
      · subst empty
        rw [if_pos rfl, Iter.lines, behind.next_end]
        rfl
      · obtain ⟨iter', returned, next, behind', read⟩ := behind.next_last plain empty
        have positive := List.length_pos_of_ne_nil empty
        have none := ih behind' (by simp only [List.length_nil]; omega)
        rw [textLines_plain List.not_mem_nil, if_pos rfl] at none
        rw [if_neg empty, Iter.lines_next fuel next, none, read]
        rfl
    · obtain ⟨iter', returned, next, behind', read⟩ := behind.next_line plain
      rw [List.length_append, List.length_cons] at enough
      rw [textLines_cons plain, Iter.lines_next fuel next, ih behind' (by omega), read]
      rfl

theorem Ahead.length (ahead : Ahead iter rest after) :
    iter.cur + rest.length = iter.buff.gapOffset ∧
      iter.buff.gapOffset + iter.buff.gapLength + after.length = iter.buff.total := by
  obtain ⟨front, gap, data, cur, offset, length⟩ := ahead.data
  rw [ahead.total, data, offset, length, cur]
  simp only [List.length_append, cur, true_and]

theorem Ahead.scan (ahead : Ahead iter rest after) :
    GapBuffer.scan iter.buff.data iter.buff.gapOffset iter.cur =
        some (iter.cur + (lineAfter rest).length) ∧
      GapBuffer.scan iter.buff.data iter.buff.total (iter.buff.gapOffset + iter.buff.gapLength) =
        some (iter.buff.gapOffset + iter.buff.gapLength + (lineAfter after).length) := by
  obtain ⟨front, gap, data, cur, offset, length⟩ := ahead.data
  constructor
  · have scanned := scan_middle front rest (gap ++ after)
    rwa [← List.append_assoc, ← data, cur, ahead.length.1] at scanned
  · have scanned := scan_middle (front ++ rest ++ gap) after []
    rwa [List.append_nil, ← data, List.length_append, List.length_append, ← offset, ← length,
      ahead.length.2] at scanned

/-- Before the gap, a line that ends is returned where it is. -/
theorem Ahead.next_line (ahead : Ahead iter (line ++ 10 :: more) after) (plain : 10 ∉ line) :
    ∃ iter' returned, iter.next = some (iter', some returned) ∧ Ahead iter' more after ∧
      iter'.read returned = (line, line.length) := by
  obtain ⟨front, gap, data, cur, offset, length⟩ := ahead.data
  have total := ahead.length
  have fits := ahead.fits
  have scanned := ahead.scan.1
  rw [List.length_append, List.length_cons] at total
  rw [lineAfter_cons plain] at scanned
  refine ⟨{ iter with cur := iter.cur + line.length + 1 }, ⟨.data iter.cur, line.length⟩, ?_, ?_, ?_⟩
  · simp only [Iter.next, ahead.crossed, Bool.false_eq_true, if_false, scanned, Option.bind_eq_bind,
      Option.bind_some]
    rw [if_neg (by omega), sub64_eq (by omega) (by omega), add64_eq (by omega),
      Nat.add_sub_cancel_left]
  · refine ⟨ahead.crossed, ⟨front ++ line ++ [10], gap, ?_, ?_, ?_, length⟩, ahead.total, ahead.fits,
      ahead.size⟩
    · simp only [data, List.append_assoc, List.cons_append, List.nil_append]
    · simp only [List.length_append, List.length_singleton, cur]
    · simp only [offset, List.length_append, List.length_cons, List.length_nil]
      omega
  · simp only [Iter.read, data, ← cur, List.append_assoc, List.drop_left, List.take_left]

theorem Ahead.next_end (ahead : Ahead iter [] []) : iter.next = some (iter, none) := by
  have total := ahead.length
  have fits := ahead.fits
  have scanned := ahead.scan
  simp only [lineAfter_plain List.not_mem_nil, List.length_nil, Nat.add_zero] at total scanned
  simp only [Iter.next, ahead.crossed, Bool.false_eq_true, if_false, scanned.1, Option.bind_eq_bind,
    Option.bind_some]
  rw [if_pos total.1, add64_eq (by omega), total.1]
  simp only [scanned.2, Option.bind_some]
  rw [total.2, sub64_eq (by omega) (by omega), sub64_eq (by omega) (by omega), Nat.sub_self,
    Nat.sub_self, if_pos ⟨Nat.lt_irrefl _, rfl⟩]

/-- At the gap, the parts of the line on both sides are copied, and the iterator goes behind the
newline if there is one. -/
theorem Ahead.next_gap {tail : List UInt8} (ahead : Ahead iter rest (line ++ tail))
    (plain : 10 ∉ rest) (first : lineAfter (line ++ tail) = line)
    (nonempty : rest ++ line ++ tail ≠ []) :
    iter.next = (copyLine iter.maybe iter.buff.data iter.cur rest.length
        (iter.buff.gapOffset + iter.buff.gapLength) line.length).map fun maybe =>
      ({ iter with
          crossedGap := true
          maybe
          cur := iter.buff.gapOffset + iter.buff.gapLength + line.length + (tail.take 1).length },
        some ⟨.maybe, rest.length + line.length⟩) := by
  have total := ahead.length
  have fits := ahead.fits
  have scanned := ahead.scan
  have positive := List.length_pos_of_ne_nil nonempty
  rw [List.length_append] at total
  rw [List.length_append, List.length_append] at positive
  rw [lineAfter_plain plain, first] at scanned
  simp only [Iter.next, ahead.crossed, Bool.false_eq_true, if_false, scanned.1, Option.bind_eq_bind,
    Option.bind_some]
  rw [if_pos total.1, add64_eq (by omega), total.1]
  have lengths : sub64 iter.buff.gapOffset iter.cur = rest.length ∧
      sub64 (iter.buff.gapOffset + iter.buff.gapLength + line.length)
        (iter.buff.gapOffset + iter.buff.gapLength) = line.length ∧
      add64 rest.length line.length = rest.length + line.length := by
    refine ⟨?_, ?_, add64_eq (by omega)⟩
    · rw [sub64_eq (by omega) (by omega)]
      omega
    · rw [sub64_eq (by omega) (by omega)]
      omega
  simp only [scanned.2, Option.bind_some, lengths]
  rw [if_neg (by omega)]
  cases copyLine iter.maybe iter.buff.data iter.cur rest.length
      (iter.buff.gapOffset + iter.buff.gapLength) line.length with
  | none => rfl
  | some maybe =>
    cases tail with
    | nil =>
      rw [List.length_nil] at total
      rw [Option.bind_some, Option.map_some, if_neg (by omega)]
      rfl
    | cons byte tail =>
      rw [List.length_cons] at total
      rw [Option.bind_some, Option.map_some, if_pos (by omega), add64_eq (by omega)]
      rfl

theorem memcpy_length {dst src result : List UInt8} {off srcOff len : Nat}
    (copies : memcpy dst off src srcOff len = some result) : result.length = dst.length := by
  obtain ⟨bytes, -, stored⟩ := Option.bind_eq_some_iff.mp copies
  exact store_length stored

/-- The copies stay as long as `maybe`. -/
theorem copyLine_length {maybe data copied : List UInt8} {offset length offset2 length2 : Nat}
    (copies : copyLine maybe data offset length offset2 length2 = some copied) :
    copied.length = maybe.length := by
  rw [copyLine] at copies
  split at copies
  · split at copies
    · exact memcpy_length copies
    · obtain ⟨first, copied, rest⟩ := Option.bind_eq_some_iff.mp copies
      exact (memcpy_length rest).trans (memcpy_length copied)
  · obtain ⟨first, copied, rest⟩ := Option.bind_eq_some_iff.mp copies
    exact (memcpy_length rest).trans (memcpy_length copied)

/-- Of a line that is too long, the part behind the gap is copied as far into `maybe` as the line
is into the data, and not behind the other part. -/
theorem copyLine_outside {maybe data : List UInt8} {offset length offset2 length2 : Nat}
    (size : maybe.length = sizeofMaybe) (fits : length + length2 < 2 ^ 64)
    (long : sizeofMaybe < length + length2) (short : length ≤ sizeofMaybe) (late : length < offset) :
    copyLine maybe data offset length offset2 length2 = none := by
  have most : length ≤ 512 := short
  rw [copyLine, add64_eq fits, if_pos long, if_neg (Nat.not_lt.mpr short)]
  apply Option.bind_eq_none_iff.mpr
  intro half copied
  have kept := memcpy_length copied
  apply Option.bind_eq_none_iff.mpr
  intro bytes loaded
  have count := load_length loaded
  rw [sub64_eq short (by decide)] at count
  rw [store, if_neg (by omega)]

/-- Two parts of a line that have room in `maybe` are copied one behind the other. -/
theorem copyLine_short {maybe data : List UInt8} {offset offset2 : Nat}
    (size : maybe.length = sizeofMaybe) (short : (rest ++ line).length ≤ sizeofMaybe)
    (first : load data offset rest.length = some rest)
    (second : load data offset2 line.length = some line) :
    ∃ copied, copyLine maybe data offset rest.length offset2 line.length = some copied ∧
      copied.take (rest ++ line).length = rest ++ line := by
  rw [List.length_append] at short
  obtain ⟨half, stored⟩ : ∃ half, store maybe 0 rest = some half :=
    ⟨_, store_eq (by omega)⟩
  have length := store_length stored
  obtain ⟨copied, stored2⟩ : ∃ copied, store half (0 + rest.length) line = some copied :=
    ⟨_, store_eq (by omega)⟩
  refine ⟨copied, ?_, ?_⟩
  · have fits : rest.length + line.length ≤ 512 := short
    rw [copyLine, add64_eq (by omega), if_neg (Nat.not_lt.mpr short)]
    rw [Nat.zero_add] at stored2
    simp only [memcpy, first, second, stored, stored2, Option.bind_eq_bind, Option.bind_some]
  · have loaded := load_store_behind (load_store_same stored) stored2
    rw [load_eq (load_inside loaded), List.drop_zero] at loaded
    rw [List.length_append]
    exact Option.some.inj loaded

/-- A line at the gap that has room in `maybe` is returned from there. -/
theorem Ahead.next_short {tail : List UInt8} (ahead : Ahead iter rest (line ++ tail))
    (plain : 10 ∉ rest) (first : lineAfter (line ++ tail) = line)
    (nonempty : rest ++ line ++ tail ≠ []) (short : (rest ++ line).length ≤ sizeofMaybe) :
    ∃ iter' returned, iter.next = some (iter', some returned) ∧ Behind iter' (tail.drop 1) ∧
      iter'.read returned = (rest ++ line, (rest ++ line).length) := by
  obtain ⟨front, gap, data, cur, offset, length⟩ := ahead.data
  have loaded : load iter.buff.data iter.cur rest.length = some rest := by
    rw [data, ← cur, List.append_assoc _ gap]
    exact load_middle front rest _
  have loaded2 : load iter.buff.data (iter.buff.gapOffset + iter.buff.gapLength) line.length =
      some line := by
    rw [data, offset, length, ← List.length_append, ← List.length_append, ← List.append_assoc]
    exact load_middle _ line tail
  obtain ⟨copied, copies, exact⟩ := copyLine_short ahead.size short loaded loaded2
  have next := ahead.next_gap plain first nonempty
  rw [copies, Option.map_some] at next
  refine ⟨_, _, next, ⟨rfl, ⟨front ++ rest ++ gap ++ line ++ tail.take 1, ?_, ?_⟩, ahead.total,
    ahead.fits⟩, ?_⟩
  · simp only [data, List.append_assoc, List.take_append_drop]
  · simp only [List.length_append, offset, length]
  · rw [Iter.read]
    rw [List.length_append] at exact
    simp only [List.length_append, exact]

/-- A line at the gap that is too long for `maybe` runs out of it, or has a length that goes
beyond it. -/
theorem Ahead.next_long {tail : List UInt8} (ahead : Ahead iter rest (line ++ tail))
    (plain : 10 ∉ rest) (first : lineAfter (line ++ tail) = line)
    (long : sizeofMaybe < (rest ++ line).length) :
    iter.next = none ∨ ∃ iter' returned, iter.next = some (iter', some returned) ∧
      (iter'.read returned).1.length < (iter'.read returned).2 := by
  have nonempty : rest ++ line ++ tail ≠ [] := by
    intro empty
    rw [(List.append_eq_nil_iff.mp empty).1] at long
    exact Nat.not_lt_zero _ long
  have next := ahead.next_gap plain first nonempty
  cases copies : copyLine iter.maybe iter.buff.data iter.cur rest.length
      (iter.buff.gapOffset + iter.buff.gapLength) line.length with
  | none =>
    rw [copies] at next
    exact .inl next
  | some copied =>
    rw [copies, Option.map_some] at next
    refine .inr ⟨_, _, next, ?_⟩
    have length := copyLine_length copies
    rw [ahead.size] at length
    rw [List.length_append] at long
    simp only [Iter.read, List.length_take, length]
    omega

/-- The lines of the whole text, where the line at the gap has room in `maybe`. -/
theorem Ahead.lines {fuel : Nat} (ahead : Ahead iter rest after)
    (short : (lineBefore rest ++ lineAfter after).length ≤ sizeofMaybe)
    (enough : rest.length + after.length < fuel) :
    iter.lines fuel = some ((returnedLines rest after).map fun line => (line, line.length)) := by
  induction fuel generalizing iter rest with
  | zero => omega
  | succ fuel ih =>
    rcases plain_or_line rest with plain | ⟨line, more, rfl, plain⟩
    · rw [lineBefore_plain plain] at short
      rw [returnedLines_plain plain short]
      obtain ⟨tail, cut, ends, follows⟩ := lineAfter_split after
      generalize line_eq : lineAfter after = line at *
      subst cut
      by_cases empty : rest ++ line ++ tail = []
      · obtain ⟨front, rfl⟩ := List.append_eq_nil_iff.mp empty
        obtain ⟨rfl, rfl⟩ := List.append_eq_nil_iff.mp front
        rw [Iter.lines, ahead.next_end]
        rfl
      · obtain ⟨iter', returned, next, behind, read⟩ := ahead.next_short plain line_eq empty short
        have positive := List.length_pos_of_ne_nil empty
        have whole : 10 ∉ rest ++ line := by
          simp only [List.mem_append, plain, ends, or_self, not_false_iff]
        simp only [List.length_append] at enough positive
        have further := behind.lines (show (tail.drop 1).length < fuel by
          rw [List.length_drop]
          omega)
        rw [Iter.lines_next fuel next, further, read, ← List.append_assoc]
        rcases follows with rfl | ⟨more, rfl⟩
        · rw [List.append_nil] at empty ⊢
          rw [textLines_plain whole, if_neg empty]
          rfl
        · rw [textLines_cons whole]
          rfl
    · obtain ⟨iter', returned, next, ahead', read⟩ := ahead.next_line plain
      rw [lineBefore_cons plain] at short
      rw [List.length_append, List.length_cons] at enough
      rw [returnedLines_cons plain, Iter.lines_next fuel next, ih ahead' short (by omega), read]
      rfl

/-- Where the line at the gap is too long, no iteration returns all lines with their lengths. -/
theorem Ahead.lines_long {fuel : Nat} {lines : List (List UInt8 × Nat)} (ahead : Ahead iter rest after)
    (long : sizeofMaybe < (lineBefore rest ++ lineAfter after).length)
    (iterated : iter.lines fuel = some lines) : ∃ line ∈ lines, line.1.length < line.2 := by
  induction fuel generalizing iter rest lines with
  | zero => cases iterated
  | succ fuel ih =>
    rcases plain_or_line rest with plain | ⟨line, more, rfl, plain⟩
    · rw [lineBefore_plain plain] at long
      obtain ⟨tail, cut, ends, follows⟩ := lineAfter_split after
      generalize line_eq : lineAfter after = line at *
      subst cut
      rcases ahead.next_long plain line_eq long with fault | ⟨iter', returned, next, beyond⟩
      · rw [Iter.lines, fault] at iterated
        cases iterated
      · rw [Iter.lines_next fuel next] at iterated
        obtain ⟨others, -, rfl⟩ := Option.map_eq_some_iff.mp iterated
        exact ⟨_, List.mem_cons_self, beyond⟩
    · obtain ⟨iter', returned, next, ahead', read⟩ := ahead.next_line plain
      rw [lineBefore_cons plain] at long
      rw [Iter.lines_next fuel next] at iterated
      obtain ⟨others, further, rfl⟩ := Option.map_eq_some_iff.mp iterated
      obtain ⟨line, member, beyond⟩ := ih ahead' long further
      exact ⟨line, List.mem_cons_of_mem _ member, beyond⟩

end Positions

variable {buff : Buffer} {maybe : List UInt8}

/-- An iteration begins with the whole text ahead. -/
theorem init_ahead (reached : buffers.Reachable buff) (size : maybe.length = sizeofMaybe) :
    Ahead (Iter.init buff maybe) (bytesBefore buff) (bytesAfter buff) := by
  obtain ⟨gap, shape, fits⟩ := reachable_layout reached
  generalize bytesBefore buff = before at shape
  generalize bytesAfter buff = after at shape
  subst shape
  have length : before.length + gap.length + after.length = (before ++ gap ++ after).length := by
    rw [List.length_append, List.length_append]
  exact ⟨rfl, ⟨[], gap, rfl, rfl, (Nat.zero_add _).symm, rfl⟩, length, fits, size⟩

/-- A length that goes beyond the bytes of its line is not among those of the text. -/
theorem not_linesExact (reached : buffers.Reachable buff) (size : maybe.length = sizeofMaybe)
    (long : sizeofMaybe < (lineBefore (bytesBefore buff) ++ lineAfter (bytesAfter buff)).length) :
    ¬ LinesExact buff maybe := by
  rintro ⟨fuel, iterated⟩
  obtain ⟨line, member, beyond⟩ := (init_ahead reached size).lines_long long iterated
  obtain ⟨bytes, -, rfl⟩ := List.mem_map.mp member
  exact Nat.lt_irrefl _ beyond

/-- Iteration over the lines is exact exactly when the line at the gap has room in the iterator:
when at most 512 bytes lie between the newlines, or ends of the text, around the gap. -/
theorem linesExact_iff (reached : buffers.Reachable buff) (size : maybe.length = sizeofMaybe) :
    LinesExact buff maybe ↔
      (lineBefore (bytesBefore buff) ++ lineAfter (bytesAfter buff)).length ≤ sizeofMaybe := by
  constructor
  · intro exact
    by_contra long
    exact not_linesExact reached size (Nat.not_le.mp long) exact
  · intro short
    exact ⟨_, (init_ahead reached size).lines short (Nat.lt_succ_self _)⟩

/-- Two lines with the cursor in the middle of the second. -/
theorem linesExact_iff_applies : ∃ buff, buffers.Reachable buff ∧
    bytesBefore buff = [97, 10, 98] ∧ bytesAfter buff = [99] ∧
    LinesExact buff (List.replicate sizeofMaybe 0) := by
  have created : buffers.initial ⟨0, 5, 5, [0, 0, 0, 0, 0]⟩ :=
    Or.inl ⟨8, List.replicate 37 0, by decide, by decide⟩
  have replayed : buffers.replay ⟨0, 5, 5, [0, 0, 0, 0, 0]⟩
      [.insertString [97, 10, 98, 99], .moveRelative (-1)] = some ⟨3, 1, 5, [97, 10, 98, 99, 99]⟩ := by
    decide
  have reached := (System.Reachable.start created).replay _ replayed
  refine ⟨_, reached, by decide, by decide, ?_⟩
  exact (linesExact_iff reached List.length_replicate).mpr (by decide)

private theorem empty_lines (gap after maybe : List UInt8) :
    Iter.next ⟨layout [10, 10, 98] gap after, false, 0, maybe⟩ =
        some (⟨layout [10, 10, 98] gap after, false, 1, maybe⟩, some ⟨.data 0, 0⟩) ∧
      Iter.next ⟨layout [10, 10, 98] gap after, false, 1, maybe⟩ =
        some (⟨layout [10, 10, 98] gap after, false, 2, maybe⟩, some ⟨.data 1, 0⟩) := by
  constructor
  · simp [Iter.next, layout, scan, scanFrom, sub64, add64]
  · simp [Iter.next, layout, scan, scanFrom, sub64, add64]

/-- Behind two empty lines, a letter and 512 others with the cursor between them. The second copy
starts behind the empty lines instead of behind the letter, and its last byte is written past
`maybe`. -/
theorem long_line_copied_past_maybe : ∃ buff first second,
    buffers.Reachable buff ∧ bytesBefore buff = [10, 10, 98] ∧
    bytesAfter buff = List.replicate 512 97 ∧
    (Iter.init buff (List.replicate sizeofMaybe 0)).next = some (first, some ⟨.data 0, 0⟩) ∧
    first.next = some (second, some ⟨.data 1, 0⟩) ∧ second.next = none ∧
    ¬ LinesExact buff (List.replicate sizeofMaybe 0) := by
  obtain ⟨buff, reached, shown⟩ : ∃ buff, buffers.Reachable buff ∧
      view buff = ⟨[[10], [10], [98]], List.replicate 512 [97]⟩ := by
    apply text_reachable
    · intro s member
      simp only [List.mem_append, List.mem_cons, List.not_mem_nil, or_false, List.mem_replicate]
        at member
      rcases member with (rfl | rfl | rfl) | ⟨-, rfl⟩
      · exact ascii_isSymbol (by decide)
      · exact ascii_isSymbol (by decide)
      · exact ascii_isSymbol (by decide)
      · exact ascii_isSymbol (by decide)
    · rw [List.flatten_append, List.flatten_replicate_singleton, List.length_append,
        List.length_replicate]
      decide
  obtain ⟨before, after⟩ := (represents_view reached).bytes
  rw [shown] at before after
  rw [List.flatten_replicate_singleton] at after
  have plain : (10 : UInt8) ∉ List.replicate 512 97 := fun member =>
    absurd (List.mem_replicate.mp member).2 (by decide)
  have short : (10 : UInt8) ∉ [98] := by decide
  obtain ⟨gap, shape, fits⟩ := reachable_layout reached
  rw [before, after] at shape
  have atGap : Ahead ⟨buff, false, 2, List.replicate sizeofMaybe 0⟩ [98] (List.replicate 512 97 ++ []) := by
    subst shape
    rw [List.append_nil]
    refine ⟨rfl, ⟨[10, 10], gap, rfl, rfl, rfl, rfl⟩, ?_, fits, List.length_replicate⟩
    simp only [layout, List.length_append]
  have late : [(98 : UInt8)].length < 2 := by decide
  have third := atGap.next_gap short (by rw [List.append_nil, lineAfter_plain plain])
    (List.cons_ne_nil _ _)
  rw [List.length_replicate, copyLine_outside List.length_replicate (by decide) (by decide)
    (by decide) late] at third
  refine ⟨buff, ⟨buff, false, 1, List.replicate sizeofMaybe 0⟩,
    ⟨buff, false, 2, List.replicate sizeofMaybe 0⟩, reached, before, after, ?_, ?_, third, ?_⟩
  · rw [shape, Iter.init]
    exact (empty_lines gap _ _).1
  · rw [shape]
    exact (empty_lines gap _ _).2
  · apply not_linesExact reached List.length_replicate
    rw [after, lineAfter_plain plain, List.length_append, List.length_replicate, before]
    decide

end Mysnips.GapBuffer

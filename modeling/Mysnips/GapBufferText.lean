import Mysnips.GapBufferUtf8
import Mysnips.TextCursor

/-! The gap buffer as a text with a cursor. A buffer that represents a text holds
the symbols before the cursor, the gap, and the symbols after the cursor; every
operation of the source does to the buffer what its counterpart does to the text,
without a fault. -/
namespace Mysnips.GapBuffer
open Machine Memory SelfSynchronizing TextCursor

/-! ### Bytes around the gap -/

/-- A buffer with these bytes before, in and after its gap. -/
def layout (before gap after : List UInt8) : Buffer :=
  ⟨before.length, gap.length, before.length + gap.length + after.length, before ++ gap ++ after⟩

section Bytes

variable {before gap after str : List UInt8}

theorem getByteCount_layout (fits : before.length + gap.length + after.length < 2 ^ 64) :
    getByteCount (layout before gap after) = before.length + after.length := by
  simp only [getByteCount, layout]
  rw [sub64_eq (by omega) fits]
  omega

theorem insertBytesBeforeCursor_layout
    (fits : before.length + gap.length + after.length < 2 ^ 64) (room : str.length ≤ gap.length) :
    insertBytesBeforeCursor (layout before gap after) str =
      some (layout (before ++ str) (gap.drop str.length) after, true) := by
  have stored : store (before ++ gap ++ after) before.length str =
      some (before ++ str ++ gap.drop str.length ++ after) := by
    have parts : before ++ gap ++ after =
        before ++ gap.take str.length ++ (gap.drop str.length ++ after) := by
      simp [← List.append_assoc (gap.take _)]
    rw [parts, store_middle _ _ (by simp [room]), ← List.append_assoc]
  simp only [insertBytesBeforeCursor, layout, if_neg (Nat.not_lt.mpr room), stored,
    Option.bind_eq_bind, Option.bind_some, Option.some.injEq, Prod.mk.injEq, and_true,
    Buffer.mk.injEq]
  refine ⟨?_, ?_, ?_⟩
  · rw [add64_eq (by omega), List.length_append]
  · rw [sub64_eq room (by omega), List.length_drop]
  · simp only [List.length_append, List.length_drop]
    omega

theorem insertBytesAfterCursor_layout
    (fits : before.length + gap.length + after.length < 2 ^ 64) (room : str.length ≤ gap.length) :
    insertBytesAfterCursor (layout before gap after) str =
      some (layout before (gap.take (gap.length - str.length)) (str ++ after), true) := by
  have place : sub64 (add64 before.length gap.length) str.length =
      before.length + (gap.length - str.length) := by
    rw [add64_eq (by omega), sub64_eq (by omega) (by omega)]
    omega
  have stored : store (before ++ gap ++ after) (before.length + (gap.length - str.length)) str =
      some (before ++ gap.take (gap.length - str.length) ++ (str ++ after)) := by
    have parts : before ++ gap ++ after = before ++ gap.take (gap.length - str.length) ++
        gap.drop (gap.length - str.length) ++ after := by simp
    have front : before.length + (gap.length - str.length) =
        (before ++ gap.take (gap.length - str.length)).length := by
      rw [List.length_append, List.length_take]
      omega
    rw [parts, front, store_middle _ _ (by rw [List.length_drop]; omega), List.append_assoc _ str]
  simp only [insertBytesAfterCursor, layout, if_neg (Nat.not_lt.mpr room), place, stored,
    Option.bind_eq_bind, Option.bind_some, Option.some.injEq, Prod.mk.injEq, and_true,
    Buffer.mk.injEq, true_and]
  refine ⟨?_, ?_⟩
  · rw [sub64_eq room (by omega), List.length_take]
    omega
  · simp only [List.length_append, List.length_take]
    omega

/-- Both insertions refuse what the gap does not hold. -/
theorem insertBytes_refuse {buff : Buffer} (large : buff.gapLength < str.length) :
    insertBytesBeforeCursor buff str = some (buff, false) ∧
      insertBytesAfterCursor buff str = some (buff, false) := by
  rw [insertBytesBeforeCursor, insertBytesAfterCursor, if_pos large, if_pos large]
  exact ⟨rfl, rfl⟩

theorem moveBytesAfterGap_layout (before gap after moved : List UInt8)
    (fits : before.length + moved.length + gap.length + after.length < 2 ^ 64) :
    moveBytesAfterGap (layout (before ++ moved) gap after) moved.length =
      some (layout before ((moved ++ gap).take gap.length) (moved ++ after)) := by
  have offset : sub64 (before.length + moved.length) moved.length = before.length := by
    rw [sub64_eq (by omega) (by omega)]
    omega
  have gapEnd : add64 (before.length + moved.length) gap.length =
      before.length + moved.length + gap.length := add64_eq (by omega)
  have place : sub64 (before.length + moved.length + gap.length) moved.length =
      before.length + gap.length := by
    rw [sub64_eq (by omega) (by omega)]
    omega
  have loaded : load (before ++ moved ++ gap ++ after) before.length moved.length = some moved := by
    rw [List.append_assoc (before ++ moved)]
    exact load_middle before moved (gap ++ after)
  have stored : store (before ++ moved ++ gap ++ after) (before.length + gap.length) moved =
      some (before ++ (moved ++ gap).take gap.length ++ (moved ++ after)) := by
    have parts : before ++ moved ++ gap ++ after = before ++ (moved ++ gap).take gap.length ++
        (moved ++ gap).drop gap.length ++ after := by
      rw [List.append_assoc before (List.take _ _), List.take_append_drop, ← List.append_assoc before]
    have front : before.length + gap.length = (before ++ (moved ++ gap).take gap.length).length := by
      rw [List.length_append, List.length_take, List.length_append]
      omega
    have same : ((moved ++ gap).drop gap.length).length = moved.length := by
      rw [List.length_drop, List.length_append]
      omega
    rw [parts, front, store_middle _ _ same, List.append_assoc _ moved]
  have asserted : before.length + moved.length ≥ moved.length ∧
      before.length + moved.length ≤ before.length + moved.length + gap.length + after.length ∧
      before.length + moved.length + gap.length ≤
        before.length + moved.length + gap.length + after.length := by omega
  simp only [moveBytesAfterGap, layout, List.length_append, offset, gapEnd, place, loaded, stored,
    if_pos asserted, Option.bind_eq_bind, Option.bind_some, Option.some.injEq, Buffer.mk.injEq,
    true_and, and_true, List.length_take]
  omega

theorem moveBytesBeforeGap_layout (before gap after moved : List UInt8)
    (fits : before.length + gap.length + moved.length + after.length < 2 ^ 64) :
    moveBytesBeforeGap (layout before gap (moved ++ after)) moved.length =
      some (layout (before ++ moved) ((gap ++ moved).drop moved.length) after) := by
  have gapEnd : add64 before.length gap.length = before.length + gap.length := add64_eq (by omega)
  have rest : sub64 (sub64 (before.length + gap.length + (moved.length + after.length))
      before.length) gap.length = moved.length + after.length := by
    rw [sub64_eq (a := before.length + gap.length + (moved.length + after.length)) (by omega)
      (by omega), sub64_eq (by omega) (by omega)]
    omega
  have loaded : load (before ++ gap ++ (moved ++ after)) (before.length + gap.length) moved.length =
      some moved := by
    rw [← List.append_assoc (before ++ gap), ← List.length_append]
    exact load_middle (before ++ gap) moved after
  have stored : store (before ++ gap ++ (moved ++ after)) before.length moved =
      some (before ++ moved ++ (gap ++ moved).drop moved.length ++ after) := by
    have parts : before ++ gap ++ (moved ++ after) = before ++ (gap ++ moved).take moved.length ++
        ((gap ++ moved).drop moved.length ++ after) := by
      rw [← List.append_assoc _ (List.drop _ _), List.append_assoc before (List.take _ _),
        List.take_append_drop]
      simp
    have same : ((gap ++ moved).take moved.length).length = moved.length := by
      rw [List.length_take, List.length_append]
      omega
    rw [parts, store_middle _ _ same, ← List.append_assoc]
  have asserted : moved.length + after.length ≥ moved.length ∧
      before.length ≤ before.length + gap.length + (moved.length + after.length) ∧
      before.length + gap.length ≤ before.length + gap.length + (moved.length + after.length) := by
    omega
  have offset : add64 before.length moved.length = before.length + moved.length :=
    add64_eq (by omega)
  simp only [moveBytesBeforeGap, layout, List.length_append, gapEnd, rest, loaded, stored, offset,
    if_pos asserted, Option.bind_eq_bind, Option.bind_some, Option.some.injEq, Buffer.mk.injEq,
    true_and, and_true, List.length_drop]
  omega

end Bytes

/-! ### Walks over symbols -/

section Walks

variable {pre post : List (List UInt8)}

/-- Stepping back over one symbol. -/
private theorem stepBack_word {word : List UInt8} (isWord : utf8.Word word) (front back : List UInt8) :
    stepBack (front ++ word ++ back) (front.length + word.length) = some front.length := by
  -- the auxiliary bytes are skipped one by one, down to the first byte
  have skipped : ∀ k < word.length,
      stepBack (front ++ word ++ back) (front.length + (k + 1)) = some front.length := by
    intro k
    induction k with
    | zero =>
      intro _
      obtain ⟨letter, read, leads, _⟩ := isWord.read_first front back
      have first : isSymbolAuxiliaryByte letter = false := by simpa [utf8] using leads
      rw [Nat.zero_add, stepBack, read]
      simp [first]
    | succ k ih =>
      intro inside
      obtain ⟨letter, read, follows⟩ := isWord.read_rest front back inside
      have auxiliary : isSymbolAuxiliaryByte letter = true := by simpa [utf8] using follows
      rw [← Nat.add_assoc, stepBack, read]
      simp only [Option.bind_eq_bind, Option.bind_some, auxiliary, if_true]
      exact ih (by omega)
  have positive := isWord.positive
  obtain ⟨k, length⟩ := Nat.exists_eq_add_of_le' positive
  rw [length]
  exact skipped k (by omega)

/-- `getPrecedingSymbol` walks back to a boundary, or to the start. -/
theorem precedingFrom_symbols (areWords : ∀ s ∈ pre, utf8.Word s) (back : List UInt8) (num : Nat) :
    precedingFrom (pre.flatten ++ back) num pre.flatten.length =
      some (pre.take (pre.length - num)).flatten.length := by
  induction num generalizing pre back with
  | zero => simp [precedingFrom]
  | succ num ih =>
    rcases List.eq_nil_or_concat pre with rfl | ⟨init, last, rfl⟩
    · simp [precedingFrom]
    · rw [List.concat_eq_append] at areWords ⊢
      have isWord := areWords last (by simp)
      have positive := isWord.positive
      have step := stepBack_word isWord init.flatten back
      have initWords : ∀ s ∈ init, utf8.Word s := fun s member => areWords s (by simp [member])
      have rest := ih initWords (last ++ back)
      rw [← List.append_assoc] at rest
      simp only [List.flatten_append, List.flatten_cons, List.flatten_nil, List.append_nil,
        List.length_append, List.length_singleton] at step rest ⊢
      rw [precedingFrom, if_pos (by omega), step]
      simp only [Option.bind_eq_bind, Option.bind_some, rest, Option.some.injEq]
      rw [show init.length + 1 - (num + 1) = init.length - num by omega,
        List.take_append_of_le_length (Nat.sub_le _ _)]

/-- `getFollowingSymbol` walks to a boundary, or to the end. -/
theorem followingFrom_symbols {buff : Buffer} (areWords : ∀ s ∈ post, utf8.Word s)
    (front : List UInt8) (data : buff.data = front ++ post.flatten)
    (total : buff.total = buff.data.length) (fits : buff.total < 2 ^ 64) (num : Nat) :
    followingFrom buff num front.length = some (front.length + (post.take num).flatten.length) := by
  induction num generalizing post front with
  | zero => simp [followingFrom]
  | succ num ih =>
    cases post with
    | nil =>
      rw [data, List.flatten_nil, List.append_nil] at total
      simp [followingFrom, total]
    | cons word rest =>
      have isWord := areWords word List.mem_cons_self
      have positive := isWord.positive
      obtain ⟨letter, read, _, length⟩ := isWord.read_first front rest.flatten
      have length : getSymbolLengthFromFirstByte letter = word.length := length
      have shape : buff.data = front ++ word ++ rest.flatten := by
        rw [data, List.flatten_cons, List.append_assoc]
      rw [← shape] at read
      rw [shape, List.length_append, List.length_append] at total
      have next := ih (fun s member => areWords s (List.mem_cons_of_mem _ member)) (front ++ word) shape
      rw [List.length_append] at next
      rw [followingFrom, if_pos (by omega), read]
      simp only [Option.bind_eq_bind, Option.bind_some, length, List.take_succ_cons,
        List.flatten_cons, List.length_append]
      rw [add64_eq (by omega), next]
      simp only [Option.some.injEq]
      omega

/-- Where `GapBuffer_moveAbsolute` finds the boundary behind `m` symbols: the gap is
jumped over as soon as it is reached. -/
def boundary (pre post : List (List UInt8)) (gap : List UInt8) (m : Nat) : Nat :=
  if m < pre.length then (pre.take m).flatten.length
  else pre.flatten.length + gap.length + (post.take (m - pre.length)).flatten.length

/-- A text around one of its words. -/
private theorem flatten_take_succ {words : List (List UInt8)} {m : Nat} {word : List UInt8}
    (read : words[m]? = some word) :
    (words.take (m + 1)).flatten = (words.take m).flatten ++ word ∧
      words.flatten = (words.take m).flatten ++ word ++ (words.drop (m + 1)).flatten := by
  obtain ⟨inside, rfl⟩ := List.getElem?_eq_some_iff.mp read
  have upTo : (words.take (m + 1)).flatten = (words.take m).flatten ++ words.get ⟨m, inside⟩ := by
    rw [← List.take_append_getElem inside, List.flatten_append, List.flatten_cons, List.flatten_nil,
      List.append_nil]
    rfl
  refine ⟨upTo, ?_⟩
  have whole := congrArg List.flatten (List.take_append_drop (m + 1) words)
  rw [List.flatten_append, upTo] at whole
  exact whole.symm

private theorem flatten_pos {words : List (List UInt8)} (areWords : ∀ s ∈ words, utf8.Word s)
    (nonempty : words ≠ []) : 0 < words.flatten.length := by
  cases words with
  | nil => exact absurd rfl nonempty
  | cons word rest =>
    have positive := (areWords word List.mem_cons_self).positive
    rw [List.flatten_cons, List.length_append]
    omega

private theorem absoluteFrom_read {buff : Buffer} {i : Nat} {byte : UInt8} (below : i < buff.total)
    (read : buff.data[i]? = some byte) (num : Nat) :
    absoluteFrom buff (num + 1) i = absoluteFrom buff num
      (if add64 i (getSymbolLengthFromFirstByte byte) = buff.gapOffset then
        add64 (add64 i (getSymbolLengthFromFirstByte byte)) buff.gapLength
        else add64 i (getSymbolLengthFromFirstByte byte)) := by
  rw [absoluteFrom, if_pos below, read]
  rfl

/-- One round of the loop of `GapBuffer_moveAbsolute`, before the gap. -/
private theorem absolute_step_before {gap : List UInt8} {m : Nat}
    (preWords : ∀ s ∈ pre, utf8.Word s)
    (fits : (layout pre.flatten gap post.flatten).total < 2 ^ 64) (early : m < pre.length)
    (num : Nat) :
    absoluteFrom (layout pre.flatten gap post.flatten) (num + 1) (boundary pre post gap m) =
      absoluteFrom (layout pre.flatten gap post.flatten) num (boundary pre post gap (m + 1)) := by
  obtain ⟨word, read⟩ : ∃ word, pre[m]? = some word := ⟨_, List.getElem?_eq_getElem early⟩
  obtain ⟨upTo, whole⟩ := flatten_take_succ read
  have isWord := preWords word (List.mem_of_getElem? read)
  have positive := isWord.positive
  have wholeLength := congrArg List.length whole
  have upToLength := congrArg List.length upTo
  simp only [List.length_append] at wholeLength upToLength
  obtain ⟨letter, byte, _, length⟩ := isWord.read_first (pre.take m).flatten
    ((pre.drop (m + 1)).flatten ++ gap ++ post.flatten)
  have length : getSymbolLengthFromFirstByte letter = word.length := length
  have data : (pre.take m).flatten ++ word ++ ((pre.drop (m + 1)).flatten ++ gap ++ post.flatten) =
      pre.flatten ++ gap ++ post.flatten := by
    rw [whole]
    simp
  rw [data] at byte
  have here : boundary pre post gap m = (pre.take m).flatten.length := if_pos early
  simp only [layout] at fits
  have below : (pre.take m).flatten.length < (layout pre.flatten gap post.flatten).total := by
    simp only [layout]
    omega
  rw [here, absoluteFrom_read below byte, length, add64_eq (by omega), ← upToLength]
  congr 1
  have offset : (layout pre.flatten gap post.flatten).gapOffset = pre.flatten.length := rfl
  by_cases last : m + 1 < pre.length
  · have rest := flatten_pos (fun s member => preWords s (List.mem_of_mem_drop member))
      (show pre.drop (m + 1) ≠ [] by simpa using last)
    rw [if_neg (by rw [offset]; omega), boundary, if_pos last]
  · have all : pre.take (m + 1) = pre := List.take_of_length_le (by omega)
    rw [all, if_pos offset.symm, boundary, if_neg last, show m + 1 - pre.length = 0 by omega]
    simp only [layout, List.take_zero, List.flatten_nil, List.length_nil, Nat.add_zero]
    exact add64_eq (by omega)

/-- One round behind the gap. -/
private theorem absolute_step_after {gap : List UInt8} {m : Nat}
    (postWords : ∀ s ∈ post, utf8.Word s)
    (fits : (layout pre.flatten gap post.flatten).total < 2 ^ 64) (late : pre.length ≤ m)
    (more : m < pre.length + post.length) (num : Nat) :
    absoluteFrom (layout pre.flatten gap post.flatten) (num + 1) (boundary pre post gap m) =
      absoluteFrom (layout pre.flatten gap post.flatten) num (boundary pre post gap (m + 1)) := by
  obtain ⟨d, rfl⟩ := Nat.exists_eq_add_of_le late
  have inside : d < post.length := by omega
  obtain ⟨word, read⟩ : ∃ word, post[d]? = some word := ⟨_, List.getElem?_eq_getElem inside⟩
  obtain ⟨upTo, whole⟩ := flatten_take_succ read
  have isWord := postWords word (List.mem_of_getElem? read)
  have positive := isWord.positive
  have wholeLength := congrArg List.length whole
  have upToLength := congrArg List.length upTo
  simp only [List.length_append] at wholeLength upToLength
  obtain ⟨letter, byte, _, length⟩ := isWord.read_first
    (pre.flatten ++ gap ++ (post.take d).flatten) (post.drop (d + 1)).flatten
  have length : getSymbolLengthFromFirstByte letter = word.length := length
  have data : pre.flatten ++ gap ++ (post.take d).flatten ++ word ++ (post.drop (d + 1)).flatten =
      pre.flatten ++ gap ++ post.flatten := by
    rw [whole]
    simp
  rw [data, List.length_append, List.length_append] at byte
  have here : boundary pre post gap (pre.length + d) =
      pre.flatten.length + gap.length + (post.take d).flatten.length := by
    rw [boundary, if_neg (by omega), Nat.add_sub_cancel_left]
  have next : boundary pre post gap (pre.length + d + 1) =
      pre.flatten.length + gap.length + (post.take (d + 1)).flatten.length := by
    rw [boundary, if_neg (by omega), show pre.length + d + 1 - pre.length = d + 1 by omega]
  simp only [layout] at fits
  have below : pre.flatten.length + gap.length + (post.take d).flatten.length <
      (layout pre.flatten gap post.flatten).total := by
    simp only [layout]
    omega
  rw [here, next, absoluteFrom_read below byte, length, add64_eq (by omega), upToLength,
    if_neg (by simp only [layout]; omega), Nat.add_assoc _ _ word.length]

/-- The loop of `GapBuffer_moveAbsolute` goes from boundary to boundary. -/
theorem absoluteFrom_symbols {gap : List UInt8} (preWords : ∀ s ∈ pre, utf8.Word s)
    (postWords : ∀ s ∈ post, utf8.Word s)
    (fits : (layout pre.flatten gap post.flatten).total < 2 ^ 64) (num m : Nat) :
    absoluteFrom (layout pre.flatten gap post.flatten) num (boundary pre post gap m) =
      some (boundary pre post gap (m + num)) := by
  induction num generalizing m with
  | zero => rfl
  | succ num ih =>
    rw [show m + (num + 1) = m + 1 + num by omega]
    by_cases early : m < pre.length
    · rw [absolute_step_before preWords fits early, ih]
    · by_cases more : m < pre.length + post.length
      · rw [absolute_step_after postWords fits (by omega) more, ih]
      · -- the end is reached, and stays where it is
        have ends : ∀ k, pre.length + post.length ≤ k → boundary pre post gap k =
            (layout pre.flatten gap post.flatten).total := by
          intro k behind
          rw [boundary, if_neg (by omega), List.take_of_length_le (by omega)]
          rfl
        rw [ends m (by omega), ends (m + 1 + num) (by omega), absoluteFrom,
          if_neg (Nat.lt_irrefl _)]

end Walks

/-! ### Operations on the text -/

/-- The buffer holds the text with its gap at the cursor. -/
structure Represents (buff : Buffer) (t : Cursor (List UInt8)) : Prop where
  shape : ∃ gap, buff = layout t.before.flatten gap t.after.flatten
  fits : buff.total < 2 ^ 64
  before : ∀ s ∈ t.before, IsSymbol s
  after : ∀ s ∈ t.after, IsSymbol s

section Operations

variable {buff : Buffer} {t : Cursor (List UInt8)}

/-- A region holds a buffer when the header fits behind the padding. -/
theorem createUsingMemory_eq (mem : Nat) (region : List UInt8) :
    createUsingMemory mem region =
      if mem ≠ 0 ∧ padding mem + sizeofGapBuffer ≤ region.length then
        some (layout [] (region.drop (padding mem + sizeofGapBuffer)) [])
      else none := by
  rw [createUsingMemory]
  by_cases null : mem = 0
  · rw [if_pos null, if_neg (fun created => created.1 null)]
  rw [if_neg null]
  generalize padding mem = pad
  by_cases holds : pad + sizeofGapBuffer ≤ region.length
  · rw [if_pos (show mem ≠ 0 ∧ _ from ⟨null, holds⟩)]
    simp only [if_neg (show ¬ region.length < pad by omega),
      if_neg (show ¬ region.length - pad < sizeofGapBuffer by omega), layout, List.length_nil,
      List.nil_append, List.append_nil, List.length_drop, Nat.zero_add, Nat.add_zero, Nat.sub_sub]
  · rw [if_neg (show ¬ (mem ≠ 0 ∧ _) from fun created => holds created.2)]
    by_cases short : region.length < pad
    · rw [if_pos short]
    · simp only [if_neg short, if_pos (show region.length - pad < sizeofGapBuffer by omega)]

theorem Represents.create {mem : Nat} {region : List UInt8} (fits : region.length < 2 ^ 64)
    (created : createUsingMemory mem region = some buff) : Represents buff ⟨[], []⟩ := by
  rw [createUsingMemory_eq] at created
  split at created
  · cases created
    refine ⟨⟨_, rfl⟩, ?_, by simp, by simp⟩
    simp only [layout, List.length_nil, List.length_drop]
    omega
  · cases created

theorem Represents.allocate {capacity : Nat} {malloc : Malloc}
    (created : GapBuffer.create capacity malloc = some buff) : Represents buff ⟨[], []⟩ := by
  rw [GapBuffer.create] at created
  cases allocated : malloc.region (add64 sizeofGapBuffer capacity) with
  | none => simp [allocated] at created
  | some result =>
    obtain ⟨mem, region⟩ := result
    simp only [allocated] at created
    have fits : region.length < 2 ^ 64 := by
      rw [malloc.length allocated]
      exact Nat.mod_lt _ (by decide)
    exact Represents.create fits created

/-- Text without its first `k` symbols, in bytes. -/
private theorem flatten_parts (words : List (List UInt8)) (k : Nat) :
    words.flatten = (words.take k).flatten ++ (words.drop k).flatten := by
  rw [← List.flatten_append, List.take_append_drop]

/-- A move of whole symbols from before the gap to behind it. -/
private theorem Represents.moveBack (represents : Represents buff t) (k : Nat) :
    ∃ buff', moveBytesAfterGap buff (t.before.drop k).flatten.length = some buff' ∧
      Represents buff' ⟨t.before.take k, t.before.drop k ++ t.after⟩ := by
  obtain ⟨gap, rfl⟩ := represents.shape
  have fits := represents.fits
  have parts := flatten_parts t.before k
  have lengths := congrArg List.length parts
  rw [List.length_append] at lengths
  simp only [layout] at fits
  have moved := moveBytesAfterGap_layout (t.before.take k).flatten gap t.after.flatten
    (t.before.drop k).flatten (by omega)
  rw [← parts] at moved
  refine ⟨_, moved, ⟨_, by rw [List.flatten_append]⟩, ?_, ?_, ?_⟩
  · simp only [layout, List.length_take, List.length_append]
    omega
  · exact fun s member => represents.before s (List.mem_of_mem_take member)
  · intro s member
    rcases List.mem_append.mp member with member | member
    · exact represents.before s (List.mem_of_mem_drop member)
    · exact represents.after s member

/-- A move of whole symbols from behind the gap to before it. -/
private theorem Represents.moveForward (represents : Represents buff t) (k : Nat) :
    ∃ buff', moveBytesBeforeGap buff (t.after.take k).flatten.length = some buff' ∧
      Represents buff' ⟨t.before ++ t.after.take k, t.after.drop k⟩ := by
  obtain ⟨gap, rfl⟩ := represents.shape
  have fits := represents.fits
  have parts := flatten_parts t.after k
  have lengths := congrArg List.length parts
  rw [List.length_append] at lengths
  simp only [layout] at fits
  have moved := moveBytesBeforeGap_layout t.before.flatten gap (t.after.drop k).flatten
    (t.after.take k).flatten (by omega)
  rw [← parts] at moved
  refine ⟨_, moved, ⟨_, by rw [List.flatten_append]⟩, ?_, ?_, ?_⟩
  · simp only [layout, List.length_drop, List.length_append]
    omega
  · intro s member
    rcases List.mem_append.mp member with member | member
    · exact represents.before s member
    · exact represents.after s (List.mem_of_mem_take member)
  · exact fun s member => represents.after s (List.mem_of_mem_drop member)

theorem Represents.insertString (represents : Represents buff t) {str : List UInt8}
    (valid : isValidUTF8 str = true) (room : str.length ≤ buff.gapLength) :
    ∃ buff', GapBuffer.insertString buff str = some (buff', true) ∧
      Represents buff' (t.insert (symbols str)) := by
  obtain ⟨gap, rfl⟩ := represents.shape
  have fits := represents.fits
  obtain ⟨text, areSymbols, rfl⟩ := isValidUTF8_iff.mp valid
  simp only [layout] at fits room
  have inserted := insertBytesBeforeCursor_layout fits room
  refine ⟨_, by rw [GapBuffer.insertString, if_pos valid, inserted],
    ⟨gap.drop text.flatten.length, ?_⟩, ?_, ?_, ?_⟩
  · rw [symbols_flatten areSymbols, Cursor.insert, List.flatten_append]
  · simp only [layout, List.length_drop, List.length_append]
    omega
  · intro s member
    rw [symbols_flatten areSymbols] at member
    rcases List.mem_append.mp member with member | member
    · exact represents.before s member
    · exact areSymbols s member
  · exact represents.after

/-- An insertion that is refused changes nothing. -/
theorem insertString_refuse {str : List UInt8}
    (refused : ¬ (isValidUTF8 str = true ∧ str.length ≤ buff.gapLength)) :
    GapBuffer.insertString buff str = some (buff, false) := by
  rw [GapBuffer.insertString]
  by_cases valid : isValidUTF8 str = true
  · have large : buff.gapLength < str.length := by
      rw [← Nat.not_le]
      exact fun room => refused ⟨valid, room⟩
    rw [if_pos valid]
    exact (insertBytes_refuse large).1
  · rw [if_neg valid]

/-- Where `getPrecedingSymbol` ends. -/
private theorem Represents.getPrecedingSymbol (represents : Represents buff t) (num : Nat) :
    GapBuffer.getPrecedingSymbol buff num =
      some (t.before.take (t.before.length - num)).flatten.length := by
  obtain ⟨gap, rfl⟩ := represents.shape
  have walked := precedingFrom_symbols (fun s member => (represents.before s member).word)
    (gap ++ t.after.flatten) num
  rw [← List.append_assoc] at walked
  exact walked

/-- Where `getFollowingSymbol` ends. -/
private theorem Represents.getFollowingSymbol (represents : Represents buff t) (num : Nat) :
    GapBuffer.getFollowingSymbol buff num =
      some (buff.gapOffset + buff.gapLength + (t.after.take num).flatten.length) := by
  obtain ⟨gap, rfl⟩ := represents.shape
  have fits := represents.fits
  have walked := followingFrom_symbols (fun s member => (represents.after s member).word)
    (t.before.flatten ++ gap) rfl (by simp [layout]; omega) fits num
  simp only [layout] at fits
  have start : add64 t.before.flatten.length gap.length =
      t.before.flatten.length + gap.length := add64_eq (by omega)
  rw [List.length_append] at walked
  rw [GapBuffer.getFollowingSymbol, layout, start]
  exact walked

theorem Represents.removeForwards (represents : Represents buff t) (num : Nat) :
    ∃ buff', GapBuffer.removeForwards buff num = some buff' ∧
      Represents buff' (t.removeForwards num) := by
  have walked := represents.getFollowingSymbol num
  obtain ⟨gap, rfl⟩ := represents.shape
  have fits := represents.fits
  have parts := flatten_parts t.after num
  have lengths := congrArg List.length parts
  rw [List.length_append] at lengths
  rw [GapBuffer.removeForwards, walked]
  simp only [layout] at fits ⊢
  have dropped : t.after.drop (min num t.after.length) = t.after.drop num := by
    by_cases inside : num ≤ t.after.length
    · rw [Nat.min_eq_left inside]
    · rw [Nat.min_eq_right (by omega), List.drop_eq_nil_of_le (Nat.le_refl _),
        List.drop_eq_nil_of_le (by omega)]
  refine ⟨_, rfl, ⟨gap ++ (t.after.take num).flatten, ?_⟩, fits, represents.before, ?_⟩
  · simp only [Cursor.removeForwards, dropped, layout, Buffer.mk.injEq, List.length_append, true_and]
    refine ⟨?_, by omega, ?_⟩
    · rw [sub64_eq (by omega) (by omega)]
      omega
    · rw [parts]
      simp
  · exact fun s member => represents.after s (List.mem_of_mem_drop member)

theorem Represents.removeBackwards (represents : Represents buff t) (num : Nat) :
    ∃ buff', GapBuffer.removeBackwards buff num = some buff' ∧
      Represents buff' (t.removeBackwards num) := by
  have walked := represents.getPrecedingSymbol num
  obtain ⟨gap, rfl⟩ := represents.shape
  have fits := represents.fits
  have parts := flatten_parts t.before (t.before.length - num)
  have lengths := congrArg List.length parts
  rw [List.length_append] at lengths
  rw [GapBuffer.removeBackwards, walked]
  simp only [layout] at fits ⊢
  have kept : t.before.length - min num t.before.length = t.before.length - num := by omega
  refine ⟨_, rfl, ⟨(t.before.drop (t.before.length - num)).flatten ++ gap, ?_⟩, fits, ?_,
    represents.after⟩
  · simp only [Cursor.removeBackwards, kept, layout, Buffer.mk.injEq, List.length_append, true_and]
    refine ⟨?_, by omega, ?_⟩
    · rw [sub64_eq (by omega) (by omega), add64_eq (by omega)]
      omega
    · rw [parts]
      simp
  · exact fun s member => represents.before s (List.mem_of_mem_take member)

/-- The bytes from a boundary up to the gap. -/
private theorem distance_back {words : List (List UInt8)} (fits : words.flatten.length < 2 ^ 64)
    (k : Nat) :
    sub64 words.flatten.length (words.take k).flatten.length = (words.drop k).flatten.length := by
  have lengths := congrArg List.length (flatten_parts words k)
  rw [List.length_append] at lengths
  rw [sub64_eq (by omega) fits]
  omega

/-- The bytes from the gap up to a boundary. -/
private theorem distance_forward {offset length distance : Nat}
    (fits : offset + length + distance < 2 ^ 64) :
    sub64 (sub64 (offset + length + distance) offset) length = distance := by
  have inner : sub64 (offset + length + distance) offset = length + distance := by
    rw [sub64_eq (by omega) fits]
    omega
  rw [inner, sub64_eq (by omega) (by omega)]
  omega

/-- Moving the cursor back over `num` symbols. -/
private theorem Represents.stepBackwards (represents : Represents buff t) (num : Nat) :
    ∃ buff', (GapBuffer.getPrecedingSymbol buff num >>= fun i =>
        moveBytesAfterGap buff (sub64 buff.gapOffset i)) = some buff' ∧
      Represents buff' (t.moveRelative (-num)) := by
  obtain ⟨buff', moved, represents'⟩ := represents.moveBack (t.before.length - num)
  have distance : sub64 buff.gapOffset (t.before.take (t.before.length - num)).flatten.length =
      (t.before.drop (t.before.length - num)).flatten.length := by
    obtain ⟨gap, rfl⟩ := represents.shape
    have fits := represents.fits
    simp only [layout] at fits
    exact distance_back (by omega) _
  refine ⟨buff', ?_, ?_⟩
  · rw [represents.getPrecedingSymbol num, Option.bind_eq_bind, Option.bind_some, distance]
    exact moved
  · rw [Cursor.moveRelative_backwards]
    exact represents'

/-- Moving the cursor forwards over `num` symbols. -/
private theorem Represents.stepForwards (represents : Represents buff t) (num : Nat) :
    ∃ buff', (GapBuffer.getFollowingSymbol buff num >>= fun i =>
        moveBytesBeforeGap buff (sub64 (sub64 i buff.gapOffset) buff.gapLength)) = some buff' ∧
      Represents buff' (t.moveRelative num) := by
  obtain ⟨buff', moved, represents'⟩ := represents.moveForward num
  have distance : sub64 (sub64 (buff.gapOffset + buff.gapLength + (t.after.take num).flatten.length)
      buff.gapOffset) buff.gapLength = (t.after.take num).flatten.length := by
    obtain ⟨gap, rfl⟩ := represents.shape
    have fits := represents.fits
    have lengths := congrArg List.length (flatten_parts t.after num)
    rw [List.length_append] at lengths
    simp only [layout] at fits ⊢
    exact distance_forward (by omega)
  refine ⟨buff', ?_, ?_⟩
  · rw [represents.getFollowingSymbol num, Option.bind_eq_bind, Option.bind_some, distance]
    exact moved
  · rw [Cursor.moveRelative_forwards]
    exact represents'

/-- The distance by which `GapBuffer_moveRelative` moves: the least `int` is its own
negation, and is then a huge count. -/
def relativeDistance (off : Int) : Int := if off = -2 ^ 31 then 2 ^ 31 - 2 ^ 64 else off

theorem Represents.moveRelative (represents : Represents buff t) {off : Int}
    (low : -2 ^ 31 ≤ off) (high : off < 2 ^ 31) :
    ∃ buff', GapBuffer.moveRelative buff off = some buff' ∧
      Represents buff' (t.moveRelative (relativeDistance off)) := by
  rw [GapBuffer.moveRelative]
  by_cases backwards : off < 0
  · rw [if_pos backwards]
    have count : relativeDistance off = -(ofInt (int32 (-off)) : Nat) := by
      by_cases least : off = -2 ^ 31
      · subst least
        decide
      · rw [relativeDistance, if_neg least, int32_eq (by omega) (by omega),
          ofInt_eq (by omega) (by omega)]
        omega
    rw [count]
    exact represents.stepBackwards _
  · rw [if_neg backwards]
    have count : relativeDistance off = (ofInt off : Nat) := by
      rw [relativeDistance, if_neg (by omega), ofInt_eq (by omega) (by omega)]
      omega
    rw [count]
    exact represents.stepForwards _

/-- Where the walk of `GapBuffer_moveAbsolute` starts. -/
private theorem boundary_zero {pre post : List (List UInt8)} {gap : List UInt8}
    (preWords : ∀ s ∈ pre, utf8.Word s) :
    (if (layout pre.flatten gap post.flatten).gapOffset > 0 then 0
      else (layout pre.flatten gap post.flatten).gapLength) = boundary pre post gap 0 := by
  have offset : (layout pre.flatten gap post.flatten).gapOffset = pre.flatten.length := rfl
  by_cases empty : pre = []
  · simp [layout, boundary, empty]
  · have positive := flatten_pos preWords empty
    rw [if_pos (by rw [offset]; exact positive), boundary, if_pos (List.length_pos_of_ne_nil empty),
      List.take_zero, List.flatten_nil, List.length_nil]

/-- Where the walks end: before the gap, or at most at the end of the data. -/
theorem Represents.walks (represents : Represents buff t) (num : Nat) :
    (∃ i, GapBuffer.getPrecedingSymbol buff num = some i ∧ i ≤ buff.gapOffset) ∧
      (∃ i, GapBuffer.getFollowingSymbol buff num = some i ∧ i ≤ buff.total) ∧
      ∃ i, absoluteFrom buff num (if buff.gapOffset > 0 then 0 else buff.gapLength) = some i ∧
        i ≤ buff.total := by
  have preceding := represents.getPrecedingSymbol num
  have following := represents.getFollowingSymbol num
  obtain ⟨gap, rfl⟩ := represents.shape
  have beforeWords : ∀ s ∈ t.before, utf8.Word s := fun s member => (represents.before s member).word
  have absolute := absoluteFrom_symbols beforeWords
    (fun s member => (represents.after s member).word) represents.fits num 0
  rw [← boundary_zero beforeWords] at absolute
  refine ⟨⟨_, preceding, ?_⟩, ⟨_, following, ?_⟩, ⟨_, absolute, ?_⟩⟩
  · have lengths := congrArg List.length (flatten_parts t.before (t.before.length - num))
    rw [List.length_append] at lengths
    simp only [layout]
    omega
  · have lengths := congrArg List.length (flatten_parts t.after num)
    rw [List.length_append] at lengths
    simp only [layout]
    omega
  · have early := congrArg List.length (flatten_parts t.before num)
    have late := congrArg List.length (flatten_parts t.after (num - t.before.length))
    rw [List.length_append] at early late
    rw [Nat.zero_add, boundary]
    simp only [layout]
    split <;> omega

theorem Represents.moveAbsolute (represents : Represents buff t) (num : Nat) :
    ∃ buff', GapBuffer.moveAbsolute buff num = some buff' ∧
      Represents buff' (t.moveAbsolute num) := by
  obtain ⟨gap, rfl⟩ := represents.shape
  have fits := represents.fits
  have beforeWords : ∀ s ∈ t.before, utf8.Word s := fun s member => (represents.before s member).word
  have walked := absoluteFrom_symbols beforeWords
    (fun s member => (represents.after s member).word) fits num 0
  rw [GapBuffer.moveAbsolute, boundary_zero beforeWords, walked, Nat.zero_add, Option.bind_eq_bind,
    Option.bind_some]
  have offset : (layout t.before.flatten gap t.after.flatten).gapOffset = t.before.flatten.length := rfl
  have length : (layout t.before.flatten gap t.after.flatten).gapLength = gap.length := rfl
  rw [offset, length]
  simp only [layout] at fits
  by_cases early : num < t.before.length
  · -- the boundary is before the gap
    obtain ⟨buff', moved, represents'⟩ := represents.moveBack num
    have here : boundary t.before t.after gap num = (t.before.take num).flatten.length := if_pos early
    have lengths := congrArg List.length (flatten_parts t.before num)
    rw [List.length_append] at lengths
    rw [here, if_pos (by omega), distance_back (by omega), t.moveAbsolute_before (Nat.le_of_lt early)]
    exact ⟨buff', moved, represents'⟩
  · obtain ⟨d, rfl⟩ := Nat.exists_eq_add_of_le (Nat.not_lt.mp early)
    have here : boundary t.before t.after gap (t.before.length + d) =
        t.before.flatten.length + gap.length + (t.after.take d).flatten.length := by
      rw [boundary, if_neg early, Nat.add_sub_cancel_left]
    have lengths := congrArg List.length (flatten_parts t.after d)
    rw [List.length_append] at lengths
    rw [here, t.moveAbsolute_after d]
    by_cases still : gap.length + (t.after.take d).flatten.length = 0
    · -- an empty gap and no symbol to pass: the walk ends where it found the gap
      obtain ⟨buff', moved, represents'⟩ := represents.moveBack t.before.length
      have none : t.after.take d = [] := by
        by_contra some
        have positive := flatten_pos
          (fun s member => (represents.after s (List.mem_of_mem_take member)).word) some
        omega
      have rest : t.after.drop d = t.after := by
        have all := List.take_append_drop d t.after
        rwa [none, List.nil_append] at all
      rw [List.take_length, List.drop_length, List.nil_append] at represents'
      rw [List.drop_length] at moved
      rw [Nat.add_assoc, still, Nat.add_zero, if_pos (Nat.le_refl _),
        sub64_eq (Nat.le_refl _) (by omega), Nat.sub_self, none, rest, List.append_nil]
      exact ⟨buff', moved, represents'⟩
    · obtain ⟨buff', moved, represents'⟩ := represents.moveForward d
      rw [if_neg (by omega), distance_forward (by omega)]
      exact ⟨buff', moved, represents'⟩

theorem Represents.getByteCount (represents : Represents buff t) :
    GapBuffer.getByteCount buff = t.before.flatten.length + t.after.flatten.length := by
  obtain ⟨gap, rfl⟩ := represents.shape
  exact getByteCount_layout represents.fits

/-- What a clone copies. -/
private theorem strings_layout {before gap after : List UInt8}
    (fits : before.length + gap.length + after.length < 2 ^ 64) :
    getStringBeforeGap (layout before gap after) = some before ∧
      getStringAfterGap (layout before gap after) = some after := by
  constructor
  · have loaded := load_middle [] before (gap ++ after)
    rwa [List.nil_append, ← List.append_assoc] at loaded
  · have start : add64 before.length gap.length = before.length + gap.length := add64_eq (by omega)
    have length : sub64 (before.length + gap.length + after.length) (before.length + gap.length) =
        after.length := by
      rw [sub64_eq (by omega) fits]
      omega
    have loaded := load_middle (before ++ gap) after []
    rw [List.append_nil, List.length_append] at loaded
    simp only [getStringAfterGap, layout, start, length, loaded]

/-- A clone is made exactly when the region holds the header and the bytes of the
source behind the padding, and is the same text. -/
theorem Represents.cloneUsingMemory (represents : Represents buff t) (mem : Nat)
    {region : List UInt8} (fits : region.length < 2 ^ 64) :
    if mem ≠ 0 ∧ padding mem + sizeofGapBuffer + GapBuffer.getByteCount buff ≤ region.length then
      ∃ buff', GapBuffer.cloneUsingMemory mem region buff = some (some buff') ∧ Represents buff' t
    else GapBuffer.cloneUsingMemory mem region buff = some none := by
  rw [represents.getByteCount]
  have areSymbols := represents.before
  have areSymbols' := represents.after
  have bufferFits := represents.fits
  obtain ⟨gap, rfl⟩ := represents.shape
  simp only [layout] at bufferFits
  obtain ⟨before, after⟩ := strings_layout bufferFits
  rw [GapBuffer.cloneUsingMemory, createUsingMemory_eq]
  generalize padding mem = pad
  by_cases created : mem ≠ 0 ∧ pad + sizeofGapBuffer ≤ region.length
  · rw [if_pos created]
    generalize cells : region.drop (pad + sizeofGapBuffer) = room
    have length : room.length = region.length - (pad + sizeofGapBuffer) := by
      rw [← cells, List.length_drop]
    simp only [before, Option.bind_eq_bind, Option.bind_some]
    by_cases first : t.before.flatten.length ≤ room.length
    · have roomFits : ([] : List UInt8).length + room.length + ([] : List UInt8).length < 2 ^ 64 := by
        simp only [List.length_nil]
        omega
      rw [insertBytesBeforeCursor_layout roomFits first, List.nil_append]
      simp only [Option.bind_some, if_true, after]
      by_cases second : t.after.flatten.length ≤ (room.drop t.before.flatten.length).length
      · have restFits : t.before.flatten.length + (room.drop t.before.flatten.length).length +
            ([] : List UInt8).length < 2 ^ 64 := by
          simp only [List.length_nil, List.length_drop]
          omega
        rw [List.length_drop] at second
        rw [insertBytesAfterCursor_layout restFits (by rw [List.length_drop]; exact second),
          if_pos ⟨created.1, by omega⟩, List.append_nil]
        refine ⟨_, rfl, ⟨_, rfl⟩, ?_, areSymbols, areSymbols'⟩
        simp only [layout, List.length_take, List.length_drop]
        omega
      · rw [(insertBytes_refuse (Nat.not_le.mp second)).2,
          if_neg (fun holds => second (by rw [List.length_drop]; omega))]
        rfl
    · rw [(insertBytes_refuse (Nat.not_le.mp first)).1, if_neg (fun holds => first (by omega))]
      rfl
  · rw [if_neg created, if_neg (fun holds => created ⟨holds.1, by omega⟩)]

/-- A relocating insertion is an insertion, or starts a new text, or is refused. -/
theorem Represents.insertStringMaybeRelocate (represents : Represents buff t) (str : List UInt8)
    (malloc : Malloc) :
    ∃ buff' done t', GapBuffer.insertStringMaybeRelocate buff str malloc = some (buff', done) ∧
      Represents buff' t' := by
  by_cases inserts : isValidUTF8 str = true ∧ str.length ≤ buff.gapLength
  · obtain ⟨buff', inserted, represents'⟩ := represents.insertString inserts.1 inserts.2
    exact ⟨buff', true, _, by simp [GapBuffer.insertStringMaybeRelocate, inserted], represents'⟩
  simp only [GapBuffer.insertStringMaybeRelocate, insertString_refuse inserts, Option.bind_eq_bind,
    Option.bind_some, Bool.false_eq_true, if_false]
  cases created : GapBuffer.create (add64 (GapBuffer.getByteCount buff) str.length) malloc with
  | none => exact ⟨buff, false, t, rfl, represents⟩
  | some buff2 =>
    have represents2 := Represents.allocate created
    by_cases inserts2 : isValidUTF8 str = true ∧ str.length ≤ buff2.gapLength
    · obtain ⟨buff', inserted, represents'⟩ := represents2.insertString inserts2.1 inserts2.2
      exact ⟨buff', true, _, by simp [inserted], represents'⟩
    · exact ⟨buff, false, t, by simp [insertString_refuse inserts2], represents⟩

end Operations

end Mysnips.GapBuffer

import Mysnips.GapBufferRefinement

/-! The relocating insertion. When the gap is too small, a buffer is created that has room for
the old text and the new string; the string is inserted there, and the old text, which
nobody has copied, is given up with the old buffer. -/
namespace Mysnips.GapBuffer
open Machine Memory Transition

variable {buff : Buffer} {before gap after str : List UInt8} {malloc : Malloc}

/-- `malloc` does not fail, and what it returns is aligned for any object. -/
def Malloc.Succeeds (malloc : Malloc) : Prop :=
  ∀ request, ∃ mem bytes, malloc.region request = some (mem, bytes) ∧ mem ≠ 0 ∧
    alignofGapBuffer ∣ mem

/-- What `GapBuffer_insertStringMaybeRelocate` promises: valid strings are inserted before the
cursor, whether or not there was room, and others change nothing. -/
def KeepsText (buff : Buffer) (str : List UInt8) (malloc : Malloc) : Prop :=
  ∃ buff' done, insertStringMaybeRelocate buff str malloc = some (buff', done) ∧
    (done = true ↔ isValidUTF8 str = true) ∧
    if done then bytesBefore buff' = bytesBefore buff ++ str ∧ bytesAfter buff' = bytesAfter buff
    else buff' = buff

theorem insertString_layout (fits : before.length + gap.length + after.length < 2 ^ 64)
    (valid : isValidUTF8 str = true) (room : str.length ≤ gap.length) :
    insertString (layout before gap after) str =
      some (layout (before ++ str) (gap.drop str.length) after, true) := by
  rw [insertString, if_pos valid, insertBytesBeforeCursor_layout fits room]

/-- A buffer from the heap, unless the length of its memory has wrapped around to less than the
header. -/
theorem create_of_succeeds (succeeds : malloc.Succeeds) (capacity : Nat) :
    (sizeofGapBuffer ≤ add64 sizeofGapBuffer capacity ∧
      ∃ gap, create capacity malloc = some (layout [] gap []) ∧
        gap.length + sizeofGapBuffer = add64 sizeofGapBuffer capacity) ∨
    (add64 sizeofGapBuffer capacity < sizeofGapBuffer ∧ create capacity malloc = none) := by
  obtain ⟨mem, bytes, allocated, nonnull, aligned⟩ := succeeds (add64 sizeofGapBuffer capacity)
  have length := malloc.length allocated
  have unpadded : padding mem = 0 := by
    have multiple : mem % 2 ^ 3 = 0 := Nat.mod_eq_zero_of_dvd aligned
    have distance : padding mem = (2 ^ 3 - mem % 2 ^ 3) % 2 ^ 3 := negated_mask mem (show 3 ≤ 64 by decide)
    rw [distance, multiple, Nat.sub_zero, Nat.mod_self]
  have made : create capacity malloc = createUsingMemory mem bytes := by
    rw [create]
    simp only [allocated]
  rw [made, createUsingMemory_eq, unpadded, Nat.zero_add, length]
  by_cases room : sizeofGapBuffer ≤ add64 sizeofGapBuffer capacity
  · refine .inl ⟨room, bytes.drop sizeofGapBuffer, if_pos ⟨nonnull, room⟩, ?_⟩
    rw [List.length_drop, length, Nat.sub_add_cancel room]
  · exact .inr ⟨Nat.not_le.mp room, if_neg fun holds => room holds.2⟩

/-- A string that is not valid: also the second attempt fails. -/
theorem relocate_invalid (invalid : ¬ isValidUTF8 str = true) :
    insertStringMaybeRelocate buff str malloc = some (buff, false) := by
  have refused : ∀ buff : Buffer, insertString buff str = some (buff, false) := fun buff =>
    insertString_refuse fun inserts => invalid inserts.1
  simp only [insertStringMaybeRelocate, refused, Option.bind_eq_bind, Option.bind_some,
    Bool.false_eq_true, if_false]
  cases create (add64 (getByteCount buff) str.length) malloc with
  | none => rfl
  | some buff2 => rfl

/-- A valid string that the gap does not hold: it is all that the new buffer has, unless the new
length wraps around. -/
theorem relocate_large (fits : before.length + gap.length + after.length < 2 ^ 64)
    (succeeds : malloc.Succeeds) (valid : isValidUTF8 str = true) (long : str.length < 2 ^ 64)
    (large : gap.length < str.length) :
    (before.length + after.length + str.length + sizeofGapBuffer < 2 ^ 64 ∧ ∃ gap',
      insertStringMaybeRelocate (layout before gap after) str malloc =
        some (layout str gap' [], true)) ∨
    (2 ^ 64 ≤ before.length + after.length + str.length + sizeofGapBuffer ∧
      insertStringMaybeRelocate (layout before gap after) str malloc =
        some (layout before gap after, false)) := by
  have header : sizeofGapBuffer = 32 := rfl
  have refused : insertString (layout before gap after) str = some (layout before gap after, false) :=
    insertString_refuse fun inserts => absurd inserts.2 (Nat.not_le.mpr large)
  have count : getByteCount (layout before gap after) = before.length + after.length :=
    getByteCount_layout fits
  simp only [insertStringMaybeRelocate, refused, count, Option.bind_eq_bind, Option.bind_some,
    Bool.false_eq_true, if_false]
  have request : add64 sizeofGapBuffer (add64 (before.length + after.length) str.length) =
      (32 + (before.length + after.length + str.length) % 2 ^ 64) % 2 ^ 64 := rfl
  rcases create_of_succeeds succeeds (add64 (before.length + after.length) str.length) with
    ⟨room, gap', created, length⟩ | ⟨wrapped, failed⟩
  · rw [request, header] at room length
    rw [created]
    by_cases enough : str.length ≤ gap'.length
    · refine .inl ⟨by omega, gap'.drop str.length, ?_⟩
      simp only [insertString_layout (show [].length + gap'.length + [].length < 2 ^ 64 by
        simp only [List.length_nil]; omega) valid enough, Option.bind_some, if_true, List.nil_append]
    · refine .inr ⟨by omega, ?_⟩
      have refused2 : insertString (layout [] gap' []) str = some (layout [] gap' [], false) :=
        insertString_refuse fun inserts => enough inserts.2
      simp only [refused2, Option.bind_some, Bool.false_eq_true, if_false]
  · rw [request, header] at wrapped
    rw [failed]
    exact .inr ⟨by omega, rfl⟩

/-- The relocating insertion keeps the text exactly when it has nothing to insert, or does not
relocate, or there is no text to be kept. -/
theorem keepsText_iff (reached : buffers.Reachable buff) (succeeds : malloc.Succeeds)
    (long : str.length < 2 ^ 64) :
    KeepsText buff str malloc ↔ isValidUTF8 str = false ∨ str.length ≤ buff.gapLength ∨
      (getByteCount buff = 0 ∧ str.length + sizeofGapBuffer < 2 ^ 64) := by
  obtain ⟨gap, shape, fits⟩ := reachable_layout reached
  generalize bytesBefore buff = before at shape
  generalize bytesAfter buff = after at shape
  subst shape
  rw [getByteCount_layout fits]
  have length : (layout before gap after).gapLength = gap.length := rfl
  rw [length]
  by_cases valid : isValidUTF8 str = true
  swap
  · refine iff_of_true ⟨_, false, relocate_invalid valid, ?_, rfl⟩ (.inl (Bool.not_eq_true _ ▸ valid))
    exact iff_of_false Bool.false_ne_true valid
  have notInvalid : ¬ isValidUTF8 str = false := by
    rw [valid]
    exact Bool.noConfusion
  rw [or_iff_right notInvalid]
  by_cases room : str.length ≤ gap.length
  · refine iff_of_true ?_ (.inl room)
    have inserted : insertString (layout before gap after) str =
        some (layout (before ++ str) (gap.drop str.length) after, true) :=
      insertString_layout fits valid room
    refine ⟨layout (before ++ str) (gap.drop str.length) after, true, ?_, iff_of_true rfl valid, ?_⟩
    · simp only [insertStringMaybeRelocate, inserted, Option.bind_eq_bind, Option.bind_some, if_true]
    · simp only [if_true, bytes_layout.1, bytes_layout.2, and_self]
  rw [or_iff_right room]
  rcases relocate_large fits succeeds valid long (Nat.not_le.mp room) with
    ⟨small, gap', relocated⟩ | ⟨wrapped, failed⟩
  · rw [KeepsText, relocated]
    constructor
    · rintro ⟨buff', done, same, -, kept⟩
      cases same
      simp only [if_true, bytes_layout.1, bytes_layout.2] at kept
      obtain ⟨front, rfl⟩ := kept
      have lengths := congrArg List.length front
      rw [List.length_append] at lengths
      refine ⟨?_, by omega⟩
      simp only [List.length_nil]
      omega
    · rintro ⟨empty, -⟩
      refine ⟨_, true, rfl, iff_of_true rfl valid, ?_⟩
      have noBefore : before = [] := List.eq_nil_of_length_eq_zero (by omega)
      have noAfter : after = [] := List.eq_nil_of_length_eq_zero (by omega)
      simp only [if_true, bytes_layout.1, bytes_layout.2, noBefore, noAfter, List.nil_append,
        and_self]
  · rw [KeepsText, failed]
    refine iff_of_false ?_ fun both => by omega
    rintro ⟨buff', done, same, accepted, -⟩
    cases same
    exact Bool.false_ne_true (accepted.mpr valid)

/-- A heap that always has room. -/
def zeroes : Malloc where
  region request := some (16, List.replicate request 0)
  length allocated := by
    cases allocated
    exact List.length_replicate

theorem zeroes_succeeds : zeroes.Succeeds := fun _ => ⟨16, _, rfl, by decide, by decide⟩

/-- The first string of a buffer that is too small for it. -/
theorem keepsText_iff_applies : ∃ buff, buffers.Reachable buff ∧ buff.gapLength = 3 ∧
    KeepsText buff [104, 101, 108, 108, 111] zeroes := by
  have created : buffers.initial ⟨0, 3, 3, [0, 0, 0]⟩ :=
    Or.inl ⟨8, List.replicate 35 0, by decide, by decide⟩
  have reached := System.Reachable.start created
  refine ⟨_, reached, rfl, (keepsText_iff reached zeroes_succeeds (by decide)).mpr ?_⟩
  exact .inr (.inr ⟨by decide, by decide⟩)

/-- Two letters behind two others in a buffer of three bytes: the first two are lost. -/
theorem relocation_loses_text : ∃ buff buff', buffers.Reachable buff ∧
    bytesBefore buff = [97, 98] ∧ isValidUTF8 [99, 100] = true ∧
    insertStringMaybeRelocate buff [99, 100] zeroes = some (buff', true) ∧
    bytesBefore buff' = [99, 100] ∧ bytesAfter buff' = [] ∧ ¬ KeepsText buff [99, 100] zeroes := by
  have created : buffers.initial ⟨0, 3, 3, [0, 0, 0]⟩ :=
    Or.inl ⟨8, List.replicate 35 0, by decide, by decide⟩
  have inserted : buffers.next ⟨0, 3, 3, [0, 0, 0]⟩ (.insertString [97, 98]) =
      some ⟨2, 1, 3, [97, 98, 0]⟩ := by decide
  have reached := (System.Reachable.start created).step inserted
  have relocated : insertStringMaybeRelocate ⟨2, 1, 3, [97, 98, 0]⟩ [99, 100] zeroes =
      some (⟨2, 2, 4, [99, 100, 0, 0]⟩, true) := by decide
  refine ⟨_, _, reached, by decide, by decide, relocated, by decide, by decide, ?_⟩
  rintro ⟨buff', done, same, -, kept⟩
  rw [relocated] at same
  cases same
  exact absurd kept.1 (by decide)

end Mysnips.GapBuffer

import Mysnips.GapBufferText

/-! Every buffer that calls can reach represents a text with a cursor. So no call
runs into an assertion or leaves the data, and the calls do to the text what they
are documented to do, with one exception: the least `int` as a relative distance
is read as a huge one. -/
namespace Mysnips.GapBuffer
open SelfSynchronizing TextCursor Transition

variable {buff : Buffer} {t : Cursor (List UInt8)}

/-- The bytes before the gap. -/
def bytesBefore (buff : Buffer) : List UInt8 := buff.data.take buff.gapOffset

/-- The bytes after the gap. -/
def bytesAfter (buff : Buffer) : List UInt8 := buff.data.drop (buff.gapOffset + buff.gapLength)

/-- The symbols before and after the gap. -/
def view (buff : Buffer) : Cursor (List UInt8) := ⟨symbols (bytesBefore buff), symbols (bytesAfter buff)⟩

theorem bytes_layout {before gap after : List UInt8} : bytesBefore (layout before gap after) = before ∧
    bytesAfter (layout before gap after) = after := by
  constructor
  · rw [bytesBefore]
    simp only [layout, List.append_assoc, List.take_left]
  · rw [bytesAfter]
    simp only [layout, ← List.length_append, List.drop_left]

theorem Represents.bytes (represents : Represents buff t) :
    bytesBefore buff = t.before.flatten ∧ bytesAfter buff = t.after.flatten := by
  obtain ⟨gap, rfl⟩ := represents.shape
  exact bytes_layout

theorem Represents.view_eq (represents : Represents buff t) : view buff = t := by
  rw [view, represents.bytes.1, represents.bytes.2, symbols_flatten represents.before,
    symbols_flatten represents.after]

/-! ### Runs -/

/-- A clone that is refused leaves the source, one that is made takes its place. -/
private theorem Represents.clone_performed (represents : Represents buff t) {mem : Nat}
    {region : List UInt8} (fits : region.length < 2 ^ 64) :
    ∃ buff', perform buff (.clone mem region) = some buff' ∧ Represents buff' t := by
  have cloned := represents.cloneUsingMemory mem fits
  split at cloned
  · obtain ⟨buff', made, represents'⟩ := cloned
    exact ⟨buff', by simp [perform, made], represents'⟩
  · exact ⟨buff, by simp [perform, cloned], represents⟩

/-- No call faults, and every call leaves a buffer that represents some text. -/
theorem Represents.perform (represents : Represents buff t) {call : Call} (typed : call.Typed) :
    ∃ buff' t', GapBuffer.perform buff call = some buff' ∧ Represents buff' t' := by
  cases call with
  | insertString str =>
    by_cases inserts : isValidUTF8 str = true ∧ str.length ≤ buff.gapLength
    · obtain ⟨buff', inserted, represents'⟩ := represents.insertString inserts.1 inserts.2
      exact ⟨buff', _, by simp [GapBuffer.perform, inserted], represents'⟩
    · exact ⟨buff, t, by simp [GapBuffer.perform, insertString_refuse inserts], represents⟩
  | insertStringMaybeRelocate str malloc =>
    obtain ⟨buff', done, t', inserted, represents'⟩ := represents.insertStringMaybeRelocate str malloc
    exact ⟨buff', t', by simp [GapBuffer.perform, inserted], represents'⟩
  | moveRelative off =>
    obtain ⟨buff', moved, represents'⟩ := represents.moveRelative typed.1 typed.2
    exact ⟨buff', _, moved, represents'⟩
  | moveAbsolute num =>
    obtain ⟨buff', moved, represents'⟩ := represents.moveAbsolute num
    exact ⟨buff', _, moved, represents'⟩
  | removeForwards num =>
    obtain ⟨buff', removed, represents'⟩ := represents.removeForwards num
    exact ⟨buff', _, removed, represents'⟩
  | removeBackwards num =>
    obtain ⟨buff', removed, represents'⟩ := represents.removeBackwards num
    exact ⟨buff', _, removed, represents'⟩
  | clone mem region =>
    obtain ⟨buff', cloned, represents'⟩ := represents.clone_performed typed.2
    exact ⟨buff', t, cloned, represents'⟩

/-- Every reachable buffer represents the text that is seen in it. -/
theorem represents_view (reached : buffers.Reachable buff) : Represents buff (view buff) := by
  have represents : ∃ t, Represents buff t := by
    apply reached.invariant
    · rintro buff (⟨mem, region, fits, created⟩ | ⟨capacity, malloc, created⟩)
      · exact ⟨_, Represents.create fits created⟩
      · exact ⟨_, Represents.allocate created⟩
    · rintro buff call buff' _ ⟨t, represents⟩ moved
      simp only [buffers] at moved
      split at moved
      · rename_i typed
        obtain ⟨next, t', performed, represents'⟩ := represents.perform typed
        rw [performed] at moved
        cases moved
        exact ⟨t', represents'⟩
      · cases moved
  obtain ⟨t, represents⟩ := represents
  rw [represents.view_eq]
  exact represents

/-- Every reachable buffer has a gap between the bytes before and after it. -/
theorem reachable_layout (reached : buffers.Reachable buff) :
    ∃ gap, buff = layout (bytesBefore buff) gap (bytesAfter buff) ∧ buff.total < 2 ^ 64 := by
  have represents := represents_view reached
  obtain ⟨gap, shape⟩ := represents.shape
  rw [represents.bytes.1, represents.bytes.2]
  exact ⟨gap, shape, represents.fits⟩

/-- The representation invariant of the gap buffer. In every buffer that a sequence
of calls reaches, the gap lies inside the data and the bytes on either side of it are
valid UTF-8; so the walks stay inside the data, and no further call, whatever its
arguments, fails an assertion or accesses a byte outside. -/
theorem reachable_buffers_stay_well_formed (reached : buffers.Reachable buff) :
    buff.gapOffset + buff.gapLength ≤ buff.total ∧ buff.data.length = buff.total ∧
      isValidUTF8 (bytesBefore buff) = true ∧ isValidUTF8 (bytesAfter buff) = true ∧
      (∀ num, (∃ i, getPrecedingSymbol buff num = some i ∧ i ≤ buff.gapOffset) ∧
        (∃ i, getFollowingSymbol buff num = some i ∧ i ≤ buff.total) ∧
        ∃ i, absoluteFrom buff num (if buff.gapOffset > 0 then 0 else buff.gapLength) = some i ∧
          i ≤ buff.total) ∧
      ∀ call : Call, call.Typed → ∃ buff', perform buff call = some buff' := by
  have represents := represents_view reached
  obtain ⟨before, after⟩ := represents.bytes
  obtain ⟨gap, shape⟩ := represents.shape
  refine ⟨?_, ?_, ?_, ?_, represents.walks, ?_⟩
  · rw [shape]
    exact Nat.le_add_right _ _
  · rw [shape]
    simp only [layout, List.length_append]
  · exact isValidUTF8_iff.mpr ⟨_, represents.before, before.symm⟩
  · exact isValidUTF8_iff.mpr ⟨_, represents.after, after.symm⟩
  · intro call typed
    obtain ⟨buff', _, performed, _⟩ := represents.perform typed
    exact ⟨buff', performed⟩

/-- A buffer whose only symbol, of two bytes, lies behind a gap of one byte. -/
theorem reachable_buffers_stay_well_formed_applies :
    isValidUTF8 (bytesAfter ⟨0, 1, 3, [0xc3, 0xc3, 0xa9]⟩) = true ∧
      ∃ buff', perform ⟨0, 1, 3, [0xc3, 0xc3, 0xa9]⟩ (.moveRelative (-2 ^ 31)) = some buff' := by
  have created : buffers.initial ⟨0, 3, 3, [0, 0, 0]⟩ :=
    Or.inl ⟨8, List.replicate 35 0, by decide, by decide⟩
  have replayed : buffers.replay ⟨0, 3, 3, [0, 0, 0]⟩ [.insertString [0xc3, 0xa9], .moveRelative (-1)] =
      some ⟨0, 1, 3, [0xc3, 0xc3, 0xa9]⟩ := by decide
  have reached := (System.Reachable.start created).replay _ replayed
  obtain ⟨_, _, _, valid, _, performs⟩ := reachable_buffers_stay_well_formed reached
  exact ⟨valid, performs _ (by decide)⟩

/-! ### Calls on the text -/

/-- What a call promises of the text with the cursor. The relocating insertion is not
among the operations on the text. -/
def Meets (buff : Buffer) : Call → Prop
  | .insertString str =>
    if isValidUTF8 str = true ∧ str.length ≤ buff.gapLength then
      ∃ buff', insertString buff str = some (buff', true) ∧
        view buff' = (view buff).insert (symbols str)
    else insertString buff str = some (buff, false)
  | .insertStringMaybeRelocate _ _ => True
  | .moveRelative off =>
    ∃ buff', moveRelative buff off = some buff' ∧ view buff' = (view buff).moveRelative off ∧
      (view buff').text = (view buff).text
  | .moveAbsolute num =>
    ∃ buff', moveAbsolute buff num = some buff' ∧ view buff' = (view buff).moveAbsolute num ∧
      (view buff').text = (view buff).text
  | .removeForwards num =>
    ∃ buff', removeForwards buff num = some buff' ∧ view buff' = (view buff).removeForwards num
  | .removeBackwards num =>
    ∃ buff', removeBackwards buff num = some buff' ∧ view buff' = (view buff).removeBackwards num
  | .clone mem region =>
    if mem ≠ 0 ∧ padding mem + sizeofGapBuffer + getByteCount buff ≤ region.length then
      ∃ buff', cloneUsingMemory mem region buff = some (some buff') ∧ view buff' = view buff
    else cloneUsingMemory mem region buff = some none

/-- The least `int` moves over fewer symbols than the text has before the cursor. -/
def Overshoots (buff : Buffer) : Call → Prop
  | .moveRelative off => off = -2 ^ 31 ∧ 2 ^ 31 < (view buff).before.length
  | _ => False

/-- A relative move lands where it should, unless it overshoots. -/
private theorem moveRelative_distance (c : Cursor (List UInt8)) (off : Int) :
    c.moveRelative (relativeDistance off) = c.moveRelative off ↔
      ¬ (off = -2 ^ 31 ∧ 2 ^ 31 < c.before.length) := by
  by_cases least : off = -2 ^ 31
  · subst least
    have huge : relativeDistance (-2 ^ 31) = -((2 ^ 64 - 2 ^ 31 : Nat) : Int) := by decide
    have small : (-2 ^ 31 : Int) = -((2 ^ 31 : Nat) : Int) := by decide
    rw [huge, small, c.moveRelative_backwards, c.moveRelative_backwards]
    constructor
    · rintro same ⟨_, long⟩
      have lengths := congrArg (fun c => c.before.length) same
      simp only [List.length_take] at lengths
      omega
    · intro short
      have all : c.before.length - 2 ^ 31 = 0 ∧ c.before.length - (2 ^ 64 - 2 ^ 31) = 0 := by
        omega
      rw [all.1, all.2]
  · rw [relativeDistance, if_neg least]
    exact ⟨fun _ overshoots => least overshoots.1, fun _ => rfl⟩

/-- The gap buffer refines the text with a cursor. A reachable buffer holds exactly
the symbols of its view, and every call, whatever its arguments, does to them what it
promises, except for the one that overshoots: a relative move by the least `int` with
more than `2 ^ 31` symbols before the cursor. -/
theorem calls_refine_text_unless_overshooting (reached : buffers.Reachable buff) {call : Call}
    (typed : call.Typed) :
    (view buff).before.flatten = bytesBefore buff ∧ (view buff).after.flatten = bytesAfter buff ∧
      (Meets buff call ↔ ¬ Overshoots buff call) := by
  have represents := represents_view reached
  refine ⟨represents.bytes.1.symm, represents.bytes.2.symm, ?_⟩
  cases call with
  | insertString str =>
    refine iff_of_true ?_ id
    rw [Meets]
    split
    · rename_i inserts
      obtain ⟨buff', inserted, represents'⟩ := represents.insertString inserts.1 inserts.2
      exact ⟨buff', inserted, represents'.view_eq⟩
    · rename_i refused
      exact insertString_refuse refused
  | insertStringMaybeRelocate str malloc => exact iff_of_true trivial id
  | moveRelative off =>
    obtain ⟨buff', moved, represents'⟩ := represents.moveRelative typed.1 typed.2
    rw [Overshoots, ← moveRelative_distance, Meets, moved]
    constructor
    · rintro ⟨next, same, lands, _⟩
      cases same
      rw [← represents'.view_eq, lands]
    · intro same
      refine ⟨buff', rfl, represents'.view_eq.trans same, ?_⟩
      rw [represents'.view_eq]
      exact Cursor.moveAbsolute_text _ _
  | moveAbsolute num =>
    obtain ⟨buff', moved, represents'⟩ := represents.moveAbsolute num
    refine iff_of_true ⟨buff', moved, represents'.view_eq, ?_⟩ id
    rw [represents'.view_eq]
    exact Cursor.moveAbsolute_text _ _
  | removeForwards num =>
    obtain ⟨buff', removed, represents'⟩ := represents.removeForwards num
    exact iff_of_true ⟨buff', removed, represents'.view_eq⟩ id
  | removeBackwards num =>
    obtain ⟨buff', removed, represents'⟩ := represents.removeBackwards num
    exact iff_of_true ⟨buff', removed, represents'.view_eq⟩ id
  | clone mem region =>
    refine iff_of_true ?_ id
    have cloned := represents.cloneUsingMemory mem typed.2
    rw [Meets]
    split
    · rename_i holds
      rw [if_pos holds] at cloned
      obtain ⟨buff', made, represents'⟩ := cloned
      exact ⟨buff', made, represents'.view_eq⟩
    · rename_i refused
      rwa [if_neg refused] at cloned

/-- Moving back over the last symbol, which is two bytes long. -/
theorem calls_refine_text_unless_overshooting_applies :
    ∃ buff, buffers.Reachable buff ∧ view buff = ⟨[[0x61], [0xc3, 0xa9]], []⟩ ∧
      ∃ buff', moveRelative buff (-1) = some buff' ∧
        view buff' = (view buff).moveRelative (-1) := by
  have created : buffers.initial ⟨0, 4, 4, [0, 0, 0, 0]⟩ :=
    Or.inl ⟨8, List.replicate 36 0, by decide, by decide⟩
  have inserted : buffers.next ⟨0, 4, 4, [0, 0, 0, 0]⟩ (.insertString [0x61, 0xc3, 0xa9]) =
      some ⟨3, 1, 4, [0x61, 0xc3, 0xa9, 0]⟩ := by decide
  have reached := (System.Reachable.start created).step inserted
  have met := (calls_refine_text_unless_overshooting reached
    (show (Call.moveRelative (-1)).Typed by decide)).2.2.mpr (fun overshoots => by
      exact absurd overshoots.1 (by decide))
  obtain ⟨buff', moved, lands, _⟩ := met
  exact ⟨_, reached, by decide, buff', moved, lands⟩

/-- Every text that memory has room for can be reached, with the cursor anywhere in it. -/
theorem text_reachable {front back : List (List UInt8)} (areSymbols : ∀ s ∈ front ++ back, IsSymbol s)
    (fits : (front ++ back).flatten.length + sizeofGapBuffer < 2 ^ 64) :
    ∃ buff, buffers.Reachable buff ∧ view buff = ⟨front, back⟩ := by
  generalize flat : (front ++ back).flatten = str at fits
  have aligned : padding 8 = 0 := by decide
  have created : createUsingMemory 8 (List.replicate (str.length + sizeofGapBuffer) 0) =
      some (layout [] (List.replicate str.length 0) []) := by
    rw [createUsingMemory_eq, aligned, Nat.zero_add, List.length_replicate,
      if_pos ⟨by decide, by omega⟩, List.drop_replicate, Nat.add_sub_cancel]
  have initially : buffers.initial (layout [] (List.replicate str.length 0) []) :=
    Or.inl ⟨8, _, by rwa [List.length_replicate], created⟩
  have represents := Represents.create (by rwa [List.length_replicate]) created
  have valid : isValidUTF8 str = true := isValidUTF8_iff.mpr ⟨_, areSymbols, flat⟩
  have room : str.length ≤ (layout [] (List.replicate str.length 0) []).gapLength := by
    simp only [layout, List.length_replicate, Nat.le_refl]
  obtain ⟨whole, inserted, represents'⟩ := represents.insertString valid room
  rw [Cursor.insert, List.nil_append, ← flat, symbols_flatten areSymbols] at represents'
  obtain ⟨buff, moved, represents''⟩ := represents'.moveAbsolute front.length
  have short : front.length ≤ str.length := by
    have positive : ∀ length ∈ (front ++ back).map List.length, 1 ≤ length := by
      intro length member
      obtain ⟨s, isMember, rfl⟩ := List.mem_map.mp member
      exact (areSymbols s isMember).word.positive
    have symbols := List.length_le_sum_of_one_le _ positive
    rw [← List.length_flatten, flat, List.length_map, List.length_append] at symbols
    omega
  have insertTyped : (Call.insertString str).Typed := by
    rw [Call.Typed]
    omega
  have moveTyped : (Call.moveAbsolute front.length).Typed := by
    rw [Call.Typed]
    omega
  have afterInsert : buffers.Reachable whole :=
    (System.Reachable.start initially).step (a := .insertString str) (by
      simp only [buffers, if_pos insertTyped, perform, inserted, Option.map_some])
  refine ⟨buff, afterInsert.step (a := .moveAbsolute front.length) ?_, ?_⟩
  · simp only [buffers, if_pos moveTyped, perform, moved]
  · rw [represents''.view_eq, Cursor.moveAbsolute_before _ (by simp), List.take_left, List.drop_left,
      List.append_nil]

theorem ascii_isSymbol {byte : UInt8} (ascii : byte &&& 0x80 = 0) : IsSymbol [byte] :=
  ⟨List.cons_ne_nil _ _, byte.toNat, if_neg (not_not.mpr ascii)⟩

/-- With `2 ^ 31 + 1` letters before the cursor, a move by the least `int` goes to the
start of the text instead of behind the first letter. -/
theorem least_int_overshoots :
    ∃ buff buff', buffers.Reachable buff ∧ (view buff).before.length = 2 ^ 31 + 1 ∧
      moveRelative buff (-2 ^ 31) = some buff' ∧ (view buff').before.length = 0 ∧
      ((view buff).moveRelative (-2 ^ 31)).before.length = 1 ∧
      ¬ Meets buff (.moveRelative (-2 ^ 31)) := by
  obtain ⟨buff, reached, shown⟩ : ∃ buff, buffers.Reachable buff ∧
      view buff = ⟨List.replicate (2 ^ 31 + 1) [97], []⟩ := by
    apply text_reachable
    · intro s member
      rw [List.append_nil] at member
      rw [(List.mem_replicate.mp member).2]
      exact ascii_isSymbol (by decide)
    · rw [List.append_nil, List.flatten_replicate_singleton, List.length_replicate]
      decide
  have length : (view buff).before.length = 2 ^ 31 + 1 := by
    rw [shown, List.length_replicate]
  obtain ⟨buff', moved, represents'⟩ :=
    (represents_view reached).moveRelative (show (-2 ^ 31 : Int) ≤ -2 ^ 31 by decide) (by decide)
  have huge : relativeDistance (-2 ^ 31) = -((2 ^ 64 - 2 ^ 31 : Nat) : Int) := by decide
  have small : (-2 ^ 31 : Int) = -((2 ^ 31 : Nat) : Int) := by decide
  have lands : (view buff').before.length = 0 := by
    rw [represents'.view_eq, huge, Cursor.moveRelative_backwards, List.length_take, length]
    decide
  have expected : ((view buff).moveRelative (-2 ^ 31)).before.length = 1 := by
    rw [small, Cursor.moveRelative_backwards, List.length_take, length]
    decide
  refine ⟨buff, buff', reached, length, moved, lands, expected, ?_⟩
  rintro ⟨next, same, met, _⟩
  rw [moved] at same
  cases same
  rw [met, expected] at lands
  exact absurd lands (by decide)

end Mysnips.GapBuffer

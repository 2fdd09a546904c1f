import Mysnips.Machine
import Mysnips.Memory
import Mysnips.Transition

/-! The gap buffer of `gap_buffer/gap_buffer.c`. A failed assertion, and an access
outside the data, is a fault (`none`). The `free` callback, which only runs when a
buffer is given up, is left out. -/
namespace Mysnips.GapBuffer
open Machine Memory Transition

/-- `sizeof(GapBuffer)`, without its flexible `data` array. -/
abbrev sizeofGapBuffer : Nat := 32

/-- `_Alignof(GapBuffer)`. -/
abbrev alignofGapBuffer : Nat := 8

/-- `GapBuffer`. -/
structure Buffer where
  gapOffset : Nat
  gapLength : Nat
  total : Nat
  data : List UInt8
  deriving DecidableEq, Repr

/-- `getByteCount`. -/
def getByteCount (buff : Buffer) : Nat := sub64 buff.total buff.gapLength

/-- `-(uintptr_t) mem & (_Alignof(GapBuffer)-1)`. -/
def padding (mem : Nat) : Nat := sub64 0 mem &&& (alignofGapBuffer - 1)

/-- `GapBuffer_createUsingMemory` on the region at address `mem`; no result is
`NULL`. The buffer takes over what the region holds. -/
def createUsingMemory (mem : Nat) (region : List UInt8) : Option Buffer :=
  if mem = 0 then none
  else
    let pad := padding mem
    if region.length < pad then none
    else
      let len := region.length - pad
      if len < sizeofGapBuffer then none
      else
        let capacity := len - sizeofGapBuffer
        some ⟨0, capacity, capacity, region.drop (pad + sizeofGapBuffer)⟩

/-- `getStringBeforeGap`. -/
def getStringBeforeGap (buff : Buffer) : Option (List UInt8) := load buff.data 0 buff.gapOffset

/-- `getStringAfterGap`. -/
def getStringAfterGap (buff : Buffer) : Option (List UInt8) :=
  let firstByteAfterGap := add64 buff.gapOffset buff.gapLength
  load buff.data firstByteAfterGap (sub64 buff.total firstByteAfterGap)

/-- `insertBytesBeforeCursor`. -/
def insertBytesBeforeCursor (buff : Buffer) (str : List UInt8) : Option (Buffer × Bool) :=
  if buff.gapLength < str.length then some (buff, false)
  else do
    let data ← store buff.data buff.gapOffset str
    some ({ buff with data, gapOffset := add64 buff.gapOffset str.length
                      gapLength := sub64 buff.gapLength str.length }, true)

/-- `insertBytesAfterCursor`. -/
def insertBytesAfterCursor (buff : Buffer) (str : List UInt8) : Option (Buffer × Bool) :=
  if buff.gapLength < str.length then some (buff, false)
  else do
    let data ← store buff.data (sub64 (add64 buff.gapOffset buff.gapLength) str.length) str
    some ({ buff with data, gapLength := sub64 buff.gapLength str.length }, true)

/-- `GapBuffer_cloneUsingMemory`; no result inside is `NULL`. -/
def cloneUsingMemory (mem : Nat) (region : List UInt8) (src : Buffer) : Option (Option Buffer) :=
  match createUsingMemory mem region with
  | none => some none
  | some clone => do
    let before ← getStringBeforeGap src
    let (clone, fits) ← insertBytesBeforeCursor clone before
    if fits then do
      let after ← getStringAfterGap src
      let (clone, fits) ← insertBytesAfterCursor clone after
      some (if fits then some clone else none)
    else some none

/-! ### UTF-8 -/

/-- `isSymbolAuxiliaryByte`. -/
def isSymbolAuxiliaryByte (byte : UInt8) : Bool := byte &&& 0xC0 == 0x80

/-- `getSymbolRune`: the length of the symbol and its rune, no result for -1. -/
def getSymbolRune (sym : List UInt8) : Option (Nat × Nat) :=
  match sym with
  | [] => some (0, 0)
  | a :: tail =>
    if a &&& 0x80 ≠ 0 then
      if a ≥ 0xF0 then
        match tail with
        | b :: c :: d :: _ =>
          if isSymbolAuxiliaryByte b && isSymbolAuxiliaryByte c && isSymbolAuxiliaryByte d then
            let temp := (a.toNat &&& 0x07) <<< 18 ||| (b.toNat &&& 0x3f) <<< 12 |||
              (c.toNat &&& 0x3f) <<< 6 ||| (d.toNat &&& 0x3f)
            if temp < 0x010000 ∨ temp > 0x10ffff then none else some (4, temp)
          else none
        | _ => none
      else if a ≥ 0xE0 then
        match tail with
        | b :: c :: _ =>
          if isSymbolAuxiliaryByte b && isSymbolAuxiliaryByte c then
            let temp := (a.toNat &&& 0x0f) <<< 12 ||| (b.toNat &&& 0x3f) <<< 6 |||
              (c.toNat &&& 0x3f)
            if temp < 0x0800 ∨ temp > 0xffff then none else some (3, temp)
          else none
        | _ => none
      else if a ≥ 0xC0 then
        match tail with
        | b :: _ =>
          if isSymbolAuxiliaryByte b then
            let rune := (a.toNat &&& 0x1f) <<< 6 ||| (b.toNat &&& 0x3f)
            if rune < 0x80 ∨ rune > 0x07ff then none else some (2, rune)
          else none
        | _ => none
      else none
    else some (1, a.toNat)

/-- The loop of `isValidUTF8` from some index on. -/
def isValidFrom : (fuel : Nat) → (str : List UInt8) → Bool
  | 0, str => str.isEmpty
  | fuel + 1, str =>
    if str.isEmpty then true
    else
      match getSymbolRune str with
      | none => false
      | some (n, _) => isValidFrom fuel (str.drop n)

/-- `isValidUTF8`; every symbol is at least one byte long. -/
def isValidUTF8 (str : List UInt8) : Bool := isValidFrom str.length str

/-- `GapBuffer_insertString`. -/
def insertString (buff : Buffer) (str : List UInt8) : Option (Buffer × Bool) :=
  if isValidUTF8 str then insertBytesBeforeCursor buff str else some (buff, false)

/-! ### Walks -/

/-- The inner loop of `getPrecedingSymbol`: step back over the auxiliary bytes and
the byte before them. -/
def stepBack (data : List UInt8) : (i : Nat) → Option Nat
  | 0 => none
  | i + 1 => do
    let byte ← data[i]?
    if isSymbolAuxiliaryByte byte then stepBack data i else some i

/-- The loop of `getPrecedingSymbol`. -/
def precedingFrom (data : List UInt8) : (num i : Nat) → Option Nat
  | 0, i => some i
  | num + 1, i =>
    if i > 0 then do
      let i ← stepBack data i
      precedingFrom data num i
    else some i

/-- `getPrecedingSymbol`. -/
def getPrecedingSymbol (buff : Buffer) (num : Nat) : Option Nat :=
  precedingFrom buff.data num buff.gapOffset

/-- `getSymbolLengthFromFirstByte`. -/
def getSymbolLengthFromFirstByte (first : UInt8) : Nat :=
  if first ≥ 0xf0 then 4 else if first ≥ 0xe0 then 3 else if first ≥ 0xc0 then 2 else 1

/-- The loop of `getFollowingSymbol`. -/
def followingFrom (buff : Buffer) : (num i : Nat) → Option Nat
  | 0, i => some i
  | num + 1, i =>
    if i < buff.total then do
      let byte ← buff.data[i]?
      followingFrom buff num (add64 i (getSymbolLengthFromFirstByte byte))
    else some i

/-- `getFollowingSymbol`. -/
def getFollowingSymbol (buff : Buffer) (num : Nat) : Option Nat :=
  followingFrom buff num (add64 buff.gapOffset buff.gapLength)

/-- `GapBuffer_removeForwards`. -/
def removeForwards (buff : Buffer) (num : Nat) : Option Buffer := do
  let i ← getFollowingSymbol buff num
  some { buff with gapLength := sub64 i buff.gapOffset }

/-- `GapBuffer_removeBackwards`. -/
def removeBackwards (buff : Buffer) (num : Nat) : Option Buffer := do
  let i ← getPrecedingSymbol buff num
  some { buff with gapLength := add64 buff.gapLength (sub64 buff.gapOffset i), gapOffset := i }

/-- `moveBytesAfterGap`. -/
def moveBytesAfterGap (buff : Buffer) (num : Nat) : Option Buffer :=
  if buff.gapOffset ≥ num ∧ buff.gapOffset ≤ buff.total ∧
      add64 buff.gapOffset buff.gapLength ≤ buff.total then do
    let moved ← load buff.data (sub64 buff.gapOffset num) num
    let data ← store buff.data (sub64 (add64 buff.gapOffset buff.gapLength) num) moved
    some { buff with data, gapOffset := sub64 buff.gapOffset num }
  else none

/-- `moveBytesBeforeGap`. -/
def moveBytesBeforeGap (buff : Buffer) (num : Nat) : Option Buffer :=
  if sub64 (sub64 buff.total buff.gapOffset) buff.gapLength ≥ num ∧
      buff.gapOffset ≤ buff.total ∧ add64 buff.gapOffset buff.gapLength ≤ buff.total then do
    let moved ← load buff.data (add64 buff.gapOffset buff.gapLength) num
    let data ← store buff.data buff.gapOffset moved
    some { buff with data, gapOffset := add64 buff.gapOffset num }
  else none

/-- `GapBuffer_moveRelative`; the distance is negated as an `int`, where the least
one wraps around. -/
def moveRelative (buff : Buffer) (off : Int) : Option Buffer :=
  if off < 0 then do
    let i ← getPrecedingSymbol buff (ofInt (int32 (-off)))
    moveBytesAfterGap buff (sub64 buff.gapOffset i)
  else do
    let i ← getFollowingSymbol buff (ofInt off)
    moveBytesBeforeGap buff (sub64 (sub64 i buff.gapOffset) buff.gapLength)

/-- The loop of `GapBuffer_moveAbsolute`, which jumps over the gap. -/
def absoluteFrom (buff : Buffer) : (num i : Nat) → Option Nat
  | 0, i => some i
  | num + 1, i =>
    if i < buff.total then do
      let byte ← buff.data[i]?
      let i := add64 i (getSymbolLengthFromFirstByte byte)
      absoluteFrom buff num (if i = buff.gapOffset then add64 i buff.gapLength else i)
    else some i

/-- `GapBuffer_moveAbsolute`. -/
def moveAbsolute (buff : Buffer) (num : Nat) : Option Buffer := do
  let i ← absoluteFrom buff num (if buff.gapOffset > 0 then 0 else buff.gapLength)
  if i ≤ buff.gapOffset then moveBytesAfterGap buff (sub64 buff.gapOffset i)
  else moveBytesBeforeGap buff (sub64 (sub64 i buff.gapOffset) buff.gapLength)

/-! ### Buffers from the heap -/

/-- What `malloc` may return: nothing, or the address of a region of the requested
length with unspecified contents. -/
structure Malloc where
  region : Nat → Option (Nat × List UInt8)
  length : ∀ {request mem bytes}, region request = some (mem, bytes) → bytes.length = request

/-- `GapBuffer_create`. -/
def create (capacity : Nat) (malloc : Malloc) : Option Buffer :=
  let len := add64 sizeofGapBuffer capacity
  match malloc.region len with
  | none => none
  | some (mem, region) => createUsingMemory mem region

/-- `GapBuffer_insertStringMaybeRelocate`. -/
def insertStringMaybeRelocate (buff : Buffer) (str : List UInt8) (malloc : Malloc) :
    Option (Buffer × Bool) := do
  let (buff, done) ← insertString buff str
  if done then some (buff, true)
  else
    match create (add64 (getByteCount buff) str.length) malloc with
    | none => some (buff, false)
    | some buff2 => do
      let (buff2, done) ← insertString buff2 str
      if done then some (buff2, true) else some (buff, false)

/-! ### Calls -/

/-- A call on a buffer. -/
inductive Call where
  | insertString (str : List UInt8)
  | insertStringMaybeRelocate (str : List UInt8) (malloc : Malloc)
  | moveRelative (off : Int)
  | moveAbsolute (num : Nat)
  | removeForwards (num : Nat)
  | removeBackwards (num : Nat)
  | clone (mem : Nat) (region : List UInt8)

/-- The arguments have their C types. -/
def Call.Typed : Call → Prop
  | .insertString str => str.length < 2 ^ 64
  | .insertStringMaybeRelocate str _ => str.length < 2 ^ 64
  | .moveRelative off => -2 ^ 31 ≤ off ∧ off < 2 ^ 31
  | .moveAbsolute num => num < 2 ^ 64
  | .removeForwards num => num < 2 ^ 64
  | .removeBackwards num => num < 2 ^ 64
  | .clone mem region => mem < 2 ^ 64 ∧ region.length < 2 ^ 64

instance : (call : Call) → Decidable call.Typed
  | .insertString _ => inferInstanceAs (Decidable (_ < _))
  | .insertStringMaybeRelocate _ _ => inferInstanceAs (Decidable (_ < _))
  | .moveRelative _ => inferInstanceAs (Decidable (_ ∧ _))
  | .moveAbsolute _ => inferInstanceAs (Decidable (_ < _))
  | .removeForwards _ => inferInstanceAs (Decidable (_ < _))
  | .removeBackwards _ => inferInstanceAs (Decidable (_ < _))
  | .clone _ _ => inferInstanceAs (Decidable (_ ∧ _))

/-- The buffer that a call leaves, or, for a clone, the clone if there is one. -/
def perform (buff : Buffer) : Call → Option Buffer
  | .insertString str => (insertString buff str).map Prod.fst
  | .insertStringMaybeRelocate str malloc =>
    (insertStringMaybeRelocate buff str malloc).map Prod.fst
  | .moveRelative off => moveRelative buff off
  | .moveAbsolute num => moveAbsolute buff num
  | .removeForwards num => removeForwards buff num
  | .removeBackwards num => removeBackwards buff num
  | .clone mem region => (cloneUsingMemory mem region buff).map fun clone => clone.getD buff

/-- Any sequence of calls on a buffer created in a region of memory or from the
heap. -/
def buffers : System Buffer Call where
  initial buff :=
    (∃ mem region, region.length < 2 ^ 64 ∧ createUsingMemory mem region = some buff) ∨
      ∃ capacity malloc, create capacity malloc = some buff
  next buff call := if call.Typed then perform buff call else none

end Mysnips.GapBuffer

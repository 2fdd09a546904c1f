import Mysnips.Memory

/-! The query string reader of the HTTP module. Names and values are decoded into a
caller's buffer when they hold `+` or `%XX`, and otherwise returned as slices of the
query string itself. A write outside the buffer, or a failed assertion, is a fault
(`none`); the loops carry a bound on their iterations, and running out of it is
a fault too. -/
namespace Mysnips.QueryString
open Memory

/-- `is_print`. -/
def isPrint (c : UInt8) : Bool := 32 ≤ c && c < 127

/-- `hex_to_num`. -/
def hexToNum (x : UInt8) : Option Nat :=
  if 'A'.toUInt8 ≤ x && x ≤ 'F'.toUInt8 then some (x.toNat - 'A'.toNat)
  else if 'a'.toUInt8 ≤ x && x ≤ 'f'.toUInt8 then some (x.toNat - 'a'.toNat)
  else if '0'.toUInt8 ≤ x && x ≤ '9'.toUInt8 then some (x.toNat - '0'.toNat)
  else none

/-- The characters that `skip_any_valid_chars_not_percent_encoded` passes over. -/
def isPlain (c : UInt8) : Bool :=
  c != '='.toUInt8 && c != '&'.toUInt8 && c != '%'.toUInt8 && c != '+'.toUInt8 && isPrint c

/-- `skip_any_valid_chars_not_percent_encoded`. -/
def skipPlain (src : List UInt8) (cur : Nat) : Nat :=
  cur + ((src.drop cur).takeWhile isPlain).length

/-- The character under the cursor starts an encoded byte. -/
def atEncoded (src : List UInt8) (cur : Nat) : Bool :=
  src[cur]? == some '+'.toUInt8 || src[cur]? == some '%'.toUInt8

/-- The byte of the `%XX` under the cursor, if both digits are there. -/
def percentByte (src : List UInt8) (cur : Nat) : Option UInt8 := do
  let u ← hexToNum (← src[cur + 1]?)
  let v ← hexToNum (← src[cur + 2]?)
  return UInt8.ofNat ((u <<< 4) ||| v)

/-- The byte of the `+` or `%XX` under the cursor, and the cursor behind it. -/
def encodedByte (src : List UInt8) (cur : Nat) : Option (UInt8 × Nat) :=
  if src[cur]? = some '+'.toUInt8 then some (' '.toUInt8, cur + 1)
  else (percentByte src cur).map (·, cur + 3)

/-- The loop of `skip_percent_encoded_substr`. The inner option is the boolean result
with the cursor. -/
def skipEncoded (src : List UInt8) : Nat → Nat → Option (Option Nat)
  | 0, _ => none
  | fuel + 1, cur =>
    if atEncoded src cur then
      match encodedByte src cur with
      | none => some none
      | some (_, behind) => skipEncoded src fuel (skipPlain src behind)
    else some (some cur)

/-- `skip_percent_encoded_substr`: the new cursor, or nothing for a bad encoding. -/
def skipPercentEncodedSubstr (src : List UInt8) (cur : Nat) : Option (Option Nat) :=
  skipEncoded src (src.length + 1) (skipPlain src cur)

/-- `struct slice`, by what its pointer points into. -/
inductive Slice where
  | source (start size : Nat)
  | buffer (size : Nat)
  | literal
  deriving DecidableEq, Repr

/-- The bytes of a slice. -/
def Slice.bytes (src dst : List UInt8) : Slice → List UInt8
  | source start size => (src.drop start).take size
  | buffer size => dst.take size
  | literal => []

/-- What a parse leaves behind: the boolean result, the cursor, the buffer and the
slice. -/
structure Parsed where
  ok : Bool
  cur : Nat
  dst : List UInt8
  out : Slice
  deriving DecidableEq, Repr

/-- The `do` loop of `parse_percent_encoded_substr`: one encoded byte, then the run of
plain characters after it. The inner option is empty where the function returns
false. -/
def decodeRuns (src : List UInt8) (max : Nat) :
    Nat → Nat → Nat → List UInt8 → Option (List UInt8 × Option (Nat × Nat))
  | 0, _, _, _ => none
  | fuel + 1, cur, copied, dst =>
    match encodedByte src cur with
    | none => some (dst, none)
    | some (byte, start) =>
      if copied = max then some (dst, none)
      else do
        let dst ← store dst copied [byte]
        let copied := copied + 1
        let cur := skipPlain src start
        if copied + cur - start > max then some (dst, none)
        else do
          let dst ← store dst copied ((src.drop start).take (cur - start))
          let copied := copied + (cur - start)
          if atEncoded src cur then decodeRuns src max fuel cur copied dst
          else some (dst, some (cur, copied))

/-- `parse_percent_encoded_substr`. Where the plain start of the text does not fit, the
source returns -1, which is true as a `bool`, and leaves the caller's cursor alone. -/
def parsePercentEncodedSubstr (src dst : List UInt8) (max start : Nat) : Option Parsed :=
  let cur := skipPlain src start
  let out := Slice.source start (cur - start)
  if atEncoded src cur then
    if cur - start > max then some ⟨true, start, dst, out⟩
    else do
      let dst ← store dst 0 ((src.drop start).take (cur - start))
      let (dst, result) ← decodeRuns src max (src.length + 1) cur (cur - start) dst
      match result with
      | none => some ⟨false, start, dst, out⟩
      | some (cur, copied) => some ⟨true, cur, dst, .buffer copied⟩
  else some ⟨true, cur, dst, out⟩

/-- The loop of `get_query_string_param`: the buffer it leaves, and the slice where it
returns true. -/
def searchParam (src key : List UInt8) (max : Nat) :
    Nat → Nat → List UInt8 → Option (List UInt8 × Option Slice)
  | 0, _, _ => none
  | fuel + 1, cur, dst =>
    if cur < src.length then do
      let name ← parsePercentEncodedSubstr src dst max cur
      if !name.ok then some (name.dst, none)
      else if src[name.cur]?.any (fun c => !isPrint c) then some (name.dst, none)
      else if name.out.bytes src name.dst = key then
        if src[name.cur]? = some '='.toUInt8 then do
          let value ← parsePercentEncodedSubstr src name.dst max (name.cur + 1)
          some (value.dst, if value.ok then some value.out else none)
        else some (name.dst, some .literal)
      else do
        let skipped ←
          if src[name.cur]? = some '='.toUInt8 then skipPercentEncodedSubstr src (name.cur + 1)
          else some (some name.cur)
        match skipped with
        | none => some (name.dst, none)
        | some cur =>
          if src[cur]?.any (· != '&'.toUInt8) then some (name.dst, none)
          else searchParam src key max fuel (cur + 1) name.dst
    else some (dst, none)

/-- `get_query_string_param`, with `dst` the buffer of `max` bytes. -/
def getQueryStringParam (src key dst : List UInt8) (max : Nat) :
    Option (List UInt8 × Option Slice) :=
  searchParam src key max (src.length + 1) (if src[0]? = some '?'.toUInt8 then 1 else 0) dst

end Mysnips.QueryString

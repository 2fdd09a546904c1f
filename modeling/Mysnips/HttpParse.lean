import Mathlib.Algebra.Group.Nat.Defs
import Mathlib.Data.List.TakeWhile
import Mathlib.Tactic.Common
import Mysnips.Memory

/-! The request parser of the HTTP module. The parser works on the bytes of the head
with a cursor and returns slices into them. Reading outside the head is a fault
(`none`), and so is a header loop that does not end. -/
namespace Mysnips.HttpParse
open Memory (ascii)

/-- `SIZE_MAX`, which as a result stands for `(size_t) -1`. -/
def sizeMax : Nat := 2 ^ 64 - 1

/-- `is_digit`. -/
def isDigit (c : UInt8) : Bool := '0'.toUInt8 ≤ c && c ≤ '9'.toUInt8

/-- `is_space`. -/
def isSpace (c : UInt8) : Bool :=
  c == ' '.toUInt8 || c == '\t'.toUInt8 || c == '\r'.toUInt8 || c == '\n'.toUInt8

/-- `enum method`. -/
inductive Method where
  | get
  | post
  | head
  | put
  | delete
  | connect
  | options
  | trace
  | patch
  deriving DecidableEq, Repr

/-- `MAX_HEADERS`. -/
def maxHeaders : Nat := 32

/-- `struct slice`, as an offset into the buffer and a size. -/
structure Slice where
  start : Nat
  size : Nat
  deriving DecidableEq, Repr

def Slice.bytes (src : List UInt8) (slice : Slice) : List UInt8 :=
  (src.drop slice.start).take slice.size

/-- `struct header`. -/
structure Header where
  name : Slice
  value : Slice
  deriving DecidableEq, Repr

/-- `struct request`; the number of headers is the length of `hs`. -/
structure Request where
  m : Method
  path : Slice
  major : Nat
  minor : Nat
  hs : List Header
  content : Slice := ⟨0, 0⟩
  deriving DecidableEq, Repr

/-- The results of `parse_request_head`. -/
inductive HeadResult where
  | ok (r : Request)
  | incomplete
  | badMethod
  | badVersion
  | badHeader
  deriving DecidableEq, Repr

/-- The methods in the order in which they are tried. -/
def methods : List (List UInt8 × Method) :=
  [(ascii "GET", .get), (ascii "HEAD", .head), (ascii "POST", .post), (ascii "PUT", .put),
    (ascii "DELETE", .delete), (ascii "CONNECT", .connect), (ascii "OPTIONS", .options),
    (ascii "TRACE", .trace), (ascii "PATCH", .patch)]

/-- `while (cur < len && p(src[cur])) cur++`. -/
def skipWhile (p : UInt8 → Bool) (src : List UInt8) (cur : Nat) : Nat :=
  cur + ((src.drop cur).takeWhile p).length

/-- The bytes at the cursor start with a text. -/
def startsAt (src : List UInt8) (cur : Nat) (text : List UInt8) : Bool :=
  text.isPrefixOf (src.drop cur)

/-- The header loop of `parse_request_head`: the headers stored, up to `MAX_HEADERS`, also where the
function returns `P_BADHEADER`, and the cursor behind the end of the head where it does not. -/
def runHeaders (src : List UInt8) : Nat → Nat → List Header → Option (Option Nat × List Header)
  | 0, _, _ => none
  | fuel + 1, cur, hs =>
    if startsAt src cur (ascii "\r\n") then some (some (cur + 2), hs)
    else
      let colon := skipWhile (· != ':'.toUInt8) src cur
      if colon = src.length then some (none, hs)
      else
        let stop := skipWhile (· != '\r'.toUInt8) src (colon + 1)
        -- `cur++` is unconditional: a value that runs to the end is read past it
        if stop + 1 = src.length then some (none, hs)
        else do
          let c ← src[stop + 1]?
          if c != '\n'.toUInt8 then some (none, hs)
          else
            let header := ⟨⟨cur, colon - cur⟩, ⟨colon + 1, stop - (colon + 1)⟩⟩
            runHeaders src fuel (stop + 2) (if hs.length < maxHeaders then hs ++ [header] else hs)

/-- The version of `parse_request_head`: major, minor and the cursor behind it. The
inner option is empty where the function returns `P_BADVERSION`. -/
def parseVersion (src : List UInt8) (cur : Nat) : Option (Option (Nat × Nat × Nat)) :=
  if !startsAt src cur (ascii "HTTP/") then some none
  else do
    let major ← src[cur + 5]?
    if !isDigit major then some none
    else if src[cur + 6]? = some '.'.toUInt8 then
      match src[cur + 7]? with
      | none => some none
      | some minor =>
        if !isDigit minor then some none
        else some (some (major.toNat - '0'.toNat, minor.toNat - '0'.toNat, cur + 8))
    else some (some (major.toNat - '0'.toNat, 0, cur + 6))

/-- A call of `parse_request_head`: its result, the path and the headers stored in the request,
and the cursor where the result is `P_OK`. -/
structure Parse where
  result : HeadResult
  path : Option Slice
  hs : List Header
  cur : Option Nat
  deriving DecidableEq, Repr

def Parse.stored (parse : Parse) : List Slice :=
  parse.path.toList ++ parse.hs.flatMap fun header => [header.name, header.value]

/-- `parse_request_head`, with what it leaves behind. -/
def runRequestHead (src : List UInt8) : Option Parse :=
  match methods.find? (fun entry => startsAt src 0 entry.1) with
  | none => some ⟨.badMethod, none, [], none⟩
  | some (name, m) =>
    if src[name.length]? ≠ some ' '.toUInt8 then some ⟨.incomplete, none, [], none⟩
    else
      let start := name.length + 1
      let stop := skipWhile (· != ' '.toUInt8) src start
      let path := ⟨start, stop - start⟩
      if src[stop]? ≠ some ' '.toUInt8 then some ⟨.incomplete, some path, [], none⟩
      else do
        match ← parseVersion src (stop + 1) with
        | none => some ⟨.badVersion, some path, [], none⟩
        | some (major, minor, cur) =>
          if !startsAt src cur (ascii "\r\n") then some ⟨.incomplete, some path, [], none⟩
          else do
            match ← runHeaders src (src.length + 1) (cur + 2) [] with
            | (none, hs) => some ⟨.badHeader, some path, hs, none⟩
            | (some cur, hs) =>
              some ⟨.ok ⟨m, path, major, minor, hs, ⟨0, 0⟩⟩, some path, hs, some cur⟩

/-- What `parse_request_head` returns. -/
def parseRequestHead (src : List UInt8) : Option HeadResult := (runRequestHead src).map Parse.result

/-- `to_lower`. The condition joins its two bounds with "or", so it always holds. -/
def toLower (c : UInt8) : UInt8 :=
  if 'A'.toUInt8 ≤ c || c ≤ 'Z'.toUInt8 then c - 'A'.toUInt8 + 'a'.toUInt8 else c

/-- `string_match_case_insensitive`. -/
def stringMatchCaseInsensitive (x y : List UInt8) : Bool :=
  x.length == y.length && (x.zip y).all (fun pair => toLower pair.1 == toLower pair.2)

/-- `match_header_name`. -/
def matchHeaderName (s₁ s₂ : List UInt8) : Bool := stringMatchCaseInsensitive s₁ s₂

/-- `trim`. -/
def trim (s : List UInt8) : List UInt8 :=
  let rest := s.dropWhile isSpace
  -- the start is only looked for: `s.data` does not move
  if rest = [] then [] else (s.reverse.dropWhile isSpace).reverse

/-- `match_header_value`. -/
def matchHeaderValue (s₁ s₂ : List UInt8) : Bool :=
  stringMatchCaseInsensitive (trim s₁) (trim s₂)

/-- `find_header`. -/
def findHeader (src : List UInt8) (r : Request) (name : List UInt8) : Option (List UInt8) :=
  (r.hs.find? (fun h => matchHeaderName (h.name.bytes src) name)).map (·.value.bytes src)

/-- The digit loop of `parse_content_length`: the value and what follows the digits. -/
def parseDigits : List UInt8 → Nat → Option (Nat × List UInt8)
  | [], x => some (x, [])
  | c :: rest, x =>
    if isDigit c then
      let d := c.toNat - '0'.toNat
      if x > (sizeMax - d) / 10 then none else parseDigits rest (x * 10 + d)
    else some (x, c :: rest)

/-- `parse_content_length`. -/
def parseContentLength (s : List UInt8) : Nat :=
  let rest := s.dropWhile isSpace
  if (rest.head?.all (fun c => !isDigit c)) then sizeMax
  else
    match parseDigits rest 0 with
    | none => sizeMax
    | some (x, behind) => if behind.dropWhile isSpace = [] then x else sizeMax

def tChunked : Nat := 1 <<< 0

def tCompress : Nat := 1 <<< 1

def tDeflate : Nat := 1 <<< 2

def tGzip : Nat := 1 <<< 3

/-- The codings in the order in which they are tried. -/
def codings : List (List UInt8 × Nat) :=
  [(ascii "chunked", tChunked), (ascii "compress", tCompress), (ascii "deflate", tDeflate),
    (ascii "gzip", tGzip)]

/-- What stands between codings. -/
def isSeparator (c : UInt8) : Bool := isSpace c || c == ','.toUInt8

/-- `src[cur+0] == text[0] && src[cur+1] == text[1] && …`. -/
def matchesAt (value : List UInt8) : (cur : Nat) → (text : List UInt8) → Option Bool
  | _, [] => some true
  | cur, c :: text => do
    let d ← value[cur]?
    if d == c then matchesAt value (cur + 1) text else some false

/-- The first of the codings that stands at the cursor. -/
def codingAt (value : List UInt8) (cur : Nat) :
    List (List UInt8 × Nat) → Option (Option (List UInt8 × Nat))
  | [] => some none
  | entry :: others =>
    if cur + (entry.1.length - 1) < value.length then do
      if ← matchesAt value cur entry.1 then some (some entry) else codingAt value cur others
    else codingAt value cur others

/-- The loop of `find_and_parse_transfer_encoding`. It has no exit but the one for an unknown coding,
and that for a read outside of the value. -/
def runCodings (value : List UInt8) : (fuel cur res : Nat) → Option Int
  | 0, _, _ => none
  | fuel + 1, cur, res => do
    let cur := skipWhile isSeparator value cur
    match ← codingAt value cur codings with
    | some (name, flag) => runCodings value fuel (cur + name.length) (res ||| flag)
    | none => some (-1)

/-- `find_and_parse_transfer_encoding`. -/
def findAndParseTransferEncoding (src : List UInt8) (r : Request) : Option Int :=
  match findHeader src r (ascii "Transfer-Encoding") with
  | none => some 0
  | some value => runCodings value (value.length + 1) 0 0

end Mysnips.HttpParse

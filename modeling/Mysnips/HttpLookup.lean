import Mathlib.Data.List.Find
import Mysnips.HttpFields
import Mysnips.HttpFraming

/-! The lookup of headers. A request has a table for the first of its headers, and `find_header`
looks only there. -/
namespace Mysnips.HttpParse
open Memory (ascii)

/-- The value of the first header with the name, up to case. -/
def lookup (headers : List (List UInt8 × List UInt8)) (name : List UInt8) : Option (List UInt8) :=
  (headers.find? fun header => SameUpToCase header.1 name).map (·.2)

/-- `find_header` compares all bytes of the names in the table. -/
theorem findHeader_eq {head : Head} {src : List UInt8} {r : Request} (held : head.HeldBy src r)
    (name : List UInt8) :
    findHeader src r name = ((head.headers.take maxHeaders).find? fun header => header.1 == name).map (·.2) := by
  have compared : (fun h : Header => matchHeaderName (h.name.bytes src) name) =
      (fun header : List UInt8 × List UInt8 => header.1 == name) ∘
        fun h => (h.name.bytes src, h.value.bytes src) := by
    funext h
    rw [Bool.eq_iff_iff, matchHeaderName_iff, Function.comp_apply, beq_iff_eq]
  rw [findHeader, ← held.headers, List.find?_map, Option.map_map, compared]
  rfl

/-- What is looked up in an accepted head is the first of the headers in the table that has the
name, up to case, as long as the table does not have the name in another case. -/
theorem lookup_exact {src : List UInt8} {r : Request} (parsed : parseRequestHead src = some (.ok r)) :
    (∃ (head : Head) (rest : List UInt8), head.Ok ∧ src = head.bytes ++ rest) ∧
      (∀ (head : Head) (rest name : List UInt8), head.Ok → src = head.bytes ++ rest →
        (∀ header ∈ head.headers.take maxHeaders, SameUpToCase header.1 name → header.1 = name) →
        findHeader src r name = lookup (head.headers.take maxHeaders) name) ∧
      ∀ x y : List UInt8, (SameUpToCase x y → x = y) →
        (stringMatchCaseInsensitive x y = true ↔ SameUpToCase x y) := by
  refine ⟨?_, ?_, ?_⟩
  · obtain ⟨head, rest, ok, shape, -⟩ := parseRequestHead_ok parsed
    exact ⟨head, rest, ok, shape⟩
  · rintro head rest name ok rfl spelled
    obtain ⟨other, again, held⟩ := parseRequestHead_bytes ok rest
    rw [parsed] at again
    cases again
    rw [findHeader_eq held, lookup]
    congr 1
    apply List.find?_congr
    intro header member
    rw [Bool.eq_iff_iff, beq_iff_eq, decide_eq_true_iff]
    constructor
    · rintro rfl
      rfl
    · exact spelled header member
  · intro x y spelled
    rw [stringMatchCaseInsensitive_iff]
    constructor
    · rintro rfl
      rfl
    · exact spelled

/-- The second of two headers. -/
theorem lookup_exact_applies : ∃ r,
    parseRequestHead (ascii "GET / HTTP/1.1\r\nA:b\r\nHost: c\r\n\r\n") = some (.ok r) ∧
      findHeader (ascii "GET / HTTP/1.1\r\nA:b\r\nHost: c\r\n\r\n") r (ascii "Host") =
        some (ascii " c") := by
  have parsed : parseRequestHead (ascii "GET / HTTP/1.1\r\nA:b\r\nHost: c\r\n\r\n") =
      some (.ok ⟨.get, ⟨4, 1⟩, 1, 1, [⟨⟨16, 1⟩, ⟨18, 1⟩⟩, ⟨⟨21, 4⟩, ⟨26, 2⟩⟩], ⟨0, 0⟩⟩) := by
    decide +kernel
  refine ⟨_, parsed, ?_⟩
  rw [(lookup_exact parsed).2.1
    ⟨.get, ascii "/", 49, some 49, [(ascii "A", ascii "b"), (ascii "Host", ascii " c")]⟩ [] (ascii "Host")]
  · decide +kernel
  · decide +kernel
  · decide +kernel
  · decide +kernel

/-- A head with one header more than there is room for. -/
def crowdedHead : Head :=
  ⟨.get, ascii "/", 49, some 49, List.replicate 32 (ascii "A", ascii "b") ++ [(ascii "X", ascii "y")]⟩

/-- The last of 33 headers is not found. -/
theorem last_header_not_found : ∃ r,
    parseRequestHead crowdedHead.bytes = some (.ok r) ∧ crowdedHead.Ok ∧
      lookup crowdedHead.headers (ascii "X") = some (ascii "y") ∧
      findHeader crowdedHead.bytes r (ascii "X") = none := by
  have ok : crowdedHead.Ok := by decide +kernel
  obtain ⟨r, parsed, held⟩ := parseRequestHead_bytes ok []
  rw [List.append_nil] at parsed held
  refine ⟨r, parsed, ok, by decide +kernel, ?_⟩
  rw [findHeader_eq held]
  decide +kernel

end Mysnips.HttpParse

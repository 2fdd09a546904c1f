import Mysnips.HttpFields

/-! The value of `Transfer-Encoding`. It should be a list of codings, but the loop that reads
them has one way out, the one for an unknown coding: the end of the list is such a coding too. -/
namespace Mysnips.HttpParse
open Memory (ascii)

/-- The codings that a value lists. -/
def listed (value : List UInt8) : List (List UInt8) :=
  (value.splitOnP isSeparator).filter (· ≠ [])

/-- The flags of codings, if all of them are known. -/
def flagsOf : List (List UInt8) → Option Nat
  | [] => some 0
  | name :: names => do
    let flag ← codings.lookup name
    let flags ← flagsOf names
    some (flag ||| flags)

/-- `find_and_parse_transfer_encoding` returns without a read outside of the value, which would have
no result, and with the flags of the codings that are listed. -/
structure ReadsCodings (src : List UInt8) (r : Request) : Prop where
  returns : (findAndParseTransferEncoding src r).isSome = true
  absent : findHeader src r (ascii "Transfer-Encoding") = none →
    findAndParseTransferEncoding src r = some 0
  listed : ∀ value flags, findHeader src r (ascii "Transfer-Encoding") = some value →
    flagsOf (listed value) = some flags → findAndParseTransferEncoding src r = some flags
  other : ∀ value, findHeader src r (ascii "Transfer-Encoding") = some value →
    flagsOf (HttpParse.listed value) = none → findAndParseTransferEncoding src r = some (-1)

/-! ## Reads -/

theorem matchesAt_eq (front : List UInt8) {text rest : List UInt8} (room : text.length ≤ rest.length) :
    matchesAt (front ++ rest) front.length text = some (text.isPrefixOf rest) := by
  induction text generalizing front rest with
  | nil => rfl
  | cons c text ih =>
    cases rest with
    | nil => cases room
    | cons d rest =>
      have shape : front ++ d :: rest = (front ++ [d]) ++ rest := List.append_cons _ _ _
      have position : front.length + 1 = (front ++ [d]).length := by
        rw [List.length_append, List.length_singleton]
      rw [matchesAt, getElem?_behind, List.head?_cons, Option.bind_eq_bind, Option.bind_some,
        List.isPrefixOf, shape, position, ih _ (Nat.le_of_succ_le_succ room)]
      by_cases same : d = c
      · rw [same, if_pos (beq_self_eq_true c), beq_self_eq_true, Bool.true_and]
      · have other : (c == d) = false := beq_false_of_ne (Ne.symm same)
        rw [if_neg (by simpa using same), other, Bool.false_and]

theorem codingAt_eq (front rest : List UInt8) {entries : List (List UInt8 × Nat)}
    (named : ∀ entry ∈ entries, entry.1 ≠ []) :
    codingAt (front ++ rest) front.length entries =
      some (entries.find? (fun entry => entry.1.isPrefixOf rest)) := by
  induction entries with
  | nil => rfl
  | cons entry entries ih =>
    obtain ⟨nonempty, others⟩ := List.forall_mem_cons.mp named
    have positive := List.length_pos_iff.mpr nonempty
    rw [codingAt, List.find?_cons, List.length_append]
    by_cases room : entry.1.length ≤ rest.length
    · rw [if_pos (by omega), matchesAt_eq front room, Option.bind_eq_bind, Option.bind_some, ih others]
      cases entry.1.isPrefixOf rest with
      | true => rfl
      | false => rfl
    · have short : entry.1.isPrefixOf rest = false := by
        apply Bool.eq_false_iff.mpr
        intro starts
        exact room (List.isPrefixOf_iff_prefix.mp starts).length_le
      rw [if_neg (by omega), short, ih others]

theorem codings_named : ∀ entry ∈ codings, entry.1 ≠ [] := by decide +kernel

/-- The loop always ends, and always in the same way. -/
theorem runCodings_returns (front rest : List UInt8) {fuel : Nat} (enough : rest.length < fuel)
    (res : Nat) : runCodings (front ++ rest) fuel front.length res = some (-1) := by
  induction fuel generalizing front rest res with
  | zero => cases enough
  | succ fuel ih =>
    have shape : front ++ rest = (front ++ rest.takeWhile isSeparator) ++ rest.dropWhile isSeparator := by
      rw [List.append_assoc, List.takeWhile_append_dropWhile]
    have position : front.length + (rest.takeWhile isSeparator).length =
        (front ++ rest.takeWhile isSeparator).length := List.length_append.symm
    rw [runCodings, skipWhile_append, position, shape, codingAt_eq _ _ codings_named]
    cases found : codings.find? (fun entry => entry.1.isPrefixOf (rest.dropWhile isSeparator)) with
    | none => rfl
    | some entry =>
      -- A coding is not empty, so that less is left behind it.
      have positive := List.length_pos_iff.mpr (codings_named _ (List.mem_of_find?_eq_some found))
      have starts := List.find?_some found
      obtain ⟨tail, behind⟩ := List.isPrefixOf_iff_prefix.mp starts
      have shorter := List.length_dropWhile_le isSeparator rest
      rw [← behind, List.length_append] at shorter
      have further : (front ++ rest.takeWhile isSeparator).length + entry.1.length =
          (front ++ rest.takeWhile isSeparator ++ entry.1).length := List.length_append.symm
      simp only [Option.bind_eq_bind, Option.bind_some]
      rw [← behind, ← List.append_assoc, further]
      exact ih _ tail (by omega) _

theorem transferEncoding_found {src value : List UInt8} {r : Request}
    (found : findHeader src r (ascii "Transfer-Encoding") = some value) :
    findAndParseTransferEncoding src r = some (-1) := by
  rw [findAndParseTransferEncoding, found]
  exact runCodings_returns [] value (Nat.lt_succ_self _) 0

theorem transferEncoding_absent {src : List UInt8} {r : Request}
    (absent : findHeader src r (ascii "Transfer-Encoding") = none) :
    findAndParseTransferEncoding src r = some 0 := by
  rw [findAndParseTransferEncoding, absent]

/-- The flags are read exactly when there is nothing to read: without the header, and where the
value is no list of codings. -/
theorem readsCodings_iff (src : List UInt8) (r : Request) :
    ReadsCodings src r ↔ ∀ value, findHeader src r (ascii "Transfer-Encoding") = some value →
      flagsOf (listed value) = none := by
  constructor
  · intro reads value found
    cases flags : flagsOf (listed value) with
    | none => rfl
    | some known =>
      have result := reads.listed value known found flags
      rw [transferEncoding_found found] at result
      injection result with negative
      omega
  · intro unknown
    refine ⟨?_, transferEncoding_absent, ?_, ?_⟩
    · cases found : findHeader src r (ascii "Transfer-Encoding") with
      | none => rw [transferEncoding_absent found]; rfl
      | some value => rw [transferEncoding_found found]; rfl
    · intro value flags found known
      rw [unknown value found] at known
      cases known
    · intro value found _
      exact transferEncoding_found found

/-- A request with a list of two codings, for which the result is that of an unknown coding. -/
theorem codings_refused : ∃ r,
    parseRequestHead (ascii "GET / HTTP/1.1\r\nTransfer-Encoding: gzip, chunked\r\n\r\n") =
      some (.ok r) ∧
    findHeader (ascii "GET / HTTP/1.1\r\nTransfer-Encoding: gzip, chunked\r\n\r\n") r
      (ascii "Transfer-Encoding") = some (ascii " gzip, chunked") ∧
    listed (ascii " gzip, chunked") = [ascii "gzip", ascii "chunked"] ∧
    flagsOf (listed (ascii " gzip, chunked")) = some (tGzip ||| tChunked) ∧
    findAndParseTransferEncoding
      (ascii "GET / HTTP/1.1\r\nTransfer-Encoding: gzip, chunked\r\n\r\n") r = some (-1) ∧
    ¬ ReadsCodings (ascii "GET / HTTP/1.1\r\nTransfer-Encoding: gzip, chunked\r\n\r\n") r := by
  have found : findHeader (ascii "GET / HTTP/1.1\r\nTransfer-Encoding: gzip, chunked\r\n\r\n")
      ⟨.get, ⟨4, 1⟩, 1, 1, [⟨⟨16, 17⟩, ⟨34, 14⟩⟩], ⟨0, 0⟩⟩ (ascii "Transfer-Encoding") =
        some (ascii " gzip, chunked") := by decide +kernel
  have known : flagsOf (listed (ascii " gzip, chunked")) = some (tGzip ||| tChunked) := by
    decide +kernel
  refine ⟨⟨.get, ⟨4, 1⟩, 1, 1, [⟨⟨16, 17⟩, ⟨34, 14⟩⟩], ⟨0, 0⟩⟩, by decide +kernel, found,
    by decide +kernel, known, transferEncoding_found found, ?_⟩
  intro reads
  have result := reads.listed _ _ found known
  rw [transferEncoding_found found] at result
  injection result with negative
  cases negative

end Mysnips.HttpParse

import Mysnips.HttpRequestLine
import Mysnips.HttpServerRequest

/-! The end of a head, as the server and as the parser see it. The server cuts the input behind
the first empty line; the parser finds the end of the head on its own, with a line break possible
in a path or in a name. What it accepts nevertheless ends where the server has cut. -/
namespace Mysnips.HttpParse
open CrlfLines HttpServer
open Memory (ascii)

/-- The request says what the head says; of the headers, it has the first ones. -/
structure Head.HeldBy (head : Head) (src : List UInt8) (r : Request) : Prop where
  method : r.m = head.m
  path : r.path.bytes src = head.path
  major : r.major = digitValue head.major
  minor : r.minor = (head.minor.map digitValue).getD 0
  headers : r.hs.map (fun header => (header.name.bytes src, header.value.bytes src)) =
    head.headers.take maxHeaders

section Slices

theorem slice_bytes (front text rest : List UInt8) :
    Slice.bytes (front ++ (text ++ rest)) ⟨front.length, text.length⟩ = text := by
  rw [Slice.bytes, List.drop_left, List.take_left]

/-- The slices of header lines are their names and values. -/
theorem sliceHeaders_read (headers : List (List UInt8 × List UInt8)) (front tail : List UInt8) :
    (sliceHeaders front.length headers).map (fun header =>
      (header.name.bytes (front ++ (headers.flatMap headerLine ++ tail)),
        header.value.bytes (front ++ (headers.flatMap headerLine ++ tail)))) = headers := by
  induction headers generalizing front with
  | nil => rfl
  | cons header headers ih =>
    have atName : front ++ ((header :: headers).flatMap headerLine ++ tail) =
        front ++ (header.1 ++ 58 :: (header.2 ++ (crlf ++ (headers.flatMap headerLine ++ tail)))) := by
      simp only [List.flatMap_cons, headerLine, List.append_assoc, List.cons_append]
    have atValue : front ++ ((header :: headers).flatMap headerLine ++ tail) =
        (front ++ header.1 ++ [58]) ++ (header.2 ++ (crlf ++ (headers.flatMap headerLine ++ tail))) := by
      simp only [List.flatMap_cons, headerLine, List.append_assoc, List.cons_append, List.nil_append]
    have atRest : front ++ ((header :: headers).flatMap headerLine ++ tail) =
        (front ++ headerLine header) ++ (headers.flatMap headerLine ++ tail) := by
      simp only [List.flatMap_cons, List.append_assoc]
    have position : front.length + header.1.length + 1 = (front ++ header.1 ++ [58]).length := by
      simp only [List.length_append, List.length_singleton]
    have others := ih (front ++ headerLine header)
    rw [List.length_append, ← atRest] at others
    rw [sliceHeaders, List.map_cons, others]
    congr 1
    refine Prod.ext ?_ ?_
    · rw [atName]
      exact slice_bytes _ _ _
    · rw [atValue, position]
      exact slice_bytes _ _ _

end Slices

/-- A head that is accepted is held by the request. -/
theorem parseRequestHead_bytes {head : Head} (ok : head.Ok) (rest : List UInt8) :
    ∃ r, parseRequestHead (head.bytes ++ rest) = some (.ok r) ∧ head.HeldBy (head.bytes ++ rest) r := by
  have ran := runRequestHead_bytes ok rest
  refine ⟨_, by rw [parseRequestHead, ran]; rfl, rfl, ?_, rfl, rfl, ?_⟩
  · have shape : head.bytes ++ rest = (head.m.name ++ [32]) ++ (head.path ++ (32 ::
        (versionText head.major head.minor ++ (crlf ++ (head.headers.flatMap headerLine ++
          (crlf ++ rest)))))) := by
      simp only [Head.bytes, Head.requestLine, List.append_assoc, List.cons_append, List.nil_append]
    have position : head.m.name.length + 1 = (head.m.name ++ [32]).length := by
      rw [List.length_append, List.length_singleton]
    rw [Head.pathSlice, position, shape]
    exact slice_bytes _ _ _
  · have shape : head.bytes ++ rest = (head.requestLine ++ crlf) ++
        (head.headers.flatMap headerLine ++ (crlf ++ rest)) := by
      simp only [Head.bytes, List.append_assoc]
    rw [Head.kept, List.map_take, shape, sliceHeaders_read]

/-- What is accepted is a head, with anything behind it. -/
theorem parseRequestHead_ok {src : List UInt8} {r : Request}
    (parsed : parseRequestHead src = some (.ok r)) :
    ∃ (head : Head) (rest : List UInt8), head.Ok ∧ src = head.bytes ++ rest ∧ head.HeldBy src r := by
  rw [parseRequestHead] at parsed
  cases outcome src with
  | head head rest ok shape =>
    obtain ⟨other, again, held⟩ := parseRequestHead_bytes ok rest
    rw [← shape, parseRequestHead, parsed] at again
    cases again
    exact ⟨head, rest, ok, shape, shape ▸ held⟩
  | badHeader head tail ok shape ran =>
    rw [ran] at parsed
    cases parsed
  | refused parse ran noHeaders notOk path =>
    rw [ran] at parsed
    exact absurd (Option.some.inj parsed) (notOk r)
  | endsInVersion cut =>
    rw [runRequestHead_endsInVersion cut] at parsed
    cases parsed
  | endsInValue cut =>
    rw [runRequestHead_endsInValue cut] at parsed
    cases parsed

/-! ### Where the head ends -/

/-- What is found is the first occurrence. -/
theorem find_first {needle front rest : List UInt8} {i : Nat}
    (found : find (front ++ (needle ++ rest)) needle = some i) : i ≤ front.length := by
  obtain ⟨-, -, first⟩ := find_eq_some_iff.mp found
  apply Nat.le_of_not_lt
  intro behind
  apply first front.length behind
  rw [List.drop_left]
  exact List.prefix_append _ _

theorem headEnd_eq : headEnd = crlf ++ crlf := by decide +kernel

/-- The lines of a head end with the end of a line. -/
theorem Head.start_eq (head : Head) : ∃ front, head.start = front ++ crlf := by
  rcases List.eq_nil_or_concat head.headers with none | ⟨headers, last, some⟩
  · exact ⟨head.requestLine, by rw [Head.start, none, List.flatMap_nil, List.append_nil]⟩
  · refine ⟨head.requestLine ++ crlf ++ headers.flatMap headerLine ++ last.1 ++ 58 :: last.2, ?_⟩
    simp only [Head.start, some, List.concat_eq_append, List.flatMap_append, List.flatMap_cons,
      List.flatMap_nil, headerLine, List.append_assoc, List.append_nil, List.cons_append]

/-- Nothing follows a head that is accepted from what the server has cut off. -/
theorem cut_behind_head {input rest : List UInt8} {i : Nat} (found : find input headEnd = some i)
    {head : Head} (shape : input.take (i + 4) = head.bytes ++ rest) : rest = [] := by
  obtain ⟨front, ends⟩ := head.start_eq
  have inside := find_inside found
  have four : headEnd.length = 4 := by decide +kernel
  have whole : input = front ++ (headEnd ++ (rest ++ input.drop (i + 4))) := calc
    input = input.take (i + 4) ++ input.drop (i + 4) := (List.take_append_drop ..).symm
    _ = front ++ (headEnd ++ (rest ++ input.drop (i + 4))) := by
      rw [shape, headEnd_eq, Head.bytes, ← Head.start, ends]
      simp only [List.append_assoc]
  have first : i ≤ front.length := by
    rw [whole] at found
    exact find_first found
  have lengths := congrArg List.length shape
  rw [List.length_take, Head.bytes, ← Head.start, ends] at lengths
  simp only [List.length_append, crlf, List.length_cons, List.length_nil] at lengths
  apply List.eq_nil_of_length_eq_zero
  omega

/-- The parser and the framing agree. Of what the server cuts off behind the first empty line,
the parser accepts exactly the heads; it then ends where the server has cut, and the request
holds what the head says. -/
theorem framed_head_accepted_iff {input : List UInt8} {i : Nat}
    (found : find input headEnd = some i) :
    ((∃ r, parseRequestHead (input.take (i + 4)) = some (.ok r)) ↔
        ∃ head : Head, head.Ok ∧ input.take (i + 4) = head.bytes) ∧
      ∀ r, parseRequestHead (input.take (i + 4)) = some (.ok r) →
        (runRequestHead (input.take (i + 4))).map Parse.cur = some (some (i + 4)) ∧
          ∀ head : Head, head.Ok → input.take (i + 4) = head.bytes →
            head.HeldBy (input.take (i + 4)) r := by
  have formed : ∀ r, parseRequestHead (input.take (i + 4)) = some (.ok r) →
      ∃ head : Head, head.Ok ∧ input.take (i + 4) = head.bytes := by
    intro r parsed
    obtain ⟨head, rest, ok, shape, -⟩ := parseRequestHead_ok parsed
    have nothing := cut_behind_head found shape
    rw [nothing, List.append_nil] at shape
    exact ⟨head, ok, shape⟩
  have accepted : ∀ head : Head, head.Ok → input.take (i + 4) = head.bytes →
      (∃ r, parseRequestHead (input.take (i + 4)) = some (.ok r) ∧
        head.HeldBy (input.take (i + 4)) r) ∧
      runRequestHead (input.take (i + 4)) = some (head.parse (some head.bytes.length, head.kept)) := by
    intro head ok shape
    have held := parseRequestHead_bytes ok []
    have ran := runRequestHead_bytes ok []
    rw [List.append_nil, ← shape] at held ran
    exact ⟨held, by rwa [← shape]⟩
  refine ⟨⟨fun ⟨r, parsed⟩ => formed r parsed, ?_⟩, fun r parsed => ⟨?_, ?_⟩⟩
  · rintro ⟨head, ok, shape⟩
    obtain ⟨⟨r, parsed, -⟩, -⟩ := accepted head ok shape
    exact ⟨r, parsed⟩
  · obtain ⟨head, ok, shape⟩ := formed r parsed
    obtain ⟨-, ran⟩ := accepted head ok shape
    have inside := find_inside found
    have four : headEnd.length = 4 := by decide +kernel
    rw [ran, ← shape, List.length_take, Nat.min_eq_left (by omega)]
    rfl
  · intro head ok shape
    obtain ⟨⟨other, again, held⟩, -⟩ := accepted head ok shape
    rw [parsed] at again
    cases again
    exact held

/-- A request with one header and the start of its body, and a head whose only line is no
header. -/
theorem framed_head_accepted_iff_applies :
    (∃ r, parseRequestHead ((ascii "POST /a HTTP/1.1\r\nHost: b\r\n\r\nbody").take 29) = some (.ok r)) ∧
      ¬ ∃ head : Head, head.Ok ∧ (ascii "GET / HTTP/1.0\r\nHost\r\n\r\n").take 24 = head.bytes := by
  have first : find (ascii "POST /a HTTP/1.1\r\nHost: b\r\n\r\nbody") headEnd = some 25 := by
    decide +kernel
  have second : find (ascii "GET / HTTP/1.0\r\nHost\r\n\r\n") headEnd = some 20 := by decide +kernel
  constructor
  · apply (framed_head_accepted_iff first).1.mpr
    exact ⟨⟨.post, ascii "/a", 49, some 49, [(ascii "Host", ascii " b")]⟩, by decide +kernel,
      by decide +kernel⟩
  · intro formed
    obtain ⟨r, parsed⟩ := (framed_head_accepted_iff second).1.mpr formed
    have refused : parseRequestHead ((ascii "GET / HTTP/1.0\r\nHost\r\n\r\n").take 24) =
        some .badHeader := by decide +kernel
    rw [refused] at parsed
    cases parsed

end Mysnips.HttpParse

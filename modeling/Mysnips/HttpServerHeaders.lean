import Mysnips.CrlfLines
import Mysnips.HttpFields
import Mysnips.HttpServerClients
import Mysnips.HttpServerResponse

/-! The head of a response. `append_special_headers` writes the `Content-Length` and the
`Connection` of a response, and `http_server_append_header` is there to keep the program
from writing them too. It compares the whole text with the names of the two fields, so
that no field is ever held back: the head is framed by the server alone exactly when the
program leaves it alone. -/
namespace Mysnips.HttpServer
open HttpParse CrlfLines Transition
open Memory (ascii)

/-! ## Texts -/

private theorem byteArray_toList (b : ByteArray) : b.toList = b.data.toList := by
  have loop : ∀ i acc, ByteArray.toList.loop b i acc = acc.reverse ++ b.data.toList.drop i := by
    intro i acc
    fun_induction ByteArray.toList.loop b i acc with
    | case1 i acc inside ih =>
      have bound : i < b.data.toList.length := by simpa using inside
      have byte : b.get! i = b.data.toList[i] := getElem!_pos b.data i inside
      rw [ih, List.drop_eq_getElem_cons bound, List.reverse_cons, List.append_assoc, byte]
      rfl
    | case2 i acc outside =>
      rw [List.drop_eq_nil_of_le (by simpa using outside), List.append_nil]
  exact loop 0 []

private theorem ascii_append (a b : String) : ascii (a ++ b) = ascii a ++ ascii b := by
  simp [ascii, byteArray_toList, String.toUTF8]

private theorem ascii_eq (text : String) : ascii text = text.toList.flatMap String.utf8EncodeChar := by
  rw [ascii, byteArray_toList]
  simp [String.toUTF8, ← String.utf8Encode_toList, List.utf8Encode]

/-- Digits are written without an end of a line. -/
private theorem number_plain (n : Nat) : 13 ∉ ascii (toString n) := by
  rw [ascii_eq]
  intro member
  obtain ⟨c, inside, byte⟩ := List.mem_flatMap.mp member
  have digit : c.isDigit := by
    rw [show toString n = n.repr from rfl, Nat.toList_repr] at inside
    exact Nat.isDigit_of_mem_toDigits (by decide) (by decide) inside
  have bounds : 48 ≤ c.val.toNat ∧ c.val.toNat ≤ 57 := by
    simpa [Char.isDigit, UInt32.le_iff_toNat_le] using digit
  rw [String.utf8EncodeChar, if_pos (by omega), List.mem_singleton] at byte
  have same : 13 = c.val.toNat % 256 := congrArg UInt8.toNat byte
  omega

private theorem integer_plain (n : Int) : 13 ∉ ascii (toString n) := by
  cases n with
  | ofNat n => exact number_plain n
  | negSucc n =>
    rw [show toString (Int.negSucc n) = "-" ++ toString (n + 1) from rfl, ascii_append]
    refine List.not_mem_append ?_ (number_plain (n + 1))
    decide +kernel

private theorem reasonPhrase_plain (status : Int) : 13 ∉ ascii (reasonPhrase status) := by
  unfold reasonPhrase
  split <;> decide +kernel

/-! ## The check of the names -/

/-- `http_server_parse_header` finds a field in every text with a colon; its name is the
whole text. -/
theorem parseHeader_eq (text : List UInt8) :
    parseHeader text = if 58 ∈ text then some (text, fieldValue text) else none := by
  have name : text.takeWhile (· != ':'.toUInt8) = fieldName text := by
    rw [fieldName]
    congr 1
    funext c
    rw [Bool.eq_iff_iff, bne_iff_ne, decide_eq_true_iff]
    rfl
  rw [parseHeader, name]
  split
  · rename_i whole
    rw [if_neg]
    intro colon
    have longer := congrArg List.length (field_eq colon)
    rw [List.length_append, List.length_cons] at longer
    omega
  · rename_i cut
    rw [if_pos, fieldValue]
    by_contra absent
    refine cut (congrArg List.length (List.takeWhile_eq_self_iff.mpr (fun c member => ?_)))
    have other : c ≠ 58 := fun same => absent (same ▸ member)
    simpa using other

/-- `malloc` gives every size. -/
def Plenty (alloc : Nat → Bool) : Prop := ∀ n, alloc n = true

private theorem ensureFreeSpace_plenty {alloc : Nat → Bool} {b : IoBuf} {min : Nat}
    (plenty : Plenty alloc) : ensureFreeSpace alloc b min ≠ none := by
  unfold ensureFreeSpace
  split
  · simp [plenty 512]
  · split
    · simp [plenty _]
    · simp

private theorem appendOutput_plenty {alloc : Nat → Bool} {s s' : Server} {ci : Nat} {data : List UInt8}
    (plenty : Plenty alloc) (ran : appendOutput alloc s ci data = .ok (false, s')) : False := by
  unfold appendOutput at ran
  split at ran
  · cases ran
  · simp only at ran
    split at ran
    · rename_i refused
      exact ensureFreeSpace_plenty plenty refused
    · obtain ⟨m, -, rest⟩ := bind_ok ran
      split at rest <;> cases rest

/-- What `http_server_append_header` does to a client in `C_HEADER`. No text with a colon
is taken for a `Content-Length` or a `Connection`. -/
theorem appendHeader_cases {max handle ci : Nat} {alloc : Nat → Bool} {s s' : Server}
    {text : List UInt8} (found : clientFromHandle s handle = some ci)
    (was : (s.cs ci).state = .header) (ran : appendHeader max alloc s handle text = .ok s') :
    (s' = s ∧ (58 ∈ text → ¬ Plenty alloc)) ∨
      (∃ s₁, Appended ci text s s₁ ∧ closeClient max s₁ ci = .ok s') ∨
      (58 ∈ text ∧ ∃ s₁ s₂, Appended ci text s s₁ ∧ Appended ci (ascii "\r\n") s₁ s₂ ∧
        s' = s₂.record (.built ci (.header text))) := by
  by_cases colon : 58 ∈ text
  · have other : ∀ name : List UInt8, 58 ∉ name → matchHeaderName text name = false := by
      intro name plain
      rw [Bool.eq_false_iff, Ne, matchHeaderName_iff]
      rintro rfl
      exact plain colon
    simp only [appendHeader, found, was, parseHeader_eq, colon, ne_eq, not_true_eq_false, if_true,
      other (ascii "Content-Length") (by decide +kernel),
      other (ascii "Connection") (by decide +kernel), Bool.false_eq_true, if_false] at ran
    obtain ⟨⟨ok, s₁⟩, written, rest⟩ := bind_ok ran
    rcases appendOutput_cases written with ⟨rfl, rfl⟩ | ⟨rfl, appended⟩
    · cases rest
      exact .inl ⟨rfl, fun _ plenty => appendOutput_plenty plenty written⟩
    · obtain ⟨⟨ok, s₂⟩, written', rest'⟩ := bind_ok rest
      rcases appendOutput_cases written' with ⟨rfl, rfl⟩ | ⟨rfl, appended'⟩
      · exact .inr (.inl ⟨s₂, appended, rest'⟩)
      · cases rest'
        exact .inr (.inr ⟨colon, s₁, s₂, appended, appended', rfl⟩)
  · simp only [appendHeader, found, was, parseHeader_eq, colon, ne_eq, not_true_eq_false,
      if_false] at ran
    cases ran
    exact .inl ⟨rfl, fun inside => absurd inside colon⟩

/-! ## Answers -/

/-- What the program hands to a call, and the sizes that `malloc` gives during it. -/
structure Write where
  bytes : List UInt8
  alloc : Nat → Bool

/-- A call that appends to the body. -/
inductive BodyCall where
  | plain (write : Write)
  | format (write : Write)

namespace BodyCall

def bytes : BodyCall → List UInt8
  | plain write => write.bytes
  | format write => write.bytes

def run (max handle : Nat) (s : Server) : BodyCall → Except Fault Server
  | plain write => appendContent max write.alloc s handle write.bytes
  | format write => appendContentFormat max write.alloc s handle write.bytes

end BodyCall

/-- The calls that answer a request. -/
structure Answer where
  status : Int
  statusAlloc : Nat → Bool
  headers : List Write
  contents : List BodyCall
  sendAlloc : Nat → Bool

namespace Answer

def texts (answer : Answer) : List (List UInt8) := answer.headers.map (·.bytes)

def body (answer : Answer) : List UInt8 := answer.contents.flatMap (·.bytes)

/-- The status, the fields, the body and the end of a response. -/
def run (max handle : Nat) (s : Server) (answer : Answer) : Except Fault Server := do
  let s ← setStatus max answer.statusAlloc s handle answer.status
  let s ← answer.headers.foldlM (fun s write => appendHeader max write.alloc s handle write.bytes) s
  let s ← answer.contents.foldlM (fun s call => call.run max handle s) s
  sendResponse max answer.sendAlloc s handle

end Answer

/-- The handle leads nowhere any more, and no response was completed last. -/
def Lost (handle ci : Nat) (s : Server) : Prop :=
  clientFromHandle s handle = none ∧ s.log.getLast? ≠ some (.completed ci)

/-- The client behind the handle has a head that is not finished. -/
structure Heading (handle ci minor : Nat) (output : List UInt8) (s : Server) : Prop where
  found : clientFromHandle s handle = some ci
  state : (s.cs ci).state = .header
  minor : (s.cs ci).minor = minor
  output : (s.cs ci).output.bytes = output

/-- The client behind the handle has a finished head, with blanks for the length, and a
part of its body. -/
structure Filling (handle ci : Nat) (settled body : List UInt8) (s : Server) : Prop where
  found : clientFromHandle s handle = some ci
  state : (s.cs ci).state = .content
  output : (s.cs ci).output.bytes = settled ++ (blanks ++ ascii "\r\n") ++ body
  place : (s.cs ci).contentLengthOffset = settled.length

/-- A handle keeps its client while the table and the generation stay. -/
theorem found_touch {handle ci : Nat} {events : List Event} {s s' : Server}
    (found : clientFromHandle s handle = some ci) (touch : Touch ci events s s')
    (gen : (s'.cs ci).gen = (s.cs ci).gen) : clientFromHandle s' handle = some ci := by
  obtain ⟨slot, inside, same⟩ := clientFromHandle_iff.mp found
  exact clientFromHandle_iff.mpr ⟨slot, by rw [touch.ncs]; exact inside, gen.trans same⟩

private theorem invalidateHandles_ne {gen : Nat} (small : gen < 2 ^ 16) :
    invalidateHandles gen ≠ gen := by
  unfold invalidateHandles
  simp only
  split <;> omega

theorem closeClient_lost {max handle ci : Nat} {s s' : Server}
    (found : clientFromHandle s handle = some ci) (done : closeClient max s ci = .ok s') :
    Lost handle ci s' := by
  obtain ⟨pi, closing⟩ := closeClient_closing done
  constructor
  · obtain ⟨slot, -, packed⟩ := clientFromHandle_iff.mp found
    rw [Option.eq_none_iff_forall_ne_some]
    intro cj still
    obtain ⟨slot', -, packed'⟩ := clientFromHandle_iff.mp still
    obtain rfl : ci = cj := slot.symm.trans slot'
    have small : (s.cs ci).gen < 2 ^ 16 := by
      rw [packed]
      exact Nat.lt_succ_of_le Nat.and_le_right
    refine invalidateHandles_ne small ?_
    rw [← closing.gen, packed', packed]
  · rw [closing.log]
    simp

theorem LostInHead.lost {max handle ci : Nat} {s s' : Server}
    (found : clientFromHandle s handle = some ci) (lost : LostInHead max ci s s') :
    Lost handle ci s' := by
  obtain ⟨s₁, drift, done⟩ := lost
  exact closeClient_lost (found_touch found drift.touch drift.gen) done

theorem Appended.found {handle ci : Nat} {data : List UInt8} {s s' : Server}
    (appended : Appended ci data s s') (found : clientFromHandle s handle = some ci) :
    clientFromHandle s' handle = some ci :=
  found_touch found appended.touch appended.drift.gen

/-! ### The fields -/

private theorem setStatus_heading {max handle ci : Nat} {alloc : Nat → Bool} {s s' : Server}
    {status : Int} (found : clientFromHandle s handle = some ci) (was : (s.cs ci).state = .status)
    (ran : setStatus max alloc s handle status = .ok s') :
    Lost handle ci s' ∨ Heading handle ci (s.cs ci).minor
      ((s.cs ci).output.bytes ++ statusText (s.cs ci).minor status) s' := by
  rcases setStatus_cases found was ran with closed | ⟨s₁, appended, rfl⟩
  · exact .inl (closeClient_lost found closed)
  · obtain ⟨output, same, grown⟩ := appended.output
    have found₁ := clientFromHandle_iff.mp (appended.found found)
    refine .inr ⟨clientFromHandle_iff.mpr ?_, by simp, by simp [same], by simp [same, grown]⟩
    simpa using found₁

private theorem Heading.header {max handle ci minor : Nat} {alloc : Nat → Bool} {s s' : Server}
    {output text : List UInt8} (heading : Heading handle ci minor output s)
    (ran : appendHeader max alloc s handle text = .ok s') :
    Lost handle ci s' ∨ (Heading handle ci minor output s' ∧ (58 ∈ text → ¬ Plenty alloc)) ∨
      (58 ∈ text ∧ Heading handle ci minor (output ++ (text ++ crlf)) s') := by
  rcases appendHeader_cases heading.found heading.state ran with ⟨rfl, refused⟩ |
    ⟨s₁, appended, closed⟩ | ⟨colon, s₁, s₂, appended₁, appended₂, rfl⟩
  · exact .inr (.inl ⟨heading, refused⟩)
  · exact .inl (closeClient_lost (appended.found heading.found) closed)
  · obtain ⟨output₁, same₁, grown₁⟩ := appended₁.output
    obtain ⟨output₂, same₂, grown₂⟩ := appended₂.output
    have found₂ := appended₂.found (appended₁.found heading.found)
    rw [same₁] at same₂ grown₂
    refine .inr (.inr ⟨colon, found₂, ?_, ?_, ?_⟩)
    · simp [same₂, heading.state]
    · simp [same₂, heading.minor]
    · simp only [Server.record_cs, same₂, grown₂, grown₁, heading.output, List.append_assoc,
        ascii_crlf]

/-- The fields that are written: texts with a colon, and all of them where `malloc` does
not fail. -/
structure Accepted (writes : List Write) (texts : List (List UInt8)) : Prop where
  some : texts.Sublist ((writes.map (·.bytes)).filter (58 ∈ ·))
  all : (∀ write ∈ writes, Plenty write.alloc) → texts = (writes.map (·.bytes)).filter (58 ∈ ·)

private theorem Accepted.nil : Accepted [] [] := ⟨.slnil, fun _ => rfl⟩

private theorem Accepted.drop {write : Write} {writes : List Write} {texts : List (List UInt8)}
    (accepted : Accepted writes texts) (refused : 58 ∈ write.bytes → ¬ Plenty write.alloc) :
    Accepted (write :: writes) texts := by
  constructor
  · refine accepted.some.trans ?_
    rw [List.map_cons]
    exact (List.sublist_cons_self ..).filter _
  · intro plenty
    have absent : 58 ∉ write.bytes := fun colon => refused colon (plenty write List.mem_cons_self)
    rw [List.map_cons, List.filter_cons_of_neg (by simpa using absent)]
    exact accepted.all (fun other member => plenty other (List.mem_cons_of_mem _ member))

private theorem Accepted.keep {write : Write} {writes : List Write} {texts : List (List UInt8)}
    (accepted : Accepted writes texts) (colon : 58 ∈ write.bytes) :
    Accepted (write :: writes) (write.bytes :: texts) := by
  have kept : ((write :: writes).map (·.bytes)).filter (58 ∈ ·) =
      write.bytes :: (writes.map (·.bytes)).filter (58 ∈ ·) := by
    rw [List.map_cons, List.filter_cons_of_pos (by simpa using colon)]
  constructor
  · rw [kept]
    exact accepted.some.cons_cons _
  · intro plenty
    rw [kept, accepted.all (fun other member => plenty other (List.mem_cons_of_mem _ member))]

private theorem lost_headers {max handle ci : Nat} {writes : List Write} {s s' : Server}
    (lost : Lost handle ci s)
    (ran : writes.foldlM (fun s write => appendHeader max write.alloc s handle write.bytes) s =
      .ok s') : s' = s := by
  induction writes with
  | nil =>
    cases ran
    rfl
  | cons write writes ih =>
    obtain ⟨s₁, first, rest⟩ := bind_ok ran
    simp only [appendHeader, lost.1] at first
    cases first
    exact ih rest

/-- The fields of an answer, one call after the other. -/
private theorem Heading.headers {max handle ci minor : Nat} {writes : List Write} {s s' : Server}
    {output : List UInt8} (heading : Heading handle ci minor output s)
    (ran : writes.foldlM (fun s write => appendHeader max write.alloc s handle write.bytes) s =
      .ok s') :
    Lost handle ci s' ∨ ∃ texts, Accepted writes texts ∧
      Heading handle ci minor (output ++ texts.flatMap (· ++ crlf)) s' := by
  induction writes generalizing s output with
  | nil =>
    cases ran
    refine .inr ⟨[], .nil, ?_⟩
    rw [List.flatMap_nil, List.append_nil]
    exact heading
  | cons write writes ih =>
    obtain ⟨s₁, first, rest⟩ := bind_ok ran
    rcases heading.header first with lost | ⟨heading₁, refused⟩ | ⟨colon, heading₁⟩
    · obtain rfl := lost_headers lost rest
      exact .inl lost
    · rcases ih heading₁ rest with lost | ⟨texts, accepted, last⟩
      · exact .inl lost
      · exact .inr ⟨texts, accepted.drop refused, last⟩
    · rcases ih heading₁ rest with lost | ⟨texts, accepted, last⟩
      · exact .inl lost
      · refine .inr ⟨write.bytes :: texts, accepted.keep colon, ?_⟩
        rw [List.flatMap_cons, ← List.append_assoc]
        exact last

/-! ### The body -/

private theorem BodyCall.cases {max handle ci : Nat} {call : BodyCall} {s s' : Server}
    (found : clientFromHandle s handle = some ci)
    (was : (s.cs ci).state = .header ∨ (s.cs ci).state = .content)
    (ran : call.run max handle s = .ok s') :
    ((s.cs ci).state = .header ∧ LostInHead max ci s s') ∨
      ∃ s₁, HeadReady ci s s₁ ∧ (closeClient max s₁ ci = .ok s' ∨
        ∃ s₂, Appended ci call.bytes s₁ s₂ ∧ s' = s₂.record (.built ci (.content call.bytes))) := by
  cases call with
  | plain write => exact appendBody_cases appendOutput_cases found was ran
  | format write => exact appendBody_cases appendOutputFormat_cases found was ran

private theorem Filling.append {handle ci : Nat} {settled body data : List UInt8} {s s' : Server}
    (filling : Filling handle ci settled body s) (appended : Appended ci data s s') :
    Filling handle ci settled (body ++ data) (s'.record (.built ci (.content data))) := by
  obtain ⟨output, same, grown⟩ := appended.output
  refine ⟨appended.found filling.found, ?_, ?_, ?_⟩
  · simp [same, filling.state]
  · simp [same, grown, filling.output]
  · simp [same, filling.place]

private theorem HeadFinished.filling {handle ci minor : Nat} {keep : Bool} {output : List UInt8}
    {s s' : Server} (heading : Heading handle ci minor output s) (finished : HeadFinished ci keep s s') :
    Filling handle ci (output ++ specialHeaders minor keep) [] s' := by
  obtain ⟨output', grown, same⟩ := finished.client
  rw [heading.minor, heading.output] at grown same
  refine ⟨found_touch heading.found finished.touch (by rw [same]), ?_, ?_, ?_⟩
  · rw [same]
  · rw [same, List.append_nil]
    exact grown
  · rw [same]

private theorem Heading.body {max handle ci minor : Nat} {call : BodyCall} {output : List UInt8}
    {s s' : Server} (heading : Heading handle ci minor output s)
    (ran : call.run max handle s = .ok s') :
    Lost handle ci s' ∨
      ∃ keep, Filling handle ci (output ++ specialHeaders minor keep) call.bytes s' := by
  rcases BodyCall.cases heading.found (.inl heading.state) ran with ⟨-, lost⟩ | ⟨s₁, ready, rest⟩
  · exact .inl (lost.lost heading.found)
  · rcases ready with ⟨-, keep, finished⟩ | ⟨was, -⟩
    · have filling := finished.filling heading
      rcases rest with closed | ⟨s₂, appended, rfl⟩
      · exact .inl (closeClient_lost filling.found closed)
      · exact .inr ⟨keep, filling.append appended⟩
    · rw [heading.state] at was
      cases was

private theorem Filling.body {max handle ci : Nat} {call : BodyCall} {settled body : List UInt8}
    {s s' : Server} (filling : Filling handle ci settled body s)
    (ran : call.run max handle s = .ok s') :
    Lost handle ci s' ∨ Filling handle ci settled (body ++ call.bytes) s' := by
  rcases BodyCall.cases filling.found (.inr filling.state) ran with ⟨was, -⟩ | ⟨s₁, ready, rest⟩
  · rw [filling.state] at was
    cases was
  · rcases ready with ⟨was, -⟩ | ⟨-, rfl⟩
    · rw [filling.state] at was
      cases was
    · rcases rest with closed | ⟨s₂, appended, rfl⟩
      · exact .inl (closeClient_lost filling.found closed)
      · exact .inr (filling.append appended)

private theorem lost_contents {max handle ci : Nat} {calls : List BodyCall} {s s' : Server}
    (lost : Lost handle ci s)
    (ran : calls.foldlM (fun s call => call.run max handle s) s = .ok s') : s' = s := by
  induction calls with
  | nil =>
    cases ran
    rfl
  | cons call calls ih =>
    obtain ⟨s₁, first, rest⟩ := bind_ok ran
    have same : s₁ = s := by
      cases call <;>
      · simp only [BodyCall.run, appendContent, appendContentFormat, appendBody, lost.1] at first
        cases first
        rfl
    rw [same] at rest
    exact ih rest

private theorem Filling.contents {max handle ci : Nat} {calls : List BodyCall}
    {settled body : List UInt8} {s s' : Server} (filling : Filling handle ci settled body s)
    (ran : calls.foldlM (fun s call => call.run max handle s) s = .ok s') :
    Lost handle ci s' ∨ Filling handle ci settled (body ++ calls.flatMap (·.bytes)) s' := by
  induction calls generalizing s body with
  | nil =>
    cases ran
    rw [List.flatMap_nil, List.append_nil]
    exact .inr filling
  | cons call calls ih =>
    obtain ⟨s₁, first, rest⟩ := bind_ok ran
    rcases filling.body first with lost | filling₁
    · obtain rfl := lost_contents lost rest
      exact .inl lost
    · rw [List.flatMap_cons, ← List.append_assoc]
      exact ih filling₁ rest

/-! ### The end -/

private theorem completed_output {ci : Nat} {c c' : Client}
    (step : ClientStep ci c [.completed ci] c') :
    (formatLong (Machine.sub64 c.output.used c.contentOffset)).length < 10 ∧
      Memory.store c.output.bytes c.contentLengthOffset
        (formatLong (Machine.sub64 c.output.used c.contentOffset)) = some c'.output.bytes := by
  generalize only : [Event.completed ci] = events at step
  cases step with
  | completed input output state keepalive was short stored => exact ⟨short, stored⟩
  | freed _ drift fd =>
    have last := congrArg List.getLast? only
    rw [List.getLast?_concat] at last
    cases last
  | _ => cases only

/-- A response with its head up to the length, and its body. -/
def lengthened (settled digits body : List UInt8) : List UInt8 :=
  settled ++ (digits ++ List.replicate (9 - digits.length) ' '.toUInt8 ++ ascii "\r\n\r\n") ++ body

private theorem Filling.finish {max handle ci : Nat} {settled body : List UInt8} {s s' : Server}
    (filling : Filling handle ci settled body s) (ran : finishResponse max s ci = .ok s') :
    ∃ digits, 13 ∉ digits ∧ (s'.cs ci).output.bytes = lengthened settled digits body := by
  obtain ⟨short, stored⟩ := completed_output
    (finishResponse_micro (clientFromHandle_bound filling.found) filling.state ran).2.1
  rw [filling.output, filling.place] at stored
  exact ⟨_, integer_plain _, store_digits short stored⟩

private theorem Filling.send {max handle ci : Nat} {alloc : Nat → Bool} {settled body : List UInt8}
    {s s' : Server} (filling : Filling handle ci settled body s)
    (ran : sendResponse max alloc s handle = .ok s') :
    ∃ digits, 13 ∉ digits ∧ (s'.cs ci).output.bytes = lengthened settled digits body := by
  have same : sendResponse max alloc s handle = finishResponse max s ci := by
    simp [sendResponse, filling.found, filling.state, bind, Except.bind]
  exact filling.finish (same ▸ ran)

private theorem Lost.send {max handle ci : Nat} {alloc : Nat → Bool} {s s' : Server}
    (lost : Lost handle ci s) (ran : sendResponse max alloc s handle = .ok s') :
    s'.log.getLast? ≠ some (.completed ci) := by
  simp only [sendResponse, lost.1] at ran
  cases ran
  exact lost.2

/-- A response without content is finished first. -/
private theorem Heading.send {max handle ci minor : Nat} {alloc : Nat → Bool} {output : List UInt8}
    {s s' : Server} (heading : Heading handle ci minor output s)
    (ran : sendResponse max alloc s handle = .ok s')
    (emitted : s'.log.getLast? = some (.completed ci)) :
    ∃ keep digits, 13 ∉ digits ∧
      (s'.cs ci).output.bytes = lengthened (output ++ specialHeaders minor keep) digits [] := by
  simp only [sendResponse, heading.found, heading.state, reduceCtorEq, if_false] at ran
  obtain ⟨s₁, same, rest⟩ := bind_ok ran
  cases same
  simp only [heading.found] at rest
  obtain ⟨s₂, content, rest⟩ := bind_ok rest
  simp only [heading.state, if_true] at content
  have appended : (BodyCall.plain ⟨[], alloc⟩).run max handle s = .ok s₂ := content
  rcases heading.body appended with lost | ⟨keep, filling⟩
  · simp only [lost.1] at rest
    cases rest
    exact absurd emitted lost.2
  · simp only [filling.found, filling.state, ne_eq, not_true_eq_false, if_false] at rest
    exact ⟨keep, filling.finish rest⟩

/-- What an answer leaves in the output of its client. -/
private theorem Answer.output {max handle ci : Nat} {answer : Answer} {s s' : Server}
    (found : clientFromHandle s handle = some ci) (was : (s.cs ci).state = .status)
    (ran : answer.run max handle s = .ok s')
    (emitted : s'.log.getLast? = some (.completed ci)) :
    ∃ texts keep digits, Accepted answer.headers texts ∧ 13 ∉ digits ∧
      (s'.cs ci).output.bytes = lengthened ((s.cs ci).output.bytes ++
        statusText (s.cs ci).minor answer.status ++ texts.flatMap (· ++ crlf) ++
          specialHeaders (s.cs ci).minor keep) digits answer.body := by
  obtain ⟨s₁, status, rest₁⟩ := bind_ok ran
  obtain ⟨s₂, headers, rest₂⟩ := bind_ok rest₁
  obtain ⟨s₃, contents, send⟩ := bind_ok rest₂
  rcases setStatus_heading found was status with lost | heading₁
  · obtain rfl := lost_headers lost headers
    obtain rfl := lost_contents lost contents
    exact absurd emitted (lost.send send)
  rcases heading₁.headers headers with lost | ⟨texts, accepted, heading₂⟩
  · obtain rfl := lost_contents lost contents
    exact absurd emitted (lost.send send)
  unfold Answer.body
  cases calls : answer.contents with
  | nil =>
    rw [calls] at contents
    cases contents
    obtain ⟨keep, digits, plain, output⟩ := heading₂.send send emitted
    exact ⟨texts, keep, digits, accepted, plain, output⟩
  | cons call others =>
    rw [calls] at contents
    obtain ⟨s₄, first, rest⟩ := bind_ok contents
    rcases heading₂.body first with lost | ⟨keep, filling⟩
    · obtain rfl := lost_contents lost rest
      exact absurd emitted (lost.send send)
    rcases filling.contents rest with lost | filling
    · exact absurd emitted (lost.send send)
    obtain ⟨digits, plain, output⟩ := filling.send send
    exact ⟨texts, keep, digits, accepted, plain, output⟩

/-! ## Framing -/

/-- The status line without its end. -/
def statusLine (minor : Nat) (status : Int) : List UInt8 :=
  ascii ("HTTP/1." ++ toString minor ++ " " ++ toString status ++ " " ++ reasonPhrase status)

/-- The `Connection` line of `append_special_headers`, without its end. -/
def connectionText (keep : Bool) : List UInt8 :=
  ascii (if keep then "Connection: Keep-Alive" else "Connection: Close")

/-- The `Content-Length` line of `append_special_headers` with the digits of the length. -/
def lengthText (digits : List UInt8) : List UInt8 :=
  ascii "Content-Length: " ++ digits ++ List.replicate (9 - digits.length) ' '.toUInt8

/-- The parts of a response: the texts are the program's, and the decision on the
connection and the digits of the length are the server's. -/
structure Response where
  minor : Nat
  status : Int
  texts : List (List UInt8)
  keep : Bool
  digits : List UInt8
  body : List UInt8
  plain : 13 ∉ digits

namespace Response

/-- The lines that `append_special_headers` writes. -/
def serverLines (response : Response) : List (List UInt8) :=
  (if response.minor = 1 then [connectionText response.keep] else []) ++ [lengthText response.digits]

/-- The texts of a response in their order, each with the end of a line behind it. -/
def parts (response : Response) : List (List UInt8) :=
  (statusLine response.minor response.status :: response.texts) ++ response.serverLines

def bytes (response : Response) : List UInt8 :=
  response.parts.flatMap (· ++ crlf) ++ crlf ++ response.body

end Response

/-- The last `Connection` among the texts has the value `Close`, up to case and the white
space around it. -/
def LastCloses (texts : List (List UInt8)) : Prop :=
  ∃ text, (texts.filter (isNamed (ascii "Connection"))).getLast? = some text ∧
    (strip (fieldValue text)).map lowerCase = ascii "close"

/-- The framing of a response is the server's own: its head ends before its body, the
only `Content-Length` and, in HTTP/1.1, the only `Connection` are the lines of
`append_special_headers`, and the connection is not kept where the last `Connection`
that the program offered asks for its end. -/
structure Response.OwnFraming (response : Response) (offered : List (List UInt8)) : Prop where
  ends : EndsBefore response.bytes response.body
  length : (head response.bytes).filter (isNamed (ascii "Content-Length")) =
    [lengthText response.digits]
  connection : response.minor = 1 →
    (head response.bytes).filter (isNamed (ascii "Connection")) = [connectionText response.keep]
  close : response.minor = 1 → LastCloses offered → response.keep = false

/-- A line that does not touch the framing: it is not empty, not a `Content-Length` and, in
HTTP/1.1, not a `Connection`. -/
def LeavesFraming (minor : Nat) (line : List UInt8) : Prop :=
  line ≠ [] ∧ isNamed (ascii "Content-Length") line = false ∧
    (minor = 1 → isNamed (ascii "Connection") line = false)

instance (minor : Nat) (line : List UInt8) : Decidable (LeavesFraming minor line) :=
  inferInstanceAs (Decidable (_ ∧ _ ∧ _))

private theorem statusText_eq (minor : Nat) (status : Int) :
    statusText minor status = statusLine minor status ++ crlf := by
  rw [statusText, ascii_append, ascii_crlf, statusLine]

private theorem statusLine_eq (minor : Nat) (status : Int) :
    ∃ rest, statusLine minor status = 72 :: rest ∧ 13 ∉ statusLine minor status := by
  have start : ascii "HTTP/1." = 72 :: [84, 84, 80, 47, 49, 46] := by decide +kernel
  have blank : ascii " " = [32] := by decide +kernel
  simp only [statusLine, ascii_append, start, blank, List.cons_append]
  refine ⟨_, rfl, ?_⟩
  simp only [List.mem_cons, List.mem_append, number_plain, integer_plain, reasonPhrase_plain]
  decide

/-- The status line is not a field of the framing. -/
private theorem statusLine_unnamed (minor : Nat) (status : Int) {name : List UInt8}
    (other : (name.map lowerCase).head? ≠ some 104) :
    isNamed name (statusLine minor status) = false := by
  obtain ⟨rest, start, -⟩ := statusLine_eq minor status
  rw [start, Bool.eq_false_iff]
  intro named
  have same : (fieldName (72 :: rest)).map lowerCase = name.map lowerCase := by
    simpa using (Bool.and_eq_true_iff.mp named).2
  rw [← same] at other
  exact other rfl

private theorem lengthText_field (digits : List UInt8) : lengthText digits =
    ascii "Content-Length" ++
      58 :: (32 :: digits ++ List.replicate (9 - digits.length) ' '.toUInt8) := by
  rw [lengthText,
    show ascii "Content-Length: " = ascii "Content-Length" ++ [58, 32] by decide +kernel]
  simp

namespace Response

private theorem serverLines_bytes (response : Response) :
    specialHeaders response.minor response.keep ++ response.digits ++
        List.replicate (9 - response.digits.length) ' '.toUInt8 ++ ascii "\r\n\r\n" =
      response.serverLines.flatMap (· ++ crlf) ++ crlf := by
  have connection : connectionLine response.keep = connectionText response.keep ++ crlf := by
    cases response.keep <;> decide +kernel
  have blank : ascii "\r\n\r\n" = crlf ++ crlf := by decide +kernel
  rw [blank, serverLines, specialHeaders]
  by_cases modern : response.minor = 1
  · simp [modern, connection, lengthText]
  · simp [modern, lengthText]

/-- Which lines of the server are a `Content-Length` and a `Connection`. -/
private theorem serverLines_named (response : Response) :
    response.serverLines.filter (isNamed (ascii "Content-Length")) = [lengthText response.digits] ∧
      (response.minor = 1 → response.serverLines.filter (isNamed (ascii "Connection")) =
        [connectionText response.keep]) := by
  have own : isNamed (ascii "Content-Length") (lengthText response.digits) = true := by
    rw [lengthText_field, isNamed_field (by decide +kernel), beq_self_eq_true]
  have other : isNamed (ascii "Connection") (lengthText response.digits) = false := by
    rw [lengthText_field, isNamed_field (by decide +kernel)]
    decide +kernel
  have own' : isNamed (ascii "Connection") (connectionText response.keep) = true := by
    cases response.keep <;> decide +kernel
  have other' : isNamed (ascii "Content-Length") (connectionText response.keep) = false := by
    cases response.keep <;> decide +kernel
  constructor
  · by_cases modern : response.minor = 1
    · simp [serverLines, modern, own, other']
    · simp [serverLines, modern, own]
  · intro modern
    simp [serverLines, modern, own', other]

private theorem serverLines_plain (response : Response) :
    ∀ line ∈ response.serverLines, 13 ∉ line ∧ line ≠ [] := by
  have connection : 13 ∉ connectionText response.keep ∧ connectionText response.keep ≠ [] := by
    cases response.keep <;> decide +kernel
  have length : 13 ∉ lengthText response.digits ∧ lengthText response.digits ≠ [] := by
    have name : 13 ∉ ascii "Content-Length: " := by decide +kernel
    have blank : (13 : UInt8) ≠ ' '.toUInt8 := by decide
    constructor
    · simp only [lengthText, List.mem_append, List.mem_replicate, name, response.plain, blank,
        and_false, or_self, not_false_eq_true]
    · rw [lengthText_field]
      simp
  intro line member
  rcases List.mem_append.mp member with first | last
  · split at first
    · rw [List.mem_singleton.mp first]
      exact connection
    · cases first
  · rw [List.mem_singleton.mp last]
    exact length

/-- The lines of a response up to its body. Only the texts of the program can be more
than one line each. -/
private theorem parts_lines (response : Response) : response.parts.flatMap lines =
    statusLine response.minor response.status ::
      (response.texts.flatMap lines ++ response.serverLines) := by
  obtain ⟨-, -, first⟩ := statusLine_eq response.minor response.status
  have own : response.serverLines.flatMap lines = response.serverLines :=
    flatMap_lines_plain (fun line member => (response.serverLines_plain line member).1)
  rw [parts, List.cons_append, List.flatMap_cons, lines_plain first, List.flatMap_append, own]
  rfl

private theorem full_iff (response : Response) :
    (∀ line ∈ response.parts.flatMap lines, line ≠ []) ↔
      ∀ line ∈ response.texts.flatMap lines, line ≠ [] := by
  obtain ⟨rest, start, -⟩ := statusLine_eq response.minor response.status
  rw [parts_lines, List.forall_mem_cons, List.forall_mem_append]
  constructor
  · exact fun all => all.2.1
  · exact fun all =>
      ⟨by simp [start], all, fun line member => (response.serverLines_plain line member).2⟩

/-- A field of the server stands alone in the head exactly when no line of the texts has
its name. -/
private theorem named_alone_iff {response : Response} {name own : List UInt8}
    (full : ∀ line ∈ response.texts.flatMap lines, line ≠ [])
    (other : (name.map lowerCase).head? ≠ some 104)
    (written : response.serverLines.filter (isNamed name) = [own]) :
    (head response.bytes).filter (isNamed name) = [own] ↔
      ∀ line ∈ response.texts.flatMap lines, isNamed name line = false := by
  have unnamed := statusLine_unnamed response.minor response.status other
  rw [bytes, head_texts (response.full_iff.mpr full), parts_lines,
    List.filter_cons_of_neg (by simp [unnamed]), List.filter_append, written,
    List.append_left_eq_self, List.filter_eq_nil_iff]
  simp

/-- The framing is the server's own exactly when the texts leave it alone. -/
private theorem framing_iff (response : Response) :
    (EndsBefore response.bytes response.body ∧
      (head response.bytes).filter (isNamed (ascii "Content-Length")) =
        [lengthText response.digits] ∧
      (response.minor = 1 → (head response.bytes).filter (isNamed (ascii "Connection")) =
        [connectionText response.keep])) ↔
      ∀ line ∈ response.texts.flatMap lines, LeavesFraming response.minor line := by
  obtain ⟨length, connection⟩ := response.serverLines_named
  rw [bytes, endsBefore_iff, full_iff, ← bytes]
  constructor
  · rintro ⟨full, one, alone⟩ line member
    refine ⟨full line member, ?_, fun modern => ?_⟩
    · exact (named_alone_iff full (by decide +kernel) length).mp one line member
    · exact (named_alone_iff full (by decide +kernel) (connection modern)).mp (alone modern) line member
  · intro leaves
    have full := fun line member => (leaves line member).1
    refine ⟨full, ?_, fun modern => ?_⟩
    · exact (named_alone_iff full (by decide +kernel) length).mpr
        (fun line member => (leaves line member).2.1)
    · exact (named_alone_iff full (by decide +kernel) (connection modern)).mpr
        (fun line member => (leaves line member).2.2 modern)

end Response

/-- The program leaves the framing alone, in every line of its texts with a colon. -/
def Answer.LeavesFraming (answer : Answer) (minor : Nat) : Prop :=
  ∀ text ∈ answer.texts, 58 ∈ text → ∀ line ∈ lines text, HttpServer.LeavesFraming minor line

instance (answer : Answer) (minor : Nat) : Decidable (answer.LeavesFraming minor) :=
  inferInstanceAs (Decidable (∀ text ∈ answer.texts, 58 ∈ text → ∀ line ∈ lines text, _))

/-- A program that leaves the framing alone offers no `Connection` in HTTP/1.1. -/
private theorem Answer.LeavesFraming.not_lastCloses {answer : Answer}
    (leaves : answer.LeavesFraming 1) : ¬ LastCloses answer.texts := by
  rintro ⟨text, last, -⟩
  obtain ⟨member, named⟩ := List.mem_filter.mp (List.mem_of_getLast? last)
  obtain ⟨line, inside, own⟩ := isNamed_line (by decide +kernel) named
  have colon : 58 ∈ text := by simpa using (Bool.and_eq_true_iff.mp named).1
  rw [(leaves text member colon line inside).2.2 rfl] at own
  cases own

/-- The response that an answer leaves in the output of its client. -/
private theorem Answer.response {max handle ci : Nat} {answer : Answer} {s s' : Server}
    (found : clientFromHandle s handle = some ci) (was : (s.cs ci).state = .status)
    (ran : answer.run max handle s = .ok s')
    (emitted : s'.log.getLast? = some (.completed ci)) :
    ∃ response : Response, response.minor = (s.cs ci).minor ∧ response.body = answer.body ∧
      Accepted answer.headers response.texts ∧
      (s'.cs ci).output.bytes = (s.cs ci).output.bytes ++ response.bytes := by
  obtain ⟨texts, keep, digits, accepted, plain, output⟩ := Answer.output found was ran emitted
  let response : Response :=
    ⟨(s.cs ci).minor, answer.status, texts, keep, digits, answer.body, plain⟩
  refine ⟨response, rfl, rfl, accepted, ?_⟩
  have own : specialHeaders (s.cs ci).minor keep ++ digits ++
      List.replicate (9 - digits.length) ' '.toUInt8 ++ ascii "\r\n\r\n" =
        response.serverLines.flatMap (· ++ crlf) ++ crlf := response.serverLines_bytes
  calc (s'.cs ci).output.bytes
      = (s.cs ci).output.bytes ++ (statusText (s.cs ci).minor answer.status ++
          texts.flatMap (· ++ crlf) ++ (specialHeaders (s.cs ci).minor keep ++ digits ++
            List.replicate (9 - digits.length) ' '.toUInt8 ++ ascii "\r\n\r\n") ++ answer.body) := by
        rw [output, lengthened]
        simp only [List.append_assoc]
    _ = (s.cs ci).output.bytes ++ response.bytes := by
        rw [own, statusText_eq, Response.bytes, Response.parts, List.flatMap_append,
          List.flatMap_cons]
        simp only [List.append_assoc]
        rfl

/-- An answer that is completed leaves a response in the output. Its framing is the
server's own where the program leaves the framing alone; where `malloc` gives the fields
what they ask for, only there. -/
theorem framing_own_iff_left_alone {max handle ci : Nat} {answer : Answer} {s s' : Server}
    (found : clientFromHandle s handle = some ci) (was : (s.cs ci).state = .status)
    (ran : answer.run max handle s = .ok s')
    (emitted : s'.log.getLast? = some (.completed ci)) :
    ∃ response : Response, response.minor = (s.cs ci).minor ∧ response.body = answer.body ∧
      (s'.cs ci).output.bytes = (s.cs ci).output.bytes ++ response.bytes ∧
      (answer.LeavesFraming (s.cs ci).minor → response.OwnFraming answer.texts) ∧
      ((∀ write ∈ answer.headers, Plenty write.alloc) → response.OwnFraming answer.texts →
        answer.LeavesFraming (s.cs ci).minor) := by
  obtain ⟨response, minor, body, accepted, output⟩ := Answer.response found was ran emitted
  rw [← minor]
  refine ⟨response, rfl, body, output, ?_, ?_⟩
  · intro leaves
    have alone : ∀ line ∈ response.texts.flatMap lines, LeavesFraming response.minor line := by
      intro line member
      obtain ⟨text, written, inside⟩ := List.mem_flatMap.mp member
      obtain ⟨offered, colon⟩ := List.mem_filter.mp (accepted.some.subset written)
      exact leaves text offered (by simpa using colon) line inside
    obtain ⟨ends, length, connection⟩ := response.framing_iff.mpr alone
    refine ⟨ends, length, connection, fun modern closes => ?_⟩
    rw [modern] at leaves
    exact absurd closes leaves.not_lastCloses
  · intro plenty framing text offered colon line inside
    refine response.framing_iff.mp ⟨framing.ends, framing.length, framing.connection⟩ line ?_
    refine List.mem_flatMap.mpr ⟨text, ?_, inside⟩
    rw [accepted.all plenty]
    exact List.mem_filter.mpr ⟨offered, by simpa using colon⟩

/-- An answer in HTTP/1.1 with some fields and a body, where `malloc` always succeeds. -/
def plentifulAnswer (texts : List String) (body : String) : Answer where
  status := 200
  statusAlloc _ := true
  headers := texts.map (fun text => ⟨ascii text, fun _ => true⟩)
  contents := [.plain ⟨ascii body, fun _ => true⟩]
  sendAlloc _ := true

/-- A client connects and sends a request, and the program gets it. -/
def requested : List Action :=
  [.wait, inputOn 0 [.client 5] .again,
    inputOn 1 [] (.data (ascii "GET / HTTP/1.1\r\n\r\n") .again), .round (fun _ => true)]

/-- A completed answer to the request that the program got. -/
theorem requested_answered {answer : Answer} {output : List UInt8}
    (passed : ((system fourClients).replay (start 4) requested).any (fun st =>
      clientFromHandle st.server 0 = some 0 && (st.server.cs 0).state = .status &&
      (st.server.cs 0).minor = 1 && (st.server.cs 0).output.bytes = [] &&
      (answer.run 4 0 st.server).toOption.any (fun s =>
        s.log.getLast? = some (.completed 0) && (s.cs 0).output.bytes = output))) :
    ∃ st s', (system fourClients).Reachable st ∧ clientFromHandle st.server 0 = some 0 ∧
      (st.server.cs 0).state = .status ∧ (st.server.cs 0).minor = 1 ∧
      (st.server.cs 0).output.bytes = [] ∧ answer.run 4 0 st.server = .ok s' ∧
      s'.log.getLast? = some (.completed 0) ∧ (s'.cs 0).output.bytes = output := by
  obtain ⟨st, reached, checked⟩ := start_reaches fourClients requested _ passed
  simp only [Bool.and_eq_true, decide_eq_true_eq] at checked
  obtain ⟨⟨⟨⟨found, was⟩, minor⟩, empty⟩, answered⟩ := checked
  cases ran : answer.run 4 0 st.server with
  | error fault => simp [ran, Except.toOption] at answered
  | ok s' =>
    obtain ⟨completed, written⟩ : s'.log.getLast? = some (.completed 0) ∧
        (s'.cs 0).output.bytes = output := by
      simpa [ran, Except.toOption] using answered
    exact ⟨st, s', reached, found, was, minor, empty, ran, completed, written⟩

/-- A `Server` line leaves the framing alone. -/
theorem framing_own_at_server_line : ∃ st s' response, (system fourClients).Reachable st ∧
    (plentifulAnswer ["Server: mysnips"] "hello").run 4 0 st.server = .ok s' ∧
    (s'.cs 0).output.bytes = Response.bytes response ∧
    response.OwnFraming [ascii "Server: mysnips"] := by
  obtain ⟨st, s', reached, found, was, minor, empty, ran, completed, -⟩ :=
    @requested_answered (plentifulAnswer ["Server: mysnips"] "hello")
      (ascii ("HTTP/1.1 200 OK\r\nServer: mysnips\r\nConnection: Keep-Alive\r\n" ++
        "Content-Length: 5        \r\n\r\nhello")) (by decide +kernel)
  obtain ⟨response, -, -, output, own, -⟩ := framing_own_iff_left_alone found was ran completed
  rw [minor] at own
  rw [empty] at output
  exact ⟨st, s', response, reached, ran, output, own (by decide +kernel)⟩

/-- The program offers a length and asks for the end of the connection: both fields are
written as they are, and the server adds its own. -/
theorem offered_fields_double_framing : ∃ st s', (system fourClients).Reachable st ∧
    clientFromHandle st.server 0 = some 0 ∧ (st.server.cs 0).state = .status ∧
    (plentifulAnswer ["Content-Length: 3", "Connection: close"] "hello").run 4 0 st.server =
      .ok s' ∧ s'.log.getLast? = some (.completed 0) ∧ (st.server.cs 0).output.bytes = [] ∧
    (head (s'.cs 0).output.bytes).filter (isNamed (ascii "Content-Length")) =
      [ascii "Content-Length: 3", ascii "Content-Length: 5        "] ∧
    (head (s'.cs 0).output.bytes).filter (isNamed (ascii "Connection")) =
      [ascii "Connection: close", ascii "Connection: Keep-Alive"] ∧
    ∀ response, (s'.cs 0).output.bytes = Response.bytes response →
      ¬ response.OwnFraming [ascii "Content-Length: 3", ascii "Connection: close"] := by
  obtain ⟨st, s', reached, found, was, minor, empty, ran, completed, output⟩ :=
    @requested_answered (plentifulAnswer ["Content-Length: 3", "Connection: close"] "hello")
      (ascii ("HTTP/1.1 200 OK\r\nContent-Length: 3\r\nConnection: close\r\n" ++
        "Connection: Keep-Alive\r\nContent-Length: 5        \r\n\r\nhello")) (by decide +kernel)
  have two : (head (s'.cs 0).output.bytes).filter (isNamed (ascii "Content-Length")) =
      [ascii "Content-Length: 3", ascii "Content-Length: 5        "] := by
    rw [output]
    decide +kernel
  refine ⟨st, s', reached, found, was, ran, completed, empty, two, ?_, ?_⟩
  · rw [output]
    decide +kernel
  · intro response same framing
    have one := congrArg List.length framing.length
    rw [← same, two] at one
    cases one

end Mysnips.HttpServer

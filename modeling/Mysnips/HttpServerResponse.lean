import Mysnips.HttpServerConnections
import Mysnips.HttpServerQueue

/-! Responses on the wire. The calls of a connection draft its responses; what is sent
has to be a part of the draft from its start. A response that is not finished yet may
be sent up to its `Content-Length`, where blanks wait for the number. Sending moves
`content_length_offset` along but not `content_offset`, so the number is right as long
as nothing is sent between the end of the head and `http_server_send_response`. -/
namespace Mysnips.HttpServer
open HttpParse
open Memory (ascii)

/-! ## Drafts -/

/-- A finished response: an answer of the program, its head up to the length and its
body, or a refusal of the server. -/
inductive Reply where
  | answer (head body : List UInt8)
  | refusal (text : List UInt8)
  deriving DecidableEq, Repr

/-- The decimal number of a `Content-Length` line. -/
def number (n : Nat) : List UInt8 := ascii (toString n)

/-- A number at the start of nine places, and the end of the head. -/
def lengthField (n : Nat) : List UInt8 :=
  number n ++ List.replicate (9 - (number n).length) ' '.toUInt8 ++ ascii "\r\n\r\n"

/-- The bytes of a response. The length of its body stands in its head. -/
def Reply.bytes : Reply → List UInt8
  | answer head body => head ++ lengthField body.length ++ body
  | refusal text => text

/-- The finished responses of a connection, and the head and the body of the next one as
far as they are there. -/
structure Draft where
  replies : List Reply := []
  head : List UInt8 := []
  body : List UInt8 := []

def Draft.step (d : Draft) : Event → Draft
  | .built _ (.status text) => { d with head := d.head ++ text }
  | .built _ (.header text) => { d with head := d.head ++ (text ++ ascii "\r\n") }
  | .built _ (.special text) => { d with head := d.head ++ text }
  | .built _ (.content data) => { d with body := d.body ++ data }
  | .built _ (.whole text) => { replies := d.replies ++ [.refusal (d.head ++ text)] }
  | .completed _ => { replies := d.replies ++ [.answer d.head d.body] }
  | _ => d

/-- What the calls of a connection drafted. -/
def draft (events : List Event) : Draft := events.foldl Draft.step {}

/-- The part of a draft that is settled: the finished responses, and the next head up to
the number of its `Content-Length`. -/
def Draft.bytes (d : Draft) : List UInt8 := d.replies.flatMap Reply.bytes ++ d.head

/-- The bytes that were sent. -/
def wire (events : List Event) : List UInt8 :=
  events.flatMap (fun e =>
    match e with
    | .sent _ _ bytes => bytes
    | _ => [])

theorem draft_append (past events : List Event) :
    draft (past ++ events) = events.foldl Draft.step (draft past) :=
  List.foldl_append

theorem wire_append (past events : List Event) :
    wire (past ++ events) = wire past ++ wire events :=
  List.flatMap_append

/-- One event settles more bytes and keeps the finished responses. -/
theorem Draft.step_grows (d : Draft) (e : Event) :
    d.bytes <+: (d.step e).bytes ∧ d.replies <+: (d.step e).replies := by
  cases e with
  | built ci part =>
    cases part with
    | status text | header text | special text =>
      exact ⟨⟨_, by rw [Draft.step, Draft.bytes, Draft.bytes, List.append_assoc]⟩, List.prefix_refl _⟩
    | content data => exact ⟨List.prefix_refl _, List.prefix_refl _⟩
    | whole text =>
      refine ⟨⟨text, ?_⟩, List.prefix_append ..⟩
      simp [Draft.step, Draft.bytes, Reply.bytes]
  | completed ci =>
    refine ⟨⟨lengthField d.body.length ++ d.body, ?_⟩, List.prefix_append ..⟩
    simp [Draft.step, Draft.bytes, Reply.bytes]
  | _ => exact ⟨List.prefix_refl _, List.prefix_refl _⟩

/-- What is settled stays: whatever is drafted later continues it. -/
theorem draft_grows (past more : List Event) :
    (draft past).bytes <+: (draft (past ++ more)).bytes ∧
      (draft past).replies <+: (draft (past ++ more)).replies := by
  rw [draft_append]
  generalize draft past = d
  induction more generalizing d with
  | nil => exact ⟨List.prefix_refl _, List.prefix_refl _⟩
  | cons e rest ih =>
    have ⟨bytes, replies⟩ := d.step_grows e
    have ⟨bytes', replies'⟩ := ih (d.step e)
    exact ⟨bytes.trans bytes', replies.trans replies'⟩

/-! ## The output of a client -/

/-- The output holds what is drafted and not yet sent. With the head finished, blanks
stand where the number will be, and the two offsets say where. -/
def Framed (c : Client) (d : Draft) (sent : List UInt8) : Prop :=
  match c.state with
  | .header => d.bytes = sent ++ c.output.bytes ∧ d.body = []
  | .content => ∃ unsent, d.bytes = sent ++ unsent ∧
      c.output.bytes = unsent ++ (blanks ++ ascii "\r\n") ++ d.body ∧
      c.contentLengthOffset = unsent.length ∧ c.contentOffset = unsent.length + 13
  | _ => d.bytes = sent ++ c.output.bytes ∧ d.head = [] ∧ d.body = []

theorem Framed.settled {c : Client} {d : Draft} {sent : List UInt8} (framed : Framed c d sent) :
    sent <+: d.bytes := by
  unfold Framed at framed
  split at framed
  · exact ⟨_, framed.1.symm⟩
  · obtain ⟨unsent, settled, -⟩ := framed
    exact ⟨_, settled.symm⟩
  · exact ⟨_, framed.1.symm⟩

private theorem formatLong_small {n : Nat} (small : n < 10 ^ 9) : formatLong n = number n := by
  have same : (n : Int).bmod (2 ^ 64) = n := Int.bmod_eq_of_le (by omega) (by omega)
  rw [formatLong, same, number]
  rfl

private theorem sub64_add (a : Nat) {n : Nat} (small : n < 2 ^ 64) : Machine.sub64 (a + n) a = n := by
  unfold Machine.sub64
  omega

private theorem blanks_eq : blanks ++ ascii "\r\n" =
    List.replicate 9 ' '.toUInt8 ++ ascii "\r\n\r\n" := by
  decide +kernel

/-- The digits written over the blanks. -/
theorem store_digits {unsent body digits output : List UInt8} (short : digits.length < 10)
    (stored : Memory.store (unsent ++ (blanks ++ ascii "\r\n") ++ body) unsent.length digits =
      some output) :
    output = unsent ++ (digits ++ List.replicate (9 - digits.length) ' '.toUInt8 ++
      ascii "\r\n\r\n") ++ body := by
  have split : unsent ++ (blanks ++ ascii "\r\n") ++ body =
      unsent ++ List.replicate digits.length ' '.toUInt8 ++
        (List.replicate (9 - digits.length) ' '.toUInt8 ++ ascii "\r\n\r\n" ++ body) := by
    have nine : List.replicate 9 ' '.toUInt8 =
        List.replicate digits.length ' '.toUInt8 ++
          List.replicate (9 - digits.length) ' '.toUInt8 := by
      rw [List.replicate_append_replicate, Nat.add_sub_cancel' (by omega)]
    rw [blanks_eq, nine]
    simp only [List.append_assoc]
  rw [split, Memory.store_middle unsent _ List.length_replicate] at stored
  cases stored
  simp only [List.append_assoc]

/-- A completed response: the number over the blanks is the length of the body. -/
theorem Framed.completed {c : Client} {d : Draft} {sent : List UInt8} {output : IoBuf} (ci : Nat)
    (was : c.state = .content) (framed : Framed c d sent) (small : d.body.length < 10 ^ 9)
    (short : (formatLong (Machine.sub64 c.output.used c.contentOffset)).length < 10)
    (stored : Memory.store c.output.bytes c.contentLengthOffset
      (formatLong (Machine.sub64 c.output.used c.contentOffset)) = some output.bytes) :
    (d.step (.completed ci)).bytes = sent ++ output.bytes := by
  rw [Framed, was] at framed
  obtain ⟨unsent, settled, held, place, start⟩ := framed
  have used : c.output.used = c.contentOffset + d.body.length := by
    rw [IoBuf.used, held, start]
    simp only [List.length_append, blanks_eq, List.length_replicate]
    rw [show (ascii "\r\n\r\n").length = 4 by decide +kernel]
  rw [used, sub64_add _ (by omega), formatLong_small small] at short stored
  rw [held, place] at stored
  rw [store_digits short stored, ← lengthField, Draft.step, Draft.bytes]
  rw [Draft.bytes] at settled
  simp only [List.flatMap_append, List.flatMap_cons, List.flatMap_nil, Reply.bytes, List.append_nil]
  rw [← List.append_assoc, ← List.append_assoc, settled]
  simp only [List.append_assoc]

theorem framed_rest {c : Client} {d : Draft} {sent : List UInt8} (other : c.state ≠ .header)
    (other' : c.state ≠ .content) :
    Framed c d sent ↔ d.bytes = sent ++ c.output.bytes ∧ d.head = [] ∧ d.body = [] := by
  unfold Framed
  split
  · rename_i was
    exact absurd was other
  · rename_i was
    exact absurd was other'
  · rfl

theorem Client.afterSend_bytes (c : Client) (n : Nat) :
    (c.afterSend n).output.bytes = c.output.bytes.drop n := by
  unfold Client.afterSend
  simp only
  split
  · rename_i all
    rw [List.drop_eq_nil_of_le (by rw [all, IoBuf.used])]
    rfl
  · exact IoBuf.setBytes_bytes (fun empty => by rw [empty, List.drop_nil])

/-- Sending moves bytes from the output to the wire, unless the head is finished and the
body is not. -/
theorem Framed.sent {c : Client} {d : Draft} {sent : List UInt8} {n : Nat}
    (framed : Framed c d sent)
    (unflushed : c.state = .content → c.output.bytes.take n = []) :
    Framed (c.afterSend n) d (sent ++ c.output.bytes.take n) := by
  have bytes := c.afterSend_bytes n
  have whole : sent ++ c.output.bytes.take n ++ (c.afterSend n).output.bytes =
      sent ++ c.output.bytes := by
    rw [bytes, List.append_assoc, List.take_append_drop]
  unfold Framed at framed ⊢
  rw [Client.afterSend_state]
  split at framed
  · rw [whole]
    exact framed
  · rename_i was
    obtain ⟨unsent, settled, held, place, start⟩ := framed
    -- The output holds at least the blanks, so that nothing was sent.
    have none : n = 0 := by
      have empty := congrArg List.length (unflushed was)
      rw [List.length_take, held, blanks_eq] at empty
      simp only [List.length_append, List.length_replicate, List.length_nil] at empty
      omega
    subst none
    refine ⟨unsent, ?_, ?_, ?_, start⟩
    · rw [List.take_zero, List.append_nil, settled]
    · rw [bytes, List.drop_zero, held]
    · simp [Client.afterSend, was, place]
  · rw [whole]
    exact framed

/-- The condition on a run: nothing is sent between the end of the head and the end of the
response. -/
def Event.unflushed : Event → Prop
  | sent _ state bytes => state = .content → bytes = []
  | _ => True

/-- The finished answers have less than `10 ^ 9` bytes. -/
def Draft.small (d : Draft) : Prop := ∀ head body, .answer head body ∈ d.replies → body.length < 10 ^ 9

theorem Framed.step {ci : Nat} {c c' : Client} {past events : List Event}
    (framed : Framed c (draft past) (wire past))
    (good : ∀ e ∈ events, e.unflushed ∧ e.popsQueued) (small : (draft (past ++ events)).small)
    (step : ClientStep ci c events c') (connected : c.state ≠ .free) (connected' : c'.state ≠ .free) :
    Framed c' (draft (past ++ events)) (wire (past ++ events)) := by
  rw [draft_append] at small ⊢
  rw [wire_append]
  generalize draft past = d at *
  generalize wire past = w at *
  cases step with
  | serviced | received | noted | moved =>
    rw [show wire _ = [] from rfl, List.append_nil]
    exact framed
  | sent n limited inside =>
    rw [show wire [.sent ci c.state (c.output.bytes.take n)] = c.output.bytes.take n by simp [wire]]
    exact framed.sent (good _ List.mem_cons_self).1
  | accepted fd pitem free => exact absurd free connected
  | freed _ drift fd loss state | poppedFreed _ fd state => exact absurd state connected'
  | queued input bytes grown idle found =>
    have rest := (framed_rest (by simp [idle]) (by simp [idle])).mp framed
    rw [show wire [.received ci bytes] = [] from rfl, List.append_nil]
    exact (framed_rest (by simp) (by simp)).mpr rest
  | refused output text grown =>
    have queued : c.state = .queued := (good _ List.mem_cons_self).2
    obtain ⟨settled, head, body⟩ :=
      (framed_rest (by simp [queued]) (by simp [queued])).mp framed
    rw [show wire [.popped ci c.state, .built ci (.whole text)] = [] from rfl, List.append_nil]
    refine (framed_rest (by simp) (by simp)).mpr ⟨?_, rfl, rfl⟩
    rw [grown, ← List.append_assoc, ← settled]
    simp [Draft.step, Draft.bytes, Reply.bytes, head]
  | deferred verdict | delivered r headLen total verdict =>
    have queued : c.state = .queued := (good _ List.mem_cons_self).2
    have rest := (framed_rest (by simp [queued]) (by simp [queued])).mp framed
    rw [show wire _ = [] from rfl, List.append_nil]
    exact (framed_rest (by simp) (by simp)).mpr rest
  | status output text was grown =>
    obtain ⟨settled, head, body⟩ := (framed_rest (by simp [was]) (by simp [was])).mp framed
    rw [show wire [.built ci (.status text)] = [] from rfl, List.append_nil]
    refine ⟨?_, body⟩
    rw [grown, ← List.append_assoc, ← settled]
    simp [Draft.step, Draft.bytes]
  | header output text was grown =>
    rw [Framed, was] at framed
    obtain ⟨settled, body⟩ := framed
    rw [show wire [.built ci (.header text)] = [] from rfl, List.append_nil, Framed, was]
    refine ⟨?_, body⟩
    rw [grown, ← List.append_assoc, ← List.append_assoc, ← settled]
    simp [Draft.step, Draft.bytes]
  | special output keep was grown =>
    rw [Framed, was] at framed
    obtain ⟨settled, body⟩ := framed
    rw [show wire [.built ci (.special (specialHeaders c.minor keep))] = [] from rfl,
      List.append_nil]
    refine ⟨c.output.bytes ++ specialHeaders c.minor keep, ?_, ?_, rfl, ?_⟩
    · rw [← List.append_assoc, ← settled]
      simp [Draft.step, Draft.bytes]
    · rw [grown, List.foldl_cons, List.foldl_nil, Draft.step, body, List.append_nil]
    · have thirteen : (blanks ++ ascii "\r\n").length = 13 := by decide +kernel
      simp only [IoBuf.used, grown]
      rw [List.length_append, thirteen]
  | content output data was grown =>
    rw [Framed, was] at framed
    obtain ⟨unsent, settled, held, place, start⟩ := framed
    rw [show wire [.built ci (.content data)] = [] from rfl, List.append_nil, Framed, was]
    refine ⟨unsent, settled, ?_, place, start⟩
    rw [grown, held, List.foldl_cons, List.foldl_nil, Draft.step, List.append_assoc]
  | completed input output state keepalive was short stored inside left afterwards =>
    have few : d.body.length < 10 ^ 9 := small d.head d.body (by simp [Draft.step])
    rw [show wire [.completed ci] = [] from rfl, List.append_nil]
    refine (framed_rest ?_ ?_).mpr ⟨framed.completed ci was few short stored, rfl, rfl⟩
    · cases afterwards <;> simp
    · cases afterwards <;> simp

/-! ## Runs -/

/-- What a client does last before it is closed keeps the wire behind the draft. -/
private theorem Framed.ended {ci : Nat} {c : Client} {past last : List Event}
    (framed : Framed c (draft past) (wire past)) (good : ∀ e ∈ last, e.unflushed)
    (ending : Ending ci c last) : wire (past ++ last) <+: (draft (past ++ last)).bytes := by
  rw [draft_append, wire_append]
  rcases ending with loss | rfl
  · cases loss with
    | nothing => simpa [wire, Draft.step] using framed.settled
    | received bytes => simpa [wire, Draft.step] using framed.settled
    | sent n limited inside =>
      have moved := framed.sent (good _ List.mem_cons_self)
      simpa [wire, Draft.step] using moved.settled
  · simpa [wire, Draft.step] using framed.settled

/-- Where nothing is sent to a client between the end of a head and the end of its
response, and its slot is never closed while it is queued, everything that is sent on
its connection is a part, from its start, of the responses that its calls draft,
whatever they draft later; the blanks of a `Content-Length` stay in the output until the number
stands there, and the number is the length of the body. -/
theorem responses_framed_while_unflushed {config : Config} {st : State} {ci : Nat}
    (reached : (system config).Reachable st) (bound : ci < config.maxClients)
    (spared : ∀ fd, .closed ci fd .queued ∉ st.server.log)
    (unflushed : ∀ bytes, .sent ci .content bytes ∈ st.server.log → bytes = [])
    (small : (draft (connectionEvents st ci)).small) :
    (∀ more, wire (connectionEvents st ci) <+: (draft (connectionEvents st ci ++ more)).bytes) ∧
      ((st.server.cs ci).state ≠ .free →
        Framed (st.server.cs ci) (draft (connectionEvents st ci)) (wire (connectionEvents st ci))) := by
  have pops := (reachable_lined reached bound spared).2
  have holds : Holds (fun c past => (draft past).small → Framed c (draft past) (wire past))
      (fun past => (draft past).small → wire past <+: (draft past).bytes)
      (st.server.cs ci) (history ci st.server.log) := by
    refine reachable_connection Event.unflushed bound ?_ ?_ ?_ ?_ reached ?_
    · exact fun _ => List.prefix_refl _
    · exact fun c pitem _ => ⟨rfl, rfl, rfl⟩
    · intro c past events c' good framed step connected connected' small
      have before : (draft past).small := fun head body member =>
        small head body ((draft_grows past events).2.subset member)
      exact (framed before).step good small step connected connected'
    · intro c past last good framed ending small
      have before : (draft past).small := fun head body member =>
        small head body ((draft_grows past last).2.subset member)
      exact (framed before).ended good ending
    · intro e member
      obtain ⟨event, own⟩ := mem_history.mp member
      constructor
      · cases e with
        | sent cj state bytes =>
          rintro rfl
          obtain rfl : cj = ci := own
          exact unflushed bytes event
        | _ => trivial
      · cases e with
        | popped cj state =>
          obtain rfl : cj = ci := own
          exact pops state event
        | _ => trivial
  refine ⟨fun more => ?_, fun connected => holds.connected connected small⟩
  exact (holds.always small).trans (draft_grows _ more).1

/-- `poll` reports output on one entry, and `send` accepts some bytes. -/
def outputOn (entry n : Nat) : Action :=
  .processIo { poll := some (fun i => ⟨false, i = entry⟩), sends := fun _ => .accepted n .again }

/-- An answer with a body, sent in two parts. While its body is written a second client asks for
something, and the first one's socket takes nothing. -/
theorem responses_framed_at_answer : ∃ st, (system fourClients).Reachable st ∧
    wire (connectionEvents st 0) = ascii ("HTTP/1.1 200 OK\r\nConnection: Keep-Alive\r\n" ++
      "Content-Length: 5        \r\n\r\nhello") ∧
    Event.sent 0 .content [] ∈ st.server.log ∧
    ∀ more, wire (connectionEvents st 0) <+: (draft (connectionEvents st 0 ++ more)).bytes := by
  obtain ⟨st, reached, passed⟩ := start_reaches fourClients
    [.wait, inputOn 0 [.client 5, .client 6] .again,
      inputOn 1 [] (.data (ascii "GET / HTTP/1.1\r\n\r\n") .again), .round (fun _ => true),
      .setStatus 0 200 (fun _ => true), .appendContent 0 (ascii "hello") (fun _ => true),
      .wait, .processIo
        { poll := some (fun i => ⟨i = 2, i = 1⟩)
          recvs := fun _ => .data (ascii "GET / HTTP/1.1\r\n\r\n") .again },
      .round (fun _ => true), .sendResponse 0 (fun _ => true), .wait, outputOn 1 60, outputOn 1 15]
    (fun st => wire (connectionEvents st 0) =
        ascii ("HTTP/1.1 200 OK\r\nConnection: Keep-Alive\r\n" ++
          "Content-Length: 5        \r\n\r\nhello") &&
      Event.sent 0 .content [] ∈ st.server.log &&
      st.server.log.all (fun | .closed _ _ .queued => false | _ => true) &&
      st.server.log.all (fun | .sent _ .content bytes => bytes = [] | _ => true) &&
      (draft (connectionEvents st 0)).replies.all
        (fun | .answer _ body => body.length < 10 ^ 9 | _ => true)) (by decide +kernel)
  simp only [Bool.and_eq_true, decide_eq_true_eq, List.all_eq_true] at passed
  obtain ⟨⟨⟨⟨whole, nothing⟩, spared⟩, unflushed⟩, small⟩ := passed
  refine ⟨st, reached, whole, nothing,
    (responses_framed_while_unflushed reached (by decide) ?_ ?_ ?_).1⟩
  · exact fun fd event => by simpa using spared _ event
  · exact fun bytes event => by simpa using unflushed _ event
  · exact fun head body member => by simpa using small _ member

/-- The head of an answer is sent before its end is known, while another request is
waited for: the length of its body of five bytes becomes -52. -/
theorem flushed_head_breaks_length : ∃ st, (system fourClients).Reachable st ∧
    (draft (connectionEvents st 0)).replies = [.answer
      (ascii "HTTP/1.1 200 OK\r\nConnection: Keep-Alive\r\nContent-Length: ") (ascii "hello")] ∧
    wire (connectionEvents st 0) = ascii ("HTTP/1.1 200 OK\r\nConnection: Keep-Alive\r\n" ++
      "Content-Length: -52      \r\n\r\nhello") ∧
    ¬ wire (connectionEvents st 0) <+: (draft (connectionEvents st 0)).bytes := by
  obtain ⟨st, reached, passed⟩ := start_reaches fourClients
    [.wait, inputOn 0 [.client 5, .client 6] .again,
      inputOn 1 [] (.data (ascii "GET / HTTP/1.1\r\n\r\n") .again), .round (fun _ => true),
      .setStatus 0 200 (fun _ => true), .appendContent 0 (ascii "hello") (fun _ => true),
      .wait, .processIo
        { poll := some (fun i => ⟨i = 2, i = 1⟩)
          recvs := fun _ => .data (ascii "GET / HTTP/1.1\r\n\r\n") .again
          sends := fun _ => .accepted 57 .again },
      .round (fun _ => true), .sendResponse 0 (fun _ => true), .wait, outputOn 1 18]
    (fun st => (draft (connectionEvents st 0)).replies = [.answer
        (ascii "HTTP/1.1 200 OK\r\nConnection: Keep-Alive\r\nContent-Length: ") (ascii "hello")] &&
      wire (connectionEvents st 0) = ascii ("HTTP/1.1 200 OK\r\nConnection: Keep-Alive\r\n" ++
        "Content-Length: -52      \r\n\r\nhello") &&
      !(wire (connectionEvents st 0)).isPrefixOf (draft (connectionEvents st 0)).bytes)
    (by decide +kernel)
  simp only [Bool.and_eq_true, decide_eq_true_eq, Bool.not_eq_true'] at passed
  obtain ⟨⟨drafted, sent⟩, wrong⟩ := passed
  refine ⟨st, reached, drafted, sent, fun good => ?_⟩
  rw [List.isPrefixOf_iff_prefix.mpr good] at wrong
  cases wrong

end Mysnips.HttpServer

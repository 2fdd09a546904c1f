import Mysnips.HttpServerConnections
import Mysnips.HttpServerHandles
import Mysnips.HttpServerQueue
import Mysnips.StreamCutting

/-! Delivery of requests. What a client sends is cut into requests, and whether a request
is delivered should not depend on how the input arrives. A client is queued once it has
a head; a body that is not there when the client is popped leaves it in `C_POPPED`,
from where nothing takes it back into the queue. Where that does not happen, the
requests delivered are the beginning of the requests in the stream. -/
namespace Mysnips.HttpServer
open HttpParse StreamCutting
open Memory (ascii)

/-! ## Requests in a stream -/

/-- The length of the body that a head announces, where the server accepts the head. -/
def bodyLength (head : List UInt8) : Option Nat :=
  match parseRequestHead head with
  | some (.ok r) =>
    if r.major ≠ 1 ∨ (r.minor ≠ 0 ∧ r.minor ≠ 1) then none
    else
      match contentLength head r with
      | .ok (.inl length) => some length
      | _ => none
  | _ => none

/-- The first request of a stream, its head and its body, and its length. -/
def requestAt (stream : List UInt8) : Option ((List UInt8 × List UInt8) × Nat) := do
  let i ← find stream headEnd
  let length ← bodyLength (stream.take (i + 4))
  if i + 4 + length ≤ stream.length then
    some ((stream.take (i + 4), (stream.drop (i + 4)).take length), i + 4 + length)
  else none

theorem requestAt_some {stream : List UInt8} {request : List UInt8 × List UInt8} {n : Nat}
    (found : requestAt stream = some (request, n)) :
    ∃ i length, find stream headEnd = some i ∧ bodyLength (stream.take (i + 4)) = some length ∧
      i + 4 + length ≤ stream.length ∧ n = i + 4 + length ∧
      request = (stream.take (i + 4), (stream.drop (i + 4)).take length) := by
  simp only [requestAt, Option.bind_eq_bind, Option.bind_eq_some_iff] at found
  obtain ⟨i, place, length, known, rest⟩ := found
  split at rest
  · rename_i enough
    cases rest
    exact ⟨i, length, place, known, enough, rfl, rfl⟩
  · cases rest

theorem requestAt_eq {stream : List UInt8} {i length : Nat} (place : find stream headEnd = some i)
    (known : bodyLength (stream.take (i + 4)) = some length)
    (enough : i + 4 + length ≤ stream.length) :
    requestAt stream =
      some ((stream.take (i + 4), (stream.drop (i + 4)).take length), i + 4 + length) := by
  simp [requestAt, place, known, enough]

/-- Requests as items of a stream. -/
def requestCutter : Cutter UInt8 (List UInt8 × List UInt8) where
  item := requestAt
  positive found := by
    obtain ⟨i, length, -, -, -, rfl, -⟩ := requestAt_some found
    omega
  inside found := by
    obtain ⟨i, length, -, -, enough, rfl, -⟩ := requestAt_some found
    exact enough
  stable {stream _ _} more found := by
    obtain ⟨i, length, place, known, enough, rfl, rfl⟩ := requestAt_some found
    have head : (stream ++ more).take (i + 4) = stream.take (i + 4) :=
      List.take_append_of_le_length (by omega)
    rw [requestAt_eq (find_append more place) (by rw [head, known])
      (by rw [List.length_append]; omega), head, List.drop_append_of_le_length (by omega),
      List.take_append_of_le_length (by rw [List.length_drop]; omega)]

/-- The requests in a stream, as they would be delivered if it arrived whole. -/
def requests (stream : List UInt8) : List (List UInt8 × List UInt8) := requestCutter.items stream

/-- A complete request of the server is the first one of its input, unless its length
wraps around. -/
theorem examine_requestAt {input : List UInt8} {r : Request} {headLen total : Nat}
    (examined : examine input = .ok (.complete r headLen total))
    (fits : ∀ n, bodyLength (input.take headLen) = some n → (input.take headLen).length + n < 2 ^ 64) :
    requestAt input = some ((input.take headLen, r.content.bytes input), total) := by
  obtain ⟨i, r₀, length, place, rfl, parsed, declared, rfl, rfl, enough, version⟩ :=
    examine_complete examined
  have known : bodyLength (input.take (i + 4)) = some length := by
    simp only [bodyLength, parsed, if_neg version, declared]
  have headLength : (input.take (i + 4)).length = i + 4 := by
    have inside := find_inside place
    rw [show headEnd.length = 4 by decide +kernel] at inside
    rw [List.length_take]
    omega
  have sum : Machine.add64 (i + 4) length = i + 4 + length :=
    Machine.add64_eq (by rw [← headLength]; exact fits length known)
  rw [sum] at enough ⊢
  exact requestAt_eq place known enough

/-- The server finds the first request of its input complete, where the input is no larger
than a `size_t` can say. -/
theorem requestAt_examine {input : List UInt8} {request : List UInt8 × List UInt8} {n : Nat}
    (found : requestAt input = some (request, n)) (sized : input.length < 2 ^ 64) :
    ∃ r headLen, examine input = .ok (.complete r headLen n) ∧
      request = (input.take headLen, r.content.bytes input) := by
  obtain ⟨i, length, place, known, enough, rfl, rfl⟩ := requestAt_some found
  unfold bodyLength at known
  cases parsed : parseRequestHead (input.take (i + 4)) with
  | none => simp [parsed] at known
  | some result =>
    cases result with
    | incomplete | badMethod | badVersion | badHeader => simp [parsed] at known
    | ok r =>
      simp only [parsed] at known
      split at known
      · cases known
      · rename_i version
        split at known
        · rename_i length' declared
          cases known
          have sum : Machine.add64 (i + 4) length = i + 4 + length := Machine.add64_eq (by omega)
          refine ⟨{ r with content := ⟨i + 4, length⟩ }, i + 4, ?_, rfl⟩
          unfold examine
          simp only [place, parsed, if_neg version]
          rw [declared]
          simp only [bind, Except.bind, sum]
          rw [if_neg (by omega)]
        · cases known

/-! ## The input of a client -/

/-- The bytes that were received. -/
def arrived (events : List Event) : List UInt8 :=
  events.flatMap (fun e =>
    match e with
    | .received _ bytes => bytes
    | _ => [])

/-- The requests that were delivered, their heads and bodies. -/
def deliveries (events : List Event) : List (List UInt8 × List UInt8) :=
  events.flatMap (fun e =>
    match e with
    | .delivered _ _ head body => [(head, body)]
    | _ => [])

theorem arrived_append (past events : List Event) :
    arrived (past ++ events) = arrived past ++ arrived events :=
  List.flatMap_append

theorem deliveries_append (past events : List Event) :
    deliveries (past ++ events) = deliveries past ++ deliveries events :=
  List.flatMap_append

/-- The input of a client is what the delivered requests leave of the stream. A request
that waits for its answer is still there; an idle client has no head. -/
def Delivering (c : Client) (stream : List UInt8) (done : List (List UInt8 × List UInt8)) : Prop :=
  match c.state with
  | .status | .header | .content => ∃ before request, done = before ++ [request] ∧
      Cut requestCutter stream before c.input.bytes ∧
      requestAt c.input.bytes = some (request, c.requestLength)
  | .popped => False
  | .idle => Cut requestCutter stream done c.input.bytes ∧ find c.input.bytes headEnd = none
  | _ => Cut requestCutter stream done c.input.bytes

/-- The delivered requests are the first ones of the stream, however it goes on. -/
theorem Delivering.requests {c : Client} {stream : List UInt8}
    {done : List (List UInt8 × List UInt8)} (delivering : Delivering c stream done)
    (more : List UInt8) : done <+: HttpServer.requests (stream ++ more) := by
  have cut : ∀ {rest}, Cut requestCutter stream done rest →
      done <+: HttpServer.requests (stream ++ more) :=
    fun cut => ⟨_, (cut.append more).items_eq.symm⟩
  unfold Delivering at delivering
  split at delivering
  iterate 3
    obtain ⟨before, request, rfl, cut', found⟩ := delivering
    exact cut (cut'.next found)
  · cases delivering
  · exact cut delivering.1
  · exact cut delivering

/-- More input arrives. -/
theorem Delivering.received {c : Client} {stream bytes : List UInt8} {input : IoBuf}
    {done : List (List UInt8 × List UInt8)} (delivering : Delivering c stream done)
    (grown : input.bytes = c.input.bytes ++ bytes)
    (waits : c.state = .idle → find input.bytes headEnd = none) :
    Delivering { c with input := input } (stream ++ bytes) done := by
  unfold Delivering at delivering ⊢
  simp only [grown] at waits ⊢
  split at delivering
  iterate 3
    obtain ⟨before, request, rfl, cut, found⟩ := delivering
    exact ⟨before, request, rfl, cut.append bytes, requestCutter.stable bytes found⟩
  · cases delivering
  · rename_i idle
    exact ⟨delivering.1.append bytes, waits idle⟩
  · exact delivering.append bytes

/-- The conditions on a run: no client is popped before the body of its request is there,
and no length of a request wraps around. -/
def Event.prompt : Event → Prop
  | deferred _ => False
  | delivered _ _ head _ => ∀ n, bodyLength head = some n → head.length + n < 2 ^ 64
  | _ => True

theorem Delivering.step {ci : Nat} {c c' : Client} {past events : List Event}
    (delivering : Delivering c (arrived past) (deliveries past))
    (good : ∀ e ∈ events, e.prompt ∧ e.popsQueued) (step : ClientStep ci c events c')
    (connected : c.state ≠ .free) (connected' : c'.state ≠ .free) :
    Delivering c' (arrived (past ++ events)) (deliveries (past ++ events)) := by
  rw [arrived_append, deliveries_append]
  generalize arrived past = stream at *
  generalize deliveries past = done at *
  cases step with
  | serviced | moved | sent =>
    rw [show arrived _ = [] from rfl, show deliveries _ = [] from rfl, List.append_nil,
      List.append_nil]
    exact delivering
  | accepted fd pitem free => exact absurd free connected
  | freed _ drift fd loss state | poppedFreed _ fd state => exact absurd state connected'
  | received input bytes grown waits =>
    rw [show deliveries [.received ci bytes] = [] from rfl, List.append_nil]
    simpa [arrived] using delivering.received grown waits
  | queued input bytes grown idle found =>
    rw [Delivering, idle] at delivering
    rw [show deliveries [.received ci bytes] = [] from rfl, List.append_nil]
    have cut := delivering.1.append bytes
    rw [← grown] at cut
    simpa [arrived, Delivering] using cut
  | refused output text grown =>
    have queued : c.state = .queued := (good _ List.mem_cons_self).2
    rw [Delivering, queued] at delivering
    rw [show arrived [.popped ci c.state, .built ci (.whole text)] = [] from rfl,
      show deliveries [.popped ci c.state, .built ci (.whole text)] = [] from rfl,
      List.append_nil, List.append_nil]
    exact delivering
  | deferred verdict => exact absurd (good (.deferred ci) (by simp)).1 (by simp [Event.prompt])
  | delivered r headLen total verdict small =>
    have queued : c.state = .queued := (good _ List.mem_cons_self).2
    have fits := (good (.delivered ci _ _ _) (List.mem_cons_of_mem _ List.mem_cons_self)).1
    rw [Delivering, queued] at delivering
    refine ⟨done, _, rfl, ?_, examine_requestAt verdict fits⟩
    simpa [arrived] using delivering
  | status output text was grown | header output text was grown | noted connheader was
  | special output keep was grown | content output data was grown =>
    rw [show arrived _ = [] from rfl, show deliveries _ = [] from rfl, List.append_nil,
      List.append_nil]
    rw [Delivering, was] at delivering
    simpa [Delivering, was] using delivering
  | completed input output state keepalive was short stored inside left afterwards =>
    rw [show arrived [.completed ci] = [] from rfl, show deliveries [.completed ci] = [] from rfl,
      List.append_nil, List.append_nil]
    rw [Delivering, was] at delivering
    obtain ⟨before, request, rfl, cut, found⟩ := delivering
    have cut' := cut.next found
    rw [← left] at cut'
    cases afterwards with
    | queued keeps found => exact cut'
    | idle keeps missing => exact ⟨cut', missing⟩
    | close ends => exact cut'

/-! ## Runs -/

/-- The client waits for an answer of the program, or for closing. -/
def ClientState.occupied : ClientState → Bool
  | status | header | content | close => true
  | _ => false

/-- A client that was not popped too early is idle or in the queue, unless it waits for an
answer or for closing. -/
private theorem Delivering.idle_or_queued {c : Client} {stream : List UInt8}
    {done : List (List UInt8 × List UInt8)} (delivering : Delivering c stream done)
    (connected : c.state ≠ .free) (unoccupied : c.state.occupied = false) :
    c.state = .idle ∨ c.state = .queued := by
  unfold Delivering at delivering
  cases state : c.state with
  | free => exact absurd state connected
  | idle => exact .inl rfl
  | queued => exact .inr rfl
  | popped =>
    rw [state] at delivering
    cases delivering
  | status | header | content | close =>
    rw [state] at unoccupied
    cases unoccupied

private theorem Delivering.idle {c : Client} {stream : List UInt8}
    {done : List (List UInt8 × List UInt8)} (delivering : Delivering c stream done)
    (idle : c.state = .idle) : done = HttpServer.requests stream ∧ requestAt c.input.bytes = none := by
  rw [Delivering, idle] at delivering
  obtain ⟨cut, missing⟩ := delivering
  have none : requestAt c.input.bytes = none := by simp [requestAt, missing]
  refine ⟨?_, none⟩
  rw [HttpServer.requests, cut.items_eq, items_none none, List.append_nil]

/-- A round with a complete request at the front of the queue returns it. -/
private theorem waitRound_returns {max ci n : Nat} {alloc : Nat → Bool} {s : Server}
    {request : List UInt8 × List UInt8} (nonempty : 0 < s.qused) (front : s.qdata s.qhead = ci)
    (queued : (s.cs ci).state = .queued) (small : (s.cs ci).gen < 2 ^ 16 - 1)
    (found : requestAt (s.cs ci).input.bytes = some (request, n))
    (sized : (s.cs ci).input.used < 2 ^ 64) :
    ∃ s' handle r, waitRound max alloc s = .ok (s', some (handle, r)) ∧
      s'.log = s.log ++ [.popped ci .queued, .delivered ci handle request.1 request.2] := by
  obtain ⟨r, headLen, examined, rfl⟩ := requestAt_examine found sized
  subst front
  unfold waitRound popClient
  rw [if_pos nonempty]
  simp only [bind, Except.bind, Server.dequeue_cs, Server.record_cs, examined, small,
    not_true, if_false]
  refine ⟨_, _, _, rfl, ?_⟩
  simp [queued]

/-- Where no request of a client is popped before its body is there, no length of a
request wraps around, and the slot is never closed while it is queued: whenever the
server is about to wait for input, the client is idle or occupied; a complete request in
its input has it in the queue, and is returned from the front; what is delivered is the
beginning of the requests in the stream, however it arrives, and all of them for an idle
client. -/
theorem delivery_exact_while_prompt {config : Config} {st : State} {ci : Nat}
    (reached : (system config).Reachable st) (bound : ci < config.maxClients)
    (spared : ∀ fd, .closed ci fd .queued ∉ st.server.log)
    (prompt : .deferred ci ∉ st.server.log)
    (unwrapped : ∀ handle head body n, .delivered ci handle head body ∈ st.server.log →
      bodyLength head = some n → head.length + n < 2 ^ 64) :
    (st.waiting = true → st.server.qused = 0 → (st.server.cs ci).state ≠ .free →
        (st.server.cs ci).state.occupied = false → (st.server.cs ci).state = .idle) ∧
      ((st.server.cs ci).state ≠ .free → (st.server.cs ci).state.occupied = false →
        (requestAt (st.server.cs ci).input.bytes).isSome →
        ci ∈ ring config.maxClients st.server) ∧
      (∀ alloc request n, 0 < st.server.qused → st.server.qdata st.server.qhead = ci →
        requestAt (st.server.cs ci).input.bytes = some (request, n) →
        (st.server.cs ci).input.used < 2 ^ 64 →
        ∃ s' handle r, waitRound config.maxClients alloc st.server = .ok (s', some (handle, r)) ∧
          s'.log = st.server.log ++
            [.popped ci .queued, .delivered ci handle request.1 request.2]) ∧
      (∀ more, deliveries (connectionEvents st ci) <+:
        requests (arrived (connectionEvents st ci) ++ more)) ∧
      ((st.server.cs ci).state = .idle →
        deliveries (connectionEvents st ci) = requests (arrived (connectionEvents st ci))) := by
  obtain ⟨lined, pops⟩ := reachable_lined reached bound spared
  have holds : Holds (fun c past => Delivering c (arrived past) (deliveries past))
      (fun past => ∀ more, deliveries past <+: requests (arrived past ++ more))
      (st.server.cs ci) (history ci st.server.log) := by
    refine reachable_connection Event.prompt bound ?_ ?_ ?_ ?_ reached ?_
    · exact fun more => List.nil_prefix
    · exact fun c pitem => ⟨.start, rfl⟩
    · exact fun c past events c' good delivering step connected connected' =>
        delivering.step good step connected connected'
    · intro c past last good delivering ending more
      have quiet : deliveries last = [] := by
        rcases ending with loss | rfl
        · cases loss <;> rfl
        · rfl
      rw [deliveries_append, arrived_append, quiet, List.append_nil, List.append_assoc]
      exact delivering.requests _
    · intro e member
      obtain ⟨event, own⟩ := mem_history.mp member
      cases e with
      | deferred cj =>
        obtain rfl : cj = ci := own
        exact absurd event prompt
      | delivered cj handle head body =>
        obtain rfl : cj = ci := own
        exact ⟨fun n => unwrapped handle head body n event, trivial⟩
      | popped cj state =>
        obtain rfl : cj = ci := own
        exact ⟨trivial, pops state event⟩
      | _ => exact ⟨trivial, trivial⟩
  have sorted := fun connected unoccupied =>
    (holds.connected connected).idle_or_queued connected unoccupied
  refine ⟨?_, ?_, ?_, holds.always, ?_⟩
  · intro _ empty connected unoccupied
    rcases sorted connected unoccupied with idle | queued
    · exact idle
    · have member := lined.mem_ring.mpr queued
      simp [ring, empty] at member
  · intro connected unoccupied complete
    rcases sorted connected unoccupied with idle | queued
    · rw [((holds.connected connected).idle idle).2] at complete
      cases complete
    · exact lined.mem_ring.mpr queued
  · intro alloc request n nonempty front found sized
    have queued := lined.front (reachable_bounded reached).qhead nonempty front
    refine waitRound_returns nonempty front queued ?_ found sized
    rw [(reachable_generations reached bound).current]
    exact Nat.mod_lt _ (by decide)
  · exact fun idle => ((holds.connected (by simp [idle])).idle idle).1

/-- The head of a request with a body of two bytes. -/
def postHead : List UInt8 := ascii "POST / HTTP/1.1\r\nContent-Length: 2\r\n\r\n"

/-- A head and its body received one after the other, but before the client is popped. -/
theorem delivery_exact_at_post : ∃ st, (system fourClients).Reachable st ∧
    (st.server.cs 0).state = .idle ∧
    deliveries (connectionEvents st 0) = [(postHead, ascii "ok")] ∧
    deliveries (connectionEvents st 0) = requests (arrived (connectionEvents st 0)) := by
  obtain ⟨st, reached, passed⟩ := start_reaches fourClients
    [.wait, inputOn 0 [.client 5] .again,
      inputOn 1 [] (.data postHead (.data (ascii "ok") .again)), .round (fun _ => true),
      .sendResponse 0 (fun _ => true)]
    (fun st => (st.server.cs 0).state = .idle &&
      deliveries (connectionEvents st 0) = [(postHead, ascii "ok")] &&
      st.server.log.all (fun
        | .closed _ _ .queued => false
        | .deferred _ => false
        | .delivered _ _ head _ => head = postHead
        | _ => true)) (by decide +kernel)
  simp only [Bool.and_eq_true, decide_eq_true_eq, List.all_eq_true] at passed
  obtain ⟨⟨idle, delivered⟩, clean⟩ := passed
  have known : bodyLength postHead = some 2 := by decide +kernel
  have bound : 0 < fourClients.maxClients := by decide
  obtain ⟨-, -, -, -, all⟩ := delivery_exact_while_prompt reached bound
    (fun fd event => by simpa using clean _ event) (fun event => by simpa using clean _ event)
    (fun handle head body n event declared => by
      have same : head = postHead := by simpa using clean _ event
      subst same
      rw [known] at declared
      cases declared
      decide +kernel)
  exact ⟨st, reached, idle, delivered, all idle⟩

/-- A body that arrives after its head was popped: the client stays in `C_POPPED`, outside
the queue, and its request is never delivered. -/
theorem late_body_is_lost : ∃ st, (system fourClients).Reachable st ∧
    st.waiting = true ∧ st.server.qused = 0 ∧ (st.server.cs 0).state = .popped ∧
    requestAt (st.server.cs 0).input.bytes = some ((postHead, ascii "ok"), 40) ∧
    0 ∉ ring 4 st.server ∧ deliveries (connectionEvents st 0) = [] ∧
    requests (arrived (connectionEvents st 0)) = [(postHead, ascii "ok")] := by
  obtain ⟨st, reached, passed⟩ := start_reaches fourClients
    [.wait, inputOn 0 [.client 5] .again, inputOn 1 [] (.data postHead .again),
      .round (fun _ => true), inputOn 1 [] (.data (ascii "ok") .again)]
    (fun st => st.waiting && st.server.qused = 0 && (st.server.cs 0).state = .popped &&
      requestAt (st.server.cs 0).input.bytes = some ((postHead, ascii "ok"), 40) &&
      deliveries (connectionEvents st 0) = [] &&
      requests (arrived (connectionEvents st 0)) = [(postHead, ascii "ok")]) (by decide +kernel)
  simp only [Bool.and_eq_true, decide_eq_true_eq] at passed
  obtain ⟨⟨⟨⟨⟨waiting, empty⟩, popped⟩, complete⟩, none⟩, whole⟩ := passed
  exact ⟨st, reached, waiting, empty, popped, complete, by simp [ring, empty], none, whole⟩

end Mysnips.HttpServer

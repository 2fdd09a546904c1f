import Mysnips.HttpServerHeaders

/-! Keeping connections. `append_special_headers` announces whether a connection is kept and notes
it in `keepalive`, for HTTP/1.1 only. The note stays in the slot where a connection is closed inside
a response, and `http_server_send_response` follows it for whatever client comes next. The line of
the announcement may also come from the program, since `http_server_append_header` holds no field
back. -/
namespace Mysnips.HttpServer
open HttpParse CrlfLines Transition
open Memory (ascii)

/-! ## Announcements -/

/-- The header fields of a response after one more event. A request that is delivered begins the
next response. -/
def fieldStep (fields : List UInt8) : Event → List UInt8
  | .delivered _ _ _ _ => []
  | .built _ (.header text) => fields ++ (text ++ crlf)
  | .built _ (.special text) => fields ++ text
  | _ => fields

/-- The bytes behind the status line of the last response, up to the length of its body. -/
def headerFields (events : List Event) : List UInt8 := events.foldl fieldStep []

/-- A line of the header fields announces that the connection is kept. The status line ends in
front of them. -/
def KeepAnnounced (fields : List UInt8) : Prop :=
  ascii "\r\nConnection: Keep-Alive\r\n" <:+: crlf ++ fields

instance (fields : List UInt8) : Decidable (KeepAnnounced fields) :=
  inferInstanceAs (Decidable (_ <:+: _))

/-- The state of a client whose response is complete is the one that the response announced. -/
structure KeepsAnnouncement (c : Client) (fields : List UInt8) : Prop where
  kept : c.state = .idle ∨ c.state = .queued ↔ c.minor = 1 ∧ KeepAnnounced fields
  closed : ¬ (c.minor = 1 ∧ KeepAnnounced fields) → c.state = .close

/-- Whether a client whose response ends now is kept: what the head of the response announces, or
the note that is found where no announcement is made any more. -/
def keptAlive (max : Nat) (s : Server) (c : Client) : Bool :=
  if c.minor = 1 ∧ c.state ≠ .content then keepsAlive max s c else c.keepalive

/-- No note is left over for a client of HTTP/1.0, and the program has not written the line of a
kept connection for a client of HTTP/1.1 that is closed. -/
structure TrueNote (max : Nat) (s : Server) (c : Client) (fields : List UInt8) : Prop where
  older : c.minor ≠ 1 → c.keepalive = false
  newer : c.minor = 1 → keptAlive max s c = true ∨ ¬ KeepAnnounced fields

theorem headerFields_append (past events : List Event) :
    headerFields (past ++ events) = events.foldl fieldStep (headerFields past) :=
  List.foldl_append

/-- The events of a client add to its fields what they say. -/
theorem headerFields_log {ci : Nat} {events : List Event} {s s' : Server}
    (log : s'.log = s.log ++ events) (own : ∀ e ∈ events, e.client = ci) :
    headerFields (history ci s'.log) =
      events.foldl fieldStep (headerFields (history ci s.log)) := by
  rw [log, history_append, history_own own, headerFields_append]

/-- The announcement of a kept connection behind whole lines. -/
theorem keepAnnounced_special {fields : List UInt8} (lines : crlf <:+ crlf ++ fields) :
    KeepAnnounced (fields ++ specialHeaders 1 true) := by
  obtain ⟨before, whole⟩ := lines
  refine ⟨before, ascii "Content-Length: ", ?_⟩
  have line : ascii "\r\nConnection: Keep-Alive\r\n" = crlf ++ connectionLine true := by
    decide +kernel
  rw [line, ← List.append_assoc crlf, ← whole, specialHeaders, if_pos rfl]
  simp only [List.append_assoc]

/-- No part of the line of a kept connection begins the lines of a closed one. -/
private theorem closing_lines_apart : ∀ i < (ascii "\r\nConnection: Keep-Alive\r\n").length,
    ¬ (ascii "\r\nConnection: Keep-Alive\r\n").drop i <+: specialHeaders 1 false := by
  decide +kernel

/-- The announcement of a closed connection adds none of a kept one. -/
theorem keepAnnounced_closing (fields : List UInt8) :
    KeepAnnounced (fields ++ specialHeaders 1 false) ↔ KeepAnnounced fields := by
  unfold KeepAnnounced
  rw [← List.append_assoc, List.infix_append_iff_ne_nil]
  constructor
  · rintro (inside | behind | ⟨first, rest, -, more, line, -, starts⟩)
    · exact inside
    · exact absurd behind (by decide +kernel)
    · refine absurd starts ?_
      have cut : rest = (ascii "\r\nConnection: Keep-Alive\r\n").drop first.length := by
        rw [line, List.drop_left]
      have short : first.length < (ascii "\r\nConnection: Keep-Alive\r\n").length := by
        rw [line, List.length_append]
        have := List.length_pos_of_ne_nil more
        omega
      rw [cut]
      exact closing_lines_apart _ short
  · exact .inl

/-! ## The note of a client -/

/-- The header fields of a response that is being written fit the state of its client: before the
head is finished they are whole lines, and then a note of HTTP/1.1 is announced. -/
structure Announcing (c : Client) (fields : List UInt8) : Prop where
  lines : c.state = .status ∨ c.state = .header → crlf <:+ crlf ++ fields
  noted : c.state = .content → c.minor = 1 → c.keepalive = true → KeepAnnounced fields

private theorem Announcing.other {c : Client} {fields : List UInt8} (status : c.state ≠ .status)
    (header : c.state ≠ .header) (content : c.state ≠ .content) : Announcing c fields where
  lines was := (was.elim status header).elim
  noted was := absurd was content

private theorem Announcing.free {c : Client} {fields : List UInt8} (free : c.state = .free) :
    Announcing c fields :=
  .other (by simp [free]) (by simp [free]) (by simp [free])

theorem Announcing.step {ci : Nat} {c c' : Client} {past events : List Event}
    (announcing : Announcing c (headerFields past)) (step : ClientStep ci c events c') :
    Announcing c' (headerFields (past ++ events)) := by
  rw [headerFields_append]
  cases step with
  | serviced => exact announcing
  | moved pitem => exact ⟨announcing.lines, announcing.noted⟩
  | accepted fd pitem free => exact .other nofun nofun nofun
  | received input bytes grown waits => exact ⟨announcing.lines, announcing.noted⟩
  | queued input bytes grown idle found => exact .other nofun nofun nofun
  | sent n limited inside => exact ⟨announcing.lines, announcing.noted⟩
  | freed _ drift fd loss free gen input output => exact .free free
  | poppedFreed _ fd free gen input output => exact .free free
  | refused output text grown => exact .other nofun nofun nofun
  | deferred verdict => exact .other nofun nofun nofun
  | delivered r headLen total verdict small =>
    exact ⟨fun _ => ⟨[], rfl⟩, nofun⟩
  | status output text was grown => exact ⟨fun _ => announcing.lines (.inl was), nofun⟩
  | header output text was grown =>
    refine ⟨fun _ => ?_, fun content => absurd (was.symm.trans content) nofun⟩
    exact ⟨crlf ++ headerFields past ++ text, by simp [fieldStep]⟩
  | noted connheader was => exact ⟨announcing.lines, announcing.noted⟩
  | special output keep was grown =>
    refine ⟨nofun, fun _ newer kept => ?_⟩
    have newer : c.minor = 1 := newer
    obtain rfl : keep = true := by simpa [newer] using kept
    rw [newer]
    exact keepAnnounced_special (announcing.lines (.inr was))
  | content output data was grown => exact ⟨announcing.lines, announcing.noted⟩
  | completed input output state keepalive was short stored inside left afterwards =>
    cases afterwards <;> exact .other nofun nofun nofun

theorem reachable_announcing {config : Config} {ci : Nat} (bound : ci < config.maxClients)
    {st : State} (reached : (system config).Reachable st) :
    Announcing (st.server.cs ci) (headerFields (history ci st.server.log)) := by
  refine reachable_client (P := fun c past => Announcing c (headerFields past)) (fun _ => True) bound
    ?_ ?_ reached (fun _ _ => trivial)
  · intro c free gen
    exact .free free
  · intro c past events c' _ announcing step
    exact announcing.step step

/-! ## The end of a response -/

/-- No response was completed. -/
def Unfinished (ci : Nat) (s s' : Server) : Prop :=
  ∃ events, s'.log = s.log ++ events ∧ .completed ci ∉ events

theorem Unfinished.trans {ci : Nat} {s s' s'' : Server} (first : Unfinished ci s s')
    (second : Unfinished ci s' s'') : Unfinished ci s s'' := by
  obtain ⟨events, log, absent⟩ := first
  obtain ⟨events', log', absent'⟩ := second
  refine ⟨events ++ events', by rw [log', log, List.append_assoc], ?_⟩
  rw [List.mem_append]
  exact not_or.mpr ⟨absent, absent'⟩

theorem Unfinished.refl (ci : Nat) (s : Server) : Unfinished ci s s :=
  ⟨[], (List.append_nil _).symm, List.not_mem_nil⟩

theorem Unfinished.record {ci : Nat} (s : Server) {e : Event} (other : e ≠ .completed ci) :
    Unfinished ci s (s.record e) :=
  ⟨[e], rfl, by simpa using other.symm⟩

theorem closeClient_unfinished {max ci : Nat} {s s' : Server}
    (done : closeClient max s ci = .ok s') : Unfinished ci s s' := by
  obtain ⟨pi, closing⟩ := closeClient_closing done
  exact ⟨_, closing.log, by simp⟩

theorem LostInHead.unfinished {max ci : Nat} {s s' : Server} (lost : LostInHead max ci s s') :
    Unfinished ci s s' := by
  obtain ⟨s₁, drift, done⟩ := lost
  exact .trans ⟨[], drift.touch.log, List.not_mem_nil⟩ (closeClient_unfinished done)

/-- The client is ready for the end of its response: its head is finished, now or before. -/
structure Prepared (max ci : Nat) (s s' : Server) : Prop where
  unfinished : Unfinished ci s s'
  began : (s.cs ci).state = .content ∨ (s.cs ci).state = .status ∨ (s.cs ci).state = .header
  state : (s'.cs ci).state = .content
  minor : (s'.cs ci).minor = (s.cs ci).minor
  keepalive : (s'.cs ci).keepalive = keptAlive max s (s.cs ci)
  fields : headerFields (history ci s'.log) = headerFields (history ci s.log) ++
    if (s.cs ci).state = .content then []
    else specialHeaders (s.cs ci).minor (keepsAlive max s (s.cs ci))

theorem Prepared.already {max ci : Nat} {s : Server} (was : (s.cs ci).state = .content) :
    Prepared max ci s s where
  unfinished := .refl ci s
  began := .inl was
  state := was
  minor := rfl
  keepalive := by simp [keptAlive, was]
  fields := by simp [was]

/-- An answer without a body: its head is finished and nothing else is written. -/
theorem appendContent_nothing {max handle ci : Nat} {alloc : Nat → Bool} {s s' : Server}
    (found : clientFromHandle s handle = some ci) (was : (s.cs ci).state = .header)
    (ran : appendContent max alloc s handle [] = .ok s') :
    LostInHead max ci s s' ∨ ∃ s₁, HeadFinished ci (keepsAlive max s (s.cs ci)) s s₁ ∧
      s' = s₁.record (.built ci (.content [])) := by
  simp only [appendContent, appendBody, found, was, if_true] at ran
  obtain ⟨⟨ok, s₁⟩, special, rest⟩ := bind_ok ran
  rcases appendSpecialHeaders_cases special with ⟨rfl, lost⟩ | ⟨rfl, finished⟩
  · cases rest
    exact .inl lost
  · obtain ⟨output, -, same⟩ := finished.client
    simp only [same, Bool.not_true, Bool.false_eq_true, ne_eq, not_true_eq_false, if_false,
      appendOutput] at rest
    cases rest
    exact .inr ⟨s₁, finished, rfl⟩

/-- The handle leads nowhere any more, and no response was completed. -/
def Dropped (handle ci : Nat) (s s' : Server) : Prop :=
  clientFromHandle s' handle = none ∧ Unfinished ci s s'

theorem prepare_header {max handle ci : Nat} {alloc : Nat → Bool} {s s' : Server}
    (found : clientFromHandle s handle = some ci) (was : (s.cs ci).state = .header)
    (ran : appendContent max alloc s handle [] = .ok s') :
    Dropped handle ci s s' ∨ (clientFromHandle s' handle = some ci ∧ Prepared max ci s s') := by
  rcases appendContent_nothing found was ran with lost | ⟨s₁, finished, rfl⟩
  · exact .inl ⟨(lost.lost found).1, lost.unfinished⟩
  · obtain ⟨output, -, same⟩ := finished.client
    have found₁ := found_touch found finished.touch (by rw [same])
    refine .inr ⟨?_, .trans ⟨_, finished.touch.log, by simp⟩ (.record s₁ nofun), .inr (.inr was),
      ?_, ?_, ?_, ?_⟩
    · simpa [clientFromHandle_iff] using clientFromHandle_iff.mp found₁
    · simp [same]
    · simp [same]
    · simp [same, keptAlive, was]
    · have touch := finished.touch.trans (Touch.record s₁ (.built ci (.content [])) rfl)
      rw [headerFields_log touch.log touch.own, was]
      rfl

/-- The status line leaves everything as it is on which the announcement depends. -/
structure StatusWritten (max ci : Nat) (s s' : Server) : Prop where
  unfinished : Unfinished ci s s'
  state : (s'.cs ci).state = .header
  minor : (s'.cs ci).minor = (s.cs ci).minor
  keepalive : (s'.cs ci).keepalive = (s.cs ci).keepalive
  decision : keepsAlive max s' (s'.cs ci) = keepsAlive max s (s.cs ci)
  fields : headerFields (history ci s'.log) = headerFields (history ci s.log)

theorem prepare_status {max handle ci : Nat} {alloc : Nat → Bool} {s s' : Server} {status : Int}
    (found : clientFromHandle s handle = some ci) (was : (s.cs ci).state = .status)
    (ran : setStatus max alloc s handle status = .ok s') :
    Dropped handle ci s s' ∨ (clientFromHandle s' handle = some ci ∧ StatusWritten max ci s s') := by
  rcases setStatus_cases found was ran with closed | ⟨s₁, appended, rfl⟩
  · exact .inl ⟨(closeClient_lost found closed).1, closeClient_unfinished closed⟩
  · obtain ⟨output, same, -⟩ := appended.output
    have written := appended.touch.trans ((Touch.setClient s₁ ci { s₁.cs ci with state := .header }
      rfl).trans (Touch.record _ (.built ci (.status (statusText (s.cs ci).minor status))) rfl))
    refine .inr ⟨?_, ⟨_, written.log, by simp⟩, ?_, ?_, ?_, ?_, ?_⟩
    · simpa [clientFromHandle_iff] using clientFromHandle_iff.mp (appended.found found)
    · simp
    · simp [same]
    · simp [same]
    · simp [same, keepsAlive, appended.touch.ncs]
    · rw [headerFields_log written.log written.own]
      rfl

/-- The end of the response of a client whose status line was just written. -/
theorem StatusWritten.prepared {max ci : Nat} {s s₁ s₂ : Server}
    (was : (s.cs ci).state = .status) (written : StatusWritten max ci s s₁)
    (prepared : Prepared max ci s₁ s₂) : Prepared max ci s s₂ where
  unfinished := written.unfinished.trans prepared.unfinished
  began := .inr (.inl was)
  state := prepared.state
  minor := prepared.minor.trans written.minor
  keepalive := by
    rw [prepared.keepalive]
    simp [keptAlive, written.minor, written.state, written.decision, written.keepalive, was]
  fields := by
    rw [prepared.fields, written.fields, written.state, was, written.minor, written.decision]
    rfl

/-- The handle still leads to the client, whose head is finished or cannot be. -/
def Ready (max handle ci : Nat) (s s' : Server) : Prop :=
  clientFromHandle s' handle = some ci ∧
    (Prepared max ci s s' ∨ (s' = s ∧ (s.cs ci).state ≠ .content))

theorem ready_header {max handle ci : Nat} {alloc : Nat → Bool} {s s' : Server}
    (found : clientFromHandle s handle = some ci)
    (ran : (if (s.cs ci).state = .header then appendContent max alloc s handle [] else .ok s) =
      .ok s') : Dropped handle ci s s' ∨ Ready max handle ci s s' := by
  split at ran
  · next was =>
    rcases prepare_header found was ran with dropped | ⟨found', prepared⟩
    · exact .inl dropped
    · exact .inr ⟨found', .inl prepared⟩
  · cases ran
    by_cases was : (s.cs ci).state = .content
    · exact .inr ⟨found, .inl (.already was)⟩
    · exact .inr ⟨found, .inr ⟨rfl, was⟩⟩

/-- The rest of `http_server_send_response` behind the status line. -/
theorem sendBehindStatus_completes {max handle ci : Nat} {alloc : Nat → Bool} {s s' : Server}
    (found : clientFromHandle s handle = some ci)
    (ran : (do
      let s ← (if (s.cs ci).state = .header then appendContent max alloc s handle [] else .ok s)
      match clientFromHandle s handle with
      | none => .ok s
      | some ci =>
        if (s.cs ci).state ≠ .content then closeClient max s ci else finishResponse max s ci) =
      Except.ok s') :
    Unfinished ci s s' ∨
      ∃ s₁, ci < s₁.ncs ∧ Prepared max ci s s₁ ∧ finishResponse max s₁ ci = .ok s' := by
  obtain ⟨s₁, content, rest⟩ := bind_ok ran
  rcases ready_header found content with ⟨none, unfinished⟩ | ⟨found₁, ready⟩
  · rw [none] at rest
    cases rest
    exact .inl unfinished
  · simp only [found₁] at rest
    rcases ready with prepared | ⟨rfl, other⟩
    · rw [if_neg (not_not.mpr prepared.state)] at rest
      exact .inr ⟨s₁, clientFromHandle_bound found₁, prepared, rest⟩
    · rw [if_pos other] at rest
      exact .inl (closeClient_unfinished rest)

/-- A response is completed by finishing its head, where it is not finished yet, and then the
response. -/
theorem sendResponse_completes {max handle ci : Nat} {alloc : Nat → Bool} {s s' : Server}
    (found : clientFromHandle s handle = some ci)
    (ran : sendResponse max alloc s handle = .ok s') :
    Unfinished ci s s' ∨
      ∃ s₁, ci < s₁.ncs ∧ Prepared max ci s s₁ ∧ finishResponse max s₁ ci = .ok s' := by
  simp only [sendResponse, found] at ran
  obtain ⟨s₁, status, rest⟩ := bind_ok ran
  split at status
  · next was =>
    rcases prepare_status found was status with ⟨none, unfinished⟩ | ⟨found₁, written⟩
    · rw [none] at rest
      cases rest
      exact .inl unfinished
    · simp only [found₁] at rest
      rcases sendBehindStatus_completes found₁ rest with unfinished | ⟨s₂, bound, prepared, ended⟩
      · exact .inl (written.unfinished.trans unfinished)
      · exact .inr ⟨s₂, bound, written.prepared was prepared, ended⟩
  · cases status
    simp only [found] at rest
    exact sendBehindStatus_completes found rest

/-- Where a client goes with a complete response depends on its note. -/
theorem ClientStep.completed_state {ci : Nat} {c c' : Client}
    (step : ClientStep ci c [.completed ci] c') :
    c'.minor = c.minor ∧ (c.keepalive = true → c'.state = .idle ∨ c'.state = .queued) ∧
      (c.keepalive = false → c'.state = .close) := by
  generalize finished : [Event.completed ci] = events at step
  cases step with
  | completed input output state keepalive was short stored inside left afterwards =>
    refine ⟨rfl, ?_⟩
    cases afterwards with
    | queued keeps found => exact ⟨fun _ => .inr rfl, fun ends => by simp [keeps] at ends⟩
    | idle keeps missing => exact ⟨fun _ => .inl rfl, fun ends => by simp [keeps] at ends⟩
    | close ends => exact ⟨fun keeps => by simp [ends] at keeps, fun _ => rfl⟩
  | freed _ drift fd loss => simpa using congrArg List.getLast? finished
  | _ => cases finished

/-- The announcement of a response, at its end. -/
theorem Prepared.announced {max ci : Nat} {s s' : Server} (prepared : Prepared max ci s s')
    (announcing : Announcing (s.cs ci) (headerFields (history ci s.log)))
    (newer : (s.cs ci).minor = 1) :
    KeepAnnounced (headerFields (history ci s'.log)) ↔
      keptAlive max s (s.cs ci) = true ∨ KeepAnnounced (headerFields (history ci s.log)) := by
  rw [prepared.fields]
  rcases prepared.began with content | early
  · rw [if_pos content, List.append_nil]
    have kept : keptAlive max s (s.cs ci) = (s.cs ci).keepalive := by simp [keptAlive, content]
    rw [kept]
    exact ⟨.inr, fun either => either.elim (announcing.noted content newer) id⟩
  · have content : (s.cs ci).state ≠ .content := by
      rcases early with was | was <;> simp [was]
    have kept : keptAlive max s (s.cs ci) = keepsAlive max s (s.cs ci) := by
      simp [keptAlive, content, newer]
    rw [if_neg content, newer, kept]
    cases keepsAlive max s (s.cs ci) with
    | true => exact iff_of_true (keepAnnounced_special (announcing.lines early)) (.inl rfl)
    | false => simpa using keepAnnounced_closing (headerFields (history ci s.log))

/-- A client that goes on or is closed as a note says keeps the announcement if the note does. -/
theorem keepsAnnouncement_iff {c : Client} {fields : List UInt8} {kept : Bool}
    (keeps : kept = true → c.state = .idle ∨ c.state = .queued)
    (closes : kept = false → c.state = .close) :
    KeepsAnnouncement c fields ↔ (kept = true ↔ c.minor = 1 ∧ KeepAnnounced fields) := by
  cases kept with
  | true =>
    have state := keeps rfl
    constructor
    · intro announcement
      exact iff_of_true rfl (announcement.kept.mp state)
    · intro same
      exact ⟨iff_of_true state (same.mp rfl), fun silent => absurd (same.mp rfl) silent⟩
  | false =>
    have state := closes rfl
    constructor
    · intro announcement
      refine iff_of_false Bool.false_ne_true (fun announced => ?_)
      simpa [state] using announcement.kept.mpr announced
    · intro same
      have silent : ¬ (c.minor = 1 ∧ KeepAnnounced fields) :=
        fun announced => Bool.false_ne_true (same.mpr announced)
      exact ⟨iff_of_false (by simp [state]) silent, fun _ => state⟩

/-- In every run a response that is completed leaves its client where it announced, exactly if no
note is left over for a client of HTTP/1.0 and the program has not announced, against the server,
that the connection is kept. -/
theorem keepalive_announced_iff {config : Config} {st st' : State} {handle ci : Nat}
    {alloc : Nat → Bool} {events : List Event} (reached : (system config).Reachable st)
    (sent : (system config).next st (.sendResponse handle alloc) = some st')
    (found : clientFromHandle st.server handle = some ci)
    (log : st'.server.log = st.server.log ++ events) (completed : .completed ci ∈ events) :
    KeepsAnnouncement (st'.server.cs ci) (headerFields (history ci st'.server.log)) ↔
      TrueNote config.maxClients st.server (st.server.cs ci)
        (headerFields (history ci st.server.log)) := by
  have bound : ci < config.maxClients :=
    (clientFromHandle_bound found).trans_le (reachable_bounded reached).ncs
  have announcing := reachable_announcing bound reached
  rcases sendResponse_completes found (call_ok sent) with ⟨events', log', absent⟩ |
    ⟨s₁, inside, prepared, ended⟩
  · rw [log, List.append_cancel_left_eq] at log'
    exact absurd (log' ▸ completed) absent
  obtain ⟨-, step, last⟩ := finishResponse_micro inside prepared.state ended
  obtain ⟨minor, keeps, closes⟩ := step.completed_state
  rw [prepared.minor] at minor
  rw [prepared.keepalive] at keeps closes
  have fields : headerFields (history ci st'.server.log) = headerFields (history ci s₁.log) := by
    rw [headerFields_log last (by simp [Event.client])]
    rfl
  rw [fields, keepsAnnouncement_iff keeps closes, minor]
  by_cases newer : (st.server.cs ci).minor = 1
  · rw [prepared.announced announcing newer]
    constructor
    · intro same
      refine ⟨fun older => absurd newer older, fun _ => or_iff_not_imp_left.mpr ?_⟩
      exact fun closed announced => closed (same.mpr ⟨newer, .inr announced⟩)
    · intro note
      refine ⟨fun kept => ⟨newer, .inl kept⟩, fun announced => ?_⟩
      rcases note.newer newer with kept | silent
      · exact kept
      · exact announced.2.resolve_right silent
  · have kept : keptAlive config.maxClients st.server (st.server.cs ci) =
        (st.server.cs ci).keepalive := by simp [keptAlive, newer]
    rw [kept]
    constructor
    · intro same
      refine ⟨fun _ => Bool.eq_false_iff.mpr (fun left => newer (same.mp left).1), ?_⟩
      exact fun is => absurd is newer
    · intro note
      rw [note.older newer]
      exact iff_of_false Bool.false_ne_true (fun announced => newer announced.1)

/-- A check of a completed response, in a run from the start. -/
theorem start_completes (config : Config) (actions : List Action) (handle ci : Nat)
    (check : State → State → Bool)
    (passed : ((system config).replay (start config.maxClients) actions).any fun st =>
      clientFromHandle st.server handle = some ci &&
        ((system config).next st (.sendResponse handle fun _ => true)).any fun st' =>
          check st st' && st'.server.log.take st.server.log.length = st.server.log &&
            .completed ci ∈ st'.server.log.drop st.server.log.length) :
    ∃ st st' events, (system config).Reachable st ∧
      (system config).next st (.sendResponse handle fun _ => true) = some st' ∧
      clientFromHandle st.server handle = some ci ∧
      st'.server.log = st.server.log ++ events ∧ .completed ci ∈ events ∧ check st st' := by
  obtain ⟨st, reached, passed⟩ := start_reaches config actions _ passed
  simp only [Bool.and_eq_true, decide_eq_true_eq, Option.any_eq_true] at passed
  obtain ⟨found, st', sent, ⟨checked, kept⟩, completed⟩ := passed
  refine ⟨st, st', _, reached, sent, found, ?_, completed, checked⟩
  nth_rewrite 1 [← List.take_append_drop st.server.log.length st'.server.log]
  rw [kept]

/-- An answer to a request of HTTP/1.1, which announces that the connection is kept. -/
theorem keepalive_announced_answer : ∃ st st', (system fourClients).Reachable st ∧
    (system fourClients).next st (.sendResponse 0 fun _ => true) = some st' ∧
    (st'.server.cs 0).state = .idle ∧
    KeepsAnnouncement (st'.server.cs 0) (headerFields (history 0 st'.server.log)) := by
  obtain ⟨st, st', events, reached, sent, found, log, completed, checked⟩ :=
    start_completes fourClients
      [.wait, inputOn 0 [.client 5] .again,
        inputOn 1 [] (.data (ascii "GET / HTTP/1.1\r\n\r\n") .again), .round (fun _ => true)] 0 0
      (fun st st' => (st.server.cs 0).minor = 1 && keptAlive 4 st.server (st.server.cs 0) &&
        (st'.server.cs 0).state = .idle) (by decide +kernel)
  simp only [Bool.and_eq_true, decide_eq_true_eq] at checked
  obtain ⟨⟨newer, kept⟩, idle⟩ := checked
  refine ⟨st, st', reached, sent, idle, ?_⟩
  exact (keepalive_announced_iff reached sent found log completed).mpr
    ⟨fun older => absurd newer older, fun _ => .inl kept⟩

/-- A client of HTTP/1.1 is lost inside its response, and its note is left for the next client of
the slot: a response of HTTP/1.0, which announces nothing, leaves it idle. -/
theorem keepalive_left_over : ∃ st st' events, (system fourClients).Reachable st ∧
    (system fourClients).next st (.sendResponse 1 fun _ => true) = some st' ∧
    clientFromHandle st.server 1 = some 0 ∧
    st'.server.log = st.server.log ++ events ∧ .completed 0 ∈ events ∧
    (st'.server.cs 0).minor = 0 ∧ (st'.server.cs 0).state = .idle ∧
    ¬ KeepsAnnouncement (st'.server.cs 0) (headerFields (history 0 st'.server.log)) := by
  obtain ⟨st, st', events, reached, sent, found, log, completed, checked⟩ :=
    start_completes fourClients
      [.wait, inputOn 0 [.client 5] .again,
        inputOn 1 [] (.data (ascii "GET / HTTP/1.1\r\n\r\n") .again), .round (fun _ => true),
        .setStatus 0 200 (fun _ => true), .appendContent 0 (ascii "hello") (fun _ => true),
        .wait, inputOn 1 [] .closed, inputOn 0 [.client 6] .again,
        inputOn 1 [] (.data (ascii "GET / HTTP/1.0\r\n\r\n") .again), .round (fun _ => true)] 1 0
      (fun st st' => (st'.server.cs 0).minor = 0 && (st'.server.cs 0).state = .idle)
      (by decide +kernel)
  simp only [Bool.and_eq_true, decide_eq_true_eq] at checked
  obtain ⟨older, idle⟩ := checked
  refine ⟨st, st', events, reached, sent, found, log, completed, older, idle, ?_⟩
  intro announcement
  have newer := (announcement.kept.mp (.inl idle)).1
  rw [older] at newer
  cases newer

end Mysnips.HttpServer

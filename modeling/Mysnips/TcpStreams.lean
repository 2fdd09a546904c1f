import Mysnips.TcpDataEvents

/-! The bytes of a connection. A history beside each client holds what `recv` handed over and what
the program has read, what the program has written and what `send` took, since the connection was
opened. No byte is lost, repeated or moved on the way through a queue of the client, unless the
queue has to be reallocated behind bytes that were already taken out of it. -/
namespace Mysnips.Tcp
open ByteQueue Memory Transition

/-! ### One queue -/

/-- What was put into a queue and what was taken out of it. `kept` says that the bytes were at the
start of the region each time the queue was short of space. -/
structure Stream where
  put : List UInt8 := []
  taken : List UInt8 := []
  kept : Bool := true
  deriving DecidableEq, Repr

/-- Space is asked for. -/
def Stream.ensure (stream : Stream) (queue : Queue) (num : Nat) : Stream :=
  { stream with kept := stream.kept && decide (queue.capacity - queue.size < num → queue.head = 0) }

def Stream.write (stream : Stream) (bytes : List UInt8) : Stream :=
  { stream with put := stream.put ++ bytes }

/-- The bytes at the front of the queue are taken out. -/
def Stream.read (stream : Stream) (queue : Queue) (num : Nat) : Stream :=
  { stream with taken := stream.taken ++ (load queue.data (startRead queue) num).getD [] }

/-- The bytes that the loop of `move_bytes_from_socket_to_queue` puts into the queue. -/
def recvStream : List RecvRound → Queue → Stream → Stream
  | [], _, stream => stream
  | round :: rest, queue, stream =>
    match ensureMinFreeSpace queue 256 round.malloc, round.result with
    | some (grown, true), .received bytes =>
      match store grown.data (startWrite grown) bytes with
      | some data => recvStream rest (endWrite { grown with data } bytes.length)
          ((stream.ensure queue 256).write bytes)
      | none => stream.ensure queue 256
    | _, _ => stream.ensure queue 256

/-- The bytes that the loop of `move_bytes_from_queue_to_socket` takes out of the queue. -/
def sendStream : List Send → (zeros : Nat) → Queue → Stream → Stream
  | results, zeros, queue, stream =>
    if usedSpace queue = 0 then stream
    else
      match results with
      | .sent num :: rest =>
        if num = 0 then
          if zeros + 1 = 10 then stream
          else sendStream rest (zeros + 1) (endRead queue num) (stream.read queue num)
        else sendStream rest 0 (endRead queue num) (stream.read queue num)
      | _ => stream

/-- What was put into the queue is what was taken out of it and what it holds. -/
def Carries (queue : Queue) (stream : Stream) : Prop :=
  stream.kept = true → ∃ pending, Ready queue pending ∧ stream.put = stream.taken ++ pending

section Queue

variable {queue queue' : Queue} {stream : Stream} {num : Nat}

theorem carries_init : Carries init {} := fun _ => ⟨[], ⟨rfl, by decide, le_refl _, by decide⟩, rfl⟩

theorem Carries.ensure {malloc : Malloc} {ok : Bool} (carries : Carries queue stream)
    (small : num < 2 ^ 63) (ran : ensureMinFreeSpace queue num malloc = some (queue', ok)) :
    Carries queue' (stream.ensure queue num) ∧
      (ok = true → (stream.ensure queue num).kept = true → num ≤ freeSpace queue') := by
  have spec : (stream.ensure queue num).kept = true → ∃ pending, Ready queue' pending ∧
      stream.put = stream.taken ++ pending ∧ (ok = true → num ≤ freeSpace queue') := by
    intro kept
    obtain ⟨before, start⟩ := Bool.and_eq_true_iff.mp kept
    obtain ⟨pending, ready, same⟩ := carries before
    have inside := ready.inside
    have object := ready.object
    obtain ⟨after, ok', ensured, ready', room⟩ :=
      ensure_spec malloc ready fun short => ⟨of_decide_eq_true start short, by omega⟩
    rw [ran] at ensured
    cases ensured
    exact ⟨pending, ready', same, room⟩
  refine ⟨fun kept => ?_, fun granted kept => ?_⟩
  · obtain ⟨pending, ready, same, -⟩ := spec kept
    exact ⟨pending, ready, same⟩
  · obtain ⟨pending, ready, same, room⟩ := spec kept
    exact room granted

theorem Carries.write {bytes data : List UInt8} (carries : Carries queue stream)
    (room : stream.kept = true → bytes.length ≤ freeSpace queue)
    (stored : store queue.data (startWrite queue) bytes = some data) :
    Carries (endWrite { queue with data } bytes.length) (stream.write bytes) := by
  intro kept
  obtain ⟨pending, ready, same⟩ := carries kept
  obtain ⟨data', stored', ready'⟩ := write_spec ready (room kept)
  rw [stored] at stored'
  cases stored'
  exact ⟨pending ++ bytes, ready', by rw [Stream.write, same, List.append_assoc]⟩

theorem Carries.read (carries : Carries queue stream) (within : num ≤ usedSpace queue) :
    Carries (endRead queue num) (stream.read queue num) := by
  intro kept
  obtain ⟨pending, ready, same⟩ := carries kept
  refine ⟨pending.drop num, read_spec ready within, ?_⟩
  have front : load queue.data (startRead queue) num = some (pending.take num) :=
    load_take ready.live num within
  rw [Stream.read, front, Option.getD_some, List.append_assoc, List.take_append_drop, same]

/-- The input loop. -/
theorem recvLoop_carries {rounds : List RecvRound} {ending : Moved} (carries : Carries queue stream)
    (ran : recvLoop rounds queue = some (queue', ending)) :
    Carries queue' (recvStream rounds queue stream) := by
  induction rounds generalizing queue stream with
  | nil => cases ran
  | cons round rest ih =>
    unfold recvLoop at ran
    obtain ⟨⟨grown, ok⟩, ensured, ran⟩ := Option.bind_eq_some_iff.mp ran
    obtain ⟨after, room⟩ := carries.ensure (by decide) ensured
    unfold recvStream
    simp only [ensured]
    cases ok with
    | false =>
      cases ran
      exact after
    | true =>
      simp only [reduceCtorEq, if_false] at ran
      cases answer : round.result with
      | disconnected | wouldBlock | failed =>
        rw [answer] at ran
        cases ran
        exact after
      | received bytes =>
        rw [answer] at ran
        simp only at ran
        split at ran
        · next legal =>
          obtain ⟨data, stored, ran⟩ := Option.bind_eq_some_iff.mp ran
          simp only [stored]
          -- `recv` is given all of the free space, so that what it hands over fits.
          exact ih (after.write (fun _ => legal.2) stored) ran
        · cases ran

/-- The output loop. -/
theorem sendLoop_carries {results : List Send} {zeros : Nat} {sent : Bool}
    (carries : Carries queue stream) (ran : sendLoop results zeros queue = some (queue', sent)) :
    Carries queue' (sendStream results zeros queue stream) := by
  induction results generalizing queue zeros stream with
  | nil =>
    unfold sendLoop at ran
    unfold sendStream
    split at ran
    · next empty =>
      cases ran
      rw [if_pos empty]
      exact carries
    · cases ran
  | cons result rest ih =>
    unfold sendLoop at ran
    unfold sendStream
    by_cases empty : usedSpace queue = 0
    · rw [if_pos empty] at ran ⊢
      cases ran
      exact carries
    rw [if_neg empty] at ran ⊢
    cases result with
    | wouldBlock | failed =>
      cases ran
      exact carries
    | sent num =>
      simp only at ran ⊢
      split at ran
      · next within =>
        have after := carries.read within
        by_cases none : num = 0
        · rw [if_pos none] at ran ⊢
          by_cases last : zeros + 1 = 10
          · rw [if_pos last] at ran ⊢
            cases ran
            exact carries
          · rw [if_neg last] at ran ⊢
            exact ih after ran
        · rw [if_neg none] at ran ⊢
          exact ih after ran
      · cases ran

end Queue

/-! ### One client -/

/-- The streams of the two queues of a client. -/
structure Streams where
  input : Stream := {}
  output : Stream := {}
  deriving DecidableEq, Repr

/-- A poll processes the input of the client. -/
def Streams.receive (streams : Streams) (client : Client) (traffic : Traffic) : Streams :=
  if traffic.pollin ∨ traffic.pollhup then
    { streams with input := recvStream traffic.recvs client.input streams.input }
  else streams

/-- A poll processes the output of the client. -/
def Streams.send (streams : Streams) (client : Client) (traffic : Traffic) : Streams :=
  if (client.state = .used ∨ client.state = .close) ∧ traffic.pollout then
    { streams with output := sendStream traffic.sends 0 client.output streams.output }
  else streams

/-- The program reads. -/
def Streams.read (streams : Streams) (client : Client) (num : Nat) : Streams :=
  { streams with input := streams.input.read client.input num }

/-- The program writes. -/
def Streams.write (streams : Streams) (client : Client) (data : List UInt8) : Streams :=
  if client.state = .used then
    { streams with output := (streams.output.ensure client.output data.length).write data }
  else streams

/-- Both queues of a client carry its streams. -/
structure Flows (client : Client) (streams : Streams) : Prop where
  input : Carries client.input streams.input
  output : Carries client.output streams.output

/-- What a call does at one client, and to its streams. -/
structure Turn (s s' : State) (ref : Ref) (streams streams' : Streams) : Prop where
  others : ∀ other, other ≠ ref → s'.clients other = s.clients other
  used : (s'.clients ref).state ≠ .free → (s.clients ref).state ≠ .free
  flows : (s'.clients ref).state ≠ .free → Flows (s.clients ref) streams →
    Flows (s'.clients ref) streams'

section Turn

variable {s s₁ s' : State} {ref : Ref} {sdx slot : Nat} {traffic : Traffic}
  {streams streams₁ streams' : Streams}

theorem Turn.refl : Turn s s ref streams streams := ⟨fun _ _ => rfl, id, fun _ => id⟩

theorem Turn.trans (first : Turn s s₁ ref streams streams₁)
    (second : Turn s₁ s' ref streams₁ streams') : Turn s s' ref streams streams' where
  others other different := (second.others other different).trans (first.others other different)
  used := first.used ∘ second.used
  flows used flows := second.flows used (first.flows (second.used used) flows)

theorem Turn.setClient {client : Client}
    (used : client.state ≠ .free → (s.clients ref).state ≠ .free)
    (flows : Flows (s.clients ref) streams → Flows client streams') :
    Turn s (s.setClient ref client) ref streams streams' where
  others _ different := setClient_ne different
  used := by
    rw [setClient_self]
    exact used
  flows _ := by
    rw [setClient_self]
    exact flows

/-- What does not touch the clients. -/
theorem Turn.same (turn : Turn s s₁ ref streams streams') (clients : s'.clients = s₁.clients) :
    Turn s s' ref streams streams' where
  others := by
    rw [clients]
    exact turn.others
  used := by
    rw [clients]
    exact turn.used
  flows := by
    rw [clients]
    exact turn.flows

theorem hangUp_turn (used : (s.clients ⟨some sdx, slot⟩).state ≠ .free)
    (ran : hangUp s sdx slot = some s') : Turn s s' ⟨some sdx, slot⟩ streams streams := by
  obtain ⟨clients, -⟩ := pushEvent_log ran
  refine Turn.same (Turn.setClient (fun _ => used) fun flows => ?_) clients
  exact ⟨flows.input, flows.output⟩

theorem freeClient_turn : Turn s (freeClient s ref) ref streams streams := by
  refine Turn.same (Turn.setClient (fun used => absurd rfl used) fun flows => ?_) rfl
  exact ⟨flows.input, flows.output⟩

/-- The input queue takes what the input loop hands over. -/
theorem Flows.receive {client : Client} {input : Queue} {ending : Moved} {moved : Nat}
    (flows : Flows client streams) (reported : traffic.pollin = true ∨ traffic.pollhup = true)
    (came : clientInput client traffic = some (input, ending, moved)) :
    Flows { client with input } (streams.receive client traffic) := by
  obtain ⟨⟨input', ending'⟩, received, rest⟩ := Option.bind_eq_some_iff.mp came
  cases rest
  rw [Streams.receive, if_pos reported]
  exact ⟨recvLoop_carries flows.input received, flows.output⟩

/-- The output queue gives up what the output loop sends. -/
theorem Flows.send {client : Client} {output : Queue} {sent : Bool} (flows : Flows client streams)
    (serves : client.state = .used ∨ client.state = .close) (reported : traffic.pollout = true)
    (flushed : sendLoop traffic.sends 0 client.output = some (output, sent)) :
    Flows { client with output } (streams.send client traffic) := by
  rw [Streams.send, if_pos ⟨serves, reported⟩]
  exact ⟨flows.input, sendLoop_carries flows.output flushed⟩

theorem pollInput_turn (ran : pollInput s sdx slot traffic = some s') :
    Turn s s' ⟨some sdx, slot⟩ streams (streams.receive (s.clients ⟨some sdx, slot⟩) traffic) := by
  unfold pollInput at ran
  simp only at ran
  split at ran
  · next free =>
    cases ran
    exact ⟨fun _ _ => rfl, id, fun used => absurd free used⟩
  next used =>
  split at ran
  · next reported =>
    obtain ⟨⟨input, ending, moved⟩, came, ran⟩ := Option.bind_eq_some_iff.mp ran
    obtain ⟨s₁, pushed, ran⟩ := Option.bind_eq_some_iff.mp ran
    obtain ⟨clients, -⟩ := pushMoved_raises pushed
    have first : Turn s s₁ ⟨some sdx, slot⟩ streams
        (streams.receive (s.clients ⟨some sdx, slot⟩) traffic) :=
      Turn.same (.setClient (fun _ => used) fun flows => flows.receive reported came) clients
    split at ran
    · refine first.trans (hangUp_turn ?_ ran)
      rw [clients, setClient_self]
      exact used
    · cases ran
      exact first
  · next unreported =>
    cases ran
    rw [Streams.receive, if_neg unreported]
    exact .refl

theorem pollOutput_turn (ran : pollOutput s sdx slot traffic = some s') :
    Turn s s' ⟨some sdx, slot⟩ streams (streams.send (s.clients ⟨some sdx, slot⟩) traffic) := by
  unfold pollOutput at ran
  simp only at ran
  split at ran
  · next neither =>
    cases ran
    rw [Streams.send, if_neg fun both => both.1.elim neither.1 neither.2]
    exact .refl
  next either =>
  have serves : (s.clients ⟨some sdx, slot⟩).state = .used ∨
      (s.clients ⟨some sdx, slot⟩).state = .close := by
    by_contra neither
    exact either (not_or.mp neither)
  split at ran
  · next reported =>
    obtain ⟨⟨output, sent⟩, flushed, ran⟩ := Option.bind_eq_some_iff.mp ran
    have first : Turn s (s.setClient ⟨some sdx, slot⟩ { s.clients ⟨some sdx, slot⟩ with output })
        ⟨some sdx, slot⟩ streams (streams.send (s.clients ⟨some sdx, slot⟩) traffic) :=
      .setClient id fun flows => flows.send serves reported flushed
    simp only at ran
    split at ran
    · split at ran
      · cases ran
        exact first.trans freeClient_turn
      · cases ran
        exact first
    split at ran
    · refine first.trans (hangUp_turn ?_ ran)
      rw [setClient_self]
      rcases serves with state | state <;> simp [state]
    · cases ran
      exact first
  · next unreported =>
    cases ran
    rw [Streams.send, if_neg fun both => unreported both.2]
    exact .refl

theorem AloneTurn.turn {client : Client} (turned : AloneTurn s ref client s')
    (used : (s.clients ref).state ≠ .free)
    (flows : Flows (s.clients ref) streams → Flows client streams') :
    Turn s s' ref streams streams' := by
  cases turned with
  | kept => exact .setClient (fun _ => used) flows
  | hungUp =>
    refine Turn.same (.setClient (fun _ => used) fun before => ?_) rfl
    exact ⟨(flows before).input, (flows before).output⟩

theorem aloneInput_turn (used : (s.clients ref).state ≠ .free)
    (ran : aloneInput s ref traffic = some s') :
    Turn s s' ref streams (streams.receive (s.clients ref) traffic) := by
  rcases aloneInput_cases ran with ⟨unreported, rfl⟩ | ⟨reported, input, ending, moved, came, turned⟩
  · rw [Streams.receive, if_neg unreported]
    exact .refl
  · refine turned.turn used fun flows => ?_
    have after := flows.receive reported came
    exact ⟨after.input, after.output⟩

theorem aloneOutput_turn (ran : aloneOutput s ref traffic = some s') :
    Turn s s' ref streams (streams.send (s.clients ref) traffic) := by
  rcases aloneOutput_cases ran with ⟨unreported, rfl⟩ | ⟨reported, used, output, sent, flushed, turned⟩
  · rw [Streams.send, if_neg fun both => Bool.false_ne_true (unreported.symm.trans both.2)]
    exact .refl
  · exact turned.turn (by simp [used]) fun flows => flows.send (.inl used) reported flushed

theorem clientRead_turn {num : Nat} (ran : clientRead s ref num = some s') :
    Turn s s' ref streams (streams.read (s.clients ref) num) := by
  unfold clientRead at ran
  simp only at ran
  split at ran
  · next within =>
    cases ran
    exact .setClient id fun flows => ⟨flows.input.read within, flows.output⟩
  · cases ran

theorem clientWrite_turn {data : List UInt8} {malloc : Malloc}
    (inside : Inside (s.clients ref).output) (ran : clientWrite s ref data malloc = some s') :
    Turn s s' ref streams (streams.write (s.clients ref) data) := by
  unfold clientWrite at ran
  simp only at ran
  split at ran
  · next unused =>
    cases ran
    rw [Streams.write, if_neg unused]
    exact .refl
  next used =>
  obtain ⟨⟨output, ensured⟩, grown, ran⟩ := Option.bind_eq_some_iff.mp ran
  simp only at ran
  split at ran
  · cases ran
  next granted =>
  obtain ⟨region, stored, ran⟩ := Option.bind_eq_some_iff.mp ran
  cases ran
  refine Turn.setClient id fun flows => ?_
  obtain ⟨after, room⟩ := flows.output.ensure (ensured_store_small inside grown stored) grown
  rw [Streams.write, if_pos (not_not.mp used)]
  exact ⟨flows.input, after.write (room (Bool.eq_true_of_not_eq_false granted)) stored⟩

theorem clientPoll_turn (used : (s.clients ref).state ≠ .free)
    (ran : clientPoll s ref traffic = some s') : Turn s s' ref streams
      (if (s.clients ref).eventData ∨ (s.clients ref).eventDisconnect then streams
      else (aloneInput s ref traffic).elim streams fun s₁ =>
        (streams.receive (s.clients ref) traffic).send (s₁.clients ref) traffic) := by
  unfold clientPoll at ran
  simp only at ran
  split at ran
  · cases ran
  split at ran
  · cases ran
  split at ran
  · next pending =>
    cases ran
    rw [if_pos pending]
    exact .refl
  · next none =>
    obtain ⟨s₁, taken, ran⟩ := Option.bind_eq_some_iff.mp ran
    rw [if_neg none, taken, Option.elim]
    exact (aloneInput_turn used taken).trans (aloneOutput_turn ran)

theorem clientEvent_turn (ran : clientEvent s ref = some s') :
    Turn s s' ref streams streams := by
  unfold clientEvent at ran
  simp only at ran
  split at ran
  · cases ran
  split at ran
  · cases ran
    exact .setClient id fun flows => ⟨flows.input, flows.output⟩
  split at ran
  · cases ran
    exact .setClient id fun flows => ⟨flows.input, flows.output⟩
  · cases ran
    exact .refl

theorem clientClose_turn (used : (s.clients ref).state ≠ .free) :
    Turn s (clientClose s ref) ref streams streams := by
  rcases clientClose_cases s ref with freed | ⟨-, closing⟩
  · rw [freed]
    exact freeClient_turn
  · rw [closing]
    refine Turn.same (.setClient (fun _ => used) fun flows => ?_) rfl
    exact ⟨flows.input, flows.output⟩

end Turn

/-! ### All clients -/

/-- The streams of a client that is not in use are empty, and the queues of the others carry
theirs. -/
structure Blank (clients : Ref → Client) (streams : Ref → Streams) : Prop where
  free : ∀ ref, (clients ref).state = .free → streams ref = {}
  used : ∀ ref, (clients ref).state ≠ .free → Flows (clients ref) (streams ref)

/-- The queues of the clients that are in use carry their streams. -/
def Flowing (s : State) (streams : Ref → Streams) : Prop :=
  ∀ ref, (s.clients ref).state ≠ .free → Flows (s.clients ref) (streams ref)

/-- A part of a poll at one slot, beside the streams of all clients. -/
def beside (sdx : Nat) (serve : State → Nat → Option State)
    (extend : Streams → Client → Nat → Streams) (tracked : State × (Ref → Streams)) (slot : Nat) :
    Option (State × (Ref → Streams)) :=
  let ref : Ref := ⟨some sdx, slot⟩
  (serve tracked.1 slot).map fun s =>
    (s, Function.update tracked.2 ref (extend (tracked.2 ref) (tracked.1.clients ref) slot))

/-- `tcp_server_poll`, beside the streams of all clients. -/
def pollStreams (s : State) (sdx : Nat) (polled : Polled) (streams : Ref → Streams) :
    Option (State × (Ref → Streams)) := do
  let slots := polledSlots s sdx
  let s ← pollAccept s sdx polled
  let tracked ← slots.foldlM (beside sdx (fun s slot => pollInput s sdx slot (polled.traffic slot))
    fun streams client slot => streams.receive client (polled.traffic slot)) (s, streams)
  slots.foldlM (beside sdx (fun s slot => pollOutput s sdx slot (polled.traffic slot))
    fun streams client slot => streams.send client (polled.traffic slot)) tracked

/-- The client behind a handle gets other streams. -/
def changeStreams (s : State) (handle : UInt32) (streams : Ref → Streams) (change : Ref → Streams) :
    Ref → Streams :=
  match resolve s handle with
  | some ref => Function.update streams ref (change ref)
  | none => streams

/-- The streams after a call. -/
def callStreams (s : State) (action : Action) (streams : Ref → Streams) : Ref → Streams :=
  match action with
  | .serverPoll handle polled =>
    ((resolveServer s handle).bind fun sdx => pollStreams s sdx polled streams).elim streams (·.2)
  | .clientPoll handle traffic => changeStreams s handle streams fun ref =>
    if (s.clients ref).eventData ∨ (s.clients ref).eventDisconnect then streams ref
    else (aloneInput s ref traffic).elim (streams ref) fun s₁ =>
      ((streams ref).receive (s.clients ref) traffic).send (s₁.clients ref) traffic
  | .clientRead handle num =>
    changeStreams s handle streams fun ref => (streams ref).read (s.clients ref) num
  | .clientWrite handle data _ =>
    changeStreams s handle streams fun ref => (streams ref).write (s.clients ref) data
  | _ => streams

/-- The streams of a client that is not in use are forgotten. -/
def forgetStreams (s : State) (streams : Ref → Streams) (ref : Ref) : Streams :=
  if (s.clients ref).state = .free then {} else streams ref

/-- Every sequence of calls, with the streams of the clients. -/
def connections : System (State × (Ref → Streams)) Action :=
  calls.track (fun _ => {}) fun s action _ streams => callStreams s action (forgetStreams s streams)

section Calls

variable {s s' : State} {ref : Ref} {streams : Ref → Streams} {sdx slot fd : Nat}

theorem flows_init {client : Client} (input : client.input = init) (output : client.output = init) :
    Flows client {} := by
  refine ⟨?_, ?_⟩
  · rw [input]
    exact carries_init
  · rw [output]
    exact carries_init

theorem Flowing.turn {streams' : Streams} (flowing : Flowing s streams)
    (turn : Turn s s' ref (streams ref) streams') :
    Flowing s' (Function.update streams ref streams') := by
  intro other used
  by_cases here : other = ref
  · subst here
    rw [Function.update_self]
    exact turn.flows used (flowing _ (turn.used used))
  · rw [Function.update_of_ne here]
    rw [turn.others other here] at used ⊢
    exact flowing other used

theorem Flowing.keep (flowing : Flowing s streams)
    (turn : Turn s s' ref (streams ref) (streams ref)) : Flowing s' streams := by
  have after := flowing.turn turn
  rwa [Function.update_eq_self] at after

/-- A connection begins with empty queues. -/
theorem Blank.opened {client : Client} (blank : Blank s.clients streams)
    (free : (s.clients ref).state = .free) (state : client.state = .used)
    (input : client.input = init) (output : client.output = init) :
    Blank (s.setClient ref client).clients streams := by
  refine ⟨fun other none => ?_, fun other used => ?_⟩
  · by_cases here : other = ref
    · rw [here, setClient_self, state] at none
      cases none
    · rw [setClient_ne here] at none
      exact blank.free other none
  · by_cases here : other = ref
    · rw [here, setClient_self, blank.free ref free]
      exact flows_init input output
    · rw [setClient_ne here] at used ⊢
      exact blank.used other used

theorem acceptClient_blank (blank : Blank s.clients streams)
    (ran : acceptClient s sdx fd = some s') : Blank s'.clients streams := by
  obtain ⟨slot, found, pushed⟩ := Option.bind_eq_some_iff.mp ran
  have free : (s.clients ⟨some sdx, slot⟩).state = .free := by
    simpa using List.find?_some found
  rw [(pushEvent_log pushed).1]
  exact blank.opened free rfl rfl rfl

theorem acceptLoop_blank {results : List Accept} (blank : Blank s.clients streams)
    (ran : acceptLoop sdx results s = some s') : Blank s'.clients streams := by
  induction results generalizing s with
  | nil =>
    unfold acceptLoop at ran
    split at ran <;> cases ran
    exact blank
  | cons result rest ih =>
    unfold acceptLoop at ran
    split at ran
    · cases result with
      | wouldBlock =>
        cases ran
        exact blank
      | failed => exact ih blank ran
      | accepted fd unblocked =>
        cases unblocked with
        | false => exact ih blank ran
        | true =>
          obtain ⟨s₁, accepted, ran⟩ := Option.bind_eq_some_iff.mp ran
          exact ih (acceptClient_blank blank accepted) ran
    · cases ran
      exact blank

/-- A part of a poll keeps the streams of all its slots. -/
theorem beside_flowing {serve : State → Nat → Option State}
    (extend : Streams → Client → Nat → Streams)
    (turn : ∀ s s' slot streams, serve s slot = some s' → Turn s s' ⟨some sdx, slot⟩ streams
      (extend streams (s.clients ⟨some sdx, slot⟩) slot))
    {slots : List Nat} (flowing : Flowing s streams) (ran : slots.foldlM serve s = some s') :
    ∃ streams', slots.foldlM (beside sdx serve extend) (s, streams) = some (s', streams') ∧
      Flowing s' streams' := by
  -- The slots that are left are served in the state, and with the streams, that the others leave.
  induction slots generalizing s streams with
  | nil =>
    cases ran
    exact ⟨streams, rfl, flowing⟩
  | cons slot rest ih =>
    simp only [List.foldlM_cons] at ran
    obtain ⟨s₁, served, ran⟩ := Option.bind_eq_some_iff.mp ran
    obtain ⟨streams', replayed, after⟩ := ih (flowing.turn (turn s s₁ slot _ served)) ran
    refine ⟨streams', ?_, after⟩
    simp only [List.foldlM_cons, beside, served, Option.map_some, Option.bind_eq_bind,
      Option.bind_some]
    exact replayed

theorem serverPoll_flowing {polled : Polled} (blank : Blank s.clients streams)
    (ran : serverPoll s sdx polled = some s') :
    ∃ streams', pollStreams s sdx polled streams = some (s', streams') ∧ Flowing s' streams' := by
  unfold serverPoll at ran
  split at ran
  · obtain ⟨s₁, accepted, ran⟩ := Option.bind_eq_some_iff.mp ran
    obtain ⟨s₂, taken, ran⟩ := Option.bind_eq_some_iff.mp ran
    -- A connection that is accepted here is not polled before the next call.
    have first : Blank s₁.clients streams := by
      unfold pollAccept at accepted
      split at accepted
      · exact acceptLoop_blank blank accepted
      · cases accepted
        exact blank
    obtain ⟨streams₂, taken', second⟩ := beside_flowing
      (fun streams client slot => streams.receive client (polled.traffic slot))
      (fun _ _ _ _ served => pollInput_turn served) first.used taken
    obtain ⟨streams', sent, third⟩ := beside_flowing
      (fun streams client slot => streams.send client (polled.traffic slot))
      (fun _ _ _ _ served => pollOutput_turn served) second ran
    refine ⟨streams', ?_, third⟩
    simp only [pollStreams, accepted, taken', Option.bind_eq_bind, Option.bind_some]
    exact sent
  · cases ran

theorem Flowing.forgotten (flowing : Flowing s streams) :
    Blank s.clients (forgetStreams s streams) := by
  refine ⟨fun ref free => if_pos free, fun ref used => ?_⟩
  rw [forgetStreams, if_neg used]
  exact flowing ref used

theorem Flowing.change {handle : UInt32} {change : Ref → Streams} (flowing : Flowing s streams)
    (resolved : resolve s handle = some ref) (turn : Turn s s' ref (streams ref) (change ref)) :
    Flowing s' (changeStreams s handle streams change) := by
  rw [changeStreams, resolved]
  exact flowing.turn turn

/-- A call keeps what the queues carry. -/
theorem next_flowing {action : Action} (sound : Sound s) (blank : Blank s.clients streams)
    (moved : calls.next s action = some s') : Flowing s' (callStreams s action streams) := by
  have flowing : Flowing s streams := blank.used
  cases action with
  | serverCreate fd maxClients =>
    obtain ⟨⟨s₁, handle⟩, ran, rest⟩ := Option.bind_eq_some_iff.mp moved
    cases rest
    obtain ⟨sdx, creates⟩ := serverCreate_spec ran
    intro ref used
    by_cases own : ref.server = some sdx
    · -- In a new array no client is in use.
      exact absurd (creates.fresh ref own).1 used
    · rw [creates.clients ref own] at used ⊢
      exact flowing ref used
  | serverDelete handle =>
    obtain ⟨sdx, -, rest⟩ := Option.bind_eq_some_iff.mp moved
    cases rest
    exact flowing
  | serverPoll handle polled =>
    obtain ⟨sdx, resolved, ran⟩ := Option.bind_eq_some_iff.mp moved
    obtain ⟨streams', replayed, after⟩ := serverPoll_flowing blank ran
    simp only [callStreams, resolved, Option.bind_some, replayed, Option.elim]
    exact after
  | serverEvent handle =>
    obtain ⟨sdx, -, rest⟩ := Option.bind_eq_some_iff.mp moved
    cases rest
    by_cases none : (s.servers sdx).eventsCount = 0
    · rw [serverEvent_none none]
      exact flowing
    · rw [serverEvent_some none]
      exact flowing
  | clientCreate fd =>
    obtain ⟨⟨s₁, handle⟩, ran, rest⟩ := Option.bind_eq_some_iff.mp moved
    cases rest
    obtain ⟨slot, found, ran⟩ := Option.bind_eq_some_iff.mp ran
    obtain ⟨_, -, ran⟩ := Option.bind_eq_some_iff.mp ran
    cases ran
    have free : (s.clients ⟨none, slot⟩).state = .free := by simpa using List.find?_some found
    exact (blank.opened free rfl rfl rfl).used
  | clientPoll handle traffic =>
    obtain ⟨ref, resolved, ran⟩ := Option.bind_eq_some_iff.mp moved
    exact flowing.change resolved (clientPoll_turn (resolve_inUse resolved).used ran)
  | clientEvent handle =>
    obtain ⟨ref, resolved, ran⟩ := Option.bind_eq_some_iff.mp moved
    exact flowing.keep (clientEvent_turn ran)
  | clientClose handle =>
    obtain ⟨ref, resolved, rest⟩ := Option.bind_eq_some_iff.mp moved
    cases rest
    exact flowing.keep (clientClose_turn (resolve_inUse resolved).used)
  | clientRead handle num =>
    obtain ⟨ref, resolved, ran⟩ := Option.bind_eq_some_iff.mp moved
    exact flowing.change resolved (clientRead_turn ran)
  | clientWrite handle data malloc =>
    obtain ⟨ref, resolved, ran⟩ := Option.bind_eq_some_iff.mp moved
    exact flowing.change resolved (clientWrite_turn (sound.clients ref).output ran)

theorem connections_flowing (reached : connections.Reachable (s, streams)) : Flowing s streams := by
  refine reached.invariant (P := fun tracked => Flowing tracked.1 tracked.2)
    (fun tracked begins => ?_) fun tracked action tracked' before flowing moved => ?_
  · intro ref used
    rw [begins.1.2.1 ref] at used
    exact absurd rfl used
  · obtain ⟨s', stepped, rfl⟩ := Option.map_eq_some_iff.mp moved
    have sound := reachable_sound (System.track_reachable.mp ⟨_, before⟩)
    exact next_flowing sound flowing.forgotten stepped

end Calls

/-- What was put into a queue is what was taken out of it, and then the bytes that can be read. -/
def Delivers (queue : Queue) (stream : Stream) : Prop :=
  ∃ pending, load queue.data (startRead queue) (usedSpace queue) = some pending ∧
    stream.put = stream.taken ++ pending

theorem Carries.delivers {queue : Queue} {stream : Stream} (carries : Carries queue stream)
    (kept : stream.kept = true) : Delivers queue stream := by
  obtain ⟨pending, ready, same⟩ := carries kept
  exact ⟨pending, ready.live, same⟩

/-- In every run, and for each client that is in use, the bytes that `recv` handed over since the
connection was opened are those that the program has read and then those it can read, and the bytes
that it has written are those that `send` took and then those that wait to be sent. This holds of a
queue as long as it was never short of space behind bytes that were already taken out of it. -/
theorem connection_bytes_in_order {s : State} (reached : calls.Reachable s) :
    (∃ streams, connections.Reachable (s, streams)) ∧
      ∀ streams, connections.Reachable (s, streams) → ∀ ref, (s.clients ref).state ≠ .free →
        ((streams ref).input.kept = true → Delivers (s.clients ref).input (streams ref).input) ∧
        ((streams ref).output.kept = true →
          Delivers (s.clients ref).output (streams ref).output) := by
  refine ⟨System.track_reachable.mpr reached, fun streams tracked ref used => ?_⟩
  have flows := connections_flowing tracked ref used
  exact ⟨flows.input.delivers, flows.output.delivers⟩

/-- A poll in which two bytes come at each client. -/
def twoBytes : Polled :=
  ⟨false, [], fun _ => ⟨true, false, false,
    [⟨smallMalloc, .received [104, 105]⟩, ⟨smallMalloc, .wouldBlock⟩], 0, []⟩⟩

/-- Two bytes come, and the program reads the first one. -/
theorem connection_bytes_in_order_read : ∃ s streams, connections.Reachable (s, streams) ∧
    (streams ⟨some 0, 0⟩).input.put = [104, 105] ∧ (streams ⟨some 0, 0⟩).input.taken = [104] ∧
    Delivers (s.clients ⟨some 0, 0⟩).input (streams ⟨some 0, 0⟩).input := by
  have begun : connections.Reachable (zeroed, fun _ => {}) := .start ⟨zeroed_initial, rfl⟩
  obtain ⟨⟨s, streams⟩, tracked, checked⟩ := begun.replay_check
    [.serverCreate 3 2, .serverPoll 0x80000000 oneConnection, .serverEvent 0x80000000,
      .serverPoll 0x80000000 twoBytes, .clientRead 0x08000002 1]
    (fun tracked => (tracked.1.clients ⟨some 0, 0⟩).state = .used &&
      tracked.2 ⟨some 0, 0⟩ = ⟨⟨[104, 105], [104], true⟩, {}⟩) (by decide +kernel)
  simp only [Bool.and_eq_true, decide_eq_true_eq] at checked
  obtain ⟨state, history⟩ := checked
  have used : (s.clients ⟨some 0, 0⟩).state ≠ .free := by
    rw [state]
    decide
  have delivers :=
    (connection_bytes_in_order (System.track_reachable.mp ⟨_, tracked⟩)).2 streams tracked _ used
  refine ⟨s, streams, tracked, by rw [history], by rw [history], delivers.1 ?_⟩
  rw [history]

end Mysnips.Tcp

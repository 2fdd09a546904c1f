import Mysnips.ByteQueueBounds
import Mysnips.RingSlots
import Mysnips.TcpSteps

/-! The queues of the module: the ring of events of a server, and the two byte queues of a client.
In every reachable state the ring has all its places and the byte queues lie inside their
allocations, so that no call loses its way in them. -/
namespace Mysnips.Tcp
open ByteQueue Memory Transition TcpHandle

/-! ## The ring -/

/-- The event that says that there is none. -/
def noEvent : Event := ⟨.none, tcpInvalid⟩

/-- The places of the ring of a server. -/
def Server.places (server : Server) : Nat := server.capacity * maxEventsPerClient

theorem Server.places_eq (server : Server) : server.places = server.capacity * 3 := rfl

/-- The events of a server that have not been handed out, from the first one on. -/
def Server.queued (server : Server) : List Event :=
  (List.range server.eventsCount).map fun i =>
    server.events.getD ((server.eventsHead + i) % server.places) noEvent

/-- A server whose ring has all its places, and which has room for all it counts. -/
structure Orderly (server : Server) : Prop where
  whole : server.events.length = server.places
  head : 0 < server.places → server.eventsHead < server.places
  count : server.count ≤ server.capacity

theorem Server.queued_eq (server : Server) : server.queued =
    RingSlots.queue (fun i => server.events.getD i noEvent) server.places server.eventsHead
      server.eventsCount := rfl

theorem Server.queued_length (server : Server) : server.queued.length = server.eventsCount := by
  rw [Server.queued_eq, RingSlots.queue_length]

/-- The ring after a push, and after an event is handed out. -/
theorem enqueue_eq (server : Server) (event : Event) : server.enqueue event =
    { server with
      events := server.events.set ((server.eventsHead + server.eventsCount) % server.places) event
      eventsCount := server.eventsCount + 1 } := rfl

/-- A pushed event is the last one. -/
theorem enqueue_queued {server : Server} (event : Event) (orderly : Orderly server)
    (room : server.eventsCount < server.places) :
    (server.enqueue event).queued = server.queued ++ [event] := by
  have inside : (server.eventsHead + server.eventsCount) % server.places < server.events.length := by
    rw [orderly.whole]
    exact Nat.mod_lt _ (by omega)
  rw [Server.queued_eq, Server.queued_eq, enqueue_eq]
  apply RingSlots.queue_push room
  · simp only [List.getD_eq_getElem?_getD, List.getElem?_set_self inside, Option.getD_some]
  · intro i other
    simp only [List.getD_eq_getElem?_getD, List.getElem?_set_ne other.symm]

theorem Orderly.enqueue {server : Server} (event : Event) (orderly : Orderly server) :
    Orderly (server.enqueue event) where
  whole := by
    rw [enqueue_eq]
    simpa [Server.places] using orderly.whole
  head := orderly.head
  count := orderly.count

/-- A server that hands out an event. -/
def Server.dequeue (server : Server) : Server :=
  { server with
    eventsHead := (server.eventsHead + 1) % server.places, eventsCount := server.eventsCount - 1 }

theorem serverEvent_none {s : State} {sdx : Nat} (none : (s.servers sdx).eventsCount = 0) :
    serverEvent s sdx = (s, noEvent) := by
  rw [serverEvent, if_pos none]
  rfl

theorem serverEvent_some {s : State} {sdx : Nat} (some : (s.servers sdx).eventsCount ≠ 0) :
    serverEvent s sdx = (s.setServer sdx (s.servers sdx).dequeue,
      (s.servers sdx).events.getD (s.servers sdx).eventsHead noEvent) := by
  rw [serverEvent, if_neg some]
  rfl

theorem Orderly.dequeue {server : Server} (orderly : Orderly server) : Orderly server.dequeue where
  whole := orderly.whole
  head positive := Nat.mod_lt _ positive
  count := orderly.count

/-- The event that is handed out is the first one. -/
theorem dequeue_queued {server : Server} (orderly : Orderly server)
    (some : server.eventsCount ≠ 0) (few : server.eventsCount ≤ server.places) :
    server.queued = server.events.getD server.eventsHead noEvent :: server.dequeue.queued := by
  have head := orderly.head (by omega)
  rw [Server.queued_eq, Server.queued_eq]
  exact RingSlots.queue_pop head (Nat.pos_of_ne_zero some)

/-- Successive calls of `tcp_server_event`. -/
def drain (sdx : Nat) : Nat → State → List Event
  | 0, _ => []
  | n + 1, s => (serverEvent s sdx).2 :: drain sdx n (serverEvent s sdx).1

/-- Successive calls hand out the events in their order, and then none. -/
theorem drain_queued {s : State} {sdx : Nat} (orderly : Orderly (s.servers sdx))
    (few : (s.servers sdx).eventsCount ≤ (s.servers sdx).places) (more : Nat) :
    drain sdx ((s.servers sdx).eventsCount + more) s =
      (s.servers sdx).queued ++ List.replicate more noEvent := by
  generalize count : (s.servers sdx).eventsCount = n at few
  induction n generalizing s with
  | zero =>
    have none : (s.servers sdx).queued = [] := by simp [Server.queued, count]
    rw [none, Nat.zero_add, List.nil_append]
    clear few
    induction more with
    | zero => rfl
    | succ more ih => rw [drain, serverEvent_none count, ih, List.replicate_succ]
  | succ n ih =>
    have some : (s.servers sdx).eventsCount ≠ 0 := by omega
    rw [Nat.add_right_comm, drain, serverEvent_some some,
      dequeue_queued orderly some (by omega), List.cons_append]
    congr 1
    have after := ih (s := s.setServer sdx (s.servers sdx).dequeue)
    rw [setServer_self] at after
    exact after orderly.dequeue (by simp [Server.dequeue, count]) (Nat.le_of_succ_le few)

/-- The state after an event was pushed. -/
def afterPush (s : State) (sdx slot : Nat) (type : EventType) (handle : UInt32) : State :=
  ((s.setServer sdx ((s.servers sdx).enqueue ⟨type, handle⟩)).record
    (.issued ⟨some sdx, slot⟩ (s.servers sdx).life (s.clients ⟨some sdx, slot⟩).turn handle)).record
    (.pushed ⟨some sdx, slot⟩ type)

theorem pushEvent_iff {s s' : State} {sdx slot : Nat} {type : EventType} :
    pushEvent s sdx slot type = some s' ↔ ∃ handle,
      handleForClient s ⟨some sdx, slot⟩ = some handle ∧
      (s.servers sdx).eventsCount < (s.servers sdx).places ∧
      s' = afterPush s sdx slot type handle := by
  unfold pushEvent
  constructor
  · intro ran
    obtain ⟨handle, packed, ran⟩ := Option.bind_eq_some_iff.mp ran
    simp only at ran
    split at ran
    · next room =>
      cases ran
      exact ⟨handle, packed, room, rfl⟩
    · cases ran
  · rintro ⟨handle, packed, room, rfl⟩
    simp only [packed]
    exact if_pos room

/-! ## Every queue stays sound -/

/-- The byte queues of a client lie inside their allocations. -/
structure Contained (client : Client) : Prop where
  input : Inside client.input
  output : Inside client.output

/-- All servers are orderly and all byte queues lie inside their allocations. -/
structure Sound (s : State) : Prop where
  servers : ∀ sdx, Orderly (s.servers sdx)
  clients : ∀ ref, Contained (s.clients ref)

theorem Sound.setServer {s : State} {sdx : Nat} {server : Server} (sound : Sound s)
    (orderly : Orderly server) : Sound (s.setServer sdx server) where
  servers other := by
    by_cases here : other = sdx
    · rw [here, setServer_self]
      exact orderly
    · rw [setServer_ne here]
      exact sound.servers other
  clients := sound.clients

theorem Sound.setClient {s : State} {ref : Ref} {client : Client} (sound : Sound s)
    (contained : Contained client) : Sound (s.setClient ref client) where
  servers := sound.servers
  clients other := by
    by_cases here : other = ref
    · rw [here, setClient_self]
      exact contained
    · rw [setClient_ne here]
      exact sound.clients other

theorem Sound.record {s : State} (sound : Sound s) (entry : Record) : Sound (s.record entry) :=
  ⟨sound.servers, sound.clients⟩

/-- A client keeps its queues. -/
theorem Sound.keep {s : State} {ref : Ref} {client : Client} (sound : Sound s)
    (input : client.input = (s.clients ref).input) (output : client.output = (s.clients ref).output) :
    Sound (s.setClient ref client) := by
  refine sound.setClient ⟨?_, ?_⟩
  · rw [input]
    exact (sound.clients ref).input
  · rw [output]
    exact (sound.clients ref).output

theorem recvLoop_inside {rounds : List RecvRound} {queue queue' : Queue} {ending : Moved}
    (inside : Inside queue) (ran : recvLoop rounds queue = some (queue', ending)) :
    Inside queue' := by
  induction rounds generalizing queue with
  | nil => cases ran
  | cons round rest ih =>
    unfold recvLoop at ran
    have small : 256 < 2 ^ 63 := by decide
    obtain ⟨q, ok, ensured, inside₁, -⟩ := ensure_inside round.malloc inside small
    simp only [ensured, Option.bind_eq_bind, Option.bind_some] at ran
    split at ran
    · cases ran
      exact inside₁
    split at ran
    · cases ran
      exact inside₁
    · cases ran
      exact inside₁
    · cases ran
      exact inside₁
    · split at ran
      · obtain ⟨data, stored, ran⟩ := Option.bind_eq_some_iff.mp ran
        exact ih (write_inside inside₁ stored).1 ran
      · cases ran

theorem sendLoop_inside {results : List Send} {zeros : Nat} {queue queue' : Queue} {sent : Bool}
    (inside : Inside queue) (ran : sendLoop results zeros queue = some (queue', sent)) :
    Inside queue' := by
  induction results generalizing queue zeros with
  | nil =>
    unfold sendLoop at ran
    split at ran <;> cases ran
    exact inside
  | cons result rest ih =>
    unfold sendLoop at ran
    split at ran
    · cases ran
      exact inside
    cases result with
    | wouldBlock =>
      cases ran
      exact inside
    | failed =>
      cases ran
      exact inside
    | sent num =>
      simp only at ran
      split at ran
      · next within =>
        have after := read_inside inside within
        split at ran
        · split at ran
          · cases ran
            exact inside
          · exact ih after ran
        · exact ih after ran
      · cases ran

theorem Sound.push {s s' : State} {sdx slot : Nat} {type : EventType} (sound : Sound s)
    (ran : pushEvent s sdx slot type = some s') : Sound s' := by
  obtain ⟨handle, -, -, rfl⟩ := pushEvent_iff.mp ran
  exact ((sound.setServer ((sound.servers sdx).enqueue ⟨type, handle⟩)).record _).record _

theorem Sound.moved {s s' : State} {sdx slot moved : Nat} (sound : Sound s)
    (ran : pushMoved s sdx slot moved = some s') : Sound s' := by
  unfold pushMoved at ran
  split at ran
  · exact sound.push ran
  · cases ran
    exact sound

theorem Sound.hungUp {s s' : State} {sdx slot : Nat} (sound : Sound s)
    (ran : hangUp s sdx slot = some s') : Sound s' := by
  refine Sound.push (Sound.record ?_ _) ran
  exact sound.keep rfl rfl

theorem Sound.freed {s : State} (sound : Sound s) (ref : Ref) : Sound (freeClient s ref) := by
  refine Sound.record ?_ _
  exact sound.keep rfl rfl

theorem clientInput_inside {client : Client} {traffic : Traffic} {input : Queue} {ending : Moved}
    {moved : Nat} (inside : Inside client.input)
    (ran : clientInput client traffic = some (input, ending, moved)) : Inside input := by
  unfold clientInput at ran
  obtain ⟨⟨input', ending'⟩, received, ran⟩ := Option.bind_eq_some_iff.mp ran
  cases ran
  exact recvLoop_inside inside received

theorem Sound.input {s s' : State} {sdx slot : Nat} {traffic : Traffic} (sound : Sound s)
    (ran : pollInput s sdx slot traffic = some s') : Sound s' := by
  unfold pollInput at ran
  simp only at ran
  split at ran
  · cases ran
    exact sound
  split at ran
  · obtain ⟨⟨input, ending, moved⟩, came, ran⟩ := Option.bind_eq_some_iff.mp ran
    obtain ⟨s₁, pushed, ran⟩ := Option.bind_eq_some_iff.mp ran
    have contained := sound.clients ⟨some sdx, slot⟩
    have inside := clientInput_inside contained.input came
    have first : Sound s₁ := by
      refine Sound.moved (sound.setClient ?_) pushed
      exact ⟨inside, contained.output⟩
    split at ran
    · exact first.hungUp ran
    · cases ran
      exact first
  · cases ran
    exact sound

theorem Sound.output {s s' : State} {sdx slot : Nat} {traffic : Traffic} (sound : Sound s)
    (ran : pollOutput s sdx slot traffic = some s') : Sound s' := by
  unfold pollOutput at ran
  simp only at ran
  split at ran
  · cases ran
    exact sound
  split at ran
  · obtain ⟨⟨output, sent⟩, flushed, ran⟩ := Option.bind_eq_some_iff.mp ran
    have contained := sound.clients ⟨some sdx, slot⟩
    have first : Sound (s.setClient ⟨some sdx, slot⟩
        { s.clients ⟨some sdx, slot⟩ with output }) :=
      sound.setClient ⟨contained.input, sendLoop_inside contained.output flushed⟩
    simp only at ran
    split at ran
    · split at ran
      · cases ran
        exact first.freed _
      · cases ran
        exact first
    split at ran
    · exact first.hungUp ran
    · cases ran
      exact first
  · cases ran
    exact sound

theorem Sound.accepted {s s' : State} {sdx fd : Nat} (sound : Sound s)
    (room : (s.servers sdx).count < (s.servers sdx).capacity)
    (ran : acceptClient s sdx fd = some s') : Sound s' := by
  obtain ⟨slot, -, pushed⟩ := Option.bind_eq_some_iff.mp ran
  refine Sound.push (Sound.setServer (Sound.record ?_ _) ?_) pushed
  · exact sound.setClient ⟨inside_init, inside_init⟩
  · exact ⟨(sound.servers sdx).whole, (sound.servers sdx).head, room⟩

theorem Sound.accept {sdx : Nat} {results : List Accept} {s s' : State} (sound : Sound s)
    (ran : acceptLoop sdx results s = some s') : Sound s' := by
  induction results generalizing s with
  | nil =>
    unfold acceptLoop at ran
    split at ran <;> cases ran
    exact sound
  | cons result rest ih =>
    unfold acceptLoop at ran
    split at ran
    · next room =>
      cases result with
      | wouldBlock =>
        cases ran
        exact sound
      | failed => exact ih sound ran
      | accepted fd unblocked =>
        cases unblocked with
        | false => exact ih sound ran
        | true =>
          obtain ⟨s₁, accepted, ran⟩ := Option.bind_eq_some_iff.mp ran
          exact ih (sound.accepted room accepted) ran
    · cases ran
      exact sound

theorem Sound.poll {s s' : State} {sdx : Nat} {polled : Polled} (sound : Sound s)
    (ran : serverPoll s sdx polled = some s') : Sound s' := by
  unfold serverPoll at ran
  split at ran
  · obtain ⟨s₁, accepted, ran⟩ := Option.bind_eq_some_iff.mp ran
    obtain ⟨s₂, taken, ran⟩ := Option.bind_eq_some_iff.mp ran
    have first : Sound s₁ := by
      unfold pollAccept at accepted
      split at accepted
      · exact sound.accept accepted
      · cases accepted
        exact sound
    have second : Sound s₂ :=
      slots_rule (P := fun _ t => Sound t) (fun _ _ _ _ before ran => before.input ran) first taken
    exact slots_rule (P := fun _ t => Sound t) (fun _ _ _ _ before ran => before.output ran) second ran
  · cases ran

theorem Sound.create {s s' : State} {fd maxClients : Nat} {handle : UInt32} (sound : Sound s)
    (ran : serverCreate s fd maxClients = some (s', handle)) : Sound s' := by
  unfold serverCreate at ran
  obtain ⟨_, -, ran⟩ := Option.bind_eq_some_iff.mp ran
  obtain ⟨sdx, -, ran⟩ := Option.bind_eq_some_iff.mp ran
  obtain ⟨_, -, ran⟩ := Option.bind_eq_some_iff.mp ran
  cases ran
  constructor
  · intro other
    simp only [Function.update_apply]
    split
    · exact ⟨by simp [Server.places], id, Nat.zero_le _⟩
    · exact sound.servers other
  · intro ref
    simp only
    split
    · exact ⟨inside_init, inside_init⟩
    · exact sound.clients ref

theorem Sound.aloneTurn {s s' : State} {ref : Ref} {client : Client} (sound : Sound s)
    (turned : AloneTurn s ref client s') (input : Inside client.input) (output : Inside client.output) :
    Sound s' := by
  cases turned with
  | kept => exact sound.setClient ⟨input, output⟩
  | hungUp =>
    refine Sound.record (sound.setClient ?_) _
    exact ⟨input, output⟩

theorem Sound.aloneInput {s s' : State} {ref : Ref} {traffic : Traffic} (sound : Sound s)
    (ran : aloneInput s ref traffic = some s') : Sound s' := by
  rcases aloneInput_cases ran with ⟨-, rfl⟩ | ⟨-, input, ending, moved, came, turned⟩
  · exact sound
  · exact sound.aloneTurn turned (clientInput_inside (sound.clients ref).input came)
      (sound.clients ref).output

theorem Sound.aloneOutput {s s' : State} {ref : Ref} {traffic : Traffic} (sound : Sound s)
    (ran : aloneOutput s ref traffic = some s') : Sound s' := by
  rcases aloneOutput_cases ran with ⟨-, rfl⟩ | ⟨-, -, output, sent, flushed, turned⟩
  · exact sound
  · exact sound.aloneTurn turned (sound.clients ref).input
      (sendLoop_inside (sound.clients ref).output flushed)

theorem Sound.clientPoll {s s' : State} {ref : Ref} {traffic : Traffic} (sound : Sound s)
    (ran : clientPoll s ref traffic = some s') : Sound s' := by
  unfold Tcp.clientPoll at ran
  simp only at ran
  split at ran
  · cases ran
  split at ran
  · cases ran
  split at ran
  · cases ran
    exact sound
  · obtain ⟨s₁, taken, ran⟩ := Option.bind_eq_some_iff.mp ran
    exact (sound.aloneInput taken).aloneOutput ran

theorem Sound.clientEvent {s s' : State} {ref : Ref} (sound : Sound s)
    (ran : clientEvent s ref = some s') : Sound s' := by
  unfold Tcp.clientEvent at ran
  simp only at ran
  split at ran
  · cases ran
  split at ran
  · cases ran
    exact sound.keep rfl rfl
  split at ran
  · cases ran
    exact sound.keep rfl rfl
  · cases ran
    exact sound

theorem Sound.clientWrite {s s' : State} {ref : Ref} {data : List UInt8} {malloc : Malloc}
    (sound : Sound s) (ran : clientWrite s ref data malloc = some s') : Sound s' := by
  unfold Tcp.clientWrite at ran
  simp only at ran
  split at ran
  · cases ran
    exact sound
  · obtain ⟨⟨output, ensured⟩, ran₁, ran⟩ := Option.bind_eq_some_iff.mp ran
    simp only at ran
    split at ran
    · cases ran
    · obtain ⟨region, stored, ran⟩ := Option.bind_eq_some_iff.mp ran
      cases ran
      have contained := sound.clients ref
      obtain ⟨output', ok, ran₂, inside, -⟩ := ensure_inside malloc contained.output
        (ensured_store_small contained.output ran₁ stored)
      rw [ran₁] at ran₂
      cases ran₂
      exact sound.setClient ⟨contained.input, (write_inside inside stored).1⟩

theorem Sound.next {s s' : State} {action : Action} (sound : Sound s)
    (moved : calls.next s action = some s') : Sound s' := by
  cases action with
  | serverCreate fd maxClients =>
    obtain ⟨⟨s₁, handle⟩, ran, rest⟩ := Option.bind_eq_some_iff.mp moved
    cases rest
    exact sound.create ran
  | serverDelete handle =>
    obtain ⟨sdx, -, rest⟩ := Option.bind_eq_some_iff.mp moved
    cases rest
    refine Sound.record (sound.setServer ?_) _
    exact ⟨(sound.servers sdx).whole, (sound.servers sdx).head, (sound.servers sdx).count⟩
  | serverPoll handle polled =>
    obtain ⟨sdx, -, ran⟩ := Option.bind_eq_some_iff.mp moved
    exact sound.poll ran
  | serverEvent handle =>
    obtain ⟨sdx, -, rest⟩ := Option.bind_eq_some_iff.mp moved
    cases rest
    by_cases none : (s.servers sdx).eventsCount = 0
    · rw [serverEvent_none none]
      exact sound
    · rw [serverEvent_some none]
      exact sound.setServer (sound.servers sdx).dequeue
  | clientCreate fd =>
    obtain ⟨⟨s₁, handle⟩, ran, rest⟩ := Option.bind_eq_some_iff.mp moved
    cases rest
    obtain ⟨slot, -, ran⟩ := Option.bind_eq_some_iff.mp ran
    obtain ⟨_, -, ran⟩ := Option.bind_eq_some_iff.mp ran
    cases ran
    refine Sound.record (Sound.record (sound.setClient ?_) _) _
    exact ⟨inside_init, inside_init⟩
  | clientPoll handle traffic =>
    obtain ⟨ref, -, ran⟩ := Option.bind_eq_some_iff.mp moved
    exact sound.clientPoll ran
  | clientEvent handle =>
    obtain ⟨ref, -, ran⟩ := Option.bind_eq_some_iff.mp moved
    exact sound.clientEvent ran
  | clientClose handle =>
    obtain ⟨ref, -, rest⟩ := Option.bind_eq_some_iff.mp moved
    cases rest
    rcases clientClose_cases s ref with freed | ⟨-, closing⟩
    · rw [freed]
      exact sound.freed ref
    · rw [closing]
      refine Sound.record ?_ _
      exact sound.keep rfl rfl
  | clientRead handle num =>
    obtain ⟨ref, -, ran⟩ := Option.bind_eq_some_iff.mp moved
    unfold clientRead at ran
    simp only at ran
    split at ran
    · next within =>
      cases ran
      have contained := sound.clients ref
      exact sound.setClient ⟨read_inside contained.input within, contained.output⟩
    · cases ran
  | clientWrite handle data malloc =>
    obtain ⟨ref, -, ran⟩ := Option.bind_eq_some_iff.mp moved
    exact sound.clientWrite ran

theorem reachable_sound {s : State} (reached : calls.Reachable s) : Sound s := by
  refine reached.invariant (fun s begins => ⟨fun sdx => ?_, fun ref => ?_⟩)
    fun s action s' _ sound moved => sound.next moved
  · rw [begins.1 sdx]
    exact ⟨rfl, id, le_refl _⟩
  · rw [begins.2.1 ref]
    exact ⟨inside_init, inside_init⟩

end Mysnips.Tcp

import Mathlib.Logic.Function.Basic
import Mysnips.ByteQueue
import Mysnips.TcpHandle
import Mysnips.Transition

/-! The servers and clients of `tcp/tcp.c`. What the system calls return is an input of
a call: the reported events of `poll`, the results of `accept`, `recv` and `send`, and
the memory that `malloc` finds. A failed assertion, an `abort`, a null pointer that is
followed and a list of results that ends too early have no result (`none`). -/
namespace Mysnips.Tcp
open ByteQueue Memory TcpHandle Transition

/-- `MAX_SERVERS`. -/
abbrev maxServers : Nat := 1

/-- `MAX_CLIENTS`. -/
abbrev maxClients : Nat := 1

/-- `MAX_EVENTS_PER_CLIENT`. -/
abbrev maxEventsPerClient : Nat := 3

/-- `MAX_POLL`. -/
abbrev maxPoll : Nat := 128

/-- `GEN_UPPER_BOUND`. -/
abbrev generations : Nat := 2 ^ 12

/-- `TCPServerState`. -/
inductive ServerState where
  | free
  | used
  deriving DecidableEq, Repr

/-- `TCPClientState`. -/
inductive ClientState where
  | free
  | used
  | hangup
  | close
  deriving DecidableEq, Repr

/-- `TCPEventType`. -/
inductive EventType where
  | none
  | data
  | connect
  | disconnect
  deriving DecidableEq, Repr

/-- `TCPEvent`. -/
structure Event where
  type : EventType
  handle : UInt32
  deriving DecidableEq, Repr

/-- Where a client is: in the array of a server, or among the stand-alone ones. -/
structure Ref where
  server : Option Nat
  slot : Nat
  deriving DecidableEq, Repr

/-- `TCPClient`. `turn` is not a field of the source: it counts how often the structure has
been freed. -/
structure Client where
  state : ClientState
  eventData : Bool
  eventDisconnect : Bool
  gen : Nat
  fd : Int
  input : Queue
  output : Queue
  turn : Nat
  deriving DecidableEq, Repr

/-- `TCPServer` without its array of clients. `life` is not a field of the source: it counts
the arrays that were allocated. -/
structure Server where
  state : ServerState
  gen : Nat
  fd : Int
  count : Nat
  capacity : Nat
  eventsHead : Nat
  eventsCount : Nat
  events : List Event
  life : Nat
  deriving DecidableEq, Repr

/-- What happened to a client, or to all clients of a deleted server. A handle is recorded
with the turn it was made in, and with the life of its server. -/
inductive Record where
  | opened (ref : Ref)
  | issued (ref : Ref) (life turn : Nat) (handle : UInt32)
  | pushed (ref : Ref) (type : EventType)
  | hungUp (ref : Ref)
  | closing (ref : Ref)
  | freed (ref : Ref)
  | deleted (sdx : Nat)
  deriving DecidableEq, Repr

/-- The two global arrays, with the arrays of the servers, and what has happened. -/
structure State where
  servers : Nat → Server
  clients : Ref → Client
  log : List Record

def State.setServer (s : State) (sdx : Nat) (server : Server) : State :=
  { s with servers := Function.update s.servers sdx server }

def State.setClient (s : State) (ref : Ref) (client : Client) : State :=
  { s with clients := Function.update s.clients ref client }

def State.record (s : State) (entry : Record) : State := { s with log := s.log ++ [entry] }

/-- `handle_for_server`. -/
def handleForServer (s : State) (sdx : Nat) : Option UInt32 :=
  packHandle ⟨0, .ofNat sdx, .ofNat (s.servers sdx).gen, 1⟩

/-- `handle_for_client`. -/
def handleForClient (s : State) (ref : Ref) : Option UInt32 :=
  let sdx := match ref.server with
    | some sdx => 1 + sdx
    | none => 0
  packHandle ⟨.ofNat sdx, .ofNat ref.slot, .ofNat (s.clients ref).gen, 0⟩

/-- `server_from_handle`, the inner result being the returned pointer. -/
def serverFromHandle (s : State) (handle : UInt32) : Option (Option Nat) :=
  if handle = tcpInvalid then some none
  else
    let f := unpackHandle handle
    if f.typ ≠ 1 then some none
    else if f.idx.toNat ≥ maxServers then some none
    else
      let server := s.servers f.idx.toNat
      if server.gen ≠ f.gen.toNat then some none
      else if server.state = .used then some (some f.idx.toNat)
      else none

/-- `client_from_handle`, the inner result being the returned pointer. The array of a server
that is free has been deallocated. -/
def clientFromHandle (s : State) (handle : UInt32) : Option (Option Ref) :=
  if handle = tcpInvalid then some none
  else
    let f := unpackHandle handle
    if f.typ ≠ 0 then some none
    else if f.sdx = 0 then
      if f.idx.toNat ≥ maxClients then some none
      else
        let ref : Ref := ⟨none, f.idx.toNat⟩
        if (s.clients ref).state ≠ .free then some (some ref) else none
    else
      let sdx := f.sdx.toNat - 1
      if sdx ≥ maxServers then some none
      else
        let server := s.servers sdx
        if f.idx.toNat ≥ server.capacity then some none
        else if server.state = .free then none
        else
          let ref : Ref := ⟨some sdx, f.idx.toNat⟩
          if f.gen.toNat ≠ (s.clients ref).gen then some none
          else if (s.clients ref).state ≠ .free then some (some ref) else none

/-- `tcp_server_create`, with the descriptor of the socket it sets up. The number of clients
is an `int`, and their array is a new one. -/
def serverCreate (s : State) (fd maxClients : Nat) : Option (State × UInt32) := do
  guard (maxClients < 2 ^ 31)
  let sdx ← (List.range maxServers).find? fun sdx => (s.servers sdx).state = .free
  let server := s.servers sdx
  let s := { s with
    servers := Function.update s.servers sdx { server with
      state := .used, fd, count := 0, capacity := maxClients, eventsHead := 0, eventsCount := 0
      events := List.replicate (maxClients * maxEventsPerClient) ⟨.none, tcpInvalid⟩
      life := server.life + 1 }
    clients := fun ref =>
      if ref.server = some sdx then ⟨.free, false, false, 1, -1, init, init, 0⟩
      else s.clients ref }
  some (s, ← handleForServer s sdx)

/-- `tcp_server_delete`. -/
def serverDelete (s : State) (sdx : Nat) : State :=
  let server := s.servers sdx
  let gen := if server.gen + 1 = generations then 0 else server.gen + 1
  (s.setServer sdx { server with state := .free, gen }).record (.deleted sdx)

/-- An event behind the other events of a server. -/
def Server.enqueue (server : Server) (event : Event) : Server :=
  { server with
    events := server.events.set
      ((server.eventsHead + server.eventsCount) % (server.capacity * maxEventsPerClient)) event
    eventsCount := server.eventsCount + 1 }

/-- `push_event`. -/
def pushEvent (s : State) (sdx slot : Nat) (type : EventType) : Option State := do
  let ref : Ref := ⟨some sdx, slot⟩
  let handle ← handleForClient s ref
  let server := s.servers sdx
  if server.eventsCount < server.capacity * maxEventsPerClient then
    let s := s.setServer sdx (server.enqueue ⟨type, handle⟩)
    some ((s.record (.issued ref server.life (s.clients ref).turn handle)).record
      (.pushed ref type))
  else none

/-- `free_client`. -/
def freeClient (s : State) (ref : Ref) : State :=
  let client := s.clients ref
  let gen := if client.gen + 1 = generations then 0 else client.gen + 1
  (s.setClient ref { client with state := .free, fd := -1, gen, turn := client.turn + 1 }).record
    (.freed ref)

/-- A result of `recv`. -/
inductive Recv where
  | received (bytes : List UInt8)
  | disconnected
  | wouldBlock
  | failed

/-- A round of the input loop: the memory that is found for it, and the result of `recv`. -/
structure RecvRound where
  malloc : Malloc
  result : Recv

/-- How the input loop ends. -/
inductive Moved where
  | error
  | disconnected
  | ok
  deriving DecidableEq, Repr

/-- The loop of `move_bytes_from_socket_to_queue`. -/
def recvLoop : List RecvRound → Queue → Option (Queue × Moved)
  | [], _ => none
  | round :: rest, queue => do
    let (queue, ensured) ← ensureMinFreeSpace queue 256 round.malloc
    if ensured = false then some (queue, .error)
    else
      match round.result with
      | .disconnected => some (queue, .disconnected)
      | .wouldBlock => some (queue, .ok)
      | .failed => some (queue, .error)
      | .received bytes =>
        if bytes ≠ [] ∧ bytes.length ≤ freeSpace queue then do
          let data ← store queue.data (startWrite queue) bytes
          recvLoop rest (endWrite { queue with data } bytes.length)
        else none

/-- A result of `send`. -/
inductive Send where
  | sent (num : Nat)
  | wouldBlock
  | failed
  deriving DecidableEq, Repr

/-- The loop of `move_bytes_from_queue_to_socket`: whether it ends without an error. -/
def sendLoop : List Send → (zeros : Nat) → Queue → Option (Queue × Bool)
  | results, zeros, queue =>
    if usedSpace queue = 0 then some (queue, true)
    else
      match results with
      | [] => none
      | .wouldBlock :: _ => some (queue, true)
      | .failed :: _ => some (queue, false)
      | .sent num :: rest =>
        if num ≤ usedSpace queue then
          if num = 0 then
            if zeros + 1 = 10 then some (queue, false)
            else sendLoop rest (zeros + 1) (endRead queue num)
          else sendLoop rest 0 (endRead queue num)
        else none

/-- What a poll meets at one client: the events that are reported, the rounds of the input
loop, what `moved` holds where it was never set, and the results of the output loop. -/
structure Traffic where
  pollin : Bool
  pollhup : Bool
  pollout : Bool
  recvs : List RecvRound
  unset : Nat
  sends : List Send

/-- The input of a client: its new input queue, how the loop ends and `moved`. -/
def clientInput (client : Client) (traffic : Traffic) : Option (Queue × Moved × Nat) := do
  let start := usedSpace client.input
  let (input, ending) ← recvLoop traffic.recvs client.input
  let moved := if ending = .error then traffic.unset else Machine.sub64 (usedSpace input) start
  some (input, ending, moved)

/-- The event about bytes that were moved, if any were. -/
def pushMoved (s : State) (sdx slot moved : Nat) : Option State :=
  if moved > 0 then pushEvent s sdx slot .data else some s

/-- A client whose connection is lost, and the event about it. -/
def hangUp (s : State) (sdx slot : Nat) : Option State :=
  let ref : Ref := ⟨some sdx, slot⟩
  let s := (s.setClient ref { s.clients ref with state := .hangup }).record (.hungUp ref)
  pushEvent s sdx slot .disconnect

/-- The part of `tcp_server_poll` that processes the input of a polled client. -/
def pollInput (s : State) (sdx slot : Nat) (traffic : Traffic) : Option State :=
  let ref : Ref := ⟨some sdx, slot⟩
  let client := s.clients ref
  if client.state = .free then some s
  else if traffic.pollin ∨ traffic.pollhup then do
    let (input, ending, moved) ← clientInput client traffic
    let s ← pushMoved (s.setClient ref { client with input }) sdx slot moved
    if ending ≠ .ok then hangUp s sdx slot else some s
  else some s

/-- The part of `tcp_server_poll` that processes the output of a polled client. -/
def pollOutput (s : State) (sdx slot : Nat) (traffic : Traffic) : Option State :=
  let ref : Ref := ⟨some sdx, slot⟩
  let client := s.clients ref
  if client.state ≠ .used ∧ client.state ≠ .close then some s
  else if traffic.pollout then do
    let (output, sent) ← sendLoop traffic.sends 0 client.output
    let s := s.setClient ref { client with output }
    if client.state = .close then
      if sent = false ∨ usedSpace output = 0 then some (freeClient s ref) else some s
    else if sent = false then hangUp s sdx slot
    else some s
  else some s

/-- A result of `accept`, with whether the descriptor could be made non-blocking. -/
inductive Accept where
  | accepted (fd : Nat) (unblocked : Bool)
  | wouldBlock
  | failed
  deriving DecidableEq, Repr

/-- The first free slot of a server. -/
def freeSlot (s : State) (sdx : Nat) : Option Nat :=
  (List.range (s.servers sdx).capacity).find? fun slot => (s.clients ⟨some sdx, slot⟩).state = .free

/-- A slot that is taken for an accepted connection. -/
def openSlot (s : State) (sdx slot fd : Nat) : State :=
  let ref : Ref := ⟨some sdx, slot⟩
  let server := s.servers sdx
  ((s.setClient ref { s.clients ref with
    state := .used, fd, input := init, output := init }).record (.opened ref)).setServer sdx
      { server with count := server.count + 1 }

/-- The client that an accepted connection gets. -/
def acceptClient (s : State) (sdx fd : Nat) : Option State := do
  let slot ← freeSlot s sdx
  pushEvent (openSlot s sdx slot fd) sdx slot .connect

/-- The loop of `tcp_server_poll` that accepts connections. -/
def acceptLoop (sdx : Nat) : List Accept → State → Option State
  | results, s =>
    if (s.servers sdx).count < (s.servers sdx).capacity then
      match results with
      | [] => none
      | .wouldBlock :: _ => some s
      | .failed :: rest => acceptLoop sdx rest s
      | .accepted _ false :: rest => acceptLoop sdx rest s
      | .accepted fd true :: rest => do acceptLoop sdx rest (← acceptClient s sdx fd)
    else some s

/-- What a poll meets: whether connections are waiting, the results of `accept`, and the
traffic of each client. -/
structure Polled where
  pollin : Bool
  accepts : List Accept
  traffic : Nat → Traffic

/-- The slots that are polled. -/
def polledSlots (s : State) (sdx : Nat) : List Nat :=
  (List.range (s.servers sdx).capacity).filter fun slot =>
    (s.clients ⟨some sdx, slot⟩).state = .used ∨ (s.clients ⟨some sdx, slot⟩).state = .close

/-- The part of `tcp_server_poll` that accepts connections. -/
def pollAccept (s : State) (sdx : Nat) (polled : Polled) : Option State :=
  if polled.pollin then acceptLoop sdx polled.accepts s else some s

/-- `tcp_server_poll`. Where `poll` reports nothing the three parts do nothing. -/
def serverPoll (s : State) (sdx : Nat) (polled : Polled) : Option State :=
  if (s.servers sdx).eventsCount = 0 ∧ (s.servers sdx).count < maxPoll then do
    let slots := polledSlots s sdx
    let s ← pollAccept s sdx polled
    let s ← slots.foldlM (fun s slot => pollInput s sdx slot (polled.traffic slot)) s
    slots.foldlM (fun s slot => pollOutput s sdx slot (polled.traffic slot)) s
  else none

/-- `tcp_server_event`. -/
def serverEvent (s : State) (sdx : Nat) : State × Event :=
  let server := s.servers sdx
  if server.eventsCount = 0 then (s, ⟨.none, tcpInvalid⟩)
  else
    (s.setServer sdx { server with
      eventsHead := (server.eventsHead + 1) % (server.capacity * maxEventsPerClient)
      eventsCount := server.eventsCount - 1 },
      server.events.getD server.eventsHead ⟨.none, tcpInvalid⟩)

/-- `tcp_client_close`, behind its handle. -/
def clientClose (s : State) (ref : Ref) : State :=
  let client := s.clients ref
  if client.state = .hangup ∨ usedSpace client.output = 0 then freeClient s ref
  else if ref.server.isSome then
    (s.setClient ref { client with state := .close }).record (.closing ref)
  else freeClient s ref

/-- `tcp_client_read`, behind its handle; no more is read than there is. -/
def clientRead (s : State) (ref : Ref) (num : Nat) : Option State :=
  let client := s.clients ref
  if num ≤ usedSpace client.input then
    some (s.setClient ref { client with input := endRead client.input num })
  else none

/-- `tcp_client_write`, behind its handle. -/
def clientWrite (s : State) (ref : Ref) (data : List UInt8) (malloc : Malloc) : Option State :=
  let client := s.clients ref
  if client.state ≠ .used then some s
  else do
    let (output, ensured) ← ensureMinFreeSpace client.output data.length malloc
    if ensured = false then none
    else
      let region ← store output.data (startWrite output) data
      some (s.setClient ref
        { client with output := endWrite { output with data := region } data.length })

/-- A structure that is taken for a stand-alone client. -/
def connectSlot (s : State) (slot fd : Nat) : State :=
  let ref : Ref := ⟨none, slot⟩
  (s.setClient ref { s.clients ref with
    state := .used, fd, eventData := false, eventDisconnect := false
    input := init, output := init }).record (.opened ref)

/-- `tcp_client_create`, with the descriptor of the connected socket. -/
def clientCreate (s : State) (fd : Nat) : Option (State × UInt32) := do
  let slot ← (List.range maxClients).find? fun slot => (s.clients ⟨none, slot⟩).state = .free
  let ref : Ref := ⟨none, slot⟩
  let s := connectSlot s slot fd
  let handle ← handleForClient s ref
  some (s.record (.issued ref 0 (s.clients ref).turn handle), handle)

/-- The input of a stand-alone client. -/
def aloneInput (s : State) (ref : Ref) (traffic : Traffic) : Option State :=
  let client := s.clients ref
  if traffic.pollin ∨ traffic.pollhup then do
    let (input, ending, moved) ← clientInput client traffic
    let client := { client with input, eventData := decide (moved > 0) }
    if ending ≠ .ok then
      some ((s.setClient ref { client with state := .hangup, eventDisconnect := true }).record
        (.hungUp ref))
    else some (s.setClient ref client)
  else some s

/-- The output of a stand-alone client, which is never in the state `TCP_CLIENT_CLOSE`. -/
def aloneOutput (s : State) (ref : Ref) (traffic : Traffic) : Option State :=
  let client := s.clients ref
  if traffic.pollout then do
    let (output, sent) ← sendLoop traffic.sends 0 client.output
    if client.state ≠ .used then none
    else if sent = false then
      some ((s.setClient ref
        { client with output, state := .hangup, eventDisconnect := true }).record (.hungUp ref))
    else some (s.setClient ref { client with output })
  else some s

/-- `tcp_client_poll`, behind its handle. -/
def clientPoll (s : State) (ref : Ref) (traffic : Traffic) : Option State :=
  let client := s.clients ref
  if ref.server.isSome then none
  else if client.state ≠ .used ∧ client.state ≠ .hangup then none
  else if client.eventData ∨ client.eventDisconnect then some s
  else do aloneOutput (← aloneInput s ref traffic) ref traffic

/-- `tcp_client_event`, behind its handle. -/
def clientEvent (s : State) (ref : Ref) : Option State :=
  let client := s.clients ref
  if ref.server.isSome then none
  else if client.eventData then some (s.setClient ref { client with eventData := false })
  else if client.eventDisconnect then
    some (s.setClient ref { client with eventDisconnect := false })
  else some s

/-- The calls of the module. A call that creates a server or a stand-alone client and does
not get its socket changes nothing. -/
inductive Action where
  | serverCreate (fd maxClients : Nat)
  | serverDelete (handle : UInt32)
  | serverPoll (handle : UInt32) (polled : Polled)
  | serverEvent (handle : UInt32)
  | clientCreate (fd : Nat)
  | clientPoll (handle : UInt32) (traffic : Traffic)
  | clientEvent (handle : UInt32)
  | clientClose (handle : UInt32)
  | clientRead (handle : UInt32) (num : Nat)
  | clientWrite (handle : UInt32) (data : List UInt8) (malloc : Malloc)

/-- The client behind a handle. A call with a handle of no client aborts. -/
def resolve (s : State) (handle : UInt32) : Option Ref := (clientFromHandle s handle).join

/-- The server behind a handle. A call with a handle of no server aborts. -/
def resolveServer (s : State) (handle : UInt32) : Option Nat := (serverFromHandle s handle).join

/-- Every sequence of calls, from the zeroed arrays. -/
def calls : System State Action where
  initial s := (∀ sdx, s.servers sdx = ⟨.free, 0, 0, 0, 0, 0, 0, [], 0⟩) ∧
    (∀ ref, s.clients ref = ⟨.free, false, false, 0, 0, init, init, 0⟩) ∧ s.log = []
  next s action :=
    match action with
    | .serverCreate fd maxClients => do some (← serverCreate s fd maxClients).1
    | .serverDelete handle => do some (serverDelete s (← resolveServer s handle))
    | .serverPoll handle polled => do serverPoll s (← resolveServer s handle) polled
    | .serverEvent handle => do some (serverEvent s (← resolveServer s handle)).1
    | .clientCreate fd => do some (← clientCreate s fd).1
    | .clientPoll handle traffic => do clientPoll s (← resolve s handle) traffic
    | .clientEvent handle => do clientEvent s (← resolve s handle)
    | .clientClose handle => do some (clientClose s (← resolve s handle))
    | .clientRead handle num => do clientRead s (← resolve s handle) num
    | .clientWrite handle data malloc => do clientWrite s (← resolve s handle) data malloc

end Mysnips.Tcp

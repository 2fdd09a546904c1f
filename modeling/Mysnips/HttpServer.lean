import Mysnips.HttpParse
import Mysnips.Machine
import Mysnips.Memory
import Mysnips.Transition
import Mathlib.Logic.Function.Basic

/-! The HTTP server. Clients, poll entries and free slots live in arrays that are
addressed by the number of connections; clients with a request head wait in a ring.
Operations return the new state or the fault that stopped them: a failed assertion,
a null pointer, or an access outside a buffer. What the system calls do is an
argument of each operation. -/
namespace Mysnips.HttpServer
open HttpParse
open Memory (ascii)

/-- What stops the server. `environment` is an outcome that no system call has, and
`unfinished` a loop that outran its bound. -/
inductive Fault where
  | queueFull
  | queueEmpty
  | freeIndex
  | notFree
  | pitemMismatch
  | acceptFailed
  | noHeadEnd
  | badMinor
  | badGeneration
  | longNumber
  | nullPointer
  | outOfBounds
  | overcounted
  | environment
  | unfinished
  deriving DecidableEq, Repr

/-- `MAX_CLIENTS`, with the static assertion on it. -/
structure Config where
  maxClients : Nat
  positive : 0 < maxClients
  small : maxClients < 2 ^ 16 - 1

/-! ## Buffers -/

/-- The memory of a buffer: its size and the bytes used. -/
structure Block where
  size : Nat
  bytes : List UInt8
  deriving DecidableEq, Repr

/-- `struct iobuf`; without memory its pointer is null. -/
structure IoBuf where
  block : Option Block := none
  deriving DecidableEq, Repr

namespace IoBuf

def bytes (b : IoBuf) : List UInt8 :=
  match b.block with
  | none => []
  | some m => m.bytes

def size (b : IoBuf) : Nat :=
  match b.block with
  | none => 0
  | some m => m.size

def used (b : IoBuf) : Nat := b.bytes.length

/-- The buffer with other bytes in its memory. -/
def setBytes (b : IoBuf) (bytes : List UInt8) : IoBuf :=
  ⟨b.block.map (fun m => { m with bytes := bytes })⟩

end IoBuf

/-- `find`. -/
def find (hay needle : List UInt8) : Option Nat :=
  match hay with
  | [] => none
  | c :: rest =>
    if needle ≠ [] ∧ needle.isPrefixOf (c :: rest) then some 0
    else (find rest needle).map (· + 1)

/-- The end of a request head. -/
def headEnd : List UInt8 := ascii "\r\n\r\n"

/-- `ensure_free_space`, where `alloc` says which sizes `malloc` can still give. A buffer
without memory gets 512 bytes, however many are asked for. -/
def ensureFreeSpace (alloc : Nat → Bool) (b : IoBuf) (min : Nat) : Option Block :=
  match b.block with
  | none => if alloc 512 then some ⟨512, []⟩ else none
  | some m =>
    if m.size - m.bytes.length < min then
      let newSize :=
        if 2 * m.size - m.bytes.length < min then m.bytes.length + min else 2 * m.size
      if alloc newSize then some { m with size := newSize } else none
    else some m

/-- A copy behind the used bytes. -/
def Block.append (m : Block) (data : List UInt8) : Except Fault Block :=
  if m.bytes.length + data.length ≤ m.size then .ok { m with bytes := m.bytes ++ data }
  else .error .outOfBounds

/-- `vsnprintf` behind the used bytes. Where the text and its terminator do not fit, the code cuts
it and still counts all of it as used; `OutputBuf` has the cells of such a buffer, and the runs of
this model end there. -/
def Block.format (m : Block) (text : List UInt8) : Except Fault Block :=
  if m.bytes.length + text.length + 1 ≤ m.size then .ok { m with bytes := m.bytes ++ text }
  else .error .overcounted

/-! ## Clients -/

inductive ClientState where
  | free
  | idle
  | queued
  | popped
  | status
  | header
  | content
  | close
  deriving DecidableEq, Repr

/-- The values of `connheader`. -/
inductive ConnHeader where
  | unspecified
  | keepAlive
  | close
  deriving DecidableEq, Repr

/-- `struct client`; `pitem` is an index into the poll entries. -/
structure Client where
  gen : Nat := 0
  state : ClientState := .free
  pitem : Option Nat := none
  input : IoBuf := {}
  output : IoBuf := {}
  numServed : Nat := 0
  minor : Nat := 0
  connheader : ConnHeader := .unspecified
  contentLengthOffset : Nat := 0
  contentOffset : Nat := 0
  requestLength : Nat := 0
  keepalive : Bool := false
  deriving DecidableEq, Repr

structure PollEvents where
  pollin : Bool := false
  pollout : Bool := false
  deriving DecidableEq, Repr

/-- `struct pollfd`. -/
structure PollFd where
  fd : Nat := 0
  events : PollEvents := {}
  revents : PollEvents := {}
  deriving DecidableEq, Repr

/-- A part of a response as it is appended to the output. -/
inductive Part where
  | status (text : List UInt8)
  | header (text : List UInt8)
  | special (text : List UInt8)
  | content (data : List UInt8)
  | whole (text : List UInt8)
  deriving DecidableEq, Repr

/-- What can be observed of a run. Sending, popping and closing are recorded with the
state in which they find the client; `deferred` is a request whose body is not
there yet. -/
inductive Event where
  | accepted (ci fd : Nat)
  | serviced (ci : Nat)
  | received (ci : Nat) (bytes : List UInt8)
  | sent (ci : Nat) (state : ClientState) (bytes : List UInt8)
  | popped (ci : Nat) (state : ClientState)
  | deferred (ci : Nat)
  | delivered (ci handle : Nat) (head body : List UInt8)
  | built (ci : Nat) (part : Part)
  | completed (ci : Nat)
  | closed (ci fd : Nat) (state : ClientState)
  deriving DecidableEq, Repr

/-- The client that an event is about. -/
def Event.client : Event → Nat
  | accepted ci _ => ci
  | serviced ci => ci
  | received ci _ => ci
  | sent ci _ _ => ci
  | popped ci _ => ci
  | deferred ci => ci
  | delivered ci _ _ _ => ci
  | built ci _ => ci
  | completed ci => ci
  | closed ci _ _ => ci

/-- `struct server`. The queue holds client indices. `log` is not in the source: it
records what happened, for the statements about runs. -/
structure Server where
  fd : Nat := 0
  ncs : Nat := 0
  cs : Nat → Client := fun _ => {}
  ps : Nat → PollFd := fun _ => {}
  pis : Nat → Nat := fun _ => 0
  free : Nat → Nat := fun _ => 0
  qhead : Nat := 0
  qused : Nat := 0
  qdata : Nat → Nat := fun _ => 0
  log : List Event := []

namespace Server

def setClient (s : Server) (ci : Nat) (c : Client) : Server :=
  { s with cs := Function.update s.cs ci c }

def setEntry (s : Server) (i : Nat) (p : PollFd) : Server :=
  { s with ps := Function.update s.ps i p }

def record (s : Server) (e : Event) : Server := { s with log := s.log ++ [e] }

/-- `events |= POLLOUT` and `events &= ~POLLOUT`. -/
def setPollout (s : Server) (i : Nat) (on : Bool) : Server :=
  s.setEntry i { s.ps i with events := { (s.ps i).events with pollout := on } }

@[simp] theorem setPollout_cs (s : Server) (i : Nat) (on : Bool) :
    (s.setPollout i on).cs = s.cs := rfl

@[simp] theorem setPollout_log (s : Server) (i : Nat) (on : Bool) :
    (s.setPollout i on).log = s.log := rfl

/-- The queue with a client at its end. -/
def enqueue (s : Server) (max ci : Nat) : Server :=
  { s with
    qdata := Function.update s.qdata ((s.qhead + s.qused) % max) ci
    qused := s.qused + 1 }

/-- The queue without its first client. -/
def dequeue (s : Server) (max : Nat) : Server :=
  { s with qhead := (s.qhead + 1) % max, qused := s.qused - 1 }

@[simp] theorem enqueue_cs (s : Server) (max ci : Nat) : (s.enqueue max ci).cs = s.cs := rfl

@[simp] theorem enqueue_ps (s : Server) (max ci : Nat) : (s.enqueue max ci).ps = s.ps := rfl

@[simp] theorem enqueue_log (s : Server) (max ci : Nat) : (s.enqueue max ci).log = s.log := rfl

@[simp] theorem dequeue_cs (s : Server) (max : Nat) : (s.dequeue max).cs = s.cs := rfl

@[simp] theorem dequeue_ps (s : Server) (max : Nat) : (s.dequeue max).ps = s.ps := rfl

@[simp] theorem dequeue_log (s : Server) (max : Nat) : (s.dequeue max).log = s.log := rfl

@[simp] theorem setClient_cs (s : Server) (ci : Nat) (c : Client) :
    (s.setClient ci c).cs = Function.update s.cs ci c := rfl

@[simp] theorem setEntry_ps (s : Server) (i : Nat) (p : PollFd) :
    (s.setEntry i p).ps = Function.update s.ps i p := rfl

@[simp] theorem record_log (s : Server) (e : Event) : (s.record e).log = s.log ++ [e] := rfl

@[simp] theorem setClient_fd (s : Server) (ci : Nat) (c : Client) : (s.setClient ci c).fd = s.fd := rfl

@[simp] theorem setClient_ncs (s : Server) (ci : Nat) (c : Client) : (s.setClient ci c).ncs = s.ncs := rfl

@[simp] theorem setClient_ps (s : Server) (ci : Nat) (c : Client) : (s.setClient ci c).ps = s.ps := rfl

@[simp] theorem setClient_pis (s : Server) (ci : Nat) (c : Client) : (s.setClient ci c).pis = s.pis := rfl

@[simp] theorem setClient_free (s : Server) (ci : Nat) (c : Client) : (s.setClient ci c).free = s.free := rfl

@[simp] theorem setClient_qhead (s : Server) (ci : Nat) (c : Client) : (s.setClient ci c).qhead = s.qhead := rfl

@[simp] theorem setClient_qused (s : Server) (ci : Nat) (c : Client) : (s.setClient ci c).qused = s.qused := rfl

@[simp] theorem setClient_qdata (s : Server) (ci : Nat) (c : Client) : (s.setClient ci c).qdata = s.qdata := rfl

@[simp] theorem setClient_log (s : Server) (ci : Nat) (c : Client) : (s.setClient ci c).log = s.log := rfl

@[simp] theorem setEntry_fd (s : Server) (i : Nat) (p : PollFd) : (s.setEntry i p).fd = s.fd := rfl

@[simp] theorem setEntry_ncs (s : Server) (i : Nat) (p : PollFd) : (s.setEntry i p).ncs = s.ncs := rfl

@[simp] theorem setEntry_cs (s : Server) (i : Nat) (p : PollFd) : (s.setEntry i p).cs = s.cs := rfl

@[simp] theorem setEntry_pis (s : Server) (i : Nat) (p : PollFd) : (s.setEntry i p).pis = s.pis := rfl

@[simp] theorem setEntry_free (s : Server) (i : Nat) (p : PollFd) : (s.setEntry i p).free = s.free := rfl

@[simp] theorem setEntry_qhead (s : Server) (i : Nat) (p : PollFd) : (s.setEntry i p).qhead = s.qhead := rfl

@[simp] theorem setEntry_qused (s : Server) (i : Nat) (p : PollFd) : (s.setEntry i p).qused = s.qused := rfl

@[simp] theorem setEntry_qdata (s : Server) (i : Nat) (p : PollFd) : (s.setEntry i p).qdata = s.qdata := rfl

@[simp] theorem setEntry_log (s : Server) (i : Nat) (p : PollFd) : (s.setEntry i p).log = s.log := rfl

@[simp] theorem record_fd (s : Server) (e : Event) : (s.record e).fd = s.fd := rfl

@[simp] theorem record_ncs (s : Server) (e : Event) : (s.record e).ncs = s.ncs := rfl

@[simp] theorem record_cs (s : Server) (e : Event) : (s.record e).cs = s.cs := rfl

@[simp] theorem record_ps (s : Server) (e : Event) : (s.record e).ps = s.ps := rfl

@[simp] theorem record_pis (s : Server) (e : Event) : (s.record e).pis = s.pis := rfl

@[simp] theorem record_free (s : Server) (e : Event) : (s.record e).free = s.free := rfl

@[simp] theorem record_qhead (s : Server) (e : Event) : (s.record e).qhead = s.qhead := rfl

@[simp] theorem record_qused (s : Server) (e : Event) : (s.record e).qused = s.qused := rfl

@[simp] theorem record_qdata (s : Server) (e : Event) : (s.record e).qdata = s.qdata := rfl

end Server

/-! ## The queue and the connection table -/

/-- `push_client`. -/
def pushClient (max : Nat) (s : Server) (ci : Nat) : Except Fault Server :=
  if s.qused < max then .ok (s.enqueue max ci) else .error .queueFull

/-- `pop_client`. -/
def popClient (max : Nat) (s : Server) : Except Fault (Server × Nat) :=
  if s.qused > 0 then .ok (s.dequeue max, s.qdata s.qhead) else .error .queueEmpty

/-- `invalidate_handles`, on the generation. -/
def invalidateHandles (gen : Nat) : Nat :=
  let next := (gen + 1) % 2 ^ 16
  if next = 2 ^ 16 - 1 then 0 else next

/-- `close_client`. `remove_queued_client` is a TODO in the source, so a queued client
stays in the ring. -/
def closeClient (max : Nat) (s : Server) (ci : Nat) : Except Fault Server :=
  match (s.cs ci).pitem with
  | none => .error .nullPointer
  | some pi =>
    if s.ncs = 0 then .error .outOfBounds else
    let c := s.cs ci
    let s := s.record (.closed ci (s.ps pi).fd c.state)
    let s := s.setClient ci
      { c with
        gen := invalidateHandles c.gen
        input := {}
        output := {}
        state := .free
        pitem := none }
    let s := { s with
      pis := Function.update s.pis (pi - 1) (s.pis (s.ncs - 1))
      ps := Function.update s.ps pi (s.ps s.ncs)
      ncs := s.ncs - 1 }
    let moved := s.pis (pi - 1)
    let s := s.setClient moved { s.cs moved with pitem := some pi }
    .ok { s with free := Function.update s.free (max - (s.ncs + 1)) ci }

/-! ## Input and output -/

/-- The outcomes of the calls of the `recv` loop, in order. -/
inductive Recv where
  | noMemory
  | closed
  | error
  | again
  | data (bytes : List UInt8) (next : Recv)
  deriving DecidableEq, Repr

/-- The space for the next `recv`, where `malloc` finds memory. -/
def recvSpace (b : IoBuf) : Except Fault Block :=
  match ensureFreeSpace (fun _ => true) b 256 with
  | none => .error .environment
  | some m => .ok m

/-- The loop of `socket_input`: whether it ends with a wait for more, the buffer, and
the bytes received. -/
def recvLoop : Recv → IoBuf → List UInt8 → Except Fault (Bool × IoBuf × List UInt8)
  | .noMemory, b, received =>
    match ensureFreeSpace (fun _ => false) b 256 with
    | none => .ok (false, b, received)
    | some _ => .error .environment
  | .closed, b, received => do .ok (false, ⟨← recvSpace b⟩, received)
  | .error, b, received => do .ok (false, ⟨← recvSpace b⟩, received)
  | .again, b, received => do .ok (true, ⟨← recvSpace b⟩, received)
  | .data bytes next, b, received => do
    let m ← recvSpace b
    if bytes ≠ [] ∧ m.bytes.length + bytes.length ≤ m.size then
      recvLoop next ⟨some { m with bytes := m.bytes ++ bytes }⟩ (received ++ bytes)
    else .error .environment

/-- `socket_input`. -/
def socketInput (max : Nat) (s : Server) (ci : Nat) (recv : Recv) :
    Except Fault (Bool × Server) :=
  match (s.cs ci).pitem with
  | none => .error .nullPointer
  | some _ => do
    let c := s.cs ci
    let (ok, input, received) ← recvLoop recv c.input []
    let s := (s.setClient ci { c with input := input }).record (.received ci received)
    if !ok then .ok (false, s)
    else if c.state = .idle ∧ (find input.bytes headEnd).isSome then do
      let s ← pushClient max s ci
      .ok (true, s.setClient ci { s.cs ci with state := .queued })
    else .ok (true, s)

/-- The outcomes of the calls of the `send` loop, in order. -/
inductive Send where
  | error
  | again
  | accepted (n : Nat) (next : Send)
  deriving DecidableEq, Repr

/-- The loop of `socket_output`: whether it ends without an error, and how much was
sent. -/
def sendLoop : Send → Nat → Nat → Nat → Except Fault (Bool × Nat)
  | outcome, limit, sent, zeros =>
    if limit ≤ sent then .ok (true, sent)
    else
      match outcome with
      | .error => .ok (false, sent)
      | .again => .ok (true, sent)
      | .accepted n next =>
        if n = 0 then
          if zeros + 1 = 128 then .ok (true, sent) else sendLoop next limit sent (zeros + 1)
        else if sent + n ≤ limit then sendLoop next limit (sent + n) 0
        else .error .environment

/-- How much of the output may be sent: in `C_CONTENT`, nothing from the blanks for the
length on. -/
def Client.sendLimit (c : Client) : Nat :=
  if c.state = .content then c.contentLengthOffset else c.output.used

/-- The client after `n` bytes of its output were sent. -/
def Client.afterSend (c : Client) (n : Nat) : Client :=
  { c with
    contentLengthOffset :=
      if c.state = .content then c.contentLengthOffset - n else c.contentLengthOffset
    output := if n = c.output.used then {} else c.output.setBytes (c.output.bytes.drop n) }

/-- `socket_output`. -/
def socketOutput (s : Server) (ci : Nat) (send : Send) : Except Fault (Bool × Server) :=
  let c := s.cs ci
  match c.pitem with
  | none => .error .nullPointer
  | some pi =>
    if c.output.used < c.sendLimit then .error .outOfBounds
    else do
      let (ok, n) ← sendLoop send c.sendLimit 0 0
      let s := s.record (.sent ci c.state (c.output.bytes.take n))
      if !ok then .ok (false, s)
      else
        let s := if n = c.sendLimit then s.setPollout pi false else s
        .ok (!(n = c.output.used && c.state = .close), s.setClient ci (c.afterSend n))

/-- The outcomes of `accept` and `set_non_blocking`. -/
inductive Accept where
  | client (fd : Nat)
  | blocking (fd : Nat)
  | error
  deriving DecidableEq, Repr

/-- One accepted connection in `process_io`. -/
def acceptClient (max : Nat) (s : Server) (fd : Nat) : Except Fault Server :=
  let ci := s.free (max - (s.ncs + 1))
  if ¬ ci < max then .error .freeIndex
  else if (s.cs ci).state ≠ .free then .error .notFree
  else
    let s := s.setEntry (s.ncs + 1) ⟨fd, ⟨true, false⟩, ⟨false, false⟩⟩
    let s := { s with pis := Function.update s.pis s.ncs ci }
    let s := s.setClient ci
      { s.cs ci with
        state := .idle
        input := {}
        output := {}
        pitem := some (s.ncs + 1)
        numServed := 0 }
    .ok ({ s with ncs := s.ncs + 1 }.record (.accepted ci fd))

/-- The accept loop of `process_io`; it ends with `EAGAIN` or a full table. -/
def acceptLoop (max : Nat) : List Accept → Server → Except Fault Server
  | [], s => .ok s
  | outcome :: rest, s =>
    if s.ncs < max then
      match outcome with
      | .client fd => do acceptLoop max rest (← acceptClient max s fd)
      | .blocking _ => acceptLoop max rest s
      | .error => .error .acceptFailed
    else .ok s

/-- What the system calls of one `process_io` do: `poll` fails or sets the returned
events, and the rounds of the service loop each have their outcomes. -/
structure Io where
  poll : Option (Nat → PollEvents)
  accepts : List Accept := []
  recvs : Nat → Recv := fun _ => .again
  sends : Nat → Send := fun _ => .again

/-- What one round of the service loop does to its client before a possible close. -/
def service (max : Nat) (s : Server) (ci : Nat) (evs : PollEvents) (recv : Recv) (send : Send) :
    Except Fault (Bool × Server) := do
  let (ok, s) ← (if evs.pollin then socketInput max s ci recv else .ok (true, s))
  if ok && evs.pollout then socketOutput s ci send else .ok (ok, s)

/-- The service loop of `process_io`. A closed client is replaced by the last one, and
its index is visited again. -/
def serviceLoop (max : Nat) (io : Io) : Nat → Nat → Server → Except Fault Server
  | fuel, i, s =>
    if i < s.ncs + 1 then
      match fuel with
      | 0 => .error .unfinished
      | fuel + 1 => do
        let ci := s.pis (i - 1)
        if (s.cs ci).pitem ≠ some i then .error .pitemMismatch
        else do
          let evs := (s.ps i).revents
          let (ok, s) ← service max (s.record (.serviced ci)) ci evs (io.recvs fuel) (io.sends fuel)
          if ok then serviceLoop max io fuel (i + 1) s
          else serviceLoop max io fuel i (← closeClient max s ci)
    else .ok s

/-- `process_io`. -/
def processIo (max : Nat) (s : Server) (io : Io) : Except Fault Server :=
  match io.poll with
  | none => .ok s
  | some revents => do
    let s := { s with
      ps := fun i => if i ≤ s.ncs then { s.ps i with revents := revents i } else s.ps i }
    let s ← (if (s.ps 0).revents.pollin then acceptLoop max io.accepts s else .ok s)
    serviceLoop max io s.ncs 1 s

/-! ## Output of the response calls -/

/-- `http_server_append_output`. -/
def appendOutput (alloc : Nat → Bool) (s : Server) (ci : Nat) (data : List UInt8) :
    Except Fault (Bool × Server) :=
  if data = [] then .ok (true, s)
  else
    let c := s.cs ci
    match ensureFreeSpace alloc c.output data.length with
    | none => .ok (false, s)
    | some m => do
      let m ← m.append data
      match c.pitem with
      | none => .error .nullPointer
      | some pi =>
        .ok (true, (s.setClient ci { c with output := ⟨m⟩ }).setPollout pi true)

/-- `http_server_append_output_format_2`, on the formatted text. The space asked for has
room for the terminator. -/
def appendOutputFormat (alloc : Nat → Bool) (s : Server) (ci : Nat) (text : List UInt8) :
    Except Fault (Bool × Server) :=
  let c := s.cs ci
  let space :=
    if text.length + 1 ≥ c.output.size - c.output.used then
      ensureFreeSpace alloc c.output (text.length + 1)
    else c.output.block
  match space with
  | none => .ok (false, s)
  | some m =>
    if text = [] then .ok (true, s.setClient ci { c with output := ⟨m⟩ })
    else do
      let m ← m.format text
      match c.pitem with
      | none => .error .nullPointer
      | some pi =>
        .ok (true, (s.setClient ci { c with output := ⟨m⟩ }).setPollout pi true)

/-- `reason_phrase`. -/
def reasonPhrase : Int → String
  | 100 => "Continue"
  | 101 => "Switching Protocols"
  | 102 => "Processing"
  | 103 => "Early Hints"
  | 200 => "OK"
  | 201 => "Created"
  | 202 => "Accepted"
  | 203 => "Non-Authoritative Information"
  | 204 => "No Content"
  | 205 => "Reset Content"
  | 206 => "Partial Content"
  | 207 => "Multi-Status"
  | 208 => "Already Reported"
  | 226 => "IM Used"
  | 300 => "Multiple Choices"
  | 301 => "Moved Permanently"
  | 302 => "Found"
  | 303 => "See Other"
  | 304 => "Not Modified"
  | 305 => "Use Proxy"
  | 306 => "unused"
  | 307 => "Temporary Redirect"
  | 308 => "Permanent Redirect"
  | 400 => "Bad Request"
  | 401 => "Unauthorized"
  | 402 => "Payment Required"
  | 403 => "Forbidden"
  | 404 => "Not Found"
  | 405 => "Method Not Allowed"
  | 406 => "Not Acceptable"
  | 407 => "Proxy Authentication Required"
  | 408 => "Request Timeout"
  | 409 => "Conflict"
  | 410 => "Gone"
  | 411 => "Length Required"
  | 412 => "Precondition Failed"
  | 413 => "Payload Too Large"
  | 414 => "URI Too Long"
  | 415 => "Unsupported Media Type"
  | 416 => "Range Not Satisfiable"
  | 417 => "Expectation Failed"
  | 418 => "I'm a teapot"
  | 421 => "Misdirected Request"
  | 422 => "Unprocessable Content"
  | 423 => "Locked"
  | 424 => "Failed Dependency"
  | 425 => "Too Early"
  | 426 => "Upgrade Required"
  | 428 => "Precondition Required"
  | 429 => "Too Many Requests"
  | 431 => "Request Header Fields Too Large"
  | 451 => "Unavailable For Legal Reasons"
  | 500 => "Internal Server Error"
  | 501 => "Not Implemented"
  | 502 => "Bad Gateway"
  | 503 => "Service Unavailable"
  | 504 => "Gateway Timeout"
  | 505 => "HTTP Version Not Supported"
  | 506 => "Variant Also Negotiates"
  | 507 => "Insufficient Storage"
  | 508 => "Loop Detected"
  | 510 => "Not Extended"
  | 511 => "Network Authentication Required"
  | _ => "???"

/-- `send_basic_response_and_close`. -/
def sendBasicResponseAndClose (max : Nat) (alloc : Nat → Bool) (s : Server) (ci minor : Nat)
    (status : Int) : Except Fault Server := do
  let line := toString status ++ " " ++ reasonPhrase status ++ "\r\n"
  let text ←
    (if minor = 0 then .ok (ascii ("HTTP/1.0 " ++ line ++ "Content-Length: 0\r\n\r\n"))
    else if minor = 1 then
      .ok (ascii ("HTTP/1.1 " ++ line ++ "Content-Length: 0\r\nConnection: Close\r\n\r\n"))
    else .error .badMinor)
  let (ok, s) ← appendOutputFormat alloc s ci text
  if !ok then closeClient max s ci
  else .ok ((s.setClient ci { s.cs ci with state := .close }).record (.built ci (.whole text)))

/-! ## Waiting for requests -/

/-- What `http_server_wait_request` makes of the input of a popped client. -/
inductive Verdict where
  | refused (minor : Nat) (status : Int)
  | incomplete
  | complete (r : Request) (headLen total : Nat)
  deriving DecidableEq, Repr

/-- The length of the body, or the response that refuses the request. -/
def contentLength (head : List UInt8) (r : Request) : Except Fault (Nat ⊕ Int) :=
  match findHeader head r (ascii "Content-Length") with
  | some value =>
    let length := parseContentLength value
    .ok (if length = sizeMax then .inr 400 else .inl length)
  | none =>
    match findAndParseTransferEncoding head r with
    | none => .error .unfinished
    | some coding =>
      if coding < 0 then .ok (.inr 400)
      else if coding.toNat &&& tChunked ≠ 0 then .ok (.inr 411)
      else .ok (.inl 0)

/-- The part of `http_server_wait_request` that reads the input. -/
def examine (input : List UInt8) : Except Fault Verdict :=
  match find input headEnd with
  | none => .error .noHeadEnd
  | some i =>
    let headLen := i + 4
    let head := input.take headLen
    match parseRequestHead head with
    | none => .error .outOfBounds
    | some (.ok r) =>
      if r.major ≠ 1 ∨ (r.minor ≠ 0 ∧ r.minor ≠ 1) then .ok (.refused 1 505)
      else do
        match ← contentLength head r with
        | .inr status => .ok (.refused r.minor status)
        | .inl length =>
          let total := Machine.add64 headLen length
          if input.length < total then .ok .incomplete
          else .ok (.complete { r with content := ⟨headLen, length⟩ } headLen total)
    | some _ => .ok (.refused 1 400)

/-- One round of `http_server_wait_request` with a client in the queue: the handle and
the request where it returns them. -/
def waitRound (max : Nat) (alloc : Nat → Bool) (s : Server) :
    Except Fault (Server × Option (Nat × Request)) := do
  let (s, ci) ← popClient max s
  let s := s.record (.popped ci (s.cs ci).state)
  let c := { s.cs ci with state := .popped }
  let s := s.setClient ci c
  match ← examine c.input.bytes with
  | .refused minor status =>
    .ok (← sendBasicResponseAndClose max alloc s ci minor status, none)
  | .incomplete => .ok (s.record (.deferred ci), none)
  | .complete r headLen total =>
    if ¬ c.gen < 2 ^ 16 - 1 then .error .badGeneration
    else
      let handle := c.gen ||| (ci <<< 16)
      let s := s.setClient ci
        { c with state := .status, minor := r.minor, connheader := .unspecified,
                 requestLength := total }
      .ok (s.record (.delivered ci handle (c.input.bytes.take headLen)
        (r.content.bytes c.input.bytes)), some (handle, r))

/-! ## The response calls -/

/-- `client_from_handle`. -/
def clientFromHandle (s : Server) (handle : Nat) : Option Nat :=
  let gen := handle &&& 0xFFFF
  let idx := handle >>> 16
  if idx ≥ s.ncs then none
  else if (s.cs idx).gen ≠ gen then none
  else some idx

/-- `http_server_set_status`. -/
def setStatus (max : Nat) (alloc : Nat → Bool) (s : Server) (handle : Nat) (status : Int) :
    Except Fault Server :=
  match clientFromHandle s handle with
  | none => .ok s
  | some ci =>
    if (s.cs ci).state ≠ .status then .ok s
    else do
      let text := ascii ("HTTP/1." ++ toString (s.cs ci).minor ++ " " ++ toString status ++ " " ++
        reasonPhrase status ++ "\r\n")
      let (ok, s) ← appendOutputFormat alloc s ci text
      if !ok then closeClient max s ci
      else
        .ok ((s.setClient ci { s.cs ci with state := .header }).record (.built ci (.status text)))

/-- `http_server_parse_header`: the name and the value. The name is given the length of
the whole text. -/
def parseHeader (src : List UInt8) : Option (List UInt8 × List UInt8) :=
  let cur := (src.takeWhile (· != ':'.toUInt8)).length
  if cur = src.length then none else some (src, src.drop (cur + 1))

/-- `http_server_append_header`, on the bytes of the text. -/
def appendHeader (max : Nat) (alloc : Nat → Bool) (s : Server) (handle : Nat) (text : List UInt8) :
    Except Fault Server :=
  match clientFromHandle s handle with
  | none => .ok s
  | some ci =>
    if (s.cs ci).state ≠ .header then .ok s
    else
      match parseHeader text with
      | none => .ok s
      | some (name, value) =>
        if matchHeaderName name (ascii "Content-Length") then .ok s
        else if matchHeaderName name (ascii "Connection") then
          let connheader :=
            if matchHeaderValue value (ascii "Keep-Alive") then .keepAlive
            else if matchHeaderValue value (ascii "Close") then .close
            else .unspecified
          .ok (s.setClient ci { s.cs ci with connheader := connheader })
        else do
          let (ok, s) ← appendOutput alloc s ci text
          if !ok then .ok s
          else do
            let (ok, s) ← appendOutput alloc s ci (ascii "\r\n")
            if !ok then closeClient max s ci
            else .ok (s.record (.built ci (.header text)))

/-- The connection is kept: the user did not ask to close it, it has not served its
share of requests, and less than seven tenths of the table are in use. -/
def keepsAlive (max : Nat) (s : Server) (c : Client) : Bool :=
  c.connheader ≠ .close && c.numServed < 5 && 10 * s.ncs < 7 * max

/-- The `Connection` line of a response. -/
def connectionLine (keep : Bool) : List UInt8 :=
  ascii (if keep then "Connection: Keep-Alive\r\n" else "Connection: Close\r\n")

/-- The lines that `append_special_headers` writes, up to the length. -/
def specialHeaders (minor : Nat) (keep : Bool) : List UInt8 :=
  (if minor = 1 then connectionLine keep else []) ++ ascii "Content-Length: "

/-- The blanks for the length, and the end of their line. -/
def blanks : List UInt8 := ascii "         \r\n"

/-- Append a text, and go on with the client if it is still there. -/
def appendOrClose (max : Nat) (alloc : Nat → Bool) (s : Server) (ci : Nat) (text : List UInt8)
    (next : Server → Except Fault (Bool × Server)) : Except Fault (Bool × Server) := do
  let (ok, s) ← appendOutput alloc s ci text
  if !ok then .ok (false, ← closeClient max s ci) else next s

/-- `append_special_headers`: whether the client is still there. -/
def appendSpecialHeaders (max : Nat) (alloc : Nat → Bool) (s : Server) (ci : Nat) :
    Except Fault (Bool × Server) := do
  let keep := keepsAlive max s (s.cs ci)
  let (ok, s) ←
    (if (s.cs ci).minor = 1 then do
      let (ok, s) ← appendOutput alloc s ci (connectionLine keep)
      .ok (ok, s.setClient ci { s.cs ci with keepalive := keep })
    else .ok (true, s))
  if !ok then .ok (false, ← closeClient max s ci)
  else
    appendOrClose max alloc s ci (ascii "Content-Length: ") fun s =>
      let c := s.cs ci
      let s := s.setClient ci { c with contentLengthOffset := c.output.used }
      appendOrClose max alloc s ci blanks fun s =>
        appendOrClose max alloc s ci (ascii "\r\n") fun s =>
          let c := s.cs ci
          let s := s.setClient ci { c with contentOffset := c.output.used, state := .content }
          .ok (true, s.record (.built ci (.special (specialHeaders c.minor keep))))

/-- What `http_server_append_content` and `http_server_append_content_format_2` share:
the head is finished first, and `append` puts the bytes behind it. -/
def appendBody (max : Nat) (alloc : Nat → Bool) (s : Server) (handle : Nat) (data : List UInt8)
    (append : Server → Nat → Except Fault (Bool × Server)) : Except Fault Server :=
  match clientFromHandle s handle with
  | none => .ok s
  | some ci => do
    let (ok, s) ←
      (if (s.cs ci).state = .header then appendSpecialHeaders max alloc s ci else .ok (true, s))
    if !ok then .ok s
    else if (s.cs ci).state ≠ .content then .ok s
    else do
      let (ok, s) ← append s ci
      if !ok then closeClient max s ci else .ok (s.record (.built ci (.content data)))

/-- `http_server_append_content`. -/
def appendContent (max : Nat) (alloc : Nat → Bool) (s : Server) (handle : Nat)
    (data : List UInt8) : Except Fault Server :=
  appendBody max alloc s handle data (fun s ci => appendOutput alloc s ci data)

/-- `http_server_append_content_format_2`, on the formatted text. -/
def appendContentFormat (max : Nat) (alloc : Nat → Bool) (s : Server) (handle : Nat)
    (text : List UInt8) : Except Fault Server :=
  appendBody max alloc s handle text (fun s ci => appendOutputFormat alloc s ci text)

/-- The text that `snprintf` writes for a `size_t` with `%ld`. -/
def formatLong (n : Nat) : List UInt8 := ascii (toString ((n : Int).bmod (2 ^ 64)))

/-- The end of `http_server_send_response`, for a client in `C_CONTENT`: the length is
written over the blanks, the request leaves the input, and the client waits for the
next request or for closing. -/
def finishResponse (max : Nat) (s : Server) (ci : Nat) : Except Fault Server :=
  let c := s.cs ci
  let digits := formatLong (Machine.sub64 c.output.used c.contentOffset)
  if ¬ digits.length < 10 then .error .longNumber
  else
    match Memory.store c.output.bytes c.contentLengthOffset digits, c.pitem with
    | none, _ => .error .outOfBounds
    | _, none => .error .nullPointer
    | some bytes, some pi =>
      let s := s.setPollout pi true
      if c.input.used < c.requestLength then .error .outOfBounds
      else do
        let input : IoBuf :=
          if c.input.used = c.requestLength then {}
          else c.input.setBytes (c.input.bytes.drop c.requestLength)
        let c := { c with
          output := c.output.setBytes bytes
          input := input
          requestLength := 0
          numServed := c.numServed + 1 }
        let s ←
          (if c.keepalive then
            if (find input.bytes headEnd).isSome then do
              let s ← pushClient max s ci
              .ok (s.setClient ci { c with state := .queued, keepalive := false })
            else .ok (s.setClient ci { c with state := .idle, keepalive := false })
          else .ok (s.setClient ci { c with state := .close }))
        .ok ((s.setClient ci { s.cs ci with gen := invalidateHandles (s.cs ci).gen }).record
          (.completed ci))

/-- `http_server_send_response`. -/
def sendResponse (max : Nat) (alloc : Nat → Bool) (s : Server) (handle : Nat) :
    Except Fault Server :=
  match clientFromHandle s handle with
  | none => .ok s
  | some ci => do
    let s ← (if (s.cs ci).state = .status then setStatus max alloc s handle 200 else .ok s)
    match clientFromHandle s handle with
    | none => .ok s
    | some ci => do
      let s ← (if (s.cs ci).state = .header then appendContent max alloc s handle [] else .ok s)
      match clientFromHandle s handle with
      | none => .ok s
      | some ci =>
        if (s.cs ci).state ≠ .content then closeClient max s ci else finishResponse max s ci

/-! ## Runs -/

/-- The server and whether the program is inside `http_server_wait_request`. -/
structure State where
  server : Server
  waiting : Bool

/-- What the program and the system calls do. `round` is a pass of the loop in
`http_server_wait_request` that finds a client in the queue. -/
inductive Action where
  | wait
  | processIo (io : Io)
  | round (alloc : Nat → Bool)
  | setStatus (handle : Nat) (status : Int) (alloc : Nat → Bool)
  | appendHeader (handle : Nat) (text : List UInt8) (alloc : Nat → Bool)
  | appendContent (handle : Nat) (data : List UInt8) (alloc : Nat → Bool)
  | appendContentFormat (handle : Nat) (text : List UInt8) (alloc : Nat → Bool)
  | sendResponse (handle : Nat) (alloc : Nat → Bool)

/-- A call by the program, outside `http_server_wait_request`. -/
def call (st : State) (result : Except Fault Server) : Option State :=
  if st.waiting then none else result.toOption.map (⟨·, false⟩)

/-- The states that an action leads to. -/
def next (max : Nat) (st : State) : Action → Option State
  | .wait => if st.waiting then none else some { st with waiting := true }
  | .processIo io =>
    if st.waiting ∧ st.server.qused = 0 then
      (processIo max st.server io).toOption.map (⟨·, true⟩)
    else none
  | .round alloc =>
    if st.waiting ∧ 0 < st.server.qused then
      (waitRound max alloc st.server).toOption.map (fun result => ⟨result.1, result.2.isNone⟩)
    else none
  | .setStatus handle status alloc => call st (setStatus max alloc st.server handle status)
  | .appendHeader handle text alloc => call st (appendHeader max alloc st.server handle text)
  | .appendContent handle data alloc => call st (appendContent max alloc st.server handle data)
  | .appendContentFormat handle text alloc =>
    call st (appendContentFormat max alloc st.server handle text)
  | .sendResponse handle alloc => call st (sendResponse max alloc st.server handle)

/-- What `http_server_init` sets; everything else is as it was found. -/
structure Initial (max : Nat) (st : State) : Prop where
  ncs : st.server.ncs = 0
  qhead : st.server.qhead = 0
  qused : st.server.qused = 0
  clients : ∀ i < max, (st.server.cs i).state = .free ∧ (st.server.cs i).gen = 0
  free : ∀ i < max, st.server.free i = max - (i + 1)
  listener : st.server.ps 0 = ⟨st.server.fd, ⟨true, false⟩, ⟨false, false⟩⟩
  outside : st.waiting = false
  log : st.server.log = []

/-- The server with `maxClients` slots. -/
def system (config : Config) : Transition.System State Action where
  initial := Initial config.maxClients
  next := next config.maxClients

end Mysnips.HttpServer

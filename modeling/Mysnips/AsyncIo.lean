import Mathlib.Logic.Function.Basic
import Mysnips.Machine
import Mysnips.Transition

/-! The asynchronous input and output of `asyncio/io.c`, on Linux and on Windows. The
operating system takes what is submitted and completes it at any later time and in any
order; what its calls return is an input of a step. Callbacks make calls of their own
between two rounds of `io_wait`, so that a round is a step. A failed assertion and a
pointer that leads nowhere are faults. -/
namespace Mysnips.AsyncIo
open Machine Transition

/-- `IO_PLATFORM_WINDOWS` and `IO_PLATFORM_LINUX`. -/
inductive Platform where
  | windows
  | linux
  deriving DecidableEq, Repr

/-- What `io_init` is given, and the size of the submission ring. -/
structure Config where
  platform : Platform
  maxRes : Nat
  maxOps : Nat
  ringLog2 : Nat
  fewRes : maxRes < 2 ^ 16
  fewOps : maxOps < 2 ^ 16
  smallRing : ringLog2 < 32

/-- `IO_INVALID`. -/
def ioInvalid : UInt32 := ~~~0

/-- `UINT16_MAX`. -/
abbrev uint16Max : Nat := 2 ^ 16 - 1

/-- `enum io_restype`. -/
inductive ResType where
  | void
  | file
  | socket
  deriving DecidableEq, Repr

/-- `enum io_optype`. -/
inductive OpType where
  | void
  | recv
  | send
  | accept
  deriving DecidableEq, Repr

/-- `enum io_evtype`. -/
inductive EvType where
  | error
  | abort
  | complete
  deriving DecidableEq, Repr

/-- `struct io_resource` without its callback. `turn` is not a field of the source: it counts
how often the structure was closed. -/
structure Resource where
  type : ResType
  osHandle : Int
  pending : Nat
  gen : Nat
  turn : Nat
  deriving DecidableEq, Repr

/-- `struct io_operation`, with the resource as an index. -/
structure Operation where
  type : OpType
  res : Option Nat
  user : Nat
  accepted : Int
  deriving DecidableEq, Repr

/-- `struct io_event`. `num` and `accepted` share their place, which may not be set. -/
structure Event where
  evtype : EvType
  optype : OpType
  handle : UInt32
  user : Nat
  value : Option UInt32
  deriving DecidableEq, Repr

/-- A call of `io_recv`, `io_send` or `io_accept`: its arguments, its resource and how often
that was closed, whether it returns true, and the socket of an `AcceptEx`. The operating
system does not see this. -/
structure Call where
  type : OpType
  handle : UInt32
  user : Nat
  res : Nat
  turn : Nat
  returned : Bool
  accepted : Int
  deriving DecidableEq, Repr

/-- An entry of the submission ring, or an overlapped operation: what is asked for, the
descriptor, and the operation structure. -/
structure Entry where
  opcode : OpType
  fd : Int
  userData : Nat
  call : Call
  deriving DecidableEq, Repr

/-- A completion: its result, if it did not fail. -/
structure Completion where
  userData : Nat
  result : Option Nat
  call : Call
  deriving DecidableEq, Repr

/-- `struct io_submission_queue`. The counters run freely. -/
structure Submissions where
  head : Nat
  tail : Nat
  array : Nat → Nat
  entries : Nat → Entry

/-- What happened. A report has the completed call, and how often its resource has been closed
by then. -/
inductive Record where
  | issued (r : Nat) (handle : UInt32)
  | closed (r : Nat)
  | osClosed (osHandle : Int)
  | reported (call : Call) (turn : Nat) (event : Event)
  deriving DecidableEq, Repr

/-- `struct io_context`, what the operating system has to do and what it has done. -/
structure State where
  res : Nat → Resource
  ops : Nat → Operation
  submissions : Submissions
  flying : List Entry
  arrived : List Completion
  log : List Record

inductive Fault where
  | assertion
  | nullPointer
  | outOfBounds
  deriving DecidableEq, Repr

def State.setRes (s : State) (r : Nat) (res : Resource) : State :=
  { s with res := Function.update s.res r res }

def State.setOp (s : State) (o : Nat) (op : Operation) : State :=
  { s with ops := Function.update s.ops o op }

def State.record (s : State) (entry : Record) : State := { s with log := s.log ++ [entry] }

/-- `clear_res`. -/
def clearRes (res : Resource) : Resource := { res with type := .void, pending := 0, osHandle := -1 }

variable (config : Config)

/-- `res_from_handle`. -/
def resFromHandle (s : State) (handle : UInt32) : Option Nat :=
  if handle = ioInvalid then none
  else
    let idx := (handle &&& 0xFFFF).toNat
    let gen := (handle >>> 16).toNat
    if idx ≥ config.maxRes then none
    else if (s.res idx).gen ≠ gen then none
    else some idx

/-- `handle_from_res`, for a pointer into the array of resources. -/
def handleFromRes (s : State) (r : Nat) : Except Fault UInt32 :=
  if r ≥ config.maxRes then .error .outOfBounds
  else
    let idx := UInt32.ofNat r
    let gen := UInt32.ofNat (s.res r).gen
    let handle := idx ||| (gen <<< 16)
    if gen ≠ UInt32.ofNat uint16Max ∧ handle ≠ ioInvalid then .ok handle else .error .assertion

/-- The loop of `close_internal` over the operation structures, of which some are left and some
have been marked. -/
def markUnused (r pending : Nat) : (left i marked : Nat) → (Nat → Operation) →
    Except Fault (Nat → Operation)
  | left, i, marked, ops =>
    if marked < pending then
      match left with
      | 0 => .error .outOfBounds
      | left + 1 =>
        if (ops i).type ≠ .void ∧ (ops i).res = some r then
          markUnused r pending left (i + 1) (marked + 1)
            (Function.update ops i { ops i with type := .void, res := none })
        else markUnused r pending left (i + 1) marked ops
    else .ok ops

/-- `close_internal`. -/
def closeInternal (s : State) (r : Nat) : Except Fault State := do
  let res := s.res r
  let ops ← markUnused r res.pending config.maxOps 0 0 s.ops
  let gen := if res.gen + 1 = uint16Max then 0 else res.gen + 1
  let s := { s with ops }
  let s := s.setRes r { clearRes res with gen, turn := res.turn + 1 }
  .ok ((s.record (.osClosed res.osHandle)).record (.closed r))

/-- `io_close`. -/
def ioClose (s : State) (handle : UInt32) : Except Fault State :=
  match resFromHandle config s handle with
  | none => .ok s
  | some r => closeInternal config s r

/-- `find_unused_op`. -/
def findUnusedOp (s : State) : Option Nat :=
  (List.range config.maxOps).find? fun o => (s.ops o).type = .void

/-- `find_unused_res`. -/
def findUnusedRes (s : State) : Option Nat :=
  (List.range config.maxRes).find? fun r => (s.res r).type = .void

/-! ## Starting an operation -/

/-- The size of the submission ring. -/
def Config.limit : Nat := 2 ^ config.ringLog2

/-- An entry is stored behind the others of the submission ring. -/
def storeEntry (ring : Submissions) (sqe : Entry) : Submissions :=
  let index := ring.tail &&& (config.limit - 1)
  { ring with
    entries := Function.update ring.entries index sqe
    array := Function.update ring.array index index
    tail := add32 ring.tail 1 }

/-- The oldest entry of the submission ring is taken by the kernel. -/
def takeEntry (ring : Submissions) : Submissions × Entry :=
  ({ ring with head := add32 ring.head 1 },
    ring.entries (ring.array (ring.head &&& (config.limit - 1))))

/-- `start_uring_op`, where `io_uring_enter` takes one entry or fails. -/
def startUringOp (s : State) (sqe : Entry) (entered : Bool) : State × Bool :=
  let ring := s.submissions
  if ring.tail ≥ add32 ring.head config.limit then (s, false)
  else
    let ring := storeEntry config ring sqe
    if entered then
      let (ring, entry) := takeEntry config ring
      ({ s with submissions := ring, flying := s.flying ++ [entry] }, true)
    else ({ s with submissions := ring }, false)

/-- An overlapped operation that is started, or fails. -/
def startOverlapped (s : State) (entry : Entry) (started : Bool) : State × Bool :=
  if started then ({ s with flying := s.flying ++ [entry] }, true) else (s, false)

/-- `io_recv_linux` and `io_recv_windows`. -/
def startRecv (s : State) (r o : Nat) (call : Call) : State × Bool :=
  match config.platform with
  | .linux => startUringOp config s ⟨.recv, (s.res r).osHandle, o, call⟩ call.returned
  | .windows => startOverlapped s ⟨.recv, (s.res r).osHandle, o, call⟩ call.returned

/-- `io_send_linux` and `io_send_windows`, which reads as well. -/
def startSend (s : State) (r o : Nat) (call : Call) : State × Bool :=
  match config.platform with
  | .linux => startUringOp config s ⟨.send, (s.res r).osHandle, o, call⟩ call.returned
  | .windows => startOverlapped s ⟨.recv, (s.res r).osHandle, o, call⟩ call.returned

/-- `io_accept_windows`, with the new socket. -/
def ioAcceptWindows (s : State) (r o : Nat) (call : Call) : State × Bool :=
  if call.accepted = -1 then (s, false)
  else
    match startOverlapped s ⟨.accept, (s.res r).osHandle, o, call⟩ call.returned with
    | (s, false) => (s.record (.osClosed call.accepted), false)
    | (s, true) => (s.setOp o { s.ops o with accepted := call.accepted }, true)

/-- `io_accept_linux` and `io_accept_windows`. -/
def startAccept (s : State) (r o : Nat) (call : Call) : State × Bool :=
  match config.platform with
  | .linux => startUringOp config s ⟨.accept, (s.res r).osHandle, o, call⟩ call.returned
  | .windows => ioAcceptWindows s r o call

/-- An operation that has been started is booked. -/
def book (s : State) (r o : Nat) (type : OpType) (user : Nat) : State :=
  let s := s.setRes r { s.res r with pending := ((s.res r).pending + 1) % 2 ^ 16 }
  s.setOp o { s.ops o with res := some r, type, user }

/-- What `io_recv`, `io_send` and `io_accept` have in common. -/
def ioStart (start : State → Nat → Nat → Call → State × Bool) (type : OpType) (s : State)
    (user : Nat) (handle : UInt32) (returned : Bool) (accepted : Int) : State × Bool :=
  match resFromHandle config s handle with
  | none => (s, false)
  | some r =>
    match findUnusedOp config s with
    | none => (s, false)
    | some o =>
      match start s r o ⟨type, handle, user, r, (s.res r).turn, returned, accepted⟩ with
      | (s, false) => (s, false)
      | (s, true) => (book s r o type user, true)

/-- `io_recv`. -/
def ioRecv (s : State) (user : Nat) (handle : UInt32) (returned : Bool) : State × Bool :=
  ioStart config (startRecv config) .recv s user handle returned (-1)

/-- `io_send`. -/
def ioSend (s : State) (user : Nat) (handle : UInt32) (returned : Bool) : State × Bool :=
  ioStart config (startSend config) .send s user handle returned (-1)

/-- `io_accept`. -/
def ioAccept (s : State) (user : Nat) (handle : UInt32) (returned : Bool) (accepted : Int) :
    State × Bool :=
  ioStart config (startAccept config) .accept s user handle returned accepted

/-! ## Opening a resource -/

/-- A resource that is claimed for a descriptor, and its handle. -/
def claimRes (s : State) (r : Nat) (type : ResType) (osHandle : Int) :
    Except Fault (State × UInt32) := do
  let s := s.setRes r { s.res r with type, pending := 0, osHandle }
  let handle ← handleFromRes config s r
  .ok (s.record (.issued r handle), handle)

/-- What `io_open_file` and `io_create_file` have in common, with the descriptor that was
opened. -/
def ioFile (s : State) (osHandle : Int) : Except Fault (State × UInt32) :=
  match findUnusedRes config s with
  | none => .ok (s, ioInvalid)
  | some r => if osHandle < 0 then .ok (s, ioInvalid) else claimRes config s r .file osHandle

/-- `io_open_file`. -/
def ioOpenFile (s : State) (osHandle : Int) : Except Fault (State × UInt32) :=
  ioFile config s osHandle

/-- `io_create_file`. -/
def ioCreateFile (s : State) (osHandle : Int) : Except Fault (State × UInt32) :=
  ioFile config s osHandle

/-- `io_start_server`: whether the address could be read, the new socket, and whether it could
be set up. -/
def ioStartServer (s : State) (port : Int) (parsed : Bool) (fd : Int) (listening : Bool) :
    Except Fault (State × UInt32) :=
  if port < 1 ∨ port > uint16Max then .ok (s, ioInvalid)
  else if parsed = false then .ok (s, ioInvalid)
  else
    match findUnusedRes config s with
    | none => .ok (s, ioInvalid)
    | some r =>
      if fd < 0 then .ok (s, ioInvalid)
      else if listening = false then .ok (s.record (.osClosed fd), ioInvalid)
      else claimRes config s r .socket fd

/-! ## Waiting -/

/-- The event about a general failure. -/
def generalFailure : Event := ⟨.error, .void, ioInvalid, 0, none⟩

/-- An operation whose event has been made: its structure is unused again. -/
def finish (s : State) (r o : Nat) : Except Fault State :=
  if (s.res r).pending > 0 then
    let s := s.setRes r { s.res r with pending := (s.res r).pending - 1 }
    .ok (s.setOp o { s.ops o with type := .void })
  else .error .assertion

/-- The resource of an operation structure, which is followed at once. -/
def resOf (s : State) (o : Nat) : Except Fault Nat :=
  match (s.ops o).res with
  | none => .error .nullPointer
  | some r => if r < config.maxRes then .ok r else .error .outOfBounds

/-- The completion of an operation in `io_wait_internal_linux`. -/
def completeLinux (s : State) (completion : Completion) : Except Fault (State × Event) := do
  let o := completion.userData
  let op := s.ops o
  let r ← resOf config s o
  let handle ← handleFromRes config s r
  let event : Event :=
    match completion.result with
    | none => ⟨.abort, op.type, handle, op.user, none⟩
    | some value =>
      ⟨.complete, op.type, handle, op.user, if op.type = .void then none else some (.ofNat value)⟩
  let s ← finish s r o
  .ok (s, event)

/-- The accepted connection of a completed `AcceptEx`, and what is reported. -/
def acceptWindows (s : State) (o : Nat) (event : Event) : Except Fault (State × Event) :=
  let op := s.ops o
  match findUnusedRes config s with
  | none => .ok (s.record (.osClosed op.accepted), { event with evtype := .abort })
  | some r₂ => do
    let (s, accepted) ← claimRes config s r₂ .socket op.accepted
    .ok (s, { event with value := some accepted })

/-- What `io_wait_internal_windows` reports of an operation that did not fail. -/
def resultWindows (s : State) (o value : Nat) (event : Event) : Except Fault (State × Event) :=
  match (s.ops o).type with
  | .recv | .send => .ok (s, { event with value := some (.ofNat value) })
  | .accept => acceptWindows config s o event
  | .void => .ok (s, event)

/-- The completion of an operation in `io_wait_internal_windows`. -/
def completeWindows (s : State) (completion : Completion) : Except Fault (State × Event) := do
  let o := completion.userData
  let op := s.ops o
  let r ← resOf config s o
  let handle ← handleFromRes config s r
  match completion.result with
  | none => do
    let s := if op.type = .accept then s.record (.osClosed op.accepted) else s
    let s ← finish s r o
    .ok (s, ⟨.abort, op.type, handle, op.user, none⟩)
  | some value => do
    let (s, event) ← resultWindows config s o value ⟨.complete, op.type, handle, op.user, none⟩
    let s ← finish s r o
    .ok (s, event)

/-- The completion of an operation. -/
def completeOperation (s : State) (completion : Completion) : Except Fault (State × Event) :=
  match config.platform with
  | .linux => completeLinux config s completion
  | .windows => completeWindows config s completion

/-- `io_wait_internal`, with whether the system call fails as a whole. It does where it returns
and nothing has arrived; on Linux there is no call where something has. -/
def ioWaitInternal (s : State) (broken : Bool) : Except Fault (State × Event) :=
  match s.arrived with
  | [] => .ok (s, generalFailure)
  | completion :: rest =>
    if config.platform = .windows ∧ broken then .ok (s, generalFailure)
    else completeOperation config { s with arrived := rest } completion

/-- The report of an event, which goes to the caller of `io_wait` or to a callback. -/
def report (s s' : State) (event : Event) : Except Fault (State × Event) :=
  if event.handle = ioInvalid then .ok (s', event)
  else
    match resFromHandle config s' event.handle, s.arrived with
    | some _, completion :: _ =>
      .ok (s'.record (.reported completion.call (s.res completion.call.res).turn event), event)
    | _, _ => .error .assertion

/-- A round of `io_wait`. -/
def ioWait (s : State) (broken : Bool) : Except Fault (State × Event) := do
  let (s', event) ← ioWaitInternal config s broken
  report config s s' event

/-! ## The context and the operating system -/

/-- The operating system completes one of its operations. -/
def complete (s : State) (index : Nat) (result : Option Nat) : State :=
  match s.flying[index]? with
  | none => s
  | some entry =>
    { s with
      flying := s.flying.eraseIdx index
      arrived := s.arrived ++ [⟨entry.userData, result, entry.call⟩] }

/-- The calls of a program, and the steps of the operating system. -/
inductive Action where
  | openFile (osHandle : Int)
  | createFile (osHandle : Int)
  | startServer (port : Int) (parsed : Bool) (fd : Int) (listening : Bool)
  | recv (user : Nat) (handle : UInt32) (returned : Bool)
  | send (user : Nat) (handle : UInt32) (returned : Bool)
  | accept (user : Nat) (handle : UInt32) (returned : Bool) (accepted : Int)
  | close (handle : UInt32)
  | wait (broken : Bool)
  | complete (index : Nat) (result : Option Nat)
  deriving DecidableEq, Repr

/-- What an action does. -/
def perform (s : State) : Action → Except Fault State
  | .openFile osHandle => do .ok (← ioOpenFile config s osHandle).1
  | .createFile osHandle => do .ok (← ioCreateFile config s osHandle).1
  | .startServer port parsed fd listening => do
    .ok (← ioStartServer config s port parsed fd listening).1
  | .recv user handle returned => .ok (ioRecv config s user handle returned).1
  | .send user handle returned => .ok (ioSend config s user handle returned).1
  | .accept user handle returned accepted => .ok (ioAccept config s user handle returned accepted).1
  | .close handle => ioClose config s handle
  | .wait broken => do .ok (← ioWait config s broken).1
  | .complete index result => .ok (complete s index result)

/-- Every order of calls and completions, from the tables that `io_init` leaves. It does not
set what an unused operation structure holds. -/
def system : System State Action where
  initial s := (∀ r, s.res r = ⟨.void, -1, 0, 0, 0⟩) ∧ (∀ o, (s.ops o).type = .void) ∧
    s.submissions.head = 0 ∧ s.submissions.tail = 0 ∧ s.flying = [] ∧ s.arrived = [] ∧ s.log = []
  next s action := (perform config s action).toOption

end Mysnips.AsyncIo

import Mysnips.Log

/-! The logger of `misc/log.c` with all its threads. Each thread that logs gets a buffer of its
own at its first call of `log_write2` and puts it in front of the global list; the flush thread
walks that list again and again, and a last time after `log_quit` has told it to. What a thread
and the flush thread do with one buffer is the matter of `Log`. In between the flush thread
sleeps: until its timeout, unless that is negative, or until a signal comes. A signal that comes
while it does not sleep is lost. -/
namespace Mysnips.LogThreads
open Machine SpscQueue Transition
open Log (Writer Flusher)

/-- `thread_buffer_t` in the global list, without its `next`; what its thread does with it, and
the bytes that the thread has logged. -/
structure Buffer where
  queue : Queue
  sem : Int
  writer : Writer
  logged : List UInt8

/-- A new buffer, in memory that `malloc` has returned. -/
def Buffer.create (logBufferLog2 : Nat) (memory : List UInt8) : Buffer :=
  ⟨SpscQueue.init memory logBufferLog2 1, int32 (2 ^ logBufferLog2), .idle, []⟩

/-- `free` of `log_write2`, as a `size_t`. -/
def Buffer.free (b : Buffer) : Nat :=
  ofInt (int32 (int32 (cap b.queue) - int32 (sub64 b.queue.tail b.queue.head)))

/-- The next access of `log_write2` up to its wait for the semaphore. While it puts the buffer
into the list, the buffer is new, and nobody else knows it. -/
inductive Caller (Thread : Type) where
  | idle
  | loadHead (data memory : List UInt8)
  | exchange (data memory : List UInt8) (oldHead : Option Thread)
  | measure (data : List UInt8)
  | wakeup (data : List UInt8)
  deriving DecidableEq

/-- The next step of `flush_routine`. `last` is the flush behind the loop. -/
inductive Routine (Thread : Type) where
  | start
  | test
  | wait
  | asleep
  | reconfigure
  | open (last : Bool)
  | visit (last : Bool) (cursor : Thread) (flusher : Flusher)
  | terminated
  deriving DecidableEq

/-- The next step of `log_quit`, up to the join of the flush thread. -/
inductive Quitter where
  | idle
  | wakeup
  | join
  deriving DecidableEq

/-- A buffer is named by the thread that owns it, so the list is the `next` of the threads. -/
structure State (Thread File : Type) where
  next : Thread → Option Thread
  globalList : Option Thread
  buffers : Thread → Option Buffer
  callers : Thread → Caller Thread
  configChanged : Bool
  configTimeoutMs : Int
  configDestFile : File
  canTerminate : Bool
  quitter : Quitter
  routine : Routine Thread
  timeoutMs : Int
  destFile : File
  written : List (File × Thread × UInt8)

/-- A call of `log_write2`, with the memory that `malloc` returns if it is the first; the next
step of such a call; the next step of the flush thread, where it sleeps its timeout; a wakeup of
the flush thread without a reason; `log_set_flush_timeout` and `log_set_dest_file`; and `log_quit`,
with its signal as a step of its own. -/
inductive Action (Thread File : Type) where
  | logWrite2 (thread : Thread) (data memory : List UInt8)
  | step (thread : Thread) (spurious : Bool)
  | flush
  | stir
  | setFlushTimeout (timeoutMs : Int)
  | setDestFile (file : File)
  | quit
  | signal

section Steps

variable {Thread File : Type}

/-- Where the flush thread goes when it has followed a pointer of the list. -/
def Routine.follow (last : Bool) : Option Thread → Routine Thread
  | some cursor => .visit last cursor .peek0
  | none => if last then .terminated else .test

/-- Where a signal finds the flush thread, and where it leaves it. -/
def Routine.woken : Routine Thread → Routine Thread
  | .asleep => .reconfigure
  | routine => routine

/-- The buffer and the flush thread, as `Log` knows them. -/
def Buffer.log (b : Buffer) (flusher : Flusher) (file : List UInt8) : Log.State :=
  ⟨b.queue, b.sem, b.writer, flusher, b.logged, file⟩

/-- The thread is not inside `log_write2`. -/
def State.quiet (s : State Thread File) (thread : Thread) : Prop :=
  s.callers thread = .idle ∧ ∀ b ∈ s.buffers thread, b.writer = .idle

instance [DecidableEq Thread] (s : State Thread File) (thread : Thread) : Decidable (s.quiet thread) :=
  inferInstanceAs (Decidable (_ ∧ _))

variable [DecidableEq Thread]

/-- A step of the flush thread in the buffer at its cursor. -/
def State.visited (s : State Thread File) (last : Bool) (cursor : Thread) (logger : Log.State) :
    State Thread File :=
  { s with
    buffers := Function.update s.buffers cursor
      (some ⟨logger.queue, logger.sem, logger.writer, logger.logged⟩)
    written := s.written ++ logger.file.map fun byte => (s.destFile, cursor, byte)
    routine :=
      if logger.flusher = .peek0 then .follow last (s.next cursor)
      else .visit last cursor logger.flusher }

/-- The next step of `flush_routine`. -/
def flush (s : State Thread File) : Option (State Thread File) :=
  match s.routine with
  | .start =>
    some { s with routine := .test, timeoutMs := s.configTimeoutMs, destFile := s.configDestFile }
  | .test => some { s with routine := if s.canTerminate then .open true else .wait }
  | .wait => some { s with routine := .asleep }
  | .asleep => if 0 ≤ s.timeoutMs then some { s with routine := .reconfigure } else none
  | .reconfigure =>
    if s.configChanged then
      some { s with
        routine := .open false, configChanged := false, timeoutMs := s.configTimeoutMs
        destFile := s.configDestFile }
    else some { s with routine := .open false }
  | .open last => some { s with routine := .follow last s.globalList }
  | .visit last cursor flusher => do
    let b ← s.buffers cursor
    let logger ← Log.flush (b.log flusher [])
    some (s.visited last cursor logger)
  | .terminated => none

/-- A call of `log_write2` comes to its wait for the semaphore. -/
def State.enter (s : State Thread File) (thread : Thread) (b : Buffer) (data : List UInt8)
    (routine : Routine Thread) : State Thread File :=
  { s with
    buffers := Function.update s.buffers thread
      (some { b with writer := .wait data, logged := b.logged ++ data })
    callers := Function.update s.callers thread .idle
    routine }

/-- The next access of `log_write2`. -/
def step (logBufferLog2 : Nat) (s : State Thread File) (thread : Thread) (spurious : Bool) :
    Option (State Thread File) :=
  match s.callers thread with
  | .loadHead data memory =>
    some { s with
      next := Function.update s.next thread s.globalList
      callers := Function.update s.callers thread (.exchange data memory s.globalList) }
  | .exchange data memory oldHead =>
    if s.globalList = oldHead ∧ spurious = false then
      some { s with
        globalList := some thread
        buffers := Function.update s.buffers thread (some (.create logBufferLog2 memory))
        callers := Function.update s.callers thread (.measure data) }
    else some { s with callers := Function.update s.callers thread (.loadHead data memory) }
  | .measure data => do
    let b ← s.buffers thread
    if b.free < data.length then
      some { s with callers := Function.update s.callers thread (.wakeup data) }
    else some (s.enter thread b data s.routine)
  | .wakeup data => do
    let b ← s.buffers thread
    some (s.enter thread b data s.routine.woken)
  | .idle => do
    let b ← s.buffers thread
    let logger ← Log.write (b.log .peek0 [])
    some { s with
      buffers := Function.update s.buffers thread
        (some ⟨logger.queue, logger.sem, logger.writer, logger.logged⟩) }

/-- Any number of threads that log, with buffers of `2 ^ logBufferLog2` bytes. -/
def logs (Thread File : Type) [DecidableEq Thread] (logBufferLog2 : Nat) :
    System (State Thread File) (Action Thread File) where
  initial s := s.globalList = none ∧ (∀ thread, s.buffers thread = none) ∧
    (∀ thread, s.callers thread = .idle) ∧ s.configChanged = false ∧ s.configTimeoutMs = 1000 ∧
    s.canTerminate = false ∧ s.quitter = .idle ∧ s.routine = .start ∧ s.written = []
  next s action :=
    match action with
    | .logWrite2 thread data memory =>
      if s.quiet thread ∧ ¬ data.length > 2 ^ logBufferLog2 ∧
          memory.length = 2 ^ logBufferLog2 then
        match s.buffers thread with
        | none => some { s with callers := Function.update s.callers thread (.loadHead data memory) }
        | some _ => some { s with callers := Function.update s.callers thread (.measure data) }
      else none
    | .step thread spurious => step logBufferLog2 s thread spurious
    | .flush => flush s
    | .stir => if s.routine = .asleep then some { s with routine := .reconfigure } else none
    | .setFlushTimeout timeoutMs =>
      some { s with configTimeoutMs := timeoutMs, configChanged := true }
    | .setDestFile file => some { s with configDestFile := file, configChanged := true }
    | .quit =>
      if s.quitter = .idle then some { s with canTerminate := true, quitter := .wakeup } else none
    | .signal =>
      if s.quitter = .wakeup then some { s with quitter := .join, routine := s.routine.woken }
      else none

end Steps

end Mysnips.LogThreads

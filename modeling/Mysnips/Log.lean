import Mysnips.SpscQueue

/-! The logger of `misc/log.c`: one thread that calls `log_write2` and the flush
thread, on the buffer of that thread. The semaphore wait, the accesses of
`spsc_queue_multi_push`, the two peeks, the two writes, the accesses of
`spsc_queue_multi_pop` and the semaphore signal are steps of their own. The buffer
has been created and put into the global list; waking up the flush thread, which may
run at any time here, is left out, and so are the other buffers that it visits. A
call of `abort`, a failed assertion and a read outside the buffer are faults. -/
namespace Mysnips.Log
open Machine Memory Transition SpscQueue

/-- `semaphore_wait` without a timeout, at the moment it does not block. -/
def semaphoreWait (count n : Int) : Option Int :=
  if n > 0 then if count < n then none else some (int32 (count - n)) else none

/-- `semaphore_signal`. -/
def semaphoreSignal (count n : Int) : Option Int :=
  if n > 0 then some (int32 (count + n)) else none

/-- The bytes that `os_write` appends to the file. -/
def osWrite (region : List UInt8) (data : Option Nat) (size : Nat) : Option (List UInt8) :=
  match data with
  | some off => load region off size
  | none => if size = 0 then some [] else none

/-- The next access of `log_write2`. -/
inductive Writer where
  | idle
  | wait (data : List UInt8)
  | push (producer : Producer)
  deriving DecidableEq, Repr

/-- The next access of `flush_thread_local_buffers` to the buffer. -/
inductive Flusher where
  | peek0
  | peek1 (ptr1 : Option Nat) (num1 : Int)
  | write1 (ptr1 : Option Nat) (num1 : Int) (ptr2 : Option Nat) (num2 : Int)
  | write2 (num1 : Int) (ptr2 : Option Nat) (num2 : Int)
  | pop (consumer : Consumer) (total : Int)
  | signal (total : Int)
  deriving DecidableEq, Repr

/-- `thread_buffer_t`, where the two threads are, the bytes passed to `log_write2` and
those written to the file. -/
structure State where
  queue : Queue
  sem : Int
  writer : Writer
  flusher : Flusher
  logged : List UInt8
  file : List UInt8
  deriving DecidableEq, Repr

/-- A call of `log_write2`, or the next step of one of the threads. -/
inductive Action where
  | logWrite2 (data : List UInt8)
  | write
  | flush
  deriving DecidableEq, Repr

/-- The next step of `log_write2`. The result of the push is not looked at. -/
def write (s : State) : Option State :=
  match s.writer with
  | .idle => none
  | .wait data => do
    let sem ← semaphoreWait s.sem (int32 data.length)
    some { s with sem, writer := .push (.multiPushLoadHead (some (data.map asItem)) data.length) }
  | .push producer => do
    let (queue, producer, _) ← produce s.queue producer
    some { s with queue, writer := if producer = .idle then .idle else .push producer }

/-- The next step of the flush thread. The result of the pop is not looked at. -/
def flush (s : State) : Option State :=
  match s.flusher with
  | .peek0 =>
    let (ptr1, num1) := SpscQueue.peek0 s.queue
    some { s with flusher := .peek1 ptr1 num1 }
  | .peek1 ptr1 num1 =>
    let (ptr2, num2) := SpscQueue.peek1 s.queue
    if int32 (num1 + num2) > 0 then some { s with flusher := .write1 ptr1 num1 ptr2 num2 }
    else some { s with flusher := .peek0 }
  | .write1 ptr1 num1 ptr2 num2 => do
    let bytes ← osWrite s.queue.items ptr1 (ofInt num1)
    some { s with file := s.file ++ bytes, flusher := .write2 num1 ptr2 num2 }
  | .write2 num1 ptr2 num2 => do
    let bytes ← osWrite s.queue.items ptr2 (ofInt num2)
    let total := int32 (num1 + num2)
    if total ≥ 0 then
      some { s with file := s.file ++ bytes
                    flusher := .pop (.multiPopLoadHead false total.toNat) total }
    else none
  | .pop consumer total => do
    let (queue, consumer, _) ← consume s.queue consumer
    some { s with queue, flusher := if consumer = .idle then .signal total else .pop consumer total }
  | .signal total => do
    let sem ← semaphoreSignal s.sem total
    some { s with sem, flusher := .peek0 }

/-- One thread that logs, with the flush thread, for a buffer of `2 ^ logBufferLog2`
bytes. -/
def logs (logBufferLog2 : Nat) : System State Action where
  initial s := ∃ data : List UInt8, data.length = 2 ^ logBufferLog2 ∧
    s = ⟨init data logBufferLog2 1, int32 (2 ^ logBufferLog2), .idle, .peek0, [], []⟩
  next s action :=
    match action with
    | .logWrite2 data =>
      if s.writer = .idle ∧ ¬ data.length > 2 ^ logBufferLog2 then
        some { s with writer := .wait data, logged := s.logged ++ data }
      else none
    | .write => write s
    | .flush => flush s

end Mysnips.Log

import Mysnips.Machine
import Mysnips.Memory
import Mysnips.Transition

/-! The growable byte queue of `tcp/byte_queue.c`. Its data is the region that
`malloc` returned, unallocated (`NULL`) being the empty region. The live bytes
start at `head`; space is reclaimed in front of them by moving them down or by
reallocating. -/
namespace Mysnips.ByteQueue
open Machine Memory Transition

/-- `ByteQueue`. -/
structure Queue where
  data : List UInt8
  head : Nat
  size : Nat
  capacity : Nat
  deriving DecidableEq, Repr

/-- `byte_queue_init`. -/
def init : Queue := ⟨[], 0, 0, 0⟩

/-- `byte_queue_used_space`. -/
def usedSpace (q : Queue) : Nat := q.size

/-- `byte_queue_free_space`. -/
def freeSpace (q : Queue) : Nat := sub64 (sub64 q.capacity q.size) q.head

/-- What `malloc` may return: nothing, or a region of the requested length with
unspecified contents. No object exceeds `PTRDIFF_MAX` bytes. -/
structure Malloc where
  region : Nat → Option (List UInt8)
  length : ∀ {request bytes}, region request = some bytes → bytes.length = request
  limit : ∀ {request bytes}, region request = some bytes → request < 2 ^ 63

/-- `byte_queue_ensure_min_free_space`. A reallocation copies the live bytes to
the start of the new region and leaves `head` as it was. -/
def ensureMinFreeSpace (q : Queue) (num : Nat) (malloc : Malloc) : Option (Queue × Bool) :=
  let totalFreeSpace := sub64 q.capacity q.size
  let freeSpaceAfterData := sub64 (sub64 q.capacity q.size) q.head
  if freeSpaceAfterData < num then
    if totalFreeSpace < num then
      let doubled := mul64 2 q.capacity
      let capacity := if sub64 doubled q.size < num then add64 q.size num else doubled
      match malloc.region capacity with
      | none => some (q, false)
      | some data =>
        if q.size > 0 then do
          let live ← load q.data q.head q.size
          let data ← store data 0 live
          some ({ q with data, capacity }, true)
        else some ({ q with data, capacity }, true)
    else do
      let live ← load q.data q.head q.size
      let data ← store q.data 0 live
      some ({ q with data, head := 0 }, true)
  else some (q, true)

/-- `byte_queue_start_write`, as an offset into the data. -/
def startWrite (q : Queue) : Nat := add64 q.head q.size

/-- `byte_queue_end_write`. -/
def endWrite (q : Queue) (num : Nat) : Queue := { q with size := add64 q.size num }

/-- `byte_queue_start_read`, as an offset into the data. -/
def startRead (q : Queue) : Nat := q.head

/-- `byte_queue_end_read`. -/
def endRead (q : Queue) (num : Nat) : Queue :=
  { q with head := add64 q.head num, size := sub64 q.size num }

/-- The calls a user of the queue makes. -/
inductive Call where
  /-- `byte_queue_ensure_min_free_space`. -/
  | ensure (num : Nat) (malloc : Malloc)
  /-- Bytes written at `start_write`, then `end_write`. -/
  | write (bytes : List UInt8)
  /-- `num` bytes read from `start_read`, then `end_read`. -/
  | read (num : Nat)

/-- A queue with the bytes written to it and not yet read from it, and the
space that the last call granted when it was a successful
`byte_queue_ensure_min_free_space`. -/
structure Session where
  queue : Queue
  pending : List UInt8 := []
  granted : Nat := 0
  deriving DecidableEq, Repr

/-- One call. Arguments are `size_t` values; no more is written than
`free_space` allows and no more is read than `used_space` holds. -/
def call (s : Session) : Call → Option Session
  | .ensure num malloc =>
    if num < 2 ^ 64 then do
      let (queue, ok) ← ensureMinFreeSpace s.queue num malloc
      some { s with queue, granted := if ok then num else 0 }
    else none
  | .write bytes =>
    if bytes.length ≤ freeSpace s.queue then do
      let data ← store s.queue.data (startWrite s.queue) bytes
      some { queue := endWrite { s.queue with data } bytes.length, pending := s.pending ++ bytes }
    else none
  | .read num =>
    if num ≤ usedSpace s.queue then
      some { queue := endRead s.queue num, pending := s.pending.drop num }
    else none

/-- Every sequence of calls on a fresh queue. -/
def sessions : System Session Call where
  initial s := s = { queue := init }
  next := call

/-- The live bytes lie inside the allocation and are the pending ones, and
granted space is there. -/
def Holds (s : Session) : Prop :=
  s.queue.head + s.queue.size ≤ s.queue.capacity ∧
    load s.queue.data (startRead s.queue) s.queue.size = some s.pending ∧
    s.granted ≤ freeSpace s.queue

instance (s : Session) : Decidable (Holds s) := inferInstanceAs (Decidable (_ ∧ _ ∧ _))

/-- A call that has to reallocate finds the live bytes at the start of the data,
and the size it asks for is a `size_t`. -/
def ReallocatesFromStart (s : Session) : Call → Prop
  | .ensure num _ => s.queue.capacity - s.queue.size < num →
      s.queue.head = 0 ∧ s.queue.size + num < 2 ^ 64
  | .write _ => True
  | .read _ => True

instance (s : Session) : (c : Call) → Decidable (ReallocatesFromStart s c)
  | .ensure _ _ => inferInstanceAs (Decidable (_ → _))
  | .write _ => isTrue trivial
  | .read _ => isTrue trivial

end Mysnips.ByteQueue

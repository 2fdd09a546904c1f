import Mathlib.Logic.Function.Basic
import Mysnips.Machine
import Mysnips.Memory
import Mysnips.Transition

/-! The multiple-producer multiple-consumer queue of `lockfree/mpmc_queue.c`. Any
number of threads run `mpmc_queue_try_push` and `mpmc_queue_try_pop`; every access
to the shared counters and every copy of an item is one step, and the local
computation up to the next access belongs to it. A failed assertion, and a copy
outside the array, is a fault. -/
namespace Mysnips.MpmcQueue
open Machine Memory Transition

/-- The bytes of an item. -/
abbrev Item : Type := List UInt8

/-- `UINT64_MAX`. -/
abbrev uint64Max : Nat := 2 ^ 64 - 1

/-- `struct mpmc_queue`, with the array behind `base`. -/
structure Queue where
  head : Nat
  tail : Nat
  tempHead : Nat
  tempTail : Nat
  size : Nat
  cell : Nat
  base : List UInt8
  deriving DecidableEq, Repr

/-- `mpmc_queue_init`. -/
def init (arr : List UInt8) (cell : Nat) : Option Queue :=
  if arr.length % cell = 0 then some ⟨0, 0, 0, 0, arr.length / cell, cell, arr⟩ else none

/-- `item_addr`, as an offset from `base`; the index is passed as an `int`. -/
def itemAddr (q : Queue) (index : Nat) : Nat :=
  mul64 q.cell (ofInt (int32 index) % q.size)

theorem itemAddr_exact {q : Queue} (nonempty : 0 < q.size) (small : q.cell * q.size < 2 ^ 64)
    (index : Nat) : itemAddr q index = q.cell * (ofInt (int32 index) % q.size) := by
  have below := Nat.mod_lt (ofInt (int32 index)) nonempty
  have inside := Nat.mul_le_mul_left q.cell (Nat.le_of_lt below)
  exact mul64_eq (by omega)

/-- The next access of a thread, with the locals it still needs. The names are the
accesses of the source in its order, `acquire_push_location`, the copy and
`release_push_location`, then the same for a pop. -/
inductive Pc where
  | idle
  | loadTempTail (src : Item)
  | loadTempHead (src : Item) (oldTempTail : Nat)
  | exchangeTempTail (src : Item) (oldTempTail newTempTail : Nat)
  | copyIn (src : Item) (index : Nat)
  | awaitTail (index : Nat)
  | incrementTail (index : Nat)
  | loadHead
  | loadTail (oldHead : Nat)
  | exchangeHead (oldHead newHead : Nat)
  | copyOut (index : Nat)
  | awaitTempHead (index : Nat) (dst : Item)
  | incrementTempHead (index : Nat) (dst : Item)
  deriving DecidableEq, Repr

/-- What a step makes known: an index acquired by a compare-exchange, or the result
of a call. -/
inductive Event (Thread : Type) where
  | acquiredPush (thread : Thread) (index : Nat) (src : Item)
  | acquiredPop (thread : Thread) (index : Nat)
  | pushed (thread : Thread) (index : Nat)
  | popped (thread : Thread) (index : Nat) (dst : Item)
  | full (thread : Thread)
  | empty (thread : Thread)
  deriving DecidableEq, Repr

section Steps

variable {Thread : Type}

/-- The next step of a thread. A weak compare-exchange may fail spuriously. -/
def advance (thread : Thread) (spurious : Bool) (q : Queue) :
    Pc → Option (Queue × Pc × List (Event Thread))
  | .idle => none
  | .loadTempTail src => some (q, .loadTempHead src q.tempTail, [])
  | .loadTempHead src oldTempTail =>
    let oldTempHead := q.tempHead
    if add64 oldTempHead q.size = oldTempTail then some (q, .idle, [.full thread])
    else if add64 oldTempHead q.size > oldTempTail then
      some (q, .exchangeTempTail src oldTempTail (add64 oldTempTail 1), [])
    else none
  | .exchangeTempTail src oldTempTail newTempTail =>
    if q.tempTail = oldTempTail ∧ spurious = false then
      let index := oldTempTail
      if index = uint64Max then some ({ q with tempTail := newTempTail }, .idle, [.full thread])
      else
        some ({ q with tempTail := newTempTail }, .copyIn src index,
          [.acquiredPush thread index src])
    else some (q, .loadTempTail src, [])
  | .copyIn src index => do
    let base ← store q.base (itemAddr q index) src
    some ({ q with base }, .awaitTail index, [])
  | .awaitTail index =>
    if q.tail ≠ index then some (q, .awaitTail index, []) else some (q, .incrementTail index, [])
  | .incrementTail index =>
    some ({ q with tail := add64 q.tail 1 }, .idle, [.pushed thread index])
  | .loadHead => some (q, .loadTail q.head, [])
  | .loadTail oldHead =>
    let oldTail := q.tail
    if oldHead = oldTail then some (q, .idle, [.empty thread])
    else if oldTail > oldHead then some (q, .exchangeHead oldHead (add64 oldHead 1), [])
    else none
  | .exchangeHead oldHead newHead =>
    if q.head = oldHead ∧ spurious = false then
      let index := oldHead
      if index = uint64Max then some ({ q with head := newHead }, .idle, [.empty thread])
      else some ({ q with head := newHead }, .copyOut index, [.acquiredPop thread index])
    else some (q, .loadHead, [])
  | .copyOut index => do
    let dst ← load q.base (itemAddr q index) q.cell
    some (q, .awaitTempHead index dst, [])
  | .awaitTempHead index dst =>
    if q.tempHead ≠ index then some (q, .awaitTempHead index dst, [])
    else some (q, .incrementTempHead index dst, [])
  | .incrementTempHead index dst =>
    some ({ q with tempHead := add64 q.tempHead 1 }, .idle, [.popped thread index dst])

/-- The queue, where each thread is, and what has happened. -/
structure State (Thread : Type) where
  queue : Queue
  pc : Thread → Pc
  log : List (Event Thread)

/-- A call made by an idle thread, or the next step of a call. -/
inductive Action (Thread : Type) where
  | tryPush (thread : Thread) (src : Item)
  | tryPop (thread : Thread)
  | step (thread : Thread) (spurious : Bool)

/-- Any number of threads on one queue. -/
def queues (Thread : Type) [DecidableEq Thread] : System (State Thread) (Action Thread) where
  initial s := (∃ arr cell, 0 < cell ∧ cell < 2 ^ 31 ∧ arr.length < 2 ^ 31 ∧
    init arr cell = some s.queue) ∧ (∀ thread, s.pc thread = .idle) ∧ s.log = []
  next s action :=
    match action with
    | .tryPush thread src =>
      if s.pc thread = .idle ∧ src.length = s.queue.cell then
        some { s with pc := Function.update s.pc thread (.loadTempTail src) }
      else none
    | .tryPop thread =>
      if s.pc thread = .idle then some { s with pc := Function.update s.pc thread .loadHead }
      else none
    | .step thread spurious => do
      let (queue, pc, events) ← advance thread spurious s.queue (s.pc thread)
      some ⟨queue, Function.update s.pc thread pc, s.log ++ events⟩

/-! ### What the log says -/

/-- The indices acquired for a push, each with the thread and the item it pushes. -/
def acquiredPushes (log : List (Event Thread)) : List (Nat × Thread × Item) :=
  log.filterMap fun
    | .acquiredPush thread index src => some (index, thread, src)
    | _ => none

/-- The indices acquired for a pop, each with its thread. -/
def acquiredPops (log : List (Event Thread)) : List (Nat × Thread) :=
  log.filterMap fun
    | .acquiredPop thread index => some (index, thread)
    | _ => none

/-- The indices whose push has returned. -/
def pushes (log : List (Event Thread)) : List Nat :=
  log.filterMap fun
    | .pushed _ index => some index
    | _ => none

/-- The indices whose pop has returned, each with the item. -/
def pops (log : List (Event Thread)) : List (Nat × Item) :=
  log.filterMap fun
    | .popped _ index dst => some (index, dst)
    | _ => none

end Steps

end Mysnips.MpmcQueue

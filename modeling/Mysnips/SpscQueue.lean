import Mysnips.Machine
import Mysnips.Memory
import Mysnips.Transition

/-! The single-producer single-consumer queue of `lockfree/spsc_queue.c`. The
producer and the consumer take turns in any order; every atomic load and store and
every copy of an item is one step, and the local computation up to the next one
belongs to it. An array that is passed in or out is the list of its items. A failed
assertion, and a copy outside the queue's array, is a fault. -/
namespace Mysnips.SpscQueue
open Machine Memory Transition

/-- The bytes of an item. -/
abbrev Item : Type := List UInt8

/-- A byte as an item. -/
def asItem (byte : UInt8) : Item := [byte]

/-- `UINT64_MAX`. -/
abbrev uint64Max : Nat := 2 ^ 64 - 1

/-- `spsc_queue_t`, with the array behind `items`. -/
structure Queue where
  items : List UInt8
  itemSize : Nat
  capLog2 : Nat
  head : Nat
  tail : Nat
  deriving DecidableEq, Repr

/-- `spsc_queue_init`. -/
def init (items : List UInt8) (numItemsLog2 itemSize : Nat) : Queue :=
  ⟨items, itemSize, numItemsLog2, 0, 0⟩

/-- `1U << queue->cap_log2`. -/
def cap (q : Queue) : Nat := uint32 (1 <<< q.capLog2)

/-- `cap - 1`. -/
def mask (q : Queue) : Nat := sub32 (cap q) 1

/-- `item_addr`, as an offset from `items`. -/
def itemAddr (q : Queue) (index : Int) : Nat := mul32 (uint32 (ofInt index)) q.itemSize

/-- The assertion of `store_item` and `read_item`. -/
def InRange (q : Queue) (index : Int) : Prop := index ≥ 0 ∧ index < int32 ((1 <<< q.capLog2) % 2 ^ 64)

instance (q : Queue) (index : Int) : Decidable (InRange q index) :=
  inferInstanceAs (Decidable (_ ∧ _))

/-- `store_item`. -/
def storeItem (q : Queue) (index : Int) (src : Item) : Option Queue :=
  if InRange q index then do
    let items ← store q.items (itemAddr q index) src
    some { q with items }
  else none

/-- `read_item`. -/
def readItem (q : Queue) (index : Int) : Option Item :=
  if InRange q index then load q.items (itemAddr q index) q.itemSize else none

/-- `spsc_queue_peek_0`: the address, if not `NULL`, and the number of items. -/
def peek0 (q : Queue) : Option Nat × Int :=
  if q.head = q.tail then (none, 0)
  else
    let maskedHead := uint32 (q.head &&& mask q)
    let maskedTail := uint32 (q.tail &&& mask q)
    if maskedHead < maskedTail then
      (some (itemAddr q (int32 maskedHead)), int32 (sub32 maskedTail maskedHead))
    else (some (itemAddr q (int32 maskedHead)), int32 (sub32 (cap q) maskedHead))

/-- `spsc_queue_peek_1`. -/
def peek1 (q : Queue) : Option Nat × Int :=
  if q.head = q.tail then (none, 0)
  else
    let maskedHead := uint32 (q.head &&& mask q)
    let maskedTail := uint32 (q.tail &&& mask q)
    if maskedHead < maskedTail then (none, 0) else (some (itemAddr q 0), int32 maskedTail)

/-- The result of a call, with the items that went in or came out. -/
inductive Event where
  | push (arr : List Item) (done : Bool)
  | pop (num : Nat) (arr : List Item) (done : Bool)
  deriving DecidableEq, Repr

/-! ### The producer -/

/-- The next access of `spsc_queue_push` or `spsc_queue_multi_push`, with the locals it
still needs. A missing item or array is `NULL`. -/
inductive Producer where
  | idle
  | pushLoadHead (src : Option Item)
  | pushLoadTail (src : Option Item) (head : Nat)
  | pushStoreItem (src : Item) (tail : Nat)
  | pushAssertTail (src : Option Item)
  | pushReloadTail (src : Option Item)
  | pushStoreTail (src : Option Item) (newTail : Nat)
  | multiPushLoadHead (arr : Option (List Item)) (num : Nat)
  | multiPushLoadTail (arr : Option (List Item)) (num head : Nat)
  | multiPushStoreItem (arr : List Item) (num tail i : Nat)
  | multiPushStoreTail (arr : Option (List Item)) (newTail : Nat)
  deriving DecidableEq, Repr

/-- The test of the copying loop of `spsc_queue_multi_push`. -/
def multiPushLoop (arr : List Item) (num tail i : Nat) : Producer :=
  if i < num then .multiPushStoreItem arr num tail i
  else .multiPushStoreTail (some arr) (add64 tail num)

/-- The next step of the producer. -/
def produce (q : Queue) : Producer → Option (Queue × Producer × List Event)
  | .idle => none
  | .pushLoadHead src => some (q, .pushLoadTail src q.head, [])
  | .pushLoadTail src head =>
    let tail := q.tail
    let used := uint32 (sub64 tail head)
    if used = cap q then some (q, .idle, [.push src.toList false])
    else
      match src with
      | some src => some (q, .pushStoreItem src tail, [])
      | none => some (q, .pushAssertTail none, [])
  | .pushStoreItem src tail => do
    let q ← storeItem q (int32 (tail &&& mask q : Nat)) src
    some (q, .pushAssertTail (some src), [])
  | .pushAssertTail src => if q.tail < uint64Max then some (q, .pushReloadTail src, []) else none
  | .pushReloadTail src => some (q, .pushStoreTail src (add64 q.tail 1), [])
  | .pushStoreTail src newTail => some ({ q with tail := newTail }, .idle, [.push src.toList true])
  | .multiPushLoadHead arr num => some (q, .multiPushLoadTail arr num q.head, [])
  | .multiPushLoadTail arr num head =>
    let tail := q.tail
    let used := uint32 (sub64 tail head)
    if add32 used num > cap q then some (q, .idle, [.push (arr.getD []) false])
    else if tail < sub64 uint64Max num then
      match arr with
      | some arr => some (q, multiPushLoop arr num tail 0, [])
      | none => some (q, .multiPushStoreTail none (add64 tail num), [])
    else none
  | .multiPushStoreItem arr num tail i => do
    let src ← arr[i]?
    let q ← storeItem q (int32 (add64 tail i &&& mask q : Nat)) src
    some (q, multiPushLoop arr num tail (i + 1), [])
  | .multiPushStoreTail arr newTail =>
    some ({ q with tail := newTail }, .idle, [.push (arr.getD []) true])

/-! ### The consumer -/

/-- The next access of `spsc_queue_pop` or `spsc_queue_multi_pop`, with the locals it
still needs. A destination that is not wanted is `NULL`. -/
inductive Consumer where
  | idle
  | popLoadHead (dst : Bool)
  | popLoadTail (dst : Bool) (head : Nat)
  | popReadItem (head : Nat)
  | popStoreHead (dst : Option Item) (newHead : Nat)
  | multiPopLoadHead (arr : Bool) (num : Nat)
  | multiPopLoadTail (arr : Bool) (num head : Nat)
  | multiPopReadItem (arr : List Item) (num head i : Nat)
  | multiPopStoreHead (arr : List Item) (num newHead : Nat)
  deriving DecidableEq, Repr

/-- The assertion of `spsc_queue_pop` behind the copy. -/
def popAsserted (dst : Option Item) (head : Nat) : Option Consumer :=
  if head < uint64Max then some (.popStoreHead dst (add64 head 1)) else none

/-- The test of the copying loop of `spsc_queue_multi_pop`. -/
def multiPopLoop (arr : List Item) (num head i : Nat) : Consumer :=
  if i < num then .multiPopReadItem arr num head i
  else .multiPopStoreHead arr num (add64 head num)

/-- The next step of the consumer. -/
def consume (q : Queue) : Consumer → Option (Queue × Consumer × List Event)
  | .idle => none
  | .popLoadHead dst => some (q, .popLoadTail dst q.head, [])
  | .popLoadTail dst head =>
    let tail := q.tail
    let used := uint32 (sub64 tail head)
    if used = 0 then some (q, .idle, [.pop 1 [] false])
    else if dst then some (q, .popReadItem head, [])
    else do
      let asserted ← popAsserted none head
      some (q, asserted, [])
  | .popReadItem head => do
    let dst ← readItem q (int32 (head &&& mask q : Nat))
    let asserted ← popAsserted (some dst) head
    some (q, asserted, [])
  | .popStoreHead dst newHead => some ({ q with head := newHead }, .idle, [.pop 1 dst.toList true])
  | .multiPopLoadHead arr num => some (q, .multiPopLoadTail arr num q.head, [])
  | .multiPopLoadTail arr num head =>
    let tail := q.tail
    let used := uint32 (sub64 tail head)
    if used < num then some (q, .idle, [.pop num [] false])
    else if head ≤ sub64 uint64Max num then
      if arr then some (q, multiPopLoop [] num head 0, [])
      else some (q, .multiPopStoreHead [] num (add64 head num), [])
    else none
  | .multiPopReadItem arr num head i => do
    let dst ← readItem q (int32 (add64 head i &&& mask q : Nat))
    some (q, multiPopLoop (arr ++ [dst]) num head (i + 1), [])
  | .multiPopStoreHead arr num newHead =>
    some ({ q with head := newHead }, .idle, [.pop num arr true])

/-! ### Both together -/

/-- The queue, where the two threads are, and the results of their calls. -/
structure State where
  queue : Queue
  producer : Producer
  consumer : Consumer
  log : List Event
  deriving DecidableEq, Repr

/-- A call by a thread that is idle, or the next step of a thread. -/
inductive Action where
  | push (src : Item)
  | multiPush (arr : List Item)
  | pop
  | multiPop (num : Int)
  | produce
  | consume
  deriving DecidableEq, Repr

/-- A producer and a consumer on one queue, with arrays of up to `INT_MAX` items that
are not `NULL`. -/
def queues : System State Action where
  initial s := (∃ items capLog2 itemSize, capLog2 ≤ 30 ∧ items.length = 2 ^ capLog2 * itemSize ∧
    2 ^ capLog2 * itemSize < 2 ^ 32 ∧ s.queue = init items capLog2 itemSize) ∧
      s.producer = .idle ∧ s.consumer = .idle ∧ s.log = []
  next s action :=
    match action with
    | .push src =>
      if s.producer = .idle ∧ src.length = s.queue.itemSize then
        some { s with producer := .pushLoadHead (some src) }
      else none
    | .multiPush arr =>
      if s.producer = .idle ∧ arr.length < 2 ^ 31 ∧ ∀ src ∈ arr, src.length = s.queue.itemSize then
        some { s with producer := .multiPushLoadHead (some arr) arr.length }
      else none
    | .pop =>
      if s.consumer = .idle then some { s with consumer := .popLoadHead true } else none
    | .multiPop num =>
      if s.consumer = .idle ∧ 0 ≤ num ∧ num < 2 ^ 31 then
        some { s with consumer := .multiPopLoadHead true num.toNat }
      else none
    | .produce => do
      let (queue, producer, events) ← produce s.queue s.producer
      some { s with queue, producer, log := s.log ++ events }
    | .consume => do
      let (queue, consumer, events) ← consume s.queue s.consumer
      some { s with queue, consumer, log := s.log ++ events }

/-- The items of the pushes that were done, in order. -/
def accepted (log : List Event) : List Item :=
  log.flatMap fun
    | .push arr true => arr
    | _ => []

/-- The items of the pops that were done, in order. -/
def returned (log : List Event) : List Item :=
  log.flatMap fun
    | .pop _ arr true => arr
    | _ => []

end Mysnips.SpscQueue

import Mathlib.Logic.Function.Basic
import Mysnips.Machine
import Mysnips.RingSlots
import Mysnips.Transition

/-! The single-producer multiple-consumer queue of `lockfree/spmc_queue.c`. One
producer runs `spmc_queue_push` and any number of consumers run `spmc_queue_pop`;
every access to a counter and every copy of an item is one step. The producer adds
its incremented copy of `tail` to `tail` instead of one, which is the same only for
the first push. -/
namespace Mysnips.SpmcQueue
open Machine Memory RingSlots Transition

/-- The bytes of an item. -/
abbrev Item : Type := List UInt8

/-- `UINT64_MAX`. -/
abbrev uint64Max : Nat := 2 ^ 64 - 1

/-- `spmc_queue`, with the array behind `data`. -/
structure Queue where
  data : List UInt8
  itemSize : Nat
  capacityLog2 : Nat
  head : Nat
  tail : Nat
  deriving DecidableEq, Repr

/-- `spmc_queue_create`. -/
def create (data : List UInt8) (itemSize capacityLog2 : Nat) : Queue :=
  ⟨data, itemSize, capacityLog2, 0, 0⟩

/-- `1U << capacity_log2`. -/
def capacity (q : Queue) : Nat := uint32 (1 <<< q.capacityLog2)

/-- `capacity - 1`, in `uint32_t` arithmetic. -/
def mask (q : Queue) : Nat := sub32 (capacity q) 1

/-- The offset of the item of an index, which is masked and cut to `uint32_t`. -/
def itemAddr (q : Queue) (index : Nat) : Nat := mul64 (uint32 (index &&& mask q)) q.itemSize

/-- The next access of the producer, with the locals it still needs. -/
inductive Producer where
  | idle
  | loadHead (item : Item)
  | loadTail (item : Item) (head : Nat)
  | copyIn (item : Item) (tail : Nat)
  | addTail (item : Item) (tail : Nat)
  deriving DecidableEq, Repr

/-- The next access of a consumer. -/
inductive Consumer where
  | idle
  | loadTail
  | loadHead (tail : Nat)
  | copyOut (head : Nat)
  | exchangeHead (head : Nat) (item : Item)
  deriving DecidableEq, Repr

/-- What a step makes known: a push when `tail` is moved, a pop when the
compare-exchange on `head` succeeds. -/
inductive Event where
  | pushed (item : Item)
  | popped (item : Item)
  | full
  | empty
  deriving DecidableEq, Repr

/-- The next step of the producer. A failed assertion has no result. -/
def produce (q : Queue) : Producer → Option (Queue × Producer × List Event)
  | .idle => none
  | .loadHead item => some (q, .loadTail item q.head, [])
  | .loadTail item head =>
    let tail := q.tail
    if sub64 tail head ≤ capacity q then
      if sub64 tail head = capacity q then some (q, .idle, [.full])
      else some (q, .copyIn item tail, [])
    else none
  | .copyIn item tail => do
    let data ← store q.data (itemAddr q tail) item
    if tail < uint64Max then some ({ q with data }, .addTail item (add64 tail 1), []) else none
  | .addTail item tail => some ({ q with tail := add64 q.tail tail }, .idle, [.pushed item])

/-- The next step of a consumer. The weak compare-exchange may fail spuriously. -/
def consume (spurious : Bool) (q : Queue) : Consumer → Option (Queue × Consumer × List Event)
  | .idle => none
  | .loadTail => some (q, .loadHead q.tail, [])
  | .loadHead tail =>
    let head := q.head
    if head ≥ tail then some (q, .idle, [.empty]) else some (q, .copyOut head, [])
  | .copyOut head => do
    let item ← load q.data (itemAddr q head) q.itemSize
    some (q, .exchangeHead head item, [])
  | .exchangeHead head item =>
    if q.head = head ∧ spurious = false then
      some ({ q with head := add64 head 1 }, .idle, [.popped item])
    else some (q, .loadTail, [])

/-- The queue, where each thread is, and what has happened. -/
structure State (Thread : Type) where
  queue : Queue
  producer : Producer
  consumers : Thread → Consumer
  log : List Event

/-- A call made by an idle thread, or the next step of a call. -/
inductive Action (Thread : Type) where
  | push (item : Item)
  | pop (thread : Thread)
  | produce
  | consume (thread : Thread) (spurious : Bool)

/-- One producer and any number of consumers on one queue. -/
def queues (Thread : Type) [DecidableEq Thread] : System (State Thread) (Action Thread) where
  initial s := (∃ data itemSize capacityLog2, capacityLog2 < 32 ∧ data.length < 2 ^ 64 ∧
    data.length = itemSize * 2 ^ capacityLog2 ∧ s.queue = create data itemSize capacityLog2) ∧
    s.producer = .idle ∧ (∀ thread, s.consumers thread = .idle) ∧ s.log = []
  next s action :=
    match action with
    | .push item =>
      if s.producer = .idle ∧ item.length = s.queue.itemSize then
        some { s with producer := .loadHead item }
      else none
    | .pop thread =>
      if s.consumers thread = .idle then
        some { s with consumers := Function.update s.consumers thread .loadTail }
      else none
    | .produce => do
      let (queue, producer, events) ← produce s.queue s.producer
      some { s with queue, producer, log := s.log ++ events }
    | .consume thread spurious => do
      let (queue, consumer, events) ← consume spurious s.queue (s.consumers thread)
      some { s with
        queue, consumers := Function.update s.consumers thread consumer, log := s.log ++ events }

/-- The items pushed so far. -/
def pushes (log : List Event) : List Item :=
  log.filterMap fun
    | .pushed item => some item
    | _ => none

/-- The items popped so far. -/
def pops (log : List Event) : List Item :=
  log.filterMap fun
    | .popped item => some item
    | _ => none

/-- The queue is a FIFO: `tail` counts the pushes, the counters are at most the capacity
apart, and the pops returned the first pushed items in their order. -/
structure Fifo {Thread : Type} (s : State Thread) : Prop where
  tail : s.queue.tail = (pushes s.log).length
  low : s.queue.head ≤ s.queue.tail
  high : s.queue.tail ≤ s.queue.head + 2 ^ s.queue.capacityLog2
  items : pops s.log = (pushes s.log).take s.queue.head

/-- The producer is about to move `tail`. -/
def Producer.movesTail : Producer → Bool
  | .addTail _ _ => true
  | _ => false

/-- The step does not move `tail`, or moves it from zero. -/
def PushesFirst {Thread : Type} (s : State Thread) : Action Thread → Prop
  | .produce => s.producer.movesTail = true → s.queue.tail = 0
  | _ => True

instance {Thread : Type} (s : State Thread) : (a : Action Thread) → Decidable (PushesFirst s a)
  | .produce => inferInstanceAs (Decidable (_ → _))
  | .push _ => isTrue trivial
  | .pop _ => isTrue trivial
  | .consume _ _ => isTrue trivial

/-! ## The invariant -/

/-- The array has the announced size, and the counters fit their words. -/
structure Sized (q : Queue) : Prop where
  capacity : q.capacityLog2 < 32
  whole : q.data.length = q.itemSize * 2 ^ q.capacityLog2
  object : q.data.length < 2 ^ 64

/-- The item in the cell of an index. -/
def Queue.itemAt (q : Queue) (index : Nat) : Option Item :=
  item q.data q.itemSize (2 ^ q.capacityLog2) index

theorem Sized.capacity_eq {q : Queue} (sized : Sized q) :
    SpmcQueue.capacity q = 2 ^ q.capacityLog2 ∧ 2 ^ q.capacityLog2 ≤ 2 ^ 31 := by
  have small : 2 ^ q.capacityLog2 ≤ 2 ^ 31 :=
    Nat.pow_le_pow_right (by decide) (Nat.le_of_lt_succ sized.capacity)
  refine ⟨?_, small⟩
  rw [SpmcQueue.capacity, Nat.one_shiftLeft, uint32_eq (by omega)]

theorem Sized.itemAddr_eq {q : Queue} (sized : Sized q) (index : Nat) :
    itemAddr q index = slot q.itemSize (2 ^ q.capacityLog2) index := by
  obtain ⟨capacity, small⟩ := sized.capacity_eq
  have positive := Nat.two_pow_pos q.capacityLog2
  have below := Nat.mod_lt index positive
  have inside : slot q.itemSize (2 ^ q.capacityLog2) index + q.itemSize ≤
      q.itemSize * 2 ^ q.capacityLog2 := slot_inside positive index
  have object := sized.object
  have masked : index &&& mask q = index % 2 ^ q.capacityLog2 := by
    rw [mask, capacity, sub32_eq positive (by omega), Nat.and_two_pow_sub_one_eq_mod]
  rw [sized.whole] at object
  rw [slot, Nat.mul_comm] at inside
  rw [itemAddr, masked, uint32_eq (by omega), mul64_eq (by omega), slot, Nat.mul_comm]

/-- An item stored in the cell of its index; the other cells keep theirs. -/
theorem Sized.store {q : Queue} {item : Item} (sized : Sized q)
    (length : item.length = q.itemSize) (index : Nat) :
    ∃ data, Memory.store q.data (itemAddr q index) item = some data ∧ Sized { q with data } ∧
      Queue.itemAt { q with data } index = some item ∧
      ∀ i, i % 2 ^ q.capacityLog2 ≠ index % 2 ^ q.capacityLog2 →
        Queue.itemAt { q with data } i = q.itemAt i := by
  obtain ⟨data, stored, same, held, others⟩ :=
    write_item (Nat.two_pow_pos q.capacityLog2) sized.whole length index
  rw [← sized.itemAddr_eq] at stored
  refine ⟨data, stored, ⟨sized.capacity, same.trans sized.whole, ?_⟩, held, others⟩
  rw [same]
  exact sized.object

/-- The counters and the array, given what was pushed and popped. -/
structure Shared (q : Queue) (pushed popped : List Item) : Prop where
  sized : Sized q
  tail : q.tail = pushed.length
  word : q.tail < 2 ^ 64
  low : q.head ≤ q.tail
  high : q.tail ≤ q.head + 2 ^ q.capacityLog2
  popped : popped = pushed.take q.head
  held : ∀ i, q.head ≤ i → i < q.tail → q.itemAt i = pushed[i]?

/-- What the producer knows. Only it moves `tail`, so that its copy stays good. -/
def Producing (q : Queue) : Producer → Prop
  | .idle => True
  | .loadHead item => item.length = q.itemSize
  | .loadTail item head => item.length = q.itemSize ∧ head ≤ q.head
  | .copyIn item tail =>
    item.length = q.itemSize ∧ tail = q.tail ∧ tail < q.head + 2 ^ q.capacityLog2
  | .addTail item tail =>
    tail = q.tail + 1 ∧ tail < 2 ^ 64 ∧ q.tail < q.head + 2 ^ q.capacityLog2 ∧
      q.itemAt q.tail = some item

/-- What a consumer knows. Its copy is the right item as long as `head` has not moved. -/
def Consuming (q : Queue) (pushed : List Item) : Consumer → Prop
  | .idle => True
  | .loadTail => True
  | .loadHead tail => tail ≤ q.tail
  | .copyOut head => head ≤ q.head ∧ head < q.tail
  | .exchangeHead head item =>
    head ≤ q.head ∧ head < q.tail ∧ (q.head = head → pushed[head]? = some item)

/-- The invariant. -/
structure Valid {Thread : Type} (s : State Thread) : Prop where
  shared : Shared s.queue (pushes s.log) (pops s.log)
  producing : Producing s.queue s.producer
  consuming : ∀ thread, Consuming s.queue (pushes s.log) (s.consumers thread)

theorem Valid.fifo {Thread : Type} {s : State Thread} (valid : Valid s) : Fifo s :=
  ⟨valid.shared.tail, valid.shared.low, valid.shared.high, valid.shared.popped⟩

/-! ## Steps -/

/-- A consumer keeps what it knows while the others step: the counters grow, and what was
pushed stays. -/
theorem Consuming.rely {q q' : Queue} {pushed pushed' : List Item} {consumer : Consumer}
    (consuming : Consuming q pushed consumer) (head : q.head ≤ q'.head) (tail : q.tail ≤ q'.tail)
    (counted : q.tail = pushed.length) (longer : pushed <+: pushed') :
    Consuming q' pushed' consumer := by
  cases consumer with
  | idle | loadTail => trivial
  | loadHead old => exact Nat.le_trans consuming tail
  | copyOut old => exact ⟨Nat.le_trans consuming.1 head, Nat.lt_of_lt_of_le consuming.2 tail⟩
  | exchangeHead old item =>
    obtain ⟨low, below, same⟩ := consuming
    refine ⟨Nat.le_trans low head, Nat.lt_of_lt_of_le below tail, fun unmoved => ?_⟩
    obtain ⟨rest, rfl⟩ := longer
    rw [List.getElem?_append_left (by omega)]
    exact same (by omega)

/-- The producer keeps what it knows while consumers take items: there is only more room. -/
theorem Producing.rely {q : Queue} {producer : Producer} {head : Nat}
    (producing : Producing q producer) (later : q.head ≤ head) :
    Producing { q with head } producer := by
  cases producer with
  | idle => trivial
  | loadHead item => exact producing
  | loadTail item old => exact ⟨producing.1, Nat.le_trans producing.2 later⟩
  | copyIn item tail =>
    obtain ⟨length, same, room⟩ := producing
    exact ⟨length, same, Nat.lt_of_lt_of_le room (Nat.add_le_add_right later _)⟩
  | addTail item tail =>
    obtain ⟨next, fits, room, held⟩ := producing
    exact ⟨next, fits, Nat.lt_of_lt_of_le room (Nat.add_le_add_right later _), held⟩

/-- A push that adds one to `tail`. -/
theorem Shared.publish {q : Queue} {pushed popped : List Item} {item : Item}
    (shared : Shared q pushed popped) (word : q.tail + 1 < 2 ^ 64)
    (room : q.tail < q.head + 2 ^ q.capacityLog2) (stored : q.itemAt q.tail = some item) :
    Shared { q with tail := q.tail + 1 } (pushed ++ [item]) popped where
  sized := ⟨shared.sized.capacity, shared.sized.whole, shared.sized.object⟩
  tail := by simp [shared.tail]
  word := word
  low := Nat.le_succ_of_le shared.low
  high := room
  popped := by
    have low := shared.low
    rw [shared.tail] at low
    rw [List.take_append_of_le_length low]
    exact shared.popped
  held i above below := by
    have counted := shared.tail
    rcases Nat.lt_succ_iff_lt_or_eq.mp below with before | last
    · rw [List.getElem?_append_left (by omega)]
      exact shared.held i above before
    · rw [last]
      rw [List.getElem?_append_right (by omega), counted, Nat.sub_self]
      rw [counted] at stored
      exact stored

/-- A pop that adds one to `head` returns the first item that is left. -/
theorem Shared.take {q : Queue} {pushed popped : List Item} {item : Item}
    (shared : Shared q pushed popped) (below : q.head < q.tail)
    (first : pushed[q.head]? = some item) :
    Shared { q with head := q.head + 1 } pushed (popped ++ [item]) where
  sized := ⟨shared.sized.capacity, shared.sized.whole, shared.sized.object⟩
  tail := shared.tail
  word := shared.word
  low := below
  high := by
    have high := shared.high
    simp only
    omega
  popped := by
    rw [shared.popped, List.take_add_one, first]
    rfl
  held i above := shared.held i (Nat.le_of_succ_le above)

/-- A copy into the cell behind the items. -/
theorem Shared.copyIn {q : Queue} {pushed popped : List Item} {item : Item}
    (shared : Shared q pushed popped) (length : item.length = q.itemSize)
    (room : q.tail < q.head + 2 ^ q.capacityLog2) :
    ∃ data, Memory.store q.data (itemAddr q q.tail) item = some data ∧
      Shared { q with data } pushed popped ∧ Queue.itemAt { q with data } q.tail = some item := by
  obtain ⟨data, stored, sized, held, others⟩ := shared.sized.store length q.tail
  refine ⟨data, stored, { shared with sized := sized, held := ?_ }, held⟩
  intro i above below
  have low := shared.low
  have window : i < q.head + 2 ^ q.capacityLog2 := Nat.lt_trans below room
  rw [others i (mod_ne_of_window q.head (Nat.ne_of_lt below) above window low room)]
  exact shared.held i above below

theorem Valid.produce {Thread : Type} {s : State Thread} {q' : Queue} {producer' : Producer}
    {events : List Event} (valid : Valid s)
    (first : s.producer.movesTail = true → s.queue.tail = 0)
    (ran : SpmcQueue.produce s.queue s.producer = some (q', producer', events)) :
    Valid { s with queue := q', producer := producer', log := s.log ++ events } := by
  have producing := valid.producing
  have word := valid.shared.word
  have low := valid.shared.low
  cases pc : s.producer with
  | idle =>
    rw [pc] at ran
    cases ran
  | loadHead item =>
    rw [pc] at ran producing
    cases ran
    rw [List.append_nil]
    exact ⟨valid.shared, ⟨producing, Nat.le_refl _⟩, valid.consuming⟩
  | loadTail item head =>
    rw [pc] at ran producing
    obtain ⟨length, loaded⟩ := producing
    obtain ⟨capacity, -⟩ := valid.shared.sized.capacity_eq
    have distance : sub64 s.queue.tail head = s.queue.tail - head := sub64_eq (by omega) word
    simp only [SpmcQueue.produce, capacity, distance] at ran
    split at ran
    · rename_i within
      split at ran
      · cases ran
        have unchanged : Valid { s with producer := .idle } :=
          ⟨valid.shared, trivial, valid.consuming⟩
        refine ⟨?_, trivial, fun thread => ?_⟩
        · simpa [pushes, pops] using unchanged.shared
        · simpa [pushes] using unchanged.consuming thread
      · cases ran
        have room : s.queue.tail < s.queue.head + 2 ^ s.queue.capacityLog2 := by omega
        rw [List.append_nil]
        exact ⟨valid.shared, ⟨length, rfl, room⟩, valid.consuming⟩
    · cases ran
  | copyIn item tail =>
    rw [pc] at ran producing
    obtain ⟨length, rfl, room⟩ := producing
    obtain ⟨data, stored, shared, held⟩ := valid.shared.copyIn length room
    simp only [SpmcQueue.produce, stored, Option.bind_eq_bind, Option.bind_some] at ran
    split at ran
    · rename_i fits
      cases ran
      have fits : s.queue.tail + 1 < 2 ^ 64 := Nat.add_lt_of_lt_sub fits
      have next : add64 s.queue.tail 1 = s.queue.tail + 1 := add64_eq fits
      rw [List.append_nil, next]
      refine ⟨shared, ⟨rfl, fits, room, held⟩, fun thread => ?_⟩
      exact (valid.consuming thread).rely (Nat.le_refl _) (Nat.le_refl _) valid.shared.tail
        (List.prefix_refl _)
    · cases ran
  | addTail item tail =>
    rw [pc] at ran producing first
    obtain ⟨rfl, fits, room, held⟩ := producing
    have zero : s.queue.tail = 0 := first rfl
    have next : add64 s.queue.tail (s.queue.tail + 1) = s.queue.tail + 1 := by
      rw [zero]
      rfl
    simp only [SpmcQueue.produce, next] at ran
    cases ran
    have pushed : pushes (s.log ++ [.pushed item]) = pushes s.log ++ [item] := by
      simp [pushes]
    have popped : pops (s.log ++ [.pushed item]) = pops s.log := by simp [pops]
    refine ⟨?_, trivial, fun thread => ?_⟩
    · rw [pushed, popped]
      exact valid.shared.publish fits room held
    · rw [pushed]
      exact (valid.consuming thread).rely (Nat.le_refl _) (Nat.le_succ _) valid.shared.tail
        (List.prefix_append ..)

theorem Valid.consume {Thread : Type} [DecidableEq Thread] {s : State Thread} {thread : Thread}
    {spurious : Bool} {q' : Queue} {consumer' : Consumer} {events : List Event} (valid : Valid s)
    (ran : SpmcQueue.consume spurious s.queue (s.consumers thread) =
      some (q', consumer', events)) :
    Valid { s with
      queue := q'
      consumers := Function.update s.consumers thread consumer'
      log := s.log ++ events } := by
  have consuming := valid.consuming thread
  -- A step that leaves the queue alone changes only what its own consumer knows.
  have still : ∀ consumer : Consumer, Consuming s.queue (pushes s.log) consumer →
      ∀ other, Consuming s.queue (pushes s.log) (Function.update s.consumers thread consumer other) := by
    intro consumer known other
    by_cases same : other = thread
    · rw [same, Function.update_self]
      exact known
    · rw [Function.update_of_ne same]
      exact valid.consuming other
  cases pc : s.consumers thread with
  | idle =>
    rw [pc] at ran
    cases ran
  | loadTail =>
    rw [pc] at ran
    cases ran
    rw [List.append_nil]
    exact ⟨valid.shared, valid.producing, still _ (Nat.le_refl _)⟩
  | loadHead tail =>
    rw [pc] at ran consuming
    simp only [SpmcQueue.consume] at ran
    split at ran
    · cases ran
      refine ⟨?_, valid.producing, ?_⟩
      · simpa [pushes, pops] using valid.shared
      · simpa [pushes] using still .idle trivial
    · rename_i below
      cases ran
      rw [List.append_nil]
      refine ⟨valid.shared, valid.producing, still _ ⟨Nat.le_refl _, ?_⟩⟩
      exact Nat.lt_of_lt_of_le (Nat.not_le.mp below) consuming
  | copyOut head =>
    rw [pc] at ran consuming
    obtain ⟨low, below⟩ := consuming
    cases read : load s.queue.data (itemAddr s.queue head) s.queue.itemSize with
    | none => simp [SpmcQueue.consume, read] at ran
    | some item =>
      simp only [SpmcQueue.consume, read, Option.bind_eq_bind, Option.bind_some] at ran
      cases ran
      rw [List.append_nil]
      refine ⟨valid.shared, valid.producing, still _ ⟨low, below, fun unmoved => ?_⟩⟩
      rw [← valid.shared.held head (Nat.le_of_eq unmoved) below, Queue.itemAt, RingSlots.item,
        ← valid.shared.sized.itemAddr_eq]
      exact read
  | exchangeHead head item =>
    rw [pc] at ran consuming
    obtain ⟨low, below, same⟩ := consuming
    simp only [SpmcQueue.consume] at ran
    split at ran
    · rename_i exchanged
      obtain ⟨rfl, -⟩ := exchanged
      cases ran
      have word := valid.shared.word
      have next : add64 s.queue.head 1 = s.queue.head + 1 := add64_eq (by omega)
      have pushed : pushes (s.log ++ [.popped item]) = pushes s.log := by simp [pushes]
      have popped : pops (s.log ++ [.popped item]) = pops s.log ++ [item] := by simp [pops]
      refine ⟨?_, ?_, fun other => ?_⟩
      · rw [pushed, popped, next]
        exact valid.shared.take below (same rfl)
      · rw [next]
        exact valid.producing.rely (Nat.le_succ _)
      · rw [pushed, next]
        exact (still .idle trivial other).rely (Nat.le_succ _) (Nat.le_refl _) valid.shared.tail
          (List.prefix_refl _)
    · cases ran
      rw [List.append_nil]
      exact ⟨valid.shared, valid.producing, still _ trivial⟩

theorem Valid.start {Thread : Type} [DecidableEq Thread] {s : State Thread}
    (begins : (queues Thread).initial s) : Valid s := by
  obtain ⟨⟨data, itemSize, capacityLog2, small, object, whole, created⟩, producer, consumers, log⟩ :=
    begins
  refine ⟨?_, ?_, fun thread => ?_⟩
  · rw [created, log]
    exact ⟨⟨small, whole, object⟩, rfl, by simp [create], Nat.le_refl _, Nat.zero_le _, rfl,
      fun i _ below => absurd below (Nat.not_lt_zero i)⟩
  · rw [producer]
    trivial
  · rw [consumers thread]
    trivial

theorem Valid.next {Thread : Type} [DecidableEq Thread] {s s' : State Thread}
    {action : Action Thread} (valid : Valid s) (first : PushesFirst s action)
    (moved : (queues Thread).next s action = some s') : Valid s' := by
  cases action with
  | push item =>
    simp only [queues] at moved
    split at moved
    · rename_i called
      cases moved
      exact ⟨valid.shared, called.2, valid.consuming⟩
    · cases moved
  | pop thread =>
    simp only [queues] at moved
    split at moved
    · cases moved
      refine ⟨valid.shared, valid.producing, fun other => ?_⟩
      by_cases same : other = thread
      · simp only [same, Function.update_self]
        trivial
      · simp only [Function.update_of_ne same]
        exact valid.consuming other
    · cases moved
  | produce =>
    simp only [queues] at moved
    obtain ⟨⟨queue, producer, events⟩, ran, rest⟩ := Option.bind_eq_some_iff.mp moved
    cases rest
    exact valid.produce first ran
  | consume thread spurious =>
    simp only [queues] at moved
    obtain ⟨⟨queue, consumer, events⟩, ran, rest⟩ := Option.bind_eq_some_iff.mp moved
    cases rest
    exact valid.consume ran

/-- A second push moves `tail` too far. -/
theorem Valid.overshoots {Thread : Type} [DecidableEq Thread] {s s' : State Thread}
    (valid : Valid s) (later : ¬ PushesFirst s .produce)
    (moved : (queues Thread).next s .produce = some s') : ¬ Fifo s' := by
  obtain ⟨moves, nonzero⟩ := Classical.not_imp.mp later
  have producing := valid.producing
  have counted := valid.shared.tail
  cases pc : s.producer with
  | addTail item tail =>
    rw [pc] at producing
    obtain ⟨rfl, fits, -⟩ := producing
    simp only [queues, pc] at moved
    cases moved
    intro fifo
    have length : (pushes (s.log ++ [.pushed item])).length = s.queue.tail + 1 := by
      simp [pushes, counted]
    have tail : add64 s.queue.tail (s.queue.tail + 1) = s.queue.tail + 1 := fifo.tail.trans length
    unfold add64 at tail
    omega
  | idle | loadHead | loadTail | copyIn =>
    rw [pc] at moves
    cases moves

/-- In every run in which only the first push moves `tail` the queue is a FIFO. The next
step keeps it one exactly when it, too, does not move `tail` a second time. -/
theorem fifo_while_pushing_first {Thread : Type} [DecidableEq Thread] {s : State Thread}
    (reached : ((queues Thread).restrict PushesFirst).Reachable s) :
    Fifo s ∧ ∀ action s', (queues Thread).next s action = some s' →
      (Fifo s' ↔ PushesFirst s action) := by
  have valid : Valid s := by
    refine reached.invariant (fun _ begins => .start begins) ?_
    intro s action s' _ valid moved
    obtain ⟨first, moved⟩ := System.restrict_next.mp moved
    exact valid.next first moved
  refine ⟨valid.fifo, fun action s' moved => ⟨fun fifo => ?_, fun first => (valid.next first moved).fifo⟩⟩
  by_contra later
  cases action with
  | produce => exact valid.overshoots later moved fifo
  | push | pop | consume => exact later trivial

/-- A queue of two bytes that no thread uses yet. -/
def twoBytes : State Unit := ⟨create [0, 0] 1 1, .idle, fun _ => .idle, []⟩

theorem twoBytes_initial : (queues Unit).initial twoBytes :=
  ⟨⟨[0, 0], 1, 1, by decide, by decide, rfl, rfl⟩, rfl, fun _ => rfl, rfl⟩

/-- The steps of one push. -/
def pushSteps (byte : UInt8) : List (Action Unit) :=
  [.push [byte], .produce, .produce, .produce, .produce]

/-- One byte goes through the queue. -/
theorem fifo_while_pushing_first_applies :
    ∃ s, ((queues Unit).restrict PushesFirst).Reachable s ∧ pops s.log = [[7]] ∧ Fifo s := by
  have begun : ((queues Unit).restrict PushesFirst).Reachable twoBytes := .start twoBytes_initial
  obtain ⟨s, reached, checked⟩ := begun.replay_check
    (pushSteps 7 ++ [.pop (), .consume () false, .consume () false, .consume () false,
      .consume () false]) (fun s => pops s.log = [[7]]) (by decide)
  exact ⟨s, reached, by simpa using checked, (fifo_while_pushing_first reached).1⟩

/-- After the second push `tail` is three. -/
theorem second_push_overshoots : ∃ s, (queues Unit).Reachable s ∧
    pushes s.log = [[7], [8]] ∧ s.queue.tail = 3 ∧ ¬ Fifo s := by
  have begun : (queues Unit).Reachable twoBytes := .start twoBytes_initial
  obtain ⟨s, reached, checked⟩ := begun.replay_check (pushSteps 7 ++ pushSteps 8)
    (fun s => pushes s.log = [[7], [8]] && s.queue.tail = 3) (by decide)
  obtain ⟨pushed, tail⟩ : pushes s.log = [[7], [8]] ∧ s.queue.tail = 3 := by simpa using checked
  refine ⟨s, reached, pushed, tail, fun fifo => ?_⟩
  have counted := fifo.tail
  rw [pushed, tail] at counted
  cases counted

end Mysnips.SpmcQueue

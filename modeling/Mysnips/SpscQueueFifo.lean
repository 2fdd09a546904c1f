import Mathlib.Data.List.Infix
import Mysnips.RingSlots
import Mysnips.SpscQueue

/-! The single-producer single-consumer queue is a first-in first-out queue. The
producer alone moves `tail`, and only after the items are in their cells; the
consumer alone moves `head`, and only after they are copied out. So each side can
rely on what it read from the other: `head` may have grown since, which leaves more
room, and `tail` may have grown since, which leaves more items. -/
namespace Mysnips.SpscQueue
open Machine Memory RingSlots Transition

variable {q q' : Queue} {content : List Item}

/-! ### Cells -/

/-- The array holds the queue's capacity, and both are small enough for the 32-bit
arithmetic of the addresses. -/
structure Sized (q : Queue) : Prop where
  capacity : q.capLog2 ≤ 30
  whole : q.items.length = q.itemSize * 2 ^ q.capLog2
  small : q.items.length < 2 ^ 32

/-- The item in the cell of an index. -/
def Queue.itemAt (q : Queue) (index : Nat) : Option Item :=
  item q.items q.itemSize (2 ^ q.capLog2) index

theorem Sized.pow_le (sized : Sized q) : 2 ^ q.capLog2 ≤ 2 ^ 30 :=
  Nat.pow_le_pow_right (by decide) sized.capacity

theorem cap_pow (shift : q.capLog2 < 32) : cap q = 2 ^ q.capLog2 := by
  have small : 2 ^ q.capLog2 ≤ 2 ^ 31 := Nat.pow_le_pow_right (by decide) (by omega)
  rw [cap, Nat.one_shiftLeft, uint32_eq (by omega)]

theorem mask_pow (shift : q.capLog2 < 32) (index : Nat) :
    index &&& mask q = index % 2 ^ q.capLog2 := by
  have small : 2 ^ q.capLog2 ≤ 2 ^ 31 := Nat.pow_le_pow_right (by decide) (by omega)
  have positive := Nat.two_pow_pos q.capLog2
  rw [mask, cap_pow shift, sub32_eq positive (by omega), Nat.and_two_pow_sub_one_eq_mod]

/-- The address of a masked index, in the 32 bits that the product has. -/
theorem itemAddr_masked (shift : q.capLog2 < 32) (index : Nat) :
    itemAddr q (int32 (index % 2 ^ q.capLog2 : Nat)) =
      mul32 (index % 2 ^ q.capLog2) q.itemSize := by
  have small : 2 ^ q.capLog2 ≤ 2 ^ 31 := Nat.pow_le_pow_right (by decide) (by omega)
  have below := Nat.mod_lt index (Nat.two_pow_pos q.capLog2)
  rw [itemAddr, int32_natCast (by omega), ofInt_natCast (by omega), uint32_eq (by omega)]

theorem Sized.shift (sized : Sized q) : q.capLog2 < 32 := Nat.lt_of_le_of_lt sized.capacity (by decide)

theorem Sized.cap_eq (sized : Sized q) : cap q = 2 ^ q.capLog2 := cap_pow sized.shift

theorem Sized.mask_eq (sized : Sized q) (index : Nat) : index &&& mask q = index % 2 ^ q.capLog2 :=
  mask_pow sized.shift index

/-- A masked index passes the assertion, and its address is the start of its cell. -/
theorem Sized.index_spec (sized : Sized q) (index : Nat) :
    InRange q (int32 (index &&& mask q : Nat)) ∧
      itemAddr q (int32 (index &&& mask q : Nat)) = slot q.itemSize (2 ^ q.capLog2) index := by
  have small := sized.pow_le
  have positive := Nat.two_pow_pos q.capLog2
  have below : index % 2 ^ q.capLog2 < 2 ^ q.capLog2 := Nat.mod_lt _ positive
  have inside : slot q.itemSize (2 ^ q.capLog2) index + q.itemSize ≤ q.itemSize * 2 ^ q.capLog2 :=
    slot_inside positive index
  have fits := sized.small
  rw [sized.whole] at fits
  rw [sized.mask_eq]
  constructor
  · rw [InRange, Nat.one_shiftLeft, int32_natCast (by omega), int32_eq (by omega) (by omega)]
    omega
  · rw [itemAddr_masked sized.shift, slot, Nat.mul_comm q.itemSize]
    rw [slot, Nat.mul_comm q.itemSize] at inside
    exact mul32_eq (by omega)

/-- An item stored in its cell is read back, and no other cell changes. -/
theorem Sized.storeItem_spec (sized : Sized q) {src : Item} (length : src.length = q.itemSize)
    (index : Nat) :
    ∃ items, storeItem q (int32 (index &&& mask q : Nat)) src = some { q with items } ∧
      Sized { q with items } ∧ Queue.itemAt { q with items } index = some src ∧
      ∀ j, j % 2 ^ q.capLog2 ≠ index % 2 ^ q.capLog2 →
        Queue.itemAt { q with items } j = q.itemAt j := by
  obtain ⟨inRange, addr⟩ := sized.index_spec index
  obtain ⟨items, stored, same, read, apart⟩ :=
    write_item (Nat.two_pow_pos q.capLog2) sized.whole length index
  refine ⟨items, ?_, ⟨sized.capacity, same.trans sized.whole, ?_⟩, read, apart⟩
  · rw [storeItem, if_pos inRange, addr, stored]
    rfl
  · rw [same]
    exact sized.small

theorem Sized.readItem_eq (sized : Sized q) (index : Nat) :
    readItem q (int32 (index &&& mask q : Nat)) = q.itemAt index := by
  obtain ⟨inRange, addr⟩ := sized.index_spec index
  rw [readItem, if_pos inRange, addr]
  rfl

/-! ### The invariant -/

/-- The queue has taken in `content`, of which the items from `head` on are in their
cells. -/
structure Holds (q : Queue) (content : List Item) : Prop extends Sized q where
  count : content.length = q.tail
  fits : q.tail < 2 ^ 64
  items : q.head ≤ q.tail
  room : q.tail ≤ q.head + 2 ^ q.capLog2
  stored : ∀ {i}, q.head ≤ i → i < q.tail → q.itemAt i = content[i]?

/-- There is room for the items of a call, and the first `i` of them are in their cells
behind the tail. -/
structure Ready (q : Queue) (arr : List Item) (i : Nat) : Prop where
  lengths : ∀ src ∈ arr, src.length = q.itemSize
  room : q.tail + arr.length ≤ q.head + 2 ^ q.capLog2
  stored : ∀ j < i, q.itemAt (q.tail + j) = arr[j]?

/-- What the producer knows, by its next access. -/
def Producing (q : Queue) : Producer → Prop
  | .idle => True
  | .pushLoadHead src => ∃ item, src = some item ∧ item.length = q.itemSize
  | .pushLoadTail src head =>
    (∃ item, src = some item ∧ item.length = q.itemSize) ∧ head ≤ q.head ∧
      q.tail ≤ head + 2 ^ q.capLog2
  | .pushStoreItem src tail => tail = q.tail ∧ Ready q [src] 0
  | .pushAssertTail src => ∃ item, src = some item ∧ Ready q [item] 1
  | .pushReloadTail src => ∃ item, src = some item ∧ Ready q [item] 1 ∧ q.tail + 1 < 2 ^ 64
  | .pushStoreTail src newTail =>
    ∃ item, src = some item ∧ Ready q [item] 1 ∧ newTail < 2 ^ 64 ∧ newTail = q.tail + 1
  | .multiPushLoadHead arr num =>
    ∃ items, arr = some items ∧ num = items.length ∧ num < 2 ^ 31 ∧
      ∀ src ∈ items, src.length = q.itemSize
  | .multiPushLoadTail arr num head =>
    (∃ items, arr = some items ∧ num = items.length ∧ num < 2 ^ 31 ∧
      ∀ src ∈ items, src.length = q.itemSize) ∧ head ≤ q.head ∧ q.tail ≤ head + 2 ^ q.capLog2
  | .multiPushStoreItem arr num tail i =>
    num = arr.length ∧ tail = q.tail ∧ i < num ∧ q.tail + num < 2 ^ 64 ∧ Ready q arr i
  | .multiPushStoreTail arr newTail =>
    ∃ items, arr = some items ∧ newTail = q.tail + items.length ∧ newTail < 2 ^ 64 ∧
      Ready q items items.length

/-- What the consumer knows, by its next access. -/
def Consuming (q : Queue) (content : List Item) : Consumer → Prop
  | .idle => True
  | .popLoadHead dst => dst = true
  | .popLoadTail dst head => dst = true ∧ head = q.head
  | .popReadItem head => head = q.head ∧ q.head < q.tail
  | .popStoreHead dst newHead =>
    ∃ item, dst = some item ∧ newHead = q.head + 1 ∧ q.head < q.tail ∧
      [item] <+: content.drop q.head
  | .multiPopLoadHead arr _ => arr = true
  | .multiPopLoadTail arr _ head => arr = true ∧ head = q.head
  | .multiPopReadItem arr num head i =>
    head = q.head ∧ i < num ∧ arr.length = i ∧ q.head + num ≤ q.tail ∧ arr <+: content.drop q.head
  | .multiPopStoreHead arr num newHead =>
    arr.length = num ∧ newHead = q.head + num ∧ q.head + num ≤ q.tail ∧
      arr <+: content.drop q.head

/-! ### The producer's steps -/

/-- Room left by the consumer stays. -/
private theorem Ready.rely {arr : List Item} {i : Nat} (ready : Ready q arr i)
    (advanced : q.head ≤ q'.head) (same : { q with head := q'.head } = q') : Ready q' arr i := by
  rw [← same]
  refine ⟨ready.lengths, ?_, ready.stored⟩
  have room := ready.room
  simp only
  omega

/-- What the producer knows holds on while the consumer moves `head`. -/
theorem Producing.rely {producer : Producer} (known : Producing q producer)
    (advanced : q.head ≤ q'.head) (same : { q with head := q'.head } = q') :
    Producing q' producer := by
  have ready : ∀ {arr i}, Ready q arr i → Ready q' arr i := fun ready => ready.rely advanced same
  have itemSize : q'.itemSize = q.itemSize := by rw [← same]
  have tail : q'.tail = q.tail := by rw [← same]
  have capLog2 : q'.capLog2 = q.capLog2 := by rw [← same]
  cases producer with
  | idle => trivial
  | pushLoadHead src => rwa [Producing, itemSize]
  | pushLoadTail src head =>
    obtain ⟨item, low, high⟩ := known
    rw [Producing, itemSize, tail, capLog2]
    exact ⟨item, by omega, high⟩
  | pushStoreItem src tail => exact ⟨by rw [known.1, ← same], ready known.2⟩
  | pushAssertTail src =>
    obtain ⟨item, given, filled⟩ := known
    exact ⟨item, given, ready filled⟩
  | pushReloadTail src =>
    obtain ⟨item, given, filled, fits⟩ := known
    exact ⟨item, given, ready filled, tail ▸ fits⟩
  | pushStoreTail src newTail =>
    obtain ⟨item, given, filled, fits, next⟩ := known
    exact ⟨item, given, ready filled, fits, tail ▸ next⟩
  | multiPushLoadHead arr num => rwa [Producing, itemSize]
  | multiPushLoadTail arr num head =>
    obtain ⟨items, low, high⟩ := known
    rw [Producing, itemSize, tail, capLog2]
    exact ⟨items, by omega, high⟩
  | multiPushStoreItem arr num start i =>
    obtain ⟨count, rfl, more, fits, filled⟩ := known
    exact ⟨count, tail.symm, more, tail ▸ fits, ready filled⟩
  | multiPushStoreTail arr newTail =>
    obtain ⟨items, given, next, fits, filled⟩ := known
    exact ⟨items, given, tail ▸ next, fits, ready filled⟩

/-- The number of used cells, as either side computes it. -/
theorem Holds.used_eq (holds : Holds q content) {head : Nat} (low : head ≤ q.tail)
    (high : q.tail ≤ head + 2 ^ q.capLog2) : uint32 (sub64 q.tail head) = q.tail - head := by
  have small := holds.toSized.pow_le
  have fits := holds.fits
  rw [sub64_eq low fits, uint32_eq (by omega)]

/-- The next item of a call goes to a cell that no item in the queue uses. -/
theorem Holds.storeNext (holds : Holds q content) {arr : List Item} {i : Nat} {src : Item}
    (ready : Ready q arr i) (next : arr[i]? = some src) :
    ∃ items, storeItem q (int32 ((q.tail + i) &&& mask q : Nat)) src = some { q with items } ∧
      Holds { q with items } content ∧ Ready { q with items } arr (i + 1) := by
  obtain ⟨inside, rfl⟩ := List.getElem?_eq_some_iff.mp next
  have room := ready.room
  have kept := holds.items
  obtain ⟨items, stored, sized, read, apart⟩ :=
    holds.toSized.storeItem_spec (ready.lengths _ (List.getElem_mem inside)) (q.tail + i)
  have elsewhere : ∀ k, q.head ≤ k → k < q.tail + i →
      Queue.itemAt { q with items } k = q.itemAt k := by
    intro k low high
    exact apart k (mod_ne_of_window q.head (by omega) low (by omega) (by omega) (by omega))
  refine ⟨items, stored, { holds with toSized := sized, stored := ?_ },
    { ready with stored := ?_ }⟩
  · intro k (low : q.head ≤ k) (high : k < q.tail)
    rw [elsewhere k low (by omega)]
    exact holds.stored low high
  · intro j below
    rcases Nat.lt_succ_iff_lt_or_eq.mp below with before | rfl
    · exact (elsewhere (q.tail + j) (by omega) (by omega)).trans (ready.stored j before)
    · rw [next]
      exact read

/-- Moving the tail over the items of a call takes them in. -/
theorem Holds.publish (holds : Holds q content) {arr : List Item} (ready : Ready q arr arr.length)
    (fits : q.tail + arr.length < 2 ^ 64) :
    Holds { q with tail := q.tail + arr.length } (content ++ arr) where
  toSized := ⟨holds.capacity, holds.whole, holds.small⟩
  count := by rw [List.length_append, holds.count]
  fits := fits
  items := Nat.le_add_right_of_le holds.items
  room := ready.room
  stored := by
    intro i (low : q.head ≤ i) (high : i < q.tail + arr.length)
    by_cases old : i < q.tail
    · rw [List.getElem?_append_left (by rw [holds.count]; exact old)]
      exact holds.stored low old
    · obtain ⟨j, rfl⟩ := Nat.exists_eq_add_of_le (Nat.not_lt.mp old)
      rw [List.getElem?_append_right (by rw [holds.count]; omega), holds.count,
        Nat.add_sub_cancel_left]
      exact ready.stored j (by omega)

/-- What a step of the producer does. -/
structure Produced (q : Queue) (content : List Item) (q' : Queue) (producer : Producer)
    (events : List Event) : Prop where
  holds : Holds q' (content ++ accepted events)
  known : Producing q' producer
  head : q'.head = q.head
  tail : q.tail ≤ q'.tail
  shape : q'.capLog2 = q.capLog2 ∧ q'.itemSize = q.itemSize
  silent : ∀ num arr done, Event.pop num arr done ∉ events

/-- A step of the producer that does not move `tail`. -/
private theorem Produced.quiet {producer : Producer} {events : List Event}
    (holds : Holds q' content) (known : Producing q' producer) (head : q'.head = q.head)
    (tail : q'.tail = q.tail) (shape : q'.capLog2 = q.capLog2 ∧ q'.itemSize = q.itemSize)
    (nothing : accepted events = []) (silent : ∀ num arr done, Event.pop num arr done ∉ events) :
    Produced q content q' producer events := by
  refine ⟨?_, known, head, Nat.le_of_eq tail.symm, shape, silent⟩
  rw [nothing, List.append_nil]
  exact holds

/-- The copying loop of `spsc_queue_multi_push`, before its test. -/
private theorem Producing.loop {arr : List Item} {tail i : Nat} (start : tail = q.tail)
    (within : i ≤ arr.length) (fits : tail + arr.length < 2 ^ 64) (ready : Ready q arr i) :
    Producing q (multiPushLoop arr arr.length tail i) := by
  subst start
  rw [multiPushLoop]
  split
  · rename_i more
    exact ⟨rfl, rfl, more, fits, ready⟩
  · have all : i = arr.length := by omega
    subst all
    have sum : add64 q.tail arr.length = q.tail + arr.length := add64_eq fits
    exact ⟨arr, rfl, sum, sum ▸ fits, ready⟩

/-- Every step of the producer. -/
theorem produce_spec {producer producer' : Producer} {events : List Event}
    (holds : Holds q content) (known : Producing q producer)
    (moved : produce q producer = some (q', producer', events)) :
    Produced q content q' producer' events := by
  have small := holds.toSized.pow_le
  have kept := holds.items
  have fits := holds.fits
  have capEq := holds.toSized.cap_eq
  cases producer with
  | idle => cases moved
  | pushLoadHead src =>
    cases moved
    exact .quiet holds ⟨known, Nat.le_refl _, holds.room⟩ rfl rfl ⟨rfl, rfl⟩ rfl nofun
  | pushLoadTail src head =>
    obtain ⟨⟨item, rfl, length⟩, low, high⟩ := known
    simp only [produce, holds.used_eq (show head ≤ q.tail by omega) high, capEq] at moved
    split at moved
    · cases moved
      exact .quiet holds trivial rfl rfl ⟨rfl, rfl⟩ rfl (by simp)
    · cases moved
      rename_i notFull
      refine .quiet holds ⟨rfl, ?_, ?_, nofun⟩ rfl rfl ⟨rfl, rfl⟩ rfl nofun
      · simpa using length
      · simp only [List.length_singleton]
        omega
  | pushStoreItem src tail =>
    obtain ⟨rfl, ready⟩ := known
    obtain ⟨items, stored, holds', ready'⟩ := holds.storeNext ready rfl
    rw [Nat.add_zero] at stored
    simp only [produce, stored, Option.bind_eq_bind, Option.bind_some] at moved
    cases moved
    exact .quiet holds' ⟨src, rfl, ready'⟩ rfl rfl ⟨rfl, rfl⟩ rfl nofun
  | pushAssertTail src =>
    obtain ⟨item, rfl, ready⟩ := known
    simp only [produce] at moved
    split at moved
    · cases moved
      rename_i below
      have below : q.tail < 2 ^ 64 - 1 := below
      exact .quiet holds ⟨item, rfl, ready, by omega⟩ rfl rfl ⟨rfl, rfl⟩ rfl nofun
    · cases moved
  | pushReloadTail src =>
    obtain ⟨item, rfl, ready, below⟩ := known
    cases moved
    exact .quiet holds ⟨item, rfl, ready, Nat.mod_lt _ (by decide), add64_eq below⟩ rfl rfl ⟨rfl, rfl⟩ rfl nofun
  | pushStoreTail src newTail =>
    obtain ⟨item, rfl, ready, below, rfl⟩ := known
    cases moved
    exact ⟨holds.publish ready below, trivial, rfl, Nat.le_succ _, ⟨rfl, rfl⟩, by simp⟩
  | multiPushLoadHead arr num =>
    cases moved
    exact .quiet holds ⟨known, Nat.le_refl _, holds.room⟩ rfl rfl ⟨rfl, rfl⟩ rfl nofun
  | multiPushLoadTail arr num head =>
    obtain ⟨⟨items, rfl, rfl, short, lengths⟩, low, high⟩ := known
    have limit : sub64 uint64Max items.length = 2 ^ 64 - 1 - items.length :=
      sub64_eq (show items.length ≤ 2 ^ 64 - 1 by omega) (by decide)
    simp only [produce, holds.used_eq (show head ≤ q.tail by omega) high, capEq, limit,
      add32_eq (show q.tail - head + items.length < 2 ^ 32 by omega)] at moved
    split at moved
    · cases moved
      exact .quiet holds trivial rfl rfl ⟨rfl, rfl⟩ rfl (by simp)
    · rename_i notFull
      split at moved
      · cases moved
        exact .quiet holds (.loop rfl (Nat.zero_le _) (by omega) ⟨lengths, by omega, nofun⟩) rfl rfl
          ⟨rfl, rfl⟩ rfl nofun
      · cases moved
  | multiPushStoreItem arr num tail i =>
    obtain ⟨rfl, rfl, more, below, ready⟩ := known
    have next : arr[i]? = some (arr.get ⟨i, more⟩) := List.getElem?_eq_getElem more
    obtain ⟨items, stored, holds', ready'⟩ := holds.storeNext ready next
    have sum : add64 q.tail i = q.tail + i := add64_eq (by omega)
    rw [produce, next, Option.bind_eq_bind, Option.bind_some, sum, stored] at moved
    cases moved
    exact .quiet holds' (.loop rfl more below ready') rfl rfl ⟨rfl, rfl⟩ rfl nofun
  | multiPushStoreTail arr newTail =>
    obtain ⟨items, rfl, rfl, below, ready⟩ := known
    cases moved
    refine ⟨?_, trivial, rfl, Nat.le_add_right _ _, ⟨rfl, rfl⟩, by simp⟩
    have taken : accepted [.push items true] = items := by simp [accepted]
    rw [Option.getD_some, taken]
    exact holds.publish ready below

/-! ### The consumer's steps -/

/-- What the consumer knows holds on while the producer moves `tail`. -/
theorem Consuming.rely {consumer : Consumer} {content' : List Item}
    (known : Consuming q content consumer) (head : q'.head = q.head) (tail : q.tail ≤ q'.tail)
    (grown : content <+: content') : Consuming q' content' consumer := by
  have more : ∀ {arr}, arr <+: content.drop q.head → arr <+: content'.drop q.head :=
    fun taken => taken.trans (grown.drop _)
  cases consumer with
  | idle => trivial
  | popLoadHead dst => exact known
  | popLoadTail dst start => rwa [Consuming, head]
  | popReadItem start =>
    rw [Consuming, head]
    exact ⟨known.1, by have below := known.2; omega⟩
  | popStoreHead dst newHead =>
    obtain ⟨item, given, next, below, taken⟩ := known
    rw [Consuming, head]
    exact ⟨item, given, next, by omega, more taken⟩
  | multiPopLoadHead arr num => exact known
  | multiPopLoadTail arr num start => rwa [Consuming, head]
  | multiPopReadItem arr num start i =>
    obtain ⟨begun, left, count, below, taken⟩ := known
    rw [Consuming, head]
    exact ⟨begun, left, count, by omega, more taken⟩
  | multiPopStoreHead arr num newHead =>
    obtain ⟨count, next, below, taken⟩ := known
    rw [Consuming, head]
    exact ⟨count, next, by omega, more taken⟩

/-- What a step of the consumer does. -/
structure Consumed (q : Queue) (content : List Item) (q' : Queue) (consumer : Consumer)
    (events : List Event) : Prop where
  holds : Holds q' content
  known : Consuming q' content consumer
  frame : { q with head := q'.head } = q'
  head : q.head ≤ q'.head
  returned : content.take q'.head = content.take q.head ++ returned events
  silent : accepted events = []
  whole : ∀ num arr done, Event.pop num arr done ∈ events → if done then arr.length = num else arr = []

/-- A step of the consumer that does not move `head`. -/
private theorem Consumed.quiet {consumer : Consumer} {events : List Event} (holds : Holds q content)
    (known : Consuming q content consumer) (nothing : SpscQueue.returned events = [])
    (silent : accepted events = [])
    (whole : ∀ num arr done, Event.pop num arr done ∈ events →
      if done then arr.length = num else arr = []) :
    Consumed q content q consumer events :=
  ⟨holds, known, rfl, Nat.le_refl _, by rw [nothing, List.append_nil], silent, whole⟩

/-- Moving the head over copied items gives them out. -/
private theorem Consumed.release (holds : Holds q content) {arr : List Item}
    (below : q.head + arr.length ≤ q.tail) (taken : arr <+: content.drop q.head) :
    Consumed q content { q with head := q.head + arr.length } .idle [.pop arr.length arr true] where
  holds :=
    { toSized := ⟨holds.capacity, holds.whole, holds.small⟩
      count := holds.count
      fits := holds.fits
      items := below
      room := by have room := holds.room; simp only; omega
      stored := fun low high => holds.stored (Nat.le_of_add_right_le low) high }
  known := trivial
  frame := rfl
  head := Nat.le_add_right _ _
  returned := by
    have given : SpscQueue.returned [.pop arr.length arr true] = arr := by simp [SpscQueue.returned]
    rw [given, List.take_add, ← List.prefix_iff_eq_take.mp taken]
  silent := rfl
  whole := by
    intro num other done member
    cases List.mem_singleton.mp member
    rfl

/-- The next item in order is the one in the cell. -/
theorem Holds.readNext (holds : Holds q content) {arr : List Item}
    (below : q.head + arr.length < q.tail) (taken : arr <+: content.drop q.head) :
    ∃ dst, readItem q (int32 ((q.head + arr.length) &&& mask q : Nat)) = some dst ∧
      arr ++ [dst] <+: content.drop q.head := by
  have inside : q.head + arr.length < content.length := by
    rw [holds.count]
    exact below
  refine ⟨content.get ⟨_, inside⟩, ?_, ?_⟩
  · rw [holds.toSized.readItem_eq, holds.stored (Nat.le_add_right _ _) below]
    exact List.getElem?_eq_getElem inside
  · have within : arr.length < (content.drop q.head).length := by
      rw [List.length_drop]
      omega
    have next : (content.drop q.head).get ⟨_, within⟩ = content.get ⟨_, inside⟩ := by simp
    have extended := List.take_append_getElem within
    rw [← List.prefix_iff_eq_take.mp taken] at extended
    rw [← next]
    exact extended ▸ List.take_prefix _ _

/-- The copying loop of `spsc_queue_multi_pop`, before its test. -/
private theorem Consuming.loop {arr : List Item} {num head : Nat} (start : head = q.head)
    (within : arr.length ≤ num) (below : q.head + num ≤ q.tail) (fits : head + num < 2 ^ 64)
    (taken : arr <+: content.drop q.head) :
    Consuming q content (multiPopLoop arr num head arr.length) := by
  subst start
  rw [multiPopLoop]
  split
  · rename_i more
    exact ⟨rfl, more, rfl, below, taken⟩
  · exact ⟨by omega, add64_eq fits, below, taken⟩

/-- Every step of the consumer. -/
theorem consume_spec {consumer consumer' : Consumer} {events : List Event}
    (holds : Holds q content) (known : Consuming q content consumer)
    (moved : consume q consumer = some (q', consumer', events)) :
    Consumed q content q' consumer' events := by
  have kept := holds.items
  have fits := holds.fits
  have used := holds.used_eq kept holds.room
  cases consumer with
  | idle => cases moved
  | popLoadHead dst =>
    cases moved
    exact .quiet holds ⟨known, rfl⟩ rfl rfl nofun
  | popLoadTail dst head =>
    obtain ⟨rfl, rfl⟩ := known
    simp only [consume, used] at moved
    split at moved
    · cases moved
      exact .quiet holds trivial rfl rfl (by simp)
    · rw [if_pos trivial] at moved
      cases moved
      exact .quiet holds ⟨rfl, by omega⟩ rfl rfl nofun
  | popReadItem head =>
    obtain ⟨rfl, below⟩ := known
    obtain ⟨dst, read, taken⟩ := holds.readNext (show q.head + ([] : List Item).length < q.tail from below)
      List.nil_prefix
    rw [List.length_nil, Nat.add_zero] at read
    rw [consume, read, Option.bind_eq_bind, Option.bind_some, popAsserted] at moved
    split at moved
    · cases moved
      exact .quiet holds ⟨dst, rfl, add64_eq (by omega), below, taken⟩ rfl rfl nofun
    · cases moved
  | popStoreHead dst newHead =>
    obtain ⟨item, rfl, rfl, below, taken⟩ := known
    cases moved
    exact .release holds (show q.head + [item].length ≤ q.tail from below) taken
  | multiPopLoadHead arr num =>
    cases moved
    exact .quiet holds ⟨known, rfl⟩ rfl rfl nofun
  | multiPopLoadTail arr num head =>
    obtain ⟨rfl, rfl⟩ := known
    simp only [consume, used] at moved
    split at moved
    · cases moved
      exact .quiet holds trivial rfl rfl (by simp)
    · split at moved
      · rw [if_pos trivial] at moved
        cases moved
        exact .quiet holds (.loop rfl (Nat.zero_le _) (by omega) (by omega) List.nil_prefix) rfl rfl
          nofun
      · cases moved
  | multiPopReadItem arr num head i =>
    obtain ⟨rfl, more, rfl, below, taken⟩ := known
    obtain ⟨dst, read, taken'⟩ := holds.readNext (by omega) taken
    have sum : add64 q.head arr.length = q.head + arr.length := add64_eq (by omega)
    rw [consume, sum, read, Option.bind_eq_bind, Option.bind_some] at moved
    cases moved
    have length : (arr ++ [dst]).length = arr.length + 1 := by
      rw [List.length_append, List.length_singleton]
    rw [← length]
    exact .quiet holds (.loop rfl (by omega) below (by omega) taken') rfl rfl nofun
  | multiPopStoreHead arr num newHead =>
    obtain ⟨rfl, rfl, below, taken⟩ := known
    cases moved
    exact .release holds below taken

/-! ### Runs -/

/-- The invariant of the queue and its two threads. -/
structure Valid (s : State) : Prop where
  holds : Holds s.queue (accepted s.log)
  producing : Producing s.queue s.producer
  consuming : Consuming s.queue (accepted s.log) s.consumer
  returned : returned s.log = (accepted s.log).take s.queue.head
  whole : ∀ num arr done, Event.pop num arr done ∈ s.log →
    if done then arr.length = num else arr = []

variable {s s' : State}

theorem accepted_append (log events : List Event) :
    accepted (log ++ events) = accepted log ++ accepted events := by
  simp only [accepted, List.flatMap_append]

theorem returned_append (log events : List Event) :
    returned (log ++ events) = returned log ++ returned events := by
  simp only [returned, List.flatMap_append]

/-- Without a pop among the events nothing is returned. -/
private theorem returned_silent {events : List Event}
    (silent : ∀ num arr done, Event.pop num arr done ∉ events) : returned events = [] := by
  rw [returned, List.flatMap_eq_nil_iff]
  intro event member
  cases event with
  | push arr done => rfl
  | pop num arr done => exact absurd member (silent num arr done)

theorem Valid.start (begins : queues.initial s) : Valid s := by
  obtain ⟨⟨items, capLog2, itemSize, capacity, length, small, created⟩, producer, consumer, log⟩ :=
    begins
  obtain ⟨queue, p, c, l⟩ := s
  cases created
  cases producer
  cases consumer
  cases log
  have whole : items.length = itemSize * 2 ^ capLog2 := length.trans (Nat.mul_comm _ _)
  have sized : Sized (init items capLog2 itemSize) := ⟨capacity, whole, length ▸ small⟩
  exact ⟨⟨sized, rfl, show 0 < 2 ^ 64 by decide, Nat.le_refl _, Nat.zero_le _, nofun⟩, trivial,
    trivial, rfl, nofun⟩

private theorem Valid.produce (valid : Valid s) {producer : Producer} {events : List Event}
    (moved : SpscQueue.produce s.queue s.producer = some (q', producer, events)) :
    Valid { s with queue := q', producer, log := s.log ++ events } := by
  have produced := produce_spec valid.holds valid.producing moved
  refine ⟨?_, produced.known, ?_, ?_, ?_⟩
  · rw [accepted_append]
    exact produced.holds
  · rw [accepted_append]
    exact valid.consuming.rely produced.head produced.tail (List.prefix_append _ _)
  · have within : s.queue.head ≤ (accepted s.log).length := by
      rw [valid.holds.count]
      exact valid.holds.items
    rw [accepted_append, returned_append, returned_silent produced.silent, List.append_nil,
      produced.head, List.take_append_of_le_length within]
    exact valid.returned
  · intro num arr done member
    rcases List.mem_append.mp member with before | now
    · exact valid.whole num arr done before
    · exact absurd now (produced.silent num arr done)

private theorem Valid.consume (valid : Valid s) {consumer : Consumer} {events : List Event}
    (moved : SpscQueue.consume s.queue s.consumer = some (q', consumer, events)) :
    Valid { s with queue := q', consumer, log := s.log ++ events } := by
  have consumed := consume_spec valid.holds valid.consuming moved
  have same : accepted (s.log ++ events) = accepted s.log := by
    rw [accepted_append, consumed.silent, List.append_nil]
  refine ⟨?_, valid.producing.rely consumed.head consumed.frame, ?_, ?_, ?_⟩
  · rw [same]
    exact consumed.holds
  · rw [same]
    exact consumed.known
  · rw [same, returned_append, valid.returned]
    exact consumed.returned.symm
  · intro num arr done member
    rcases List.mem_append.mp member with before | now
    · exact valid.whole num arr done before
    · exact consumed.whole num arr done now

theorem Valid.next (valid : Valid s) {action : Action} (moved : queues.next s action = some s') :
    Valid s' := by
  cases action with
  | push src =>
    simp only [queues] at moved
    split at moved
    · rename_i called
      cases moved
      exact { valid with producing := ⟨src, rfl, called.2⟩ }
    · cases moved
  | multiPush arr =>
    simp only [queues] at moved
    split at moved
    · rename_i called
      cases moved
      exact { valid with producing := ⟨arr, rfl, rfl, called.2.1, called.2.2⟩ }
    · cases moved
  | pop =>
    simp only [queues] at moved
    split at moved
    · cases moved
      exact { valid with consuming := rfl }
    · cases moved
  | multiPop num =>
    simp only [queues] at moved
    split at moved
    · cases moved
      exact { valid with consuming := rfl }
    · cases moved
  | produce =>
    simp only [queues, Option.bind_eq_bind, Option.bind_eq_some_iff] at moved
    obtain ⟨⟨queue, producer, events⟩, produced, same⟩ := moved
    cases same
    exact valid.produce produced
  | consume =>
    simp only [queues, Option.bind_eq_bind, Option.bind_eq_some_iff] at moved
    obtain ⟨⟨queue, consumer, events⟩, consumed, same⟩ := moved
    cases same
    exact valid.consume consumed

theorem reachable_valid (reached : queues.Reachable s) : Valid s :=
  reached.invariant (fun _ begins => .start begins)
    (fun _ _ _ _ valid moved => valid.next moved)

/-- The index whose cell the next step of the producer writes. -/
def storing : Producer → Option Nat
  | .pushStoreItem _ tail => some tail
  | .multiPushStoreItem _ _ tail i => some (add64 tail i)
  | _ => none

/-- The producer writes behind the tail, and less than a capacity behind the head. -/
private theorem Producing.storing_behind {producer : Producer} {index : Nat}
    (known : Producing q producer) (stores : storing producer = some index) :
    q.tail ≤ index ∧ index < q.head + 2 ^ q.capLog2 := by
  cases producer with
  | pushStoreItem src tail =>
    obtain ⟨rfl, ready⟩ := known
    cases stores
    exact ⟨Nat.le_refl _, ready.room⟩
  | multiPushStoreItem arr num tail i =>
    obtain ⟨rfl, rfl, more, fits, ready⟩ := known
    have sum : add64 q.tail i = q.tail + i := add64_eq (by omega)
    have room := ready.room
    rw [storing, sum] at stores
    cases stores
    omega
  | _ => cases stores

/-- The queue is a first-in first-out queue, however the steps of the producer and of the
consumer alternate. In every reachable state at most the capacity of items is in it; the
items returned are the first ones of those accepted; `tail` and `head` count the items of
whole calls, and a pop returns all the items it was asked for or none; and the producer
never writes to a cell whose item the consumer has not released. -/
theorem spsc_queue_is_fifo (reached : queues.Reachable s) :
    let q := s.queue
    (q.head ≤ q.tail ∧ q.tail ≤ q.head + cap q) ∧ returned s.log <+: accepted s.log ∧
      q.tail = (accepted s.log).length ∧ q.head = (returned s.log).length ∧
      (∀ num arr done, Event.pop num arr done ∈ s.log →
        if done then arr.length = num else arr = []) ∧
      ∀ index, storing s.producer = some index → q.tail ≤ index ∧
        ∀ held, q.head ≤ held → held < q.tail → held &&& mask q ≠ index &&& mask q := by
  have valid := reachable_valid reached
  have holds := valid.holds
  have sized := holds.toSized
  refine ⟨⟨holds.items, ?_⟩, ?_, holds.count.symm, ?_, valid.whole, ?_⟩
  · rw [sized.cap_eq]
    exact holds.room
  · rw [valid.returned]
    exact List.take_prefix _ _
  · rw [valid.returned, List.length_take, holds.count, Nat.min_eq_left holds.items]
  · intro index stores
    obtain ⟨behind, within⟩ := valid.producing.storing_behind stores
    refine ⟨behind, fun held low high => ?_⟩
    rw [sized.mask_eq, sized.mask_eq]
    exact mod_ne_of_window s.queue.head (by omega) low (by omega) (by omega) within

/-- Two items go in together, and the first one comes out. -/
theorem spsc_queue_is_fifo_applies :
    ∃ s, queues.Reachable s ∧ s.log = [.push [[1], [2]] true, .pop 1 [[1]] true] ∧
      returned s.log <+: accepted s.log := by
  have begins : queues.initial ⟨init [0, 0] 1 1, .idle, .idle, []⟩ :=
    ⟨⟨[0, 0], 1, 1, by decide, by decide, by decide, rfl⟩, rfl, rfl, rfl⟩
  have replayed : queues.replay ⟨init [0, 0] 1 1, .idle, .idle, []⟩
      ([.multiPush [[1], [2]]] ++ List.replicate 5 .produce ++ [.pop] ++ List.replicate 4 .consume) =
        some ⟨⟨[1, 2], 1, 1, 1, 2⟩, .idle, .idle, [.push [[1], [2]] true, .pop 1 [[1]] true]⟩ := by
    decide
  have reached := (System.Reachable.start begins).replay _ replayed
  exact ⟨_, reached, rfl, (spsc_queue_is_fifo reached).2.1⟩

end Mysnips.SpscQueue

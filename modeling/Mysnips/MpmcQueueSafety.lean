import Mathlib.Data.List.Nodup
import Mysnips.MpmcQueue
import Mysnips.RingSlots

/-! Safety of the multiple-producer multiple-consumer queue. The invariant has a part
about the shared queue and a part about each thread; what the steps of one thread
guarantee is what the parts of the others rely on. The counters only grow, and the
thread that acquired an index is the only one to move a counter past it. -/
namespace Mysnips.MpmcQueue
open Machine Memory RingSlots Transition

variable {Thread : Type}

/-! ### The invariant -/

/-- What the log records of the acquired and of the released indices. -/
structure History (Thread : Type) where
  acquiredPushes : List (Nat × Thread × Item)
  acquiredPops : List (Nat × Thread)
  pushes : List Nat
  pops : List (Nat × Item)

def history (log : List (Event Thread)) : History Thread :=
  ⟨acquiredPushes log, acquiredPops log, pushes log, pops log⟩

/-- The item in the cell of an index. -/
def Queue.itemAt (q : Queue) (index : Nat) : Option Item := item q.base q.cell q.size index

/-- The shared part of the invariant. Every counter is the number of indices recorded
for it, and the items between `temp_head` and `tail` are the pushed ones. -/
structure Shared (q : Queue) (h : History Thread) : Prop where
  positive : 0 < q.cell
  whole : q.base.length = q.cell * q.size
  small : q.base.length < 2 ^ 31
  popsReleased : q.tempHead ≤ q.head
  items : q.head ≤ q.tail
  pushesReleased : q.tail ≤ q.tempTail
  room : q.tempTail ≤ q.tempHead + q.size
  acquiredPushes : h.acquiredPushes.map Prod.fst = List.range q.tempTail
  acquiredPops : h.acquiredPops.map Prod.fst = List.range q.head
  pushes : h.pushes = List.range q.tail
  pops : h.pops.map Prod.fst = List.range q.tempHead
  popped : ∀ {i dst}, (i, dst) ∈ h.pops → ∃ pusher, (i, pusher, dst) ∈ h.acquiredPushes
  stored : ∀ {i}, q.tempHead ≤ i → i < q.tail →
    ∃ pusher src, (i, pusher, src) ∈ h.acquiredPushes ∧ q.itemAt i = some src

/-- The part of the invariant about a thread, by its next access. -/
def Local (q : Queue) (h : History Thread) (thread : Thread) : Pc → Prop
  | .idle => True
  | .loadTempTail src => src.length = q.cell
  | .loadTempHead src oldTempTail => src.length = q.cell ∧ oldTempTail ≤ q.tempTail
  | .exchangeTempTail src oldTempTail newTempTail =>
    src.length = q.cell ∧ oldTempTail < q.tempHead + q.size ∧ newTempTail = oldTempTail + 1
  | .copyIn src index =>
    src.length = q.cell ∧ q.tail ≤ index ∧ index < q.tempTail ∧
      (index, thread, src) ∈ h.acquiredPushes
  | .awaitTail index =>
    q.tail ≤ index ∧ index < q.tempTail ∧
      ∃ src, (index, thread, src) ∈ h.acquiredPushes ∧ q.itemAt index = some src
  | .incrementTail index =>
    q.tail = index ∧ index < q.tempTail ∧
      ∃ src, (index, thread, src) ∈ h.acquiredPushes ∧ q.itemAt index = some src
  | .loadHead => True
  | .loadTail oldHead => oldHead ≤ q.head
  | .exchangeHead oldHead newHead => oldHead < q.tail ∧ newHead = oldHead + 1
  | .copyOut index =>
    q.tempHead ≤ index ∧ index < q.head ∧ (index, thread) ∈ h.acquiredPops
  | .awaitTempHead index dst =>
    q.tempHead ≤ index ∧ index < q.head ∧ (index, thread) ∈ h.acquiredPops ∧
      ∃ pusher, (index, pusher, dst) ∈ h.acquiredPushes
  | .incrementTempHead index dst =>
    q.tempHead = index ∧ index < q.head ∧ (index, thread) ∈ h.acquiredPops ∧
      ∃ pusher, (index, pusher, dst) ∈ h.acquiredPushes

/-- What a step of a thread leaves to the others: the counters grow, and no counter
passes, and no copy touches, an index that another thread holds. -/
structure Guarantee (thread : Thread) (q : Queue) (h : History Thread) (q' : Queue)
    (h' : History Thread) : Prop where
  size : q'.size = q.size
  cell : q'.cell = q.cell
  tempHead : q.tempHead ≤ q'.tempHead
  head : q.head ≤ q'.head
  tail : q.tail ≤ q'.tail
  tempTail : q.tempTail ≤ q'.tempTail
  acquiredPushes : ∀ {entry}, entry ∈ h.acquiredPushes → entry ∈ h'.acquiredPushes
  acquiredPops : ∀ {entry}, entry ∈ h.acquiredPops → entry ∈ h'.acquiredPops
  pushing : ∀ {i other src}, other ≠ thread → (i, other, src) ∈ h.acquiredPushes →
    q.tail ≤ i → q'.tail ≤ i
  popping : ∀ {i other}, other ≠ thread → (i, other) ∈ h.acquiredPops →
    q.tempHead ≤ i → q'.tempHead ≤ i
  items : ∀ {i other src}, other ≠ thread → (i, other, src) ∈ h.acquiredPushes →
    q.tail ≤ i → i < q.tempTail → q'.itemAt i = q.itemAt i

variable {thread other : Thread} {q q' : Queue} {h h' : History Thread}

theorem Guarantee.refl : Guarantee thread q h q h where
  size := rfl
  cell := rfl
  tempHead := Nat.le_refl _
  head := Nat.le_refl _
  tail := Nat.le_refl _
  tempTail := Nat.le_refl _
  acquiredPushes := id
  acquiredPops := id
  pushing _ _ := id
  popping _ _ := id
  items _ _ _ _ := rfl

/-- The part of a thread holds on while the others step. -/
theorem Local.rely {pc : Pc} (held : Local q h other pc) (guarantee : Guarantee thread q h q' h')
    (different : other ≠ thread) : Local q' h' other pc := by
  have tempHead := guarantee.tempHead
  have head := guarantee.head
  have tail := guarantee.tail
  have tempTail := guarantee.tempTail
  cases pc with
  | idle => trivial
  | loadTempTail src => exact held.trans guarantee.cell.symm
  | loadTempHead src oldTempTail =>
    exact ⟨held.1.trans guarantee.cell.symm, held.2.trans tempTail⟩
  | exchangeTempTail src oldTempTail newTempTail =>
    obtain ⟨length, below, next⟩ := held
    refine ⟨length.trans guarantee.cell.symm, ?_, next⟩
    rw [guarantee.size]
    omega
  | copyIn src index =>
    obtain ⟨length, low, high, acquired⟩ := held
    exact ⟨length.trans guarantee.cell.symm, guarantee.pushing different acquired low,
      by omega, guarantee.acquiredPushes acquired⟩
  | awaitTail index =>
    obtain ⟨low, high, src, acquired, stored⟩ := held
    exact ⟨guarantee.pushing different acquired low, by omega, src,
      guarantee.acquiredPushes acquired, (guarantee.items different acquired low high).trans stored⟩
  | incrementTail index =>
    obtain ⟨rfl, high, src, acquired, stored⟩ := held
    have stays := guarantee.pushing different acquired (Nat.le_refl _)
    exact ⟨by omega, by omega, src, guarantee.acquiredPushes acquired,
      (guarantee.items different acquired (Nat.le_refl _) high).trans stored⟩
  | loadHead => trivial
  | loadTail oldHead => exact Nat.le_trans held head
  | exchangeHead oldHead newHead => exact ⟨by have below := held.1; omega, held.2⟩
  | copyOut index =>
    obtain ⟨low, high, acquired⟩ := held
    exact ⟨guarantee.popping different acquired low, by omega, guarantee.acquiredPops acquired⟩
  | awaitTempHead index dst =>
    obtain ⟨low, high, acquired, pusher, pushed⟩ := held
    exact ⟨guarantee.popping different acquired low, by omega, guarantee.acquiredPops acquired,
      pusher, guarantee.acquiredPushes pushed⟩
  | incrementTempHead index dst =>
    obtain ⟨rfl, high, acquired, pusher, pushed⟩ := held
    have stays := guarantee.popping different acquired (Nat.le_refl _)
    exact ⟨by omega, by omega, guarantee.acquiredPops acquired, pusher,
      guarantee.acquiredPushes pushed⟩

/-! ### Changes of the queue -/

/-- Only one thread acquires an index for a push. -/
theorem Shared.pusher_unique (shared : Shared q h) {i : Nat} {src src' : Item}
    (acquired : (i, thread, src) ∈ h.acquiredPushes)
    (acquired' : (i, other, src') ∈ h.acquiredPushes) : thread = other ∧ src = src' := by
  have distinct : (h.acquiredPushes.map Prod.fst).Nodup := by
    rw [shared.acquiredPushes]
    exact List.nodup_range
  have same := List.inj_on_of_nodup_map distinct acquired acquired' rfl
  simpa using same

/-- Only one thread acquires an index for a pop. -/
theorem Shared.popper_unique (shared : Shared q h) {i : Nat}
    (acquired : (i, thread) ∈ h.acquiredPops) (acquired' : (i, other) ∈ h.acquiredPops) :
    thread = other := by
  have distinct : (h.acquiredPops.map Prod.fst).Nodup := by
    rw [shared.acquiredPops]
    exact List.nodup_range
  have same := List.inj_on_of_nodup_map distinct acquired acquired' rfl
  simpa using same

/-- The exchange of `temp_tail`. -/
theorem Shared.acquirePush (shared : Shared q h) (below : q.tempTail < q.tempHead + q.size)
    (src : Item) :
    let q' := { q with tempTail := q.tempTail + 1 }
    let h' := { h with acquiredPushes := h.acquiredPushes ++ [(q.tempTail, thread, src)] }
    Shared q' h' ∧ Guarantee thread q h q' h' := by
  have kept : ∀ {entry}, entry ∈ h.acquiredPushes →
      entry ∈ h.acquiredPushes ++ [(q.tempTail, thread, src)] := List.mem_append_left _
  refine ⟨{ shared with
      pushesReleased := Nat.le_succ_of_le shared.pushesReleased
      room := below
      acquiredPushes := ?_
      popped := ?_
      stored := ?_ },
    { Guarantee.refl with
      tempTail := Nat.le_succ _
      acquiredPushes := kept
      items := fun _ _ _ _ => rfl }⟩
  · rw [List.map_append, shared.acquiredPushes, List.range_succ]
    rfl
  · intro i dst popped
    obtain ⟨pusher, acquired⟩ := shared.popped popped
    exact ⟨pusher, kept acquired⟩
  · intro i low high
    obtain ⟨pusher, src, acquired, stored⟩ := shared.stored low high
    exact ⟨pusher, src, kept acquired, stored⟩

/-- The copy of an item into the queue. -/
theorem Shared.copyIn (shared : Shared q h) {index : Nat} {src : Item}
    (length : src.length = q.cell) (low : q.tail ≤ index) (high : index < q.tempTail)
    (acquired : (index, thread, src) ∈ h.acquiredPushes) :
    ∃ base, store q.base (slot q.cell q.size index) src = some base ∧
      Shared { q with base } h ∧ Guarantee thread q h { q with base } h ∧
      Queue.itemAt { q with base } index = some src := by
  have released := shared.popsReleased
  have items := shared.items
  have room := shared.room
  obtain ⟨base, stored, same, read, apart⟩ := write_item (by omega) shared.whole length index
  refine ⟨base, stored, { shared with
      whole := same.trans shared.whole
      small := same.symm ▸ shared.small
      stored := ?_ },
    { Guarantee.refl with items := ?_ }, read⟩
  · intro i (lowI : q.tempHead ≤ i) (highI : i < q.tail)
    obtain ⟨pusher, value, owned, holds⟩ := shared.stored lowI highI
    have elsewhere : i % q.size ≠ index % q.size :=
      mod_ne_of_window q.tempHead (by omega) lowI (by omega) (by omega) (by omega)
    exact ⟨pusher, value, owned, (apart i elsewhere).trans holds⟩
  · intro i other value different owned lowI highI
    have distinct : i ≠ index := by
      rintro rfl
      exact different (shared.pusher_unique owned acquired).1
    exact apart i (mod_ne_of_window q.tempHead distinct (by omega)
      (by omega) (by omega) (by omega))

/-- The increment of `tail`. -/
theorem Shared.publish (shared : Shared q h) {src : Item} (high : q.tail < q.tempTail)
    (acquired : (q.tail, thread, src) ∈ h.acquiredPushes) (holds : q.itemAt q.tail = some src) :
    let q' := { q with tail := q.tail + 1 }
    let h' := { h with pushes := h.pushes ++ [q.tail] }
    Shared q' h' ∧ Guarantee thread q h q' h' := by
  refine ⟨{ shared with
      items := Nat.le_succ_of_le shared.items
      pushesReleased := high
      pushes := ?_
      stored := ?_ },
    { Guarantee.refl with
      tail := Nat.le_succ _
      pushing := ?_
      items := fun _ _ _ _ => rfl }⟩
  · rw [List.range_succ, shared.pushes]
  · intro i low below
    rcases Nat.lt_succ_iff_lt_or_eq.mp below with before | rfl
    · exact shared.stored low before
    · exact ⟨thread, src, acquired, holds⟩
  · intro i other value different owned low
    have distinct : i ≠ q.tail := by
      rintro rfl
      exact different (shared.pusher_unique owned acquired).1
    simp only
    omega

/-- The exchange of `head`. -/
theorem Shared.acquirePop (shared : Shared q h) (below : q.head < q.tail) :
    let q' := { q with head := q.head + 1 }
    let h' := { h with acquiredPops := h.acquiredPops ++ [(q.head, thread)] }
    Shared q' h' ∧ Guarantee thread q h q' h' := by
  refine ⟨{ shared with
      popsReleased := Nat.le_succ_of_le shared.popsReleased
      items := below
      acquiredPops := ?_ },
    { Guarantee.refl with
      head := Nat.le_succ _
      acquiredPops := List.mem_append_left _ }⟩
  rw [List.map_append, shared.acquiredPops, List.range_succ]
  rfl

/-- The increment of `temp_head`. -/
theorem Shared.release (shared : Shared q h) {dst : Item} {pusher : Thread}
    (high : q.tempHead < q.head) (acquired : (q.tempHead, thread) ∈ h.acquiredPops)
    (pushed : (q.tempHead, pusher, dst) ∈ h.acquiredPushes) :
    let q' := { q with tempHead := q.tempHead + 1 }
    let h' := { h with pops := h.pops ++ [(q.tempHead, dst)] }
    Shared q' h' ∧ Guarantee thread q h q' h' := by
  have room := shared.room
  refine ⟨{ shared with
      popsReleased := high
      room := by simp only; omega
      pops := ?_
      popped := ?_
      stored := fun low below => shared.stored (Nat.le_of_succ_le low) below },
    { Guarantee.refl with
      tempHead := Nat.le_succ _
      popping := ?_ }⟩
  · rw [List.map_append, shared.pops, List.range_succ]
    rfl
  · intro i value popped
    rcases List.mem_append.mp popped with before | last
    · exact shared.popped before
    · cases List.mem_singleton.mp last
      exact ⟨pusher, pushed⟩
  · intro i other different owned low
    have distinct : i ≠ q.tempHead := by
      rintro rfl
      exact different (shared.popper_unique owned acquired)
    simp only
    omega

/-! ### Steps -/

/-- The address of an item is the start of its cell. -/
theorem Shared.itemAddr_eq (shared : Shared q h) (positive : 0 < q.size) {index : Nat}
    (small : index < 2 ^ 31) : itemAddr q index = slot q.cell q.size index := by
  have fits := shared.small
  rw [shared.whole] at fits
  rw [itemAddr_exact positive (by omega), int32_natCast small, ofInt_natCast (by omega), slot]

/-- The invariant of the queue and its threads. -/
structure Valid (s : State Thread) : Prop where
  shared : Shared s.queue (history s.log)
  threads : ∀ thread, Local s.queue (history s.log) thread (s.pc thread)

section Log

variable (log : List (Event Thread)) (thread : Thread) (index : Nat) (item : Item)

@[simp] theorem history_acquiredPush : history (log ++ [.acquiredPush thread index item]) =
    { history log with
      acquiredPushes := (history log).acquiredPushes ++ [(index, thread, item)] } := by
  simp [history, acquiredPushes, acquiredPops, pushes, pops]

@[simp] theorem history_acquiredPop : history (log ++ [.acquiredPop thread index]) =
    { history log with acquiredPops := (history log).acquiredPops ++ [(index, thread)] } := by
  simp [history, acquiredPushes, acquiredPops, pushes, pops]

@[simp] theorem history_pushed : history (log ++ [.pushed thread index]) =
    { history log with pushes := (history log).pushes ++ [index] } := by
  simp [history, acquiredPushes, acquiredPops, pushes, pops]

@[simp] theorem history_popped : history (log ++ [.popped thread index item]) =
    { history log with pops := (history log).pops ++ [(index, item)] } := by
  simp [history, acquiredPushes, acquiredPops, pushes, pops]

@[simp] theorem history_full : history (log ++ [.full thread]) = history log := by
  simp [history, acquiredPushes, acquiredPops, pushes, pops]

@[simp] theorem history_empty : history (log ++ [.empty thread]) = history log := by
  simp [history, acquiredPushes, acquiredPops, pushes, pops]

end Log

/-- What one step of a thread does: it does not fault, keeps the shared part, gives the
thread its next part and guarantees the others theirs; and it reports a full or an empty
queue only when the queue is full or empty. -/
structure Steps (thread : Thread) (q : Queue) (log : List (Event Thread))
    (result : Option (Queue × Pc × List (Event Thread))) : Prop where
  taken : ∃ q' pc events, result = some (q', pc, events) ∧
    Shared q' (history (log ++ events)) ∧ Local q' (history (log ++ events)) thread pc ∧
    Guarantee thread q (history log) q' (history (log ++ events)) ∧
    (Event.full thread ∈ events → q.tempTail = q.tempHead + q.size) ∧
    (Event.empty thread ∈ events → q.head = q.tail)

variable {log : List (Event Thread)}

/-- A step that only reads. -/
private theorem Steps.read {pc : Pc} (shared : Shared q (history log))
    (held : Local q (history log) thread pc) : Steps thread q log (some (q, pc, [])) :=
  ⟨q, pc, [], rfl, by rwa [List.append_nil], by rwa [List.append_nil],
    by rw [List.append_nil]; exact .refl, by simp, by simp⟩

/-- A step that reports a full queue. -/
private theorem Steps.full (shared : Shared q (history log))
    (full : q.tempTail = q.tempHead + q.size) :
    Steps thread q log (some (q, .idle, [.full thread])) :=
  ⟨q, .idle, _, rfl, by rwa [history_full], trivial, by rw [history_full]; exact .refl,
    fun _ => full, by simp⟩

/-- A step that reports an empty queue. -/
private theorem Steps.empty (shared : Shared q (history log)) (empty : q.head = q.tail) :
    Steps thread q log (some (q, .idle, [.empty thread])) :=
  ⟨q, .idle, _, rfl, by rwa [history_empty], trivial, by rw [history_empty]; exact .refl, by simp,
    fun _ => empty⟩

/-- A step that changes the queue and records it. -/
private theorem Steps.change {pc : Pc} {event : Event Thread}
    (recorded : history (log ++ [event]) = h')
    (changed : Shared q' h' ∧ Guarantee thread q (history log) q' h')
    (held : Local q' h' thread pc) (notFull : event ≠ .full thread)
    (notEmpty : event ≠ .empty thread) : Steps thread q log (some (q', pc, [event])) := by
  refine ⟨q', pc, [event], rfl, ?_, ?_, ?_, ?_, ?_⟩
  · rw [recorded]
    exact changed.1
  · rw [recorded]
    exact held
  · rw [recorded]
    exact changed.2
  · exact fun member => absurd (List.mem_singleton.mp member).symm notFull
  · exact fun member => absurd (List.mem_singleton.mp member).symm notEmpty

/-- Every step of every thread. -/
theorem advance_spec {pc : Pc} (shared : Shared q (history log))
    (few : q.tempTail < 2 ^ 31) (held : Local q (history log) thread pc) (busy : pc ≠ .idle)
    (spurious : Bool) : Steps thread q log (advance thread spurious q pc) := by
  have positive := shared.positive
  have released := shared.popsReleased
  have items := shared.items
  have pushesReleased := shared.pushesReleased
  have room := shared.room
  have sizeSmall : q.size < 2 ^ 31 := by
    have whole := shared.whole
    have small := shared.small
    have le := Nat.le_mul_of_pos_left q.size positive
    omega
  cases pc with
  | idle => exact absurd rfl busy
  | loadTempTail src => exact .read shared ⟨held, Nat.le_refl _⟩
  | loadTempHead src oldTempTail =>
    obtain ⟨length, old⟩ := held
    have sum : add64 q.tempHead q.size = q.tempHead + q.size := add64_eq (by omega)
    have next : add64 oldTempTail 1 = oldTempTail + 1 := add64_eq (by omega)
    simp only [advance, sum, next]
    by_cases full : q.tempHead + q.size = oldTempTail
    · rw [if_pos full]
      exact .full shared (by omega)
    · rw [if_neg full, if_pos (by omega)]
      exact .read shared ⟨length, by omega, rfl⟩
  | exchangeTempTail src oldTempTail newTempTail =>
    obtain ⟨length, below, rfl⟩ := held
    simp only [advance]
    by_cases exchanged : q.tempTail = oldTempTail ∧ spurious = false
    · rw [if_pos exchanged, ← exchanged.1]
      rw [← exchanged.1] at below
      rw [if_neg (show ¬ q.tempTail = 2 ^ 64 - 1 by omega)]
      refine .change (history_acquiredPush _ _ _ _) (shared.acquirePush below src) ?_ nofun nofun
      exact ⟨length, pushesReleased, Nat.lt_succ_self _, List.mem_append_right _ List.mem_cons_self⟩
    · rw [if_neg exchanged]
      exact .read shared length
  | copyIn src index =>
    obtain ⟨length, low, high, acquired⟩ := held
    obtain ⟨base, stored, shared', guarantee, holds⟩ := shared.copyIn length low high acquired
    simp only [advance, shared.itemAddr_eq (show 0 < q.size by omega) (show index < 2 ^ 31 by omega),
      stored, Option.bind_eq_bind, Option.bind_some]
    exact ⟨_, _, _, rfl, by rwa [List.append_nil],
      by rw [List.append_nil]; exact ⟨low, high, src, acquired, holds⟩, by rwa [List.append_nil],
      by simp, by simp⟩
  | awaitTail index =>
    obtain ⟨low, high, stored⟩ := held
    simp only [advance]
    by_cases waits : q.tail ≠ index
    · rw [if_pos waits]
      exact .read shared ⟨low, high, stored⟩
    · rw [if_neg waits]
      exact .read shared ⟨not_not.mp waits, high, stored⟩
  | incrementTail index =>
    obtain ⟨rfl, high, src, acquired, holds⟩ := held
    simp only [advance, add64_eq (show q.tail + 1 < 2 ^ 64 by omega)]
    exact .change (history_pushed _ _ _) (shared.publish high acquired holds) trivial nofun nofun
  | loadHead => exact .read shared (Nat.le_refl q.head)
  | loadTail oldHead =>
    have old : oldHead ≤ q.head := held
    have next : add64 oldHead 1 = oldHead + 1 := add64_eq (by omega)
    simp only [advance, next]
    by_cases empty : oldHead = q.tail
    · rw [if_pos empty]
      exact .empty shared (by omega)
    · rw [if_neg empty, if_pos (by omega)]
      exact .read shared ⟨by omega, rfl⟩
  | exchangeHead oldHead newHead =>
    obtain ⟨below, rfl⟩ := held
    simp only [advance]
    by_cases exchanged : q.head = oldHead ∧ spurious = false
    · rw [if_pos exchanged, ← exchanged.1]
      rw [← exchanged.1] at below
      rw [if_neg (show ¬ q.head = 2 ^ 64 - 1 by omega)]
      refine .change (history_acquiredPop _ _ _) (shared.acquirePop below) ?_ nofun nofun
      exact ⟨released, Nat.lt_succ_self _, List.mem_append_right _ List.mem_cons_self⟩
    · rw [if_neg exchanged]
      exact .read shared trivial
  | copyOut index =>
    obtain ⟨low, high, acquired⟩ := held
    obtain ⟨pusher, src, pushed, holds⟩ := shared.stored low (show index < q.tail by omega)
    have loaded : load q.base (slot q.cell q.size index) q.cell = some src := holds
    simp only [advance, shared.itemAddr_eq (show 0 < q.size by omega) (show index < 2 ^ 31 by omega),
      loaded, Option.bind_eq_bind, Option.bind_some]
    exact .read shared ⟨low, high, acquired, pusher, pushed⟩
  | awaitTempHead index dst =>
    obtain ⟨low, high, popped⟩ := held
    simp only [advance]
    by_cases waits : q.tempHead ≠ index
    · rw [if_pos waits]
      exact .read shared ⟨low, high, popped⟩
    · rw [if_neg waits]
      exact .read shared ⟨not_not.mp waits, high, popped⟩
  | incrementTempHead index dst =>
    obtain ⟨rfl, high, acquired, pusher, pushed⟩ := held
    simp only [advance, add64_eq (show q.tempHead + 1 < 2 ^ 64 by omega)]
    exact .change (history_popped _ _ _ _) (shared.release high acquired pushed) trivial nofun nofun

/-- A copy into the queue reuses the cell of released indices only. -/
private theorem Valid.copyIn_released {s : State Thread} (valid : Valid s)
    (few : s.queue.tempTail < 2 ^ 31) {src : Item} {i j : Nat} (copies : s.pc thread = .copyIn src i)
    (earlier : j < i) (same : itemAddr s.queue j = itemAddr s.queue i) : j < s.queue.tempHead := by
  have shared := valid.shared
  have released := shared.popsReleased
  have items := shared.items
  have room := shared.room
  have held := valid.threads thread
  rw [copies] at held
  obtain ⟨_, low, high, _⟩ := held
  rw [shared.itemAddr_eq (by omega) (by omega), shared.itemAddr_eq (by omega) (by omega)] at same
  by_contra used
  exact mod_ne_of_window s.queue.tempHead (show j ≠ i by omega) (by omega) (by omega) (by omega)
    (by omega) (Nat.eq_of_mul_eq_mul_left shared.positive same)

/-! ### Runs -/

section Runs

variable [DecidableEq Thread] {s s' : State Thread}

/-- One thread moves on, the others rely on its guarantee. -/
private theorem Valid.update (valid : Valid s) {log' : List (Event Thread)} {pc : Pc}
    (shared : Shared q' (history log')) (held : Local q' (history log') thread pc)
    (guarantee : Guarantee thread s.queue (history s.log) q' (history log')) :
    Valid ⟨q', Function.update s.pc thread pc, log'⟩ := by
  refine ⟨shared, fun other => ?_⟩
  by_cases same : other = thread
  · subst same
    simpa only [Function.update_self] using held
  · simp only [Function.update_of_ne same]
    exact (valid.threads other).rely guarantee same

theorem Valid.start (begins : (queues Thread).initial s) : Valid s := by
  obtain ⟨⟨arr, cell, positive, _, small, created⟩, idle, silent⟩ := begins
  rw [init] at created
  split at created
  · rename_i divides
    have whole : arr.length = cell * (arr.length / cell) :=
      (Nat.mul_div_cancel' (Nat.dvd_of_mod_eq_zero divides)).symm
    obtain ⟨queue, pc, log⟩ := s
    cases created
    cases silent
    refine ⟨⟨positive, whole, small, ?_, ?_, ?_, ?_, rfl, rfl, rfl, rfl, ?_, ?_⟩, fun thread => ?_⟩
    · exact Nat.le_refl _
    · exact Nat.le_refl _
    · exact Nat.le_refl _
    · exact Nat.zero_le _
    · exact fun popped => absurd popped List.not_mem_nil
    · exact fun _ below => absurd below (Nat.not_lt_zero _)
    · rw [idle thread]
      trivial
  · cases created

theorem Valid.next (valid : Valid s) (few : s.queue.tempTail < 2 ^ 31) {action : Action Thread}
    (moved : (queues Thread).next s action = some s') : Valid s' := by
  cases action with
  | tryPush thread src =>
    simp only [queues] at moved
    split at moved
    · rename_i called
      cases moved
      exact valid.update valid.shared called.2 .refl
    · cases moved
  | tryPop thread =>
    simp only [queues] at moved
    split at moved
    · cases moved
      exact valid.update valid.shared trivial .refl
    · cases moved
  | step thread spurious =>
    simp only [queues] at moved
    by_cases idle : s.pc thread = .idle
    · rw [idle] at moved
      cases moved
    · obtain ⟨q', pc, events, advanced, shared, held, guarantee, _⟩ :=
        (advance_spec valid.shared few (valid.threads thread) idle spurious).taken
      rw [advanced] at moved
      cases moved
      exact valid.update shared held guarantee

/-- The log only grows. -/
theorem log_grows {action : Action Thread}
    (moved : (queues Thread).next s action = some s') : ∃ events, s'.log = s.log ++ events := by
  cases action with
  | tryPush thread src =>
    simp only [queues] at moved
    split at moved
    · cases moved
      exact ⟨[], (List.append_nil _).symm⟩
    · cases moved
  | tryPop thread =>
    simp only [queues] at moved
    split at moved
    · cases moved
      exact ⟨[], (List.append_nil _).symm⟩
    · cases moved
  | step thread spurious =>
    simp only [queues, Option.bind_eq_bind, Option.bind_eq_some_iff] at moved
    obtain ⟨⟨q', pc, events⟩, _, same⟩ := moved
    cases same
    exact ⟨events, rfl⟩

/-- The invariant holds in every run with fewer than `2 ^ 31` pushes. -/
theorem reachable_valid (reached : (queues Thread).Reachable s)
    (few : (acquiredPushes s.log).length < 2 ^ 31) : Valid s ∧ s.queue.tempTail < 2 ^ 31 := by
  have counted : ∀ {s : State Thread}, Valid s → (acquiredPushes s.log).length = s.queue.tempTail := by
    intro s valid
    have lengths := congrArg List.length valid.shared.acquiredPushes
    rwa [List.length_map, List.length_range] at lengths
  have valid : (acquiredPushes s.log).length < 2 ^ 31 → Valid s := by
    apply reached.invariant (P := fun s => (acquiredPushes s.log).length < 2 ^ 31 → Valid s)
    · exact fun s begins _ => .start begins
    · intro s action s' _ valid moved few
      obtain ⟨events, grown⟩ := log_grows moved
      rw [grown, acquiredPushes, List.filterMap_append, List.length_append] at few
      have before : (acquiredPushes s.log).length < 2 ^ 31 := by
        rw [acquiredPushes]
        omega
      exact (valid before).next (counted (valid before) ▸ before) moved
  exact ⟨valid few, counted (valid few) ▸ few⟩

/-- Safety of the queue. In every state that any number of threads reach in any order of
their steps, in a run with fewer than `2 ^ 31` pushes: the four counters are in order and
at most `size` indices are in use; no thread fails an assertion or copies outside the
array; the indices acquired for a push and for a pop are the first ones, each acquired
once; what was popped for an index is what was pushed for it, and the items between
`temp_head` and `tail` are in their cells; a copy into the queue goes to a cell whose
earlier indices have all been released, and a copy out of it reads a written one; and a
call reports a full or an empty queue in a step that finds it so. -/
theorem mpmc_queue_is_safe (reached : (queues Thread).Reachable s)
    (few : (acquiredPushes s.log).length < 2 ^ 31) :
    let q := s.queue
    (q.tempHead ≤ q.head ∧ q.head ≤ q.tail ∧ q.tail ≤ q.tempTail ∧
        q.tempTail ≤ q.tempHead + q.size) ∧
      (∀ thread spurious, s.pc thread ≠ .idle →
        ∃ s', (queues Thread).next s (.step thread spurious) = some s') ∧
      ((acquiredPushes s.log).map Prod.fst = List.range q.tempTail ∧
        (acquiredPops s.log).map Prod.fst = List.range q.head ∧
        pushes s.log = List.range q.tail ∧ (pops s.log).map Prod.fst = List.range q.tempHead) ∧
      (∀ i dst, (i, dst) ∈ pops s.log → ∃ pusher, (i, pusher, dst) ∈ acquiredPushes s.log) ∧
      (∀ i, q.tempHead ≤ i → i < q.tail → ∃ pusher src, (i, pusher, src) ∈ acquiredPushes s.log ∧
        load q.base (itemAddr q i) q.cell = some src) ∧
      (∀ thread src i, s.pc thread = .copyIn src i → (i, thread, src) ∈ acquiredPushes s.log ∧
        q.tail ≤ i ∧ ∀ j < i, itemAddr q j = itemAddr q i → j < q.tempHead) ∧
      (∀ thread i, s.pc thread = .copyOut i → (i, thread) ∈ acquiredPops s.log ∧
        q.tempHead ≤ i ∧ i < q.tail) ∧
      ∀ thread spurious s', (queues Thread).next s (.step thread spurious) = some s' →
        (s'.log = s.log ++ [.full thread] → q.tempTail = q.tempHead + q.size) ∧
          (s'.log = s.log ++ [.empty thread] → q.head = q.tail) := by
  obtain ⟨valid, few⟩ := reachable_valid reached few
  have shared := valid.shared
  have released := shared.popsReleased
  have items := shared.items
  have pushesReleased := shared.pushesReleased
  have room := shared.room
  have steps := fun thread (busy : s.pc thread ≠ .idle) spurious =>
    (advance_spec shared few (valid.threads thread) busy spurious).taken
  refine ⟨⟨released, items, pushesReleased, room⟩, ?_, ⟨shared.acquiredPushes, shared.acquiredPops,
    shared.pushes, shared.pops⟩, fun i dst => shared.popped, ?_, ?_, ?_, ?_⟩
  · intro thread spurious busy
    obtain ⟨q', pc, events, advanced, _⟩ := steps thread busy spurious
    exact ⟨⟨q', Function.update s.pc thread pc, s.log ++ events⟩, by simp [queues, advanced]⟩
  · intro i low high
    rw [shared.itemAddr_eq (by omega) (by omega)]
    exact shared.stored low high
  · intro thread src i copies
    have held := valid.threads thread
    rw [copies] at held
    exact ⟨held.2.2.2, held.2.1, fun j earlier same => valid.copyIn_released few copies earlier same⟩
  · intro thread i copies
    have held := valid.threads thread
    rw [copies] at held
    exact ⟨held.2.2, held.1, Nat.lt_of_lt_of_le held.2.1 items⟩
  · intro thread spurious s' moved
    by_cases idle : s.pc thread = .idle
    · simp only [queues, idle] at moved
      cases moved
    · obtain ⟨q', pc, events, advanced, _, _, _, full, empty⟩ := steps thread idle spurious
      simp only [queues, advanced, Option.bind_eq_bind, Option.bind_some, Option.some.injEq] at moved
      subst moved
      refine ⟨fun logged => full ?_, fun logged => empty ?_⟩
      · rw [List.append_cancel_left logged]
        exact List.mem_cons_self
      · rw [List.append_cancel_left logged]
        exact List.mem_cons_self

/-- One thread pushes into a queue of two items, another pops. -/
theorem mpmc_queue_is_safe_applies :
    ∃ s, (queues Bool).Reachable s ∧ pops s.log = [(0, [7])] ∧
      ∃ pusher, (0, pusher, [7]) ∈ acquiredPushes s.log := by
  have begins : (queues Bool).initial ⟨⟨0, 0, 0, 0, 2, 1, [0, 0]⟩, fun _ => .idle, []⟩ :=
    ⟨⟨[0, 0], 1, by decide, by decide, by decide, by decide⟩, fun _ => rfl, rfl⟩
  let run : List (Action Bool) := .tryPush true [7] :: List.replicate 6 (.step true false) ++
    .tryPop false :: List.replicate 6 (.step false false)
  have logged : ((queues Bool).replay ⟨⟨0, 0, 0, 0, 2, 1, [0, 0]⟩, fun _ => .idle, []⟩ run).map
      (fun s => s.log) = some [.acquiredPush true 0 [7], .pushed true 0, .acquiredPop false 0,
        .popped false 0 [7]] := by decide
  obtain ⟨s, replayed, log⟩ := Option.map_eq_some_iff.mp logged
  have reached := (System.Reachable.start begins).replay run replayed
  have popped : pops s.log = [(0, [7])] := by
    rw [log]
    decide
  obtain ⟨_, _, _, pushed, _⟩ := mpmc_queue_is_safe reached (by rw [log]; decide)
  exact ⟨s, reached, popped, pushed 0 [7] (by rw [popped]; exact List.mem_cons_self)⟩

end Runs

end Mysnips.MpmcQueue

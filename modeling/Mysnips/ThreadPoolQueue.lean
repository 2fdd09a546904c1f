import Mathlib.Algebra.Order.Group.Multiset
import Mathlib.Logic.Function.Basic
import Mysnips.RingSlots
import Mysnips.Totals
import Mysnips.Transition

/-! The queue of pending jobs of `thread/thread_pool.c`. Any number of threads run
`lock_free_queue_push` followed by a signal of the semaphore `pending`, and a wait
for that semaphore followed by `lock_free_queue_pop`; every atomic access and every
copy of an item is one step.

Two things go wrong. A push moves `tail` and signals whether or not the slots claimed
before its own have been filled, so that a pop can read a slot before its item is
there. And a pop recognises that nobody was faster by the index at `head`, which comes
round again after `size` pops. -/
namespace Mysnips.ThreadPoolQueue
open Memory RingSlots Totals Transition

/-- The bytes of an item. -/
abbrev Item : Type := List UInt8

/-- `struct lock_free_queue`, with the array behind `base`. -/
structure Queue where
  head : Nat
  tail : Nat
  temp : Nat
  size : Nat
  cell : Nat
  base : List UInt8
  deriving DecidableEq, Repr

/-- `lock_free_queue_init`. -/
def init (arr : List UInt8) (cell : Nat) : Option Queue :=
  if arr.length % cell = 0 then some ⟨0, 0, 0, arr.length / cell, cell, arr⟩ else none

/-- `item_addr`, as an offset from `base`. -/
def itemAddr (q : Queue) (index : Nat) : Option Nat :=
  if index < q.size then some (q.cell * index) else none

/-- `(index + 1) % q->size`. -/
def following (q : Queue) (index : Nat) : Option Nat :=
  if q.size = 0 then none else some ((index + 1) % q.size)

/-- The next access of a thread, with the locals it still needs: those of `create_job`
behind the free list, then those of `worker_routine`. Two values are not locals of the
source. `turn` counts the slots that were claimed before, and `copied` is the turn of the
item that was in the slot when a pop read it. -/
inductive Pc where
  | idle
  | loadTemp (src : Item)
  | exchangeTemp (src : Item) (oldTemp newTemp : Nat)
  | copyIn (src : Item) (index turn : Nat)
  | loadTail
  | exchangeTail (oldTail newTail : Nat)
  | signal
  | wait
  | loadHead
  | copyOut (oldHead newHead : Nat)
  | exchangeHead (oldHead newHead : Nat) (dst : Item) (copied : Option Nat)
  deriving DecidableEq, Repr

/-- What has happened: the items of the pushes that were called, the items in the order in
which their slots were claimed, the turns in the order in which their items were copied, how
often the semaphore was signaled and waited for, and what the pops returned, each with the
turn of the item it read. -/
structure History where
  called : List Item
  claimed : List Item
  copied : List Nat
  signals : Nat
  waits : Nat
  popped : List (Item × Option Nat)
  deriving DecidableEq, Repr

/-- The turn of the item in a slot, which is the last one that was copied there. -/
def History.inSlot (h : History) (size index : Nat) : Option Nat :=
  (h.copied.filter (· % size = index)).getLast?

/-- The queue, the semaphore, where each thread is, and what has happened. -/
structure State (Thread : Type) where
  queue : Queue
  pending : Nat
  pc : Thread → Pc
  history : History

/-- A call made by an idle thread, or the next step of a call. -/
inductive Action (Thread : Type) where
  | push (thread : Thread) (src : Item)
  | pop (thread : Thread)
  | step (thread : Thread) (spurious : Bool)

/-- The next step of a thread. A thread that waits for the semaphore has none while the
semaphore is zero, and a failed assertion has no result. The compare-exchange on `tail` is
a weak one, which may fail spuriously. -/
def advance (spurious : Bool) (q : Queue) (pending : Nat) (h : History) :
    Pc → Option (Queue × Nat × Pc × History)
  | .idle => none
  | .loadTemp src => do
    let newTemp ← following q q.temp
    some (q, pending, .exchangeTemp src q.temp newTemp, h)
  | .exchangeTemp src oldTemp newTemp =>
    if q.temp = oldTemp then
      some ({ q with temp := newTemp }, pending, .copyIn src oldTemp h.claimed.length,
        { h with claimed := h.claimed ++ [src] })
    else some (q, pending, .loadTemp src, h)
  | .copyIn src index turn => do
    let base ← store q.base (← itemAddr q index) src
    some ({ q with base }, pending, .loadTail, { h with copied := h.copied ++ [turn] })
  | .loadTail => do
    let newTail ← following q q.tail
    some (q, pending, .exchangeTail q.tail newTail, h)
  | .exchangeTail oldTail newTail =>
    if q.tail = oldTail ∧ spurious = false then
      some ({ q with tail := newTail }, pending, .signal, h)
    else some (q, pending, .loadTail, h)
  | .signal => some (q, pending + 1, .idle, { h with signals := h.signals + 1 })
  | .wait =>
    if 0 < pending then some (q, pending - 1, .loadHead, { h with waits := h.waits + 1 }) else none
  | .loadHead => do
    let newHead ← following q q.head
    some (q, pending, .copyOut q.head newHead, h)
  | .copyOut oldHead newHead => do
    let dst ← load q.base (← itemAddr q oldHead) q.cell
    some (q, pending, .exchangeHead oldHead newHead dst (h.inSlot q.size oldHead), h)
  | .exchangeHead oldHead newHead dst copied =>
    if q.head = oldHead then
      some ({ q with head := newHead }, pending, .idle, { h with popped := h.popped ++ [(dst, copied)] })
    else some (q, pending, .loadHead, h)

/-- Any number of threads on one queue. A push is called only while fewer than `size` of the
items pushed so far have not been popped. -/
def queues (Thread : Type) [DecidableEq Thread] : System (State Thread) (Action Thread) where
  initial s := (∃ arr cell, 0 < cell ∧ arr.length < 2 ^ 31 ∧ init arr cell = some s.queue) ∧
    s.pending = 0 ∧ (∀ thread, s.pc thread = .idle) ∧ s.history = ⟨[], [], [], 0, 0, []⟩
  next s action :=
    match action with
    | .push thread src =>
      if s.pc thread = .idle ∧ src.length = s.queue.cell ∧
          s.history.called.length < s.history.popped.length + s.queue.size then
        some { s with
          pc := Function.update s.pc thread (.loadTemp src)
          history := { s.history with called := s.history.called ++ [src] } }
      else none
    | .pop thread =>
      if s.pc thread = .idle then some { s with pc := Function.update s.pc thread .wait } else none
    | .step thread spurious => do
      let (queue, pending, pc, history) ←
        advance spurious s.queue s.pending s.history (s.pc thread)
      some ⟨queue, pending, Function.update s.pc thread pc, history⟩

/-- Each job is delivered once. The pops return the claimed items in their order, each read
after it was copied into its slot; and when no call is under way, every item that was pushed
has been claimed, and the semaphore announces exactly those that have not been popped. -/
structure Delivers {Thread : Type} (s : State Thread) : Prop where
  popped : ∀ (turn : Nat) dst copied, s.history.popped[turn]? = some (dst, copied) →
    copied = some turn ∧ s.history.claimed[turn]? = some dst
  all : (∀ thread, s.pc thread = .idle) → s.history.claimed.Perm s.history.called ∧
    s.history.claimed.length = s.history.popped.length + s.pending

/-- A step that does not go wrong. A signal finds the items announced so far and one more
copied, in the order of their slots; and a pop whose exchange is about to succeed finds in
the slot the item that it has read. -/
def Pc.Timely (q : Queue) (h : History) : Pc → Prop
  | .signal => ∀ turn < h.signals + 1, turn ∈ h.copied
  | .exchangeHead oldHead _ _ copied => q.head = oldHead → h.inSlot q.size oldHead = copied
  | _ => True

instance (q : Queue) (h : History) : (pc : Pc) → Decidable (pc.Timely q h)
  | .signal => inferInstanceAs (Decidable (∀ turn < h.signals + 1, turn ∈ h.copied))
  | .exchangeHead oldHead _ _ copied =>
    inferInstanceAs (Decidable (q.head = oldHead → h.inSlot q.size oldHead = copied))
  | .idle | .loadTemp _ | .exchangeTemp _ _ _ | .copyIn _ _ _ | .loadTail | .exchangeTail _ _
  | .wait | .loadHead | .copyOut _ _ => isTrue trivial

def Timely {Thread : Type} (s : State Thread) : Action Thread → Prop
  | .step thread _ => (s.pc thread).Timely s.queue s.history
  | _ => True

instance {Thread : Type} (s : State Thread) : (action : Action Thread) → Decidable (Timely s action)
  | .step thread _ => inferInstanceAs (Decidable ((s.pc thread).Timely s.queue s.history))
  | .push _ _ => isTrue trivial
  | .pop _ => isTrue trivial

/-! ## The invariant -/

/-- The item of a push that has not claimed its slot. -/
def Pc.unclaimed : Pc → Multiset Item
  | .loadTemp src => {src}
  | .exchangeTemp src _ _ => {src}
  | _ => 0

/-- A push that has claimed its slot and has not signaled. -/
def Pc.silent : Pc → Nat
  | .copyIn _ _ _ => 1
  | .loadTail => 1
  | .exchangeTail _ _ => 1
  | .signal => 1
  | _ => 0

/-- A pop that has waited for the semaphore. -/
def Pc.popping : Pc → Nat
  | .loadHead => 1
  | .copyOut _ _ => 1
  | .exchangeHead _ _ _ _ => 1
  | _ => 0

/-- What a thread adds to the counts. -/
def Pc.weights (pc : Pc) : Multiset Item × Nat × Nat := (pc.unclaimed, pc.silent, pc.popping)

/-- The turn that a push is about to copy. -/
def Pc.filling : Pc → Option Nat
  | .copyIn _ _ turn => some turn
  | _ => none

/-- The item in the slot of a turn. -/
def Queue.itemAt (q : Queue) (turn : Nat) : Option Item := item q.base q.cell q.size turn

/-- The shared part. The items that have been announced are copied, and what is copied
stays in its slot until it is popped. -/
structure Shared (q : Queue) (h : History) : Prop where
  whole : q.base.length = q.cell * q.size
  temp : q.temp = h.claimed.length % q.size
  head : q.head = h.popped.length % q.size
  room : h.called.length ≤ h.popped.length + q.size
  announced : ∀ turn < h.signals, turn ∈ h.copied
  claimed : ∀ turn ∈ h.copied, turn < h.claimed.length
  stored : ∀ turn ∈ h.copied, h.popped.length ≤ turn →
    q.itemAt turn = h.claimed[turn]? ∧ h.inSlot q.size (turn % q.size) = some turn
  popped : ∀ (turn : Nat) dst copied, h.popped[turn]? = some (dst, copied) →
    copied = some turn ∧ h.claimed[turn]? = some dst

/-- The calls that are under way account for the differences between the counts. -/
structure Counted {Thread : Type} [Fintype Thread] (pending : Nat) (pc : Thread → Pc)
    (h : History) : Prop where
  called : (h.called : Multiset Item) = h.claimed + total Pc.unclaimed pc
  signals : h.claimed.length = h.signals + total Pc.silent pc
  pending : pending + h.waits = h.signals
  waits : h.waits = h.popped.length + total Pc.popping pc

/-- The part about a thread. What a pop has read is the item of the slot until another one
is copied there. -/
def Local (q : Queue) (h : History) : Pc → Prop
  | .loadTemp src => src.length = q.cell
  | .exchangeTemp src oldTemp newTemp => src.length = q.cell ∧ newTemp = (oldTemp + 1) % q.size
  | .copyIn src index turn =>
    src.length = q.cell ∧ index = turn % q.size ∧ h.claimed[turn]? = some src ∧ turn ∉ h.copied
  | .copyOut oldHead newHead => oldHead < q.size ∧ newHead = (oldHead + 1) % q.size
  | .exchangeHead oldHead newHead dst copied =>
    oldHead < q.size ∧ newHead = (oldHead + 1) % q.size ∧ (∀ turn ∈ copied, turn ∈ h.copied) ∧
      (h.inSlot q.size oldHead = copied → q.itemAt oldHead = some dst)
  | _ => True

/-- The invariant. -/
structure Valid {Thread : Type} [Fintype Thread] (s : State Thread) : Prop where
  shared : Shared s.queue s.history
  counted : Counted s.pending s.pc s.history
  threads : ∀ thread, Local s.queue s.history (s.pc thread)
  apart : ∀ thread other turn, (s.pc thread).filling = some turn →
    (s.pc other).filling = some turn → thread = other

theorem itemAddr_eq {q : Queue} (positive : 0 < q.size) (turn : Nat) :
    itemAddr q (turn % q.size) = some (slot q.cell q.size turn) := by
  rw [itemAddr, if_pos (Nat.mod_lt turn positive), slot]

theorem following_some {q : Queue} {index next : Nat} (found : following q index = some next) :
    0 < q.size ∧ next = (index + 1) % q.size := by
  unfold following at found
  split at found
  · cases found
  · cases found
    exact ⟨by omega, rfl⟩

theorem inSlot_append {h : History} {turn size index : Nat} :
    History.inSlot { h with copied := h.copied ++ [turn] } size index =
      if turn % size = index then some turn else h.inSlot size index := by
  unfold History.inSlot
  by_cases here : turn % size = index
  · simp [List.filter_append, here]
  · simp [List.filter_append, here]

/-- What the next step of a call does. -/
inductive Advances (spurious : Bool) (q : Queue) (pending : Nat) (h : History) (pc : Pc) :
    Queue → Nat → Pc → History → Prop where
  | readTemp {src : Item} {newTemp : Nat} (there : pc = .loadTemp src)
      (next : following q q.temp = some newTemp) :
      Advances spurious q pending h pc q pending (.exchangeTemp src q.temp newTemp) h
  | claimed {src : Item} {oldTemp newTemp : Nat} (there : pc = .exchangeTemp src oldTemp newTemp)
      (same : q.temp = oldTemp) :
      Advances spurious q pending h pc { q with temp := newTemp } pending
        (.copyIn src oldTemp h.claimed.length) { h with claimed := h.claimed ++ [src] }
  | missedTemp {src : Item} {oldTemp newTemp : Nat} (there : pc = .exchangeTemp src oldTemp newTemp)
      (changed : q.temp ≠ oldTemp) : Advances spurious q pending h pc q pending (.loadTemp src) h
  | copied {src : Item} {index turn : Nat} {base : List UInt8} (there : pc = .copyIn src index turn)
      (stored : (do store q.base (← itemAddr q index) src) = some base) :
      Advances spurious q pending h pc { q with base } pending .loadTail
        { h with copied := h.copied ++ [turn] }
  | readTail {newTail : Nat} (there : pc = .loadTail) :
      Advances spurious q pending h pc q pending (.exchangeTail q.tail newTail) h
  | movedTail {oldTail newTail : Nat} (there : pc = .exchangeTail oldTail newTail) :
      Advances spurious q pending h pc { q with tail := newTail } pending .signal h
  | missedTail {oldTail newTail : Nat} (there : pc = .exchangeTail oldTail newTail)
      (failed : ¬ (q.tail = oldTail ∧ spurious = false)) :
      Advances spurious q pending h pc q pending .loadTail h
  | signaled (there : pc = .signal) :
      Advances spurious q pending h pc q (pending + 1) .idle { h with signals := h.signals + 1 }
  | waited (there : pc = .wait) (positive : 0 < pending) :
      Advances spurious q pending h pc q (pending - 1) .loadHead { h with waits := h.waits + 1 }
  | readHead {newHead : Nat} (there : pc = .loadHead) (next : following q q.head = some newHead) :
      Advances spurious q pending h pc q pending (.copyOut q.head newHead) h
  | read {oldHead newHead off : Nat} {dst : Item} (there : pc = .copyOut oldHead newHead)
      (addressed : itemAddr q oldHead = some off) (loaded : load q.base off q.cell = some dst) :
      Advances spurious q pending h pc q pending
        (.exchangeHead oldHead newHead dst (h.inSlot q.size oldHead)) h
  | popped {oldHead newHead : Nat} {dst : Item} {copied : Option Nat}
      (there : pc = .exchangeHead oldHead newHead dst copied) (same : q.head = oldHead) :
      Advances spurious q pending h pc { q with head := newHead } pending .idle
        { h with popped := h.popped ++ [(dst, copied)] }
  | missedHead {oldHead newHead : Nat} {dst : Item} {copied : Option Nat}
      (there : pc = .exchangeHead oldHead newHead dst copied) (changed : q.head ≠ oldHead) :
      Advances spurious q pending h pc q pending .loadHead h

/-- Every step of a call is one of those listed. -/
theorem advance_cases {spurious : Bool} {q q' : Queue} {pending pending' : Nat} {h h' : History}
    {pc pc' : Pc} (ran : advance spurious q pending h pc = some (q', pending', pc', h')) :
    Advances spurious q pending h pc q' pending' pc' h' := by
  cases pc with
  | idle => cases ran
  | loadTemp src =>
    obtain ⟨newTemp, next, rest⟩ := Option.bind_eq_some_iff.mp ran
    cases rest
    exact .readTemp rfl next
  | exchangeTemp src oldTemp newTemp =>
    simp only [advance] at ran
    split at ran <;> rename_i same <;> cases ran
    · exact .claimed rfl same
    · exact .missedTemp rfl same
  | copyIn src index turn =>
    obtain ⟨off, addressed, ran⟩ := Option.bind_eq_some_iff.mp ran
    obtain ⟨base, stored, rest⟩ := Option.bind_eq_some_iff.mp ran
    cases rest
    exact .copied rfl (Option.bind_eq_some_iff.mpr ⟨off, addressed, stored⟩)
  | loadTail =>
    obtain ⟨newTail, -, rest⟩ := Option.bind_eq_some_iff.mp ran
    cases rest
    exact .readTail rfl
  | exchangeTail oldTail newTail =>
    simp only [advance] at ran
    split at ran <;> rename_i moved <;> cases ran
    · exact .movedTail rfl
    · exact .missedTail rfl moved
  | signal =>
    cases ran
    exact .signaled rfl
  | wait =>
    simp only [advance] at ran
    split at ran <;> rename_i positive <;> cases ran
    exact .waited rfl positive
  | loadHead =>
    obtain ⟨newHead, next, rest⟩ := Option.bind_eq_some_iff.mp ran
    cases rest
    exact .readHead rfl next
  | copyOut oldHead newHead =>
    obtain ⟨off, addressed, ran⟩ := Option.bind_eq_some_iff.mp ran
    obtain ⟨dst, loaded, rest⟩ := Option.bind_eq_some_iff.mp ran
    cases rest
    exact .read rfl addressed loaded
  | exchangeHead oldHead newHead dst copied =>
    simp only [advance] at ran
    split at ran <;> rename_i same <;> cases ran
    · exact .popped rfl same
    · exact .missedHead rfl same

theorem step_advances {Thread : Type} [DecidableEq Thread] {s s' : State Thread} {thread : Thread}
    {spurious : Bool} (moved : (queues Thread).next s (.step thread spurious) = some s') :
    ∃ queue pending pc history,
      Advances spurious s.queue s.pending s.history (s.pc thread) queue pending pc history ∧
      s' = ⟨queue, pending, Function.update s.pc thread pc, history⟩ := by
  simp only [queues] at moved
  obtain ⟨⟨queue, pending, pc, history⟩, ran, rest⟩ := Option.bind_eq_some_iff.mp moved
  cases rest
  exact ⟨queue, pending, pc, history, advance_cases ran, rfl⟩

private theorem claimed_grows {claimed later : List Item} {turn : Nat} {src : Item}
    (found : claimed[turn]? = some src) (grows : claimed <+: later) : later[turn]? = some src := by
  obtain ⟨rest, rfl⟩ := grows
  rw [List.getElem?_append_left (List.getElem?_eq_some_iff.mp found).1]
  exact found

section Counts

variable {Thread : Type} [Fintype Thread]

theorem Counted.order {pending : Nat} {pc : Thread → Pc} {h : History}
    (counted : Counted pending pc h) : h.popped.length ≤ h.signals ∧
      h.signals ≤ h.claimed.length ∧ h.claimed.length ≤ h.called.length := by
  have called := congrArg Multiset.card counted.called
  have signals := counted.signals
  have pending := counted.pending
  have waits := counted.waits
  simp only [Multiset.coe_card, Multiset.card_add] at called
  omega

theorem Valid.delivers {s : State Thread} (valid : Valid s) : Delivers s where
  popped := valid.shared.popped
  all idle := by
    have called := valid.counted.called
    have signals := valid.counted.signals
    have pending := valid.counted.pending
    have waits := valid.counted.waits
    rw [total_zero (fun thread => by rw [idle]; rfl), add_zero] at called signals waits
    exact ⟨(Multiset.coe_eq_coe.mp called).symm, by omega⟩

variable [DecidableEq Thread] {pending : Nat} {pc : Thread → Pc} {h : History} {thread : Thread}

/-- A thread that stays in the same part of its call. -/
theorem Counted.still {next : Pc} (counted : Counted pending pc h)
    (same : next.weights = (pc thread).weights) :
    Counted pending (Function.update pc thread next) h := by
  obtain ⟨unclaimed, rest⟩ := Prod.mk.inj same
  obtain ⟨silent, popping⟩ := Prod.mk.inj rest
  refine ⟨?_, ?_, counted.pending, ?_⟩
  · rw [total_same unclaimed]
    exact counted.called
  · rw [total_same silent]
    exact counted.signals
  · rw [total_same popping]
    exact counted.waits

theorem Counted.called_push {src : Item} (counted : Counted pending pc h)
    (idle : pc thread = .idle) : Counted pending (Function.update pc thread (.loadTemp src))
      { h with called := h.called ++ [src] } := by
  have moved := total_update Pc.unclaimed pc thread (.loadTemp src)
  rw [idle] at moved
  refine ⟨?_, ?_, counted.pending, ?_⟩
  · have gained : total Pc.unclaimed (Function.update pc thread (.loadTemp src)) =
        total Pc.unclaimed pc + {src} := by simpa [Pc.unclaimed] using moved
    rw [gained, ← Multiset.coe_add, counted.called, add_assoc]
    rfl
  · rw [total_same (by rw [idle]; rfl)]
    exact counted.signals
  · rw [total_same (by rw [idle]; rfl)]
    exact counted.waits

theorem Counted.claimed_slot {src : Item} {oldTemp newTemp index turn : Nat}
    (counted : Counted pending pc h) (there : pc thread = .exchangeTemp src oldTemp newTemp) :
    Counted pending (Function.update pc thread (.copyIn src index turn))
      { h with claimed := h.claimed ++ [src] } := by
  have claims := total_update Pc.unclaimed pc thread (.copyIn src index turn)
  have fills := total_update Pc.silent pc thread (.copyIn src index turn)
  have signals := counted.signals
  rw [there] at claims fills
  refine ⟨?_, ?_, counted.pending, ?_⟩
  · have lost : total Pc.unclaimed (Function.update pc thread (.copyIn src index turn)) + {src} =
        total Pc.unclaimed pc := by simpa [Pc.unclaimed] using claims
    rw [counted.called, ← lost, ← Multiset.coe_add]
    show _ = (h.claimed : Multiset Item) + {src} + _
    ac_rfl
  · simp only [Pc.silent] at fills
    simp only [List.length_append, List.length_singleton]
    omega
  · rw [total_same (by rw [there]; rfl)]
    exact counted.waits

theorem Counted.signaled (counted : Counted pending pc h) (there : pc thread = .signal) :
    Counted (pending + 1) (Function.update pc thread .idle)
      { h with signals := h.signals + 1 } := by
  have signaled := total_update Pc.silent pc thread .idle
  have signals := counted.signals
  have balance := counted.pending
  rw [there] at signaled
  simp only [Pc.silent] at signaled
  refine ⟨?_, ?_, ?_, ?_⟩
  · rw [total_same (by rw [there]; rfl)]
    exact counted.called
  · simp only
    omega
  · simp only
    omega
  · rw [total_same (by rw [there]; rfl)]
    exact counted.waits

theorem Counted.waited (counted : Counted pending pc h) (there : pc thread = .wait)
    (positive : 0 < pending) : Counted (pending - 1) (Function.update pc thread .loadHead)
      { h with waits := h.waits + 1 } := by
  have released := total_update Pc.popping pc thread .loadHead
  have waits := counted.waits
  have balance := counted.pending
  rw [there] at released
  simp only [Pc.popping] at released
  refine ⟨?_, ?_, ?_, ?_⟩
  · rw [total_same (by rw [there]; rfl)]
    exact counted.called
  · rw [total_same (by rw [there]; rfl)]
    exact counted.signals
  · simp only
    omega
  · simp only
    omega

/-- A pop that returns. There is an announced item left for it. -/
theorem Counted.returned {oldHead newHead : Nat} {dst : Item} {copied : Option Nat}
    (counted : Counted pending pc h) (there : pc thread = .exchangeHead oldHead newHead dst copied) :
    h.popped.length < h.signals ∧ Counted pending (Function.update pc thread .idle)
      { h with popped := h.popped ++ [(dst, copied)] } := by
  have released := total_update Pc.popping pc thread .idle
  have waits := counted.waits
  have balance := counted.pending
  rw [there] at released
  simp only [Pc.popping] at released
  refine ⟨by omega, ?_, ?_, counted.pending, ?_⟩
  · rw [total_same (by rw [there]; rfl)]
    exact counted.called
  · rw [total_same (by rw [there]; rfl)]
    exact counted.signals
  · simp only [List.length_append, List.length_singleton]
    omega

end Counts

/-! ## Steps on the queue -/

variable {q : Queue} {h : History}

theorem Shared.claim {src : Item} (shared : Shared q h) :
    Shared { q with temp := (q.temp + 1) % q.size } { h with claimed := h.claimed ++ [src] } where
  whole := shared.whole
  temp := by
    simp only [List.length_append, List.length_singleton]
    rw [shared.temp, Nat.mod_add_mod]
  head := shared.head
  room := shared.room
  announced := shared.announced
  claimed turn copied := by
    have before := shared.claimed turn copied
    rw [List.length_append]
    omega
  stored turn copied unpopped := by
    obtain ⟨same, inSlot⟩ := shared.stored turn copied unpopped
    refine ⟨?_, inSlot⟩
    rw [List.getElem?_append_left (shared.claimed turn copied)]
    exact same
  popped turn dst copied returned := by
    obtain ⟨same, found⟩ := shared.popped turn dst copied returned
    exact ⟨same, claimed_grows found (List.prefix_append _ _)⟩

/-- A copy into the slot of a claimed turn, which no item that is still in the queue uses. -/
theorem Shared.copyIn {src : Item} {turn : Nat} (shared : Shared q h)
    (order : h.popped.length ≤ h.signals ∧ h.claimed.length ≤ h.called.length)
    (length : src.length = q.cell) (found : h.claimed[turn]? = some src) (fresh : turn ∉ h.copied) :
    ∃ base, store q.base (slot q.cell q.size turn) src = some base ∧
      Shared { q with base } { h with copied := h.copied ++ [turn] } ∧
      Queue.itemAt { q with base } turn = some src ∧
      ∀ other, other % q.size ≠ turn % q.size →
        Queue.itemAt { q with base } other = q.itemAt other := by
  have room := shared.room
  have below : turn < h.claimed.length := (List.getElem?_eq_some_iff.mp found).1
  have unannounced : h.signals ≤ turn := by
    by_contra announced
    exact fresh (shared.announced turn (Nat.not_le.mp announced))
  have positive : 0 < q.size := by omega
  obtain ⟨base, stored, same, held, others⟩ := write_item positive shared.whole length turn
  refine ⟨base, stored, ⟨same.trans shared.whole, shared.temp, shared.head, room, ?_, ?_, ?_,
    shared.popped⟩, held, others⟩
  · intro other announced
    exact List.mem_append_left [turn] (shared.announced other announced)
  · intro other copied
    rcases List.mem_append.mp copied with before | here
    · exact shared.claimed other before
    · rw [List.mem_singleton.mp here]
      exact below
  · intro other copied unpopped
    rw [inSlot_append]
    rcases List.mem_append.mp copied with before | here
    · have claimed := shared.claimed other before
      have different : other ≠ turn := by
        rintro rfl
        exact fresh before
      have apart : other % q.size ≠ turn % q.size :=
        mod_ne_of_window h.popped.length different unpopped (by omega) (by omega) (by omega)
      obtain ⟨held, inSlot⟩ := shared.stored other before unpopped
      rw [if_neg (Ne.symm apart)]
      exact ⟨(others other apart).trans held, inSlot⟩
    · rw [List.mem_singleton.mp here, if_pos rfl]
      exact ⟨held.trans found.symm, rfl⟩

/-- A pop that found in the slot of the head what it has read. -/
theorem Shared.take {dst : Item} {copied : Option Nat} (shared : Shared q h)
    (left : h.popped.length < h.signals) (unchanged : h.inSlot q.size q.head = copied)
    (read : q.itemAt q.head = some dst) :
    Shared { q with head := (q.head + 1) % q.size }
      { h with popped := h.popped ++ [(dst, copied)] } := by
  have first := shared.announced h.popped.length left
  obtain ⟨held, inSlot⟩ := shared.stored h.popped.length first (Nat.le_refl _)
  rw [← shared.head] at inSlot
  refine ⟨shared.whole, shared.temp, ?_, ?_, shared.announced, shared.claimed, ?_, ?_⟩
  · simp only [List.length_append, List.length_singleton]
    rw [shared.head, Nat.mod_add_mod]
  · have room := shared.room
    simp only [List.length_append]
    omega
  · intro turn copied unpopped
    simp only [List.length_append, List.length_singleton] at unpopped
    exact shared.stored turn copied (by omega)
  · intro turn dst' copied' returned
    rcases Nat.lt_or_ge turn h.popped.length with before | after
    · rw [List.getElem?_append_left before] at returned
      exact shared.popped turn dst' copied' returned
    · have last : turn = h.popped.length := by
        have inside := (List.getElem?_eq_some_iff.mp returned).1
        simp only [List.length_append, List.length_singleton] at inside
        omega
      rw [last, List.getElem?_concat_length] at returned
      cases returned
      rw [last, ← held, ← unchanged]
      refine ⟨inSlot, ?_⟩
      rw [← read, Queue.itemAt, Queue.itemAt, item, item, slot, slot, shared.head, Nat.mod_mod]

/-- What a thread knows stays true while slots are claimed, signaled and popped. -/
theorem Local.rely {q' : Queue} {h' : History} {pc : Pc} (known : Local q h pc)
    (base : q'.base = q.base) (size : q'.size = q.size) (cell : q'.cell = q.cell)
    (claimed : h.claimed <+: h'.claimed) (copied : h'.copied = h.copied) : Local q' h' pc := by
  have inSlot : ∀ index, h'.inSlot q'.size index = h.inSlot q.size index := by
    intro index
    rw [History.inSlot, History.inSlot, size, copied]
  have itemAt : ∀ turn, q'.itemAt turn = q.itemAt turn := by
    intro turn
    rw [Queue.itemAt, Queue.itemAt, base, size, cell]
  cases pc with
  | idle | loadTail | exchangeTail | signal | wait | loadHead => trivial
  | loadTemp src => exact known.trans cell.symm
  | exchangeTemp src oldTemp newTemp => exact ⟨known.1.trans cell.symm, by rw [size]; exact known.2⟩
  | copyIn src index turn =>
    obtain ⟨length, place, found, fresh⟩ := known
    refine ⟨length.trans cell.symm, by rw [size]; exact place, ?_, by rw [copied]; exact fresh⟩
    exact claimed_grows found claimed
  | copyOut oldHead newHead =>
    rw [Local, size]
    exact known
  | exchangeHead oldHead newHead dst turn =>
    rw [Local, inSlot, itemAt, copied, size]
    exact known

/-- What another thread knows stays true when a slot is filled. -/
theorem Local.fill {base : List UInt8} {turn : Nat} {pc : Pc} (known : Local q h pc)
    (apart : pc.filling ≠ some turn) (fresh : turn ∉ h.copied)
    (others : ∀ other, other % q.size ≠ turn % q.size →
      Queue.itemAt { q with base } other = q.itemAt other) :
    Local { q with base } { h with copied := h.copied ++ [turn] } pc := by
  cases pc with
  | idle | loadTail | exchangeTail | signal | wait | loadHead => trivial
  | loadTemp | exchangeTemp | copyOut => exact known
  | copyIn src index turn' =>
    obtain ⟨length, place, found, uncopied⟩ := known
    refine ⟨length, place, found, fun copied => ?_⟩
    rcases List.mem_append.mp copied with before | here
    · exact uncopied before
    · exact apart (congrArg some (List.mem_singleton.mp here))
  | exchangeHead oldHead newHead dst copied =>
    obtain ⟨inside, next, before, read⟩ := known
    refine ⟨inside, next, fun other member => List.mem_append_left _ (before other member), ?_⟩
    intro unchanged
    rw [inSlot_append] at unchanged
    split at unchanged
    · exact absurd (before turn unchanged.symm) fresh
    · rename_i elsewhere
      rw [others oldHead (by rw [Nat.mod_eq_of_lt inside]; exact Ne.symm elsewhere)]
      exact read unchanged

section Runs

variable {Thread : Type} [Fintype Thread] [DecidableEq Thread] {s s' : State Thread}
  {thread : Thread}

/-- The invariant after a step of a thread, from its parts. -/
theorem Valid.moved {q' : Queue} {pending' : Nat} {pc' : Pc} {h' : History} (valid : Valid s)
    (shared : Shared q' h') (counted : Counted pending' (Function.update s.pc thread pc') h')
    (mine : Local q' h' pc') (others : ∀ other, other ≠ thread → Local q' h' (s.pc other))
    (apart : ∀ other turn, other ≠ thread → pc'.filling = some turn →
      (s.pc other).filling ≠ some turn) :
    Valid ⟨q', pending', Function.update s.pc thread pc', h'⟩ := by
  refine ⟨shared, counted, fun other => ?_, fun one two turn first second => ?_⟩
  · by_cases same : other = thread
    · simp only [same, Function.update_self]
      exact mine
    · simp only [Function.update_of_ne same]
      exact others other same
  · by_cases isOne : one = thread
    · by_cases isTwo : two = thread
      · exact isOne.trans isTwo.symm
      · simp only [isOne, Function.update_self] at first
        simp only [Function.update_of_ne isTwo] at second
        exact absurd second (apart two turn isTwo first)
    · by_cases isTwo : two = thread
      · simp only [Function.update_of_ne isOne] at first
        simp only [isTwo, Function.update_self] at second
        exact absurd first (apart one turn isOne second)
      · simp only [Function.update_of_ne isOne] at first
        simp only [Function.update_of_ne isTwo] at second
        exact valid.apart one two turn first second

/-- A thread that stays in the same part of its call, and changes no more than `tail`. -/
theorem Valid.still {tail : Nat} {pc' : Pc} (valid : Valid s)
    (same : pc'.weights = (s.pc thread).weights) (filling : pc'.filling = none)
    (mine : Local { s.queue with tail } s.history pc') :
    Valid ⟨{ s.queue with tail }, s.pending, Function.update s.pc thread pc', s.history⟩ := by
  have shared := valid.shared
  refine valid.moved ⟨shared.whole, shared.temp, shared.head, shared.room, shared.announced,
    shared.claimed, shared.stored, shared.popped⟩ (valid.counted.still same) mine ?_ ?_
  · intro other _
    exact (valid.threads other).rely rfl rfl rfl (List.prefix_refl _) rfl
  · intro other turn _ fills
    rw [filling] at fills
    cases fills

/-- A push claims the next slot. -/
theorem Valid.claim {src : Item} {oldTemp newTemp : Nat} (valid : Valid s)
    (there : s.pc thread = .exchangeTemp src oldTemp newTemp) (same : s.queue.temp = oldTemp) :
    Valid ⟨{ s.queue with temp := newTemp }, s.pending,
      Function.update s.pc thread (.copyIn src oldTemp s.history.claimed.length),
      { s.history with claimed := s.history.claimed ++ [src] }⟩ := by
  have known := valid.threads thread
  rw [there] at known
  obtain ⟨length, rfl⟩ := known
  subst same
  refine valid.moved valid.shared.claim (valid.counted.claimed_slot there) ?_ ?_ ?_
  · refine ⟨length, valid.shared.temp, List.getElem?_concat_length, fun copied => ?_⟩
    exact absurd (valid.shared.claimed _ copied) (Nat.lt_irrefl _)
  · intro other _
    exact (valid.threads other).rely rfl rfl rfl (List.prefix_append _ _) rfl
  · intro other turn _ claimed fills
    cases claimed
    have known := valid.threads other
    cases pc : s.pc other with
    | copyIn src' index turn =>
      rw [pc] at known fills
      cases fills
      exact absurd (List.getElem?_eq_some_iff.mp known.2.2.1).1 (Nat.lt_irrefl _)
    | idle | loadTemp | exchangeTemp | loadTail | exchangeTail | signal | wait | loadHead | copyOut
    | exchangeHead =>
      rw [pc] at fills
      cases fills

/-- A push copies its item. -/
theorem Valid.fill {src : Item} {index turn : Nat} {base : List UInt8} (valid : Valid s)
    (there : s.pc thread = .copyIn src index turn)
    (stored : (do store s.queue.base (← itemAddr s.queue index) src) = some base) :
    Valid ⟨{ s.queue with base }, s.pending, Function.update s.pc thread .loadTail,
      { s.history with copied := s.history.copied ++ [turn] }⟩ := by
  have known := valid.threads thread
  rw [there] at known
  obtain ⟨length, rfl, found, fresh⟩ := known
  have order := valid.counted.order
  obtain ⟨base', written, shared, -, others⟩ :=
    valid.shared.copyIn ⟨order.1, order.2.2⟩ length found fresh
  have positive : 0 < s.queue.size := by
    have below := (List.getElem?_eq_some_iff.mp found).1
    have room := valid.shared.room
    have unannounced : ¬ turn < s.history.signals := fun announced =>
      fresh (valid.shared.announced turn announced)
    omega
  rw [itemAddr_eq positive] at stored
  cases written.symm.trans stored
  refine valid.moved shared ?_ trivial ?_ fun _ _ _ => nofun
  · have counted : Counted s.pending (Function.update s.pc thread .loadTail) s.history :=
      valid.counted.still (by rw [there]; rfl)
    exact ⟨counted.called, counted.signals, counted.pending, counted.waits⟩
  · intro other different
    refine (valid.threads other).fill (fun fills => different ?_) fresh others
    exact valid.apart other thread turn fills (by rw [there]; rfl)

theorem Valid.signal (valid : Valid s) (there : s.pc thread = .signal)
    (timely : ∀ turn < s.history.signals + 1, turn ∈ s.history.copied) :
    Valid ⟨s.queue, s.pending + 1, Function.update s.pc thread .idle,
      { s.history with signals := s.history.signals + 1 }⟩ := by
  have shared := valid.shared
  refine valid.moved ⟨shared.whole, shared.temp, shared.head, shared.room, timely, shared.claimed,
    shared.stored, shared.popped⟩ (valid.counted.signaled there) trivial ?_ fun _ _ _ => nofun
  intro other _
  exact (valid.threads other).rely rfl rfl rfl (List.prefix_refl _) rfl

theorem Valid.wait (valid : Valid s) (there : s.pc thread = .wait) (positive : 0 < s.pending) :
    Valid ⟨s.queue, s.pending - 1, Function.update s.pc thread .loadHead,
      { s.history with waits := s.history.waits + 1 }⟩ := by
  have shared := valid.shared
  refine valid.moved ⟨shared.whole, shared.temp, shared.head, shared.room, shared.announced,
    shared.claimed, shared.stored, shared.popped⟩ (valid.counted.waited there positive) trivial ?_
    fun _ _ _ => nofun
  intro other _
  exact (valid.threads other).rely rfl rfl rfl (List.prefix_refl _) rfl

/-- A pop returns what it has read. -/
theorem Valid.take {oldHead newHead : Nat} {dst : Item} {copied : Option Nat} (valid : Valid s)
    (there : s.pc thread = .exchangeHead oldHead newHead dst copied)
    (same : s.queue.head = oldHead)
    (unchanged : s.history.inSlot s.queue.size oldHead = copied) :
    Valid ⟨{ s.queue with head := newHead }, s.pending, Function.update s.pc thread .idle,
      { s.history with popped := s.history.popped ++ [(dst, copied)] }⟩ := by
  have known := valid.threads thread
  rw [there] at known
  obtain ⟨-, rfl, -, read⟩ := known
  subst same
  obtain ⟨left, counted⟩ := valid.counted.returned there
  refine valid.moved (valid.shared.take left unchanged (read unchanged)) counted trivial ?_
    fun _ _ _ => nofun
  intro other _
  exact (valid.threads other).rely rfl rfl rfl (List.prefix_refl _) rfl

/-- The next step of a call keeps the invariant. -/
theorem Valid.advance {spurious : Bool} {q' : Queue} {pending' : Nat} {pc' : Pc} {h' : History}
    (valid : Valid s) (timely : (s.pc thread).Timely s.queue s.history)
    (step : Advances spurious s.queue s.pending s.history (s.pc thread) q' pending' pc' h') :
    Valid ⟨q', pending', Function.update s.pc thread pc', h'⟩ := by
  have known := valid.threads thread
  cases step with
  | readTemp there next =>
    obtain ⟨-, rfl⟩ := following_some next
    rw [there] at known
    exact valid.still (by rw [there]; rfl) rfl ⟨known, rfl⟩
  | claimed there same => exact valid.claim there same
  | missedTemp there _ =>
    rw [there] at known
    exact valid.still (by rw [there]; rfl) rfl known.1
  | copied there stored => exact valid.fill there stored
  | readTail there | movedTail there | missedTail there _ | missedHead there _ =>
    exact valid.still (by rw [there]; rfl) rfl trivial
  | signaled there =>
    rw [there] at timely
    exact valid.signal there timely
  | waited there positive => exact valid.wait there positive
  | readHead there next =>
    obtain ⟨positive, rfl⟩ := following_some next
    refine valid.still (by rw [there]; rfl) rfl ⟨?_, rfl⟩
    rw [valid.shared.head]
    exact Nat.mod_lt _ positive
  | read there addressed loaded =>
    rw [there] at known
    obtain ⟨inside, next⟩ := known
    refine valid.still (by rw [there]; rfl) rfl
      ⟨inside, next, fun turn inSlot => ?_, fun _ => ?_⟩
    · exact List.mem_of_mem_filter (List.mem_of_getLast? inSlot)
    · rw [itemAddr, if_pos inside] at addressed
      cases addressed
      rw [Queue.itemAt, item, slot, Nat.mod_eq_of_lt inside]
      exact loaded
  | popped there same =>
    rw [there] at timely
    exact valid.take there same (timely same)

theorem Valid.next {action : Action Thread} (valid : Valid s) (timely : Timely s action)
    (moved : (queues Thread).next s action = some s') : Valid s' := by
  cases action with
  | push thread src =>
    simp only [queues] at moved
    split at moved
    · rename_i called
      obtain ⟨idle, length, room⟩ := called
      cases moved
      have shared := valid.shared
      refine valid.moved ⟨shared.whole, shared.temp, shared.head, ?_, shared.announced,
        shared.claimed, shared.stored, shared.popped⟩ (valid.counted.called_push idle) length ?_
        fun _ _ _ => nofun
      · rw [List.length_append]
        exact room
      · intro other _
        exact (valid.threads other).rely rfl rfl rfl (List.prefix_refl _) rfl
    · cases moved
  | pop thread =>
    simp only [queues] at moved
    split at moved
    · rename_i idle
      cases moved
      exact valid.still (by rw [idle]; rfl) rfl trivial
    · cases moved
  | step thread spurious =>
    obtain ⟨queue, pending, pc, history, step, rfl⟩ := step_advances moved
    exact valid.advance timely step

theorem Valid.start (begins : (queues Thread).initial s) : Valid s := by
  obtain ⟨⟨arr, cell, positive, -, created⟩, pending, idle, history⟩ := begins
  unfold init at created
  split at created
  · rename_i divides
    have queue := (Option.some.inj created).symm
    have none : ∀ {Amount : Type} [AddCommMonoid Amount] {weight : Pc → Amount},
        weight .idle = 0 → total weight s.pc = 0 := by
      intro Amount _ weight zero
      apply total_zero
      intro thread
      rw [idle]
      exact zero
    refine ⟨?_, ⟨?_, ?_, ?_, ?_⟩, fun thread => ?_, fun thread other turn fills => ?_⟩
    · rw [queue, history]
      refine ⟨(Nat.mul_div_cancel' (Nat.dvd_of_mod_eq_zero divides)).symm, (Nat.zero_mod _).symm,
        (Nat.zero_mod _).symm, Nat.zero_le _, nofun, nofun, nofun, nofun⟩
    · rw [none rfl, history]
      rfl
    · rw [none rfl, history]
      rfl
    · simp only [pending, history]
    · rw [none rfl, history]
      rfl
    · rw [idle]
      trivial
    · rw [idle] at fills
      cases fills
  · cases created

end Runs

/-- In every run in which the signals and the pops are timely, each job is delivered once. -/
theorem delivers_while_timely {Thread : Type} [Fintype Thread] [DecidableEq Thread]
    {s : State Thread} (reached : ((queues Thread).restrict Timely).Reachable s) : Delivers s := by
  have valid : Valid s := by
    refine reached.invariant (fun _ begins => .start begins) ?_
    intro s action s' _ valid moved
    obtain ⟨timely, moved⟩ := System.restrict_next.mp moved
    exact valid.next timely moved
  exact valid.delivers

/-- A queue of two bytes that no thread uses yet. -/
def twoBytes : State (Fin 3) :=
  ⟨⟨0, 0, 0, 2, 1, [0, 0]⟩, 0, fun _ => .idle, ⟨[], [], [], 0, 0, []⟩⟩

theorem twoBytes_initial : (queues (Fin 3)).initial twoBytes :=
  ⟨⟨[0, 0], 1, by decide, by decide, rfl⟩, rfl, fun _ => rfl, rfl⟩

/-- The steps of a push that is not disturbed. -/
def pushSteps (thread : Fin 3) (byte : UInt8) : List (Action (Fin 3)) :=
  .push thread [byte] :: List.replicate 6 (.step thread false)

/-- The steps of a pop that is not disturbed. -/
def popSteps (thread : Fin 3) : List (Action (Fin 3)) :=
  .pop thread :: List.replicate 4 (.step thread false)

/-- Two items are delivered. -/
theorem delivers_while_timely_applies :
    ∃ s, ((queues (Fin 3)).restrict Timely).Reachable s ∧
      s.history.popped = [([7], some 0), ([8], some 1)] ∧ Delivers s := by
  have begun : ((queues (Fin 3)).restrict Timely).Reachable twoBytes := .start twoBytes_initial
  obtain ⟨s, reached, checked⟩ := begun.replay_check
    (pushSteps 0 7 ++ pushSteps 1 8 ++ popSteps 2 ++ popSteps 0)
    (fun s => s.history.popped = [([7], some 0), ([8], some 1)]) (by decide)
  exact ⟨s, reached, by simpa using checked, delivers_while_timely reached⟩

/-- The push of the second slot overtakes that of the first, and the pop that it releases
reads the first slot before its item is there. And a pop that is suspended before its
exchange, while the others pop the two items and push a third, returns the first one again. -/
theorem overtaken_calls_misdeliver :
    (∃ s, (queues (Fin 3)).Reachable s ∧ s.history.claimed = [[7], [8]] ∧
      s.history.popped = [([0], none)] ∧ ¬ Delivers s) ∧
    ∃ s, (queues (Fin 3)).Reachable s ∧ s.history.claimed = [[7], [8], [9]] ∧
      s.history.popped = [([7], some 0), ([8], some 1), ([7], some 0)] ∧ ¬ Delivers s := by
  have begun : (queues (Fin 3)).Reachable twoBytes := .start twoBytes_initial
  constructor
  · obtain ⟨s, reached, checked⟩ := begun.replay_check
      ([.push 0 [7], .step 0 false, .step 0 false] ++ pushSteps 1 8 ++ popSteps 2)
      (fun s => s.history.claimed = [[7], [8]] && s.history.popped = [([0], none)]) (by decide)
    obtain ⟨claimed, popped⟩ : s.history.claimed = [[7], [8]] ∧
        s.history.popped = [([0], none)] := by simpa using checked
    refine ⟨s, reached, claimed, popped, fun delivers => ?_⟩
    have read := (delivers.popped 0 [0] none (by rw [popped]; rfl)).1
    cases read
  · obtain ⟨s, reached, checked⟩ := begun.replay_check
      (pushSteps 0 7 ++ pushSteps 0 8 ++
        [.pop 1, .step 1 false, .step 1 false, .step 1 false] ++
        popSteps 2 ++ pushSteps 0 9 ++ popSteps 2 ++ [.step 1 false])
      (fun s => s.history.claimed = [[7], [8], [9]] &&
        s.history.popped = [([7], some 0), ([8], some 1), ([7], some 0)]) (by decide)
    obtain ⟨claimed, popped⟩ : s.history.claimed = [[7], [8], [9]] ∧
        s.history.popped = [([7], some 0), ([8], some 1), ([7], some 0)] := by simpa using checked
    refine ⟨s, reached, claimed, popped, fun delivers => ?_⟩
    have read := (delivers.popped 2 [7] (some 0) (by rw [popped]; rfl)).1
    cases read

end Mysnips.ThreadPoolQueue

import Mysnips.MpmcQueueSafety
import Mysnips.Totals

/-! Progress of the multiple-producer multiple-consumer queue. A thread that waits for its turn
to release an index waits for a thread that holds an earlier one, so somebody can always go on;
and a compare-exchange fails only because another one succeeded. So whatever calls have been
begun, they can all return. -/
namespace Mysnips.MpmcQueue
open Machine Memory RingSlots Totals Transition System

variable {Thread : Type}

/-- The index that a thread has acquired for a push. -/
def Pc.pushing : Pc → Option Nat
  | .copyIn _ index => some index
  | .awaitTail index => some index
  | .incrementTail index => some index
  | _ => none

/-- The index that a thread has acquired for a pop. -/
def Pc.popping : Pc → Option Nat
  | .copyOut index => some index
  | .awaitTempHead index _ => some index
  | .incrementTempHead index _ => some index
  | _ => none

/-- Each index that was acquired and not released is in the hands of a thread. -/
structure Holding (q : Queue) (pc : Thread → Pc) : Prop where
  pushers : ∀ i, q.tail ≤ i → i < q.tempTail → ∃ thread, (pc thread).pushing = some i
  poppers : ∀ i, q.tempHead ≤ i → i < q.head → ∃ thread, (pc thread).popping = some i

variable {q q' : Queue} {pc : Thread → Pc} {pc' : Pc} {thread : Thread} {s s' : State Thread}

/-- What a thread has done to the counters after a step, and where it is then. -/
inductive Moves (spurious : Bool) (q : Queue) : Pc → Queue → Pc → Prop where
  | tempTailLoaded (src : Item) : Moves spurious q (.loadTempTail src) q (.loadTempHead src q.tempTail)
  | full (src : Item) (old : Nat) : Moves spurious q (.loadTempHead src old) q .idle
  | tempHeadLoaded (src : Item) (old : Nat) :
      Moves spurious q (.loadTempHead src old) q (.exchangeTempTail src old (old + 1))
  | pushAcquired (src : Item) (new : Nat) (next : new = q.tempTail + 1) :
      Moves spurious q (.exchangeTempTail src q.tempTail new) { q with tempTail := new }
        (.copyIn src q.tempTail)
  | pushFailed (src : Item) (old new : Nat) (failed : spurious = false → old ≠ q.tempTail) :
      Moves spurious q (.exchangeTempTail src old new) q (.loadTempTail src)
  | copiedIn (src : Item) (index : Nat) (base : List UInt8) :
      Moves spurious q (.copyIn src index) { q with base } (.awaitTail index)
  | tailAwaited (index : Nat) (waits : index ≠ q.tail) :
      Moves spurious q (.awaitTail index) q (.awaitTail index)
  | tailReached (index : Nat) : Moves spurious q (.awaitTail index) q (.incrementTail index)
  | pushReleased : Moves spurious q (.incrementTail q.tail) { q with tail := q.tail + 1 } .idle
  | headLoaded : Moves spurious q .loadHead q (.loadTail q.head)
  | empty (old : Nat) : Moves spurious q (.loadTail old) q .idle
  | tailLoaded (old : Nat) : Moves spurious q (.loadTail old) q (.exchangeHead old (old + 1))
  | popAcquired (new : Nat) (next : new = q.head + 1) :
      Moves spurious q (.exchangeHead q.head new) { q with head := new } (.copyOut q.head)
  | popFailed (old new : Nat) (failed : spurious = false → old ≠ q.head) :
      Moves spurious q (.exchangeHead old new) q .loadHead
  | copiedOut (index : Nat) (dst : Item) : Moves spurious q (.copyOut index) q (.awaitTempHead index dst)
  | tempHeadAwaited (index : Nat) (dst : Item) (waits : index ≠ q.tempHead) :
      Moves spurious q (.awaitTempHead index dst) q (.awaitTempHead index dst)
  | tempHeadReached (index : Nat) (dst : Item) :
      Moves spurious q (.awaitTempHead index dst) q (.incrementTempHead index dst)
  | popReleased (dst : Item) :
      Moves spurious q (.incrementTempHead q.tempHead dst) { q with tempHead := q.tempHead + 1 } .idle

/-- Every step is one of those listed. -/
theorem advance_moves {log : List (Event Thread)} {pc : Pc} {spurious : Bool}
    {events : List (Event Thread)} (shared : Shared q (history log)) (few : q.tempTail < 2 ^ 31)
    (held : Local q (history log) thread pc)
    (stepped : advance thread spurious q pc = some (q', pc', events)) :
    Moves spurious q pc q' pc' := by
  have pushesReleased := shared.pushesReleased
  have items := shared.items
  have released := shared.popsReleased
  cases pc with
  | idle => cases stepped
  | loadTempTail src =>
    cases stepped
    exact .tempTailLoaded src
  | loadTempHead src old =>
    have next : add64 old 1 = old + 1 := add64_eq (by have := held.2; omega)
    simp only [advance, next] at stepped
    split at stepped
    · cases stepped
      exact .full src old
    · split at stepped <;> cases stepped
      exact .tempHeadLoaded src old
  | exchangeTempTail src old new =>
    obtain ⟨-, -, rfl⟩ := held
    simp only [advance] at stepped
    split at stepped
    · rename_i exchanged
      obtain ⟨rfl, -⟩ := exchanged
      rw [if_neg (show ¬ q.tempTail = 2 ^ 64 - 1 by omega)] at stepped
      cases stepped
      exact .pushAcquired src _ rfl
    · rename_i failed
      cases stepped
      exact .pushFailed src old _ fun strong same => failed ⟨same.symm, strong⟩
  | copyIn src index =>
    simp only [advance, Option.bind_eq_bind, Option.bind_eq_some_iff] at stepped
    obtain ⟨base, -, same⟩ := stepped
    cases same
    exact .copiedIn src index base
  | awaitTail index =>
    simp only [advance] at stepped
    split at stepped <;> cases stepped
    · rename_i waits
      exact .tailAwaited index (Ne.symm waits)
    · exact .tailReached index
  | incrementTail index =>
    obtain ⟨rfl, -⟩ := held
    simp only [advance, add64_eq (show q.tail + 1 < 2 ^ 64 by omega)] at stepped
    cases stepped
    exact .pushReleased
  | loadHead =>
    cases stepped
    exact .headLoaded
  | loadTail old =>
    have next : add64 old 1 = old + 1 := add64_eq (by have : old ≤ q.head := held; omega)
    simp only [advance, next] at stepped
    split at stepped
    · cases stepped
      exact .empty old
    · split at stepped <;> cases stepped
      exact .tailLoaded old
  | exchangeHead old new =>
    obtain ⟨below, rfl⟩ := held
    simp only [advance] at stepped
    split at stepped
    · rename_i exchanged
      obtain ⟨rfl, -⟩ := exchanged
      rw [if_neg (show ¬ q.head = 2 ^ 64 - 1 by omega)] at stepped
      cases stepped
      exact .popAcquired _ rfl
    · rename_i failed
      cases stepped
      exact .popFailed old _ fun strong same => failed ⟨same.symm, strong⟩
  | copyOut index =>
    simp only [advance, Option.bind_eq_bind, Option.bind_eq_some_iff] at stepped
    obtain ⟨dst, -, same⟩ := stepped
    cases same
    exact .copiedOut index dst
  | awaitTempHead index dst =>
    simp only [advance] at stepped
    split at stepped <;> cases stepped
    · rename_i waits
      exact .tempHeadAwaited index dst (Ne.symm waits)
    · exact .tempHeadReached index dst
  | incrementTempHead index dst =>
    obtain ⟨rfl, -⟩ := held
    simp only [advance, add64_eq (show q.tempHead + 1 < 2 ^ 64 by omega)] at stepped
    cases stepped
    exact .popReleased dst

/-- A step goes on, or it waits for a counter that has not come to its index. -/
theorem Moves.goes {spurious : Bool} {before : Pc} (moves : Moves spurious q before q' pc') :
    pc' ≠ before ∨ (∃ index, before = .awaitTail index ∧ index ≠ q.tail) ∨
      ∃ index dst, before = .awaitTempHead index dst ∧ index ≠ q.tempHead := by
  cases moves with
  | tailAwaited index waits => exact .inr (.inl ⟨index, rfl, waits⟩)
  | tempHeadAwaited index dst waits => exact .inr (.inr ⟨index, dst, rfl, waits⟩)
  | _ => exact .inl (by simp)

/-- While a call is under way, a thread can do more than wait in vain. -/
theorem Valid.somebody_goes (valid : Valid s) (few : s.queue.tempTail < 2 ^ 31)
    (holding : Holding s.queue s.pc) (busy : s.pc thread ≠ .idle) :
    ∃ thread q' pc' events, advance thread false s.queue (s.pc thread) = some (q', pc', events) ∧
      pc' ≠ s.pc thread := by
  have steps : ∀ thread, s.pc thread ≠ .idle → ∃ q' pc' events,
      advance thread false s.queue (s.pc thread) = some (q', pc', events) ∧
      Moves false s.queue (s.pc thread) q' pc' := by
    intro thread busy
    obtain ⟨q', pc', events, stepped, -⟩ :=
      (advance_spec valid.shared few (valid.threads thread) busy false).taken
    exact ⟨q', pc', events, stepped, advance_moves valid.shared few (valid.threads thread) stepped⟩
  obtain ⟨q', pc', events, stepped, moves⟩ := steps thread busy
  rcases moves.goes with goes | ⟨index, there, waits⟩ | ⟨index, dst, there, waits⟩
  · exact ⟨thread, q', pc', events, stepped, goes⟩
  · -- the thread that holds the index at the tail does not wait
    have held := valid.threads thread
    rw [there] at held
    obtain ⟨low, high, -⟩ := held
    obtain ⟨first, holds⟩ := holding.pushers s.queue.tail (Nat.le_refl _) (by omega)
    have active : s.pc first ≠ .idle := by
      intro idle
      rw [idle] at holds
      cases holds
    obtain ⟨q', pc', events, stepped, moves⟩ := steps first active
    rcases moves.goes with goes | ⟨index, there, waits⟩ | ⟨index, dst, there, waits⟩
    · exact ⟨first, q', pc', events, stepped, goes⟩
    · rw [there] at holds
      exact absurd (Option.some.inj holds) waits
    · rw [there] at holds
      cases holds
  · have held := valid.threads thread
    rw [there] at held
    obtain ⟨low, high, -⟩ := held
    obtain ⟨first, holds⟩ := holding.poppers s.queue.tempHead (Nat.le_refl _) (by omega)
    have active : s.pc first ≠ .idle := by
      intro idle
      rw [idle] at holds
      cases holds
    obtain ⟨q', pc', events, stepped, moves⟩ := steps first active
    rcases moves.goes with goes | ⟨index, there, waits⟩ | ⟨index, dst, there, waits⟩
    · exact ⟨first, q', pc', events, stepped, goes⟩
    · rw [there] at holds
      cases holds
    · rw [there] at holds
      exact absurd (Option.some.inj holds) waits

variable [DecidableEq Thread]

/-- A step of a thread takes and leaves indices of its own. -/
theorem Holding.moved (holding : Holding q pc)
    (pushers : ∀ i, q'.tail ≤ i → i < q'.tempTail → pc'.pushing = some i ∨
      q.tail ≤ i ∧ i < q.tempTail ∧ (pc thread).pushing ≠ some i)
    (poppers : ∀ i, q'.tempHead ≤ i → i < q'.head → pc'.popping = some i ∨
      q.tempHead ≤ i ∧ i < q.head ∧ (pc thread).popping ≠ some i) :
    Holding q' (Function.update pc thread pc') := by
  refine ⟨fun i low high => ?_, fun i low high => ?_⟩
  · rcases pushers i low high with mine | ⟨low, high, notMine⟩
    · exact ⟨thread, by rwa [Function.update_self]⟩
    · obtain ⟨other, holds⟩ := holding.pushers i low high
      refine ⟨other, ?_⟩
      rwa [Function.update_of_ne]
      rintro rfl
      exact notMine holds
  · rcases poppers i low high with mine | ⟨low, high, notMine⟩
    · exact ⟨thread, by rwa [Function.update_self]⟩
    · obtain ⟨other, holds⟩ := holding.poppers i low high
      refine ⟨other, ?_⟩
      rwa [Function.update_of_ne]
      rintro rfl
      exact notMine holds

/-- A step that leaves the counters alone. -/
theorem Holding.still (holding : Holding q pc) (pushing : pc'.pushing = (pc thread).pushing)
    (popping : pc'.popping = (pc thread).popping) (tail : q'.tail = q.tail)
    (tempTail : q'.tempTail = q.tempTail) (tempHead : q'.tempHead = q.tempHead)
    (head : q'.head = q.head) : Holding q' (Function.update pc thread pc') := by
  refine holding.moved (fun i low high => ?_) fun i low high => ?_
  · rw [tail] at low
    rw [tempTail] at high
    rw [pushing]
    exact or_iff_not_imp_left.mpr fun notMine => ⟨low, high, notMine⟩
  · rw [tempHead] at low
    rw [head] at high
    rw [popping]
    exact or_iff_not_imp_left.mpr fun notMine => ⟨low, high, notMine⟩

/-- A step of a thread keeps every index in somebody's hands. -/
theorem Holding.moves {spurious : Bool} {before : Pc} (holding : Holding q pc)
    (there : pc thread = before) (moves : Moves spurious q before q' pc') :
    Holding q' (Function.update pc thread pc') := by
  cases moves with
  | pushAcquired src new next =>
    refine holding.moved (fun i low high => ?_) fun i low high => ?_
    · by_cases mine : i = q.tempTail
      · exact .inl (congrArg some mine.symm)
      · refine .inr ⟨low, ?_, by rw [there]; simp [Pc.pushing]⟩
        change i < new at high
        omega
    · exact .inr ⟨low, high, by rw [there]; simp [Pc.popping]⟩
  | pushReleased =>
    refine holding.moved (fun i low high => ?_) fun i low high => ?_
    · change q.tail + 1 ≤ i at low
      refine .inr ⟨by omega, high, ?_⟩
      rw [there]
      intro mine
      have same : q.tail = i := Option.some.inj mine
      omega
    · exact .inr ⟨low, high, by rw [there]; simp [Pc.popping]⟩
  | popAcquired new next =>
    refine holding.moved (fun i low high => ?_) fun i low high => ?_
    · exact .inr ⟨low, high, by rw [there]; simp [Pc.pushing]⟩
    · by_cases mine : i = q.head
      · exact .inl (congrArg some mine.symm)
      · refine .inr ⟨low, ?_, by rw [there]; simp [Pc.popping]⟩
        change i < new at high
        omega
  | popReleased dst =>
    refine holding.moved (fun i low high => ?_) fun i low high => ?_
    · exact .inr ⟨low, high, by rw [there]; simp [Pc.pushing]⟩
    · change q.tempHead + 1 ≤ i at low
      refine .inr ⟨by omega, high, ?_⟩
      rw [there]
      intro mine
      have same : q.tempHead = i := Option.some.inj mine
      omega
  | _ =>
    exact holding.still (congrArg Pc.pushing there).symm (congrArg Pc.popping there).symm rfl rfl
      rfl rfl

/-- Every index that was acquired and not released is held, in every run with fewer than `2 ^ 31`
pushes. -/
theorem reachable_holding (reached : (queues Thread).Reachable s)
    (few : (acquiredPushes s.log).length < 2 ^ 31) : Holding s.queue s.pc := by
  refine reached.invariant (P := fun s => (acquiredPushes s.log).length < 2 ^ 31 →
    Holding s.queue s.pc) (fun s begins _ => ?_) (fun s action s' before holding moved few => ?_) few
  · obtain ⟨⟨arr, cell, -, -, -, created⟩, -⟩ := begins
    rw [init] at created
    split at created
    · injection created with created
      rw [← created]
      exact ⟨fun i _ high => absurd high (Nat.not_lt_zero i),
        fun i _ high => absurd high (Nat.not_lt_zero i)⟩
    · cases created
  · obtain ⟨events, grown⟩ := log_grows moved
    have earlier : (acquiredPushes s.log).length < 2 ^ 31 := by
      rw [grown, acquiredPushes, List.filterMap_append, List.length_append] at few
      rw [acquiredPushes]
      omega
    have holding := holding earlier
    obtain ⟨valid, fits⟩ := reachable_valid before earlier
    cases action with
    | tryPush thread src =>
      simp only [queues] at moved
      split at moved
      · rename_i called
        cases moved
        exact holding.still (congrArg Pc.pushing called.1).symm (congrArg Pc.popping called.1).symm
          rfl rfl rfl rfl
      · cases moved
    | tryPop thread =>
      simp only [queues] at moved
      split at moved
      · rename_i idle
        cases moved
        exact holding.still (congrArg Pc.pushing idle).symm (congrArg Pc.popping idle).symm
          rfl rfl rfl rfl
      · cases moved
    | step thread spurious =>
      simp only [queues, Option.bind_eq_bind, Option.bind_eq_some_iff] at moved
      obtain ⟨⟨q', pc', events⟩, stepped, same⟩ := moved
      cases same
      exact holding.moves rfl (advance_moves valid.shared fits (valid.threads thread) stepped)

/-! ### How far the calls are from their end -/

/-- The steps that a thread has left, where a compare-exchange that will fail costs three more, and
one that succeeds pays for all those that it makes fail. -/
def Pc.steps (threads : Nat) (q : Queue) : Pc → Nat
  | .idle => 0
  | .loadTempTail _ => 3 * threads + 6
  | .loadTempHead _ old => if old = q.tempTail then 3 * threads + 5 else 3 * threads + 8
  | .exchangeTempTail _ old _ => if old = q.tempTail then 3 * threads + 4 else 3 * threads + 7
  | .copyIn _ _ => 3
  | .awaitTail _ => 2
  | .incrementTail _ => 1
  | .loadHead => 3 * threads + 6
  | .loadTail old => if old = q.head then 3 * threads + 5 else 3 * threads + 8
  | .exchangeHead old _ => if old = q.head then 3 * threads + 4 else 3 * threads + 7
  | .copyOut _ => 3
  | .awaitTempHead _ _ => 2
  | .incrementTempHead _ _ => 1

theorem Pc.steps_le (threads : Nat) (q q' : Queue) (pc : Pc) :
    pc.steps threads q' ≤ pc.steps threads q + 3 := by
  cases pc <;> simp only [Pc.steps] <;> (try split) <;> (try split) <;> omega

theorem Pc.steps_congr (threads : Nat) {q q' : Queue} (tempTail : q'.tempTail = q.tempTail)
    (head : q'.head = q.head) (pc : Pc) : pc.steps threads q' = pc.steps threads q := by
  cases pc <;> simp only [Pc.steps, tempTail, head]

/-- Whether a thread may still acquire an index for a push. -/
def Pc.mayPush : Pc → Nat
  | .loadTempTail _ => 1
  | .loadTempHead _ _ => 1
  | .exchangeTempTail _ _ _ => 1
  | _ => 0

variable [Fintype Thread]

def remaining (s : State Thread) : Nat :=
  total (Pc.steps (Fintype.card Thread) s.queue) s.pc

/-- Every step but a wait in vain brings the calls nearer to their end. -/
theorem Moves.nearer {before : Pc} {log : List (Event Thread)} (there : s.pc thread = before)
    (moves : Moves false s.queue before q' pc') (goes : pc' ≠ before) :
    remaining (⟨q', Function.update s.pc thread pc', log⟩ : State Thread) < remaining s := by
  let threads := Fintype.card Thread
  have own := total_update (Pc.steps threads q') s.pc thread pc'
  rw [there] at own
  have grown : total (Pc.steps threads q') s.pc ≤ total (Pc.steps threads s.queue) s.pc + 3 * threads := by
    have each := Finset.sum_le_sum fun thread (_ : thread ∈ Finset.univ) =>
      (s.pc thread).steps_le threads s.queue q'
    rwa [Finset.sum_add_distrib, Finset.sum_const_nat fun _ _ => rfl, Finset.card_univ,
      Nat.mul_comm] at each
  have same : q'.tempTail = s.queue.tempTail → q'.head = s.queue.head →
      total (Pc.steps threads q') s.pc = total (Pc.steps threads s.queue) s.pc :=
    fun tempTail head => Finset.sum_congr rfl fun other _ => Pc.steps_congr _ tempTail head _
  show total (Pc.steps threads q') (Function.update s.pc thread pc') <
    total (Pc.steps threads s.queue) s.pc
  cases moves with
  | pushAcquired src new next =>
    have stale : s.queue.tempTail ≠ new := by omega
    simp only [Pc.steps, if_neg stale] at own
    omega
  | popAcquired new next =>
    have stale : s.queue.head ≠ new := by omega
    simp only [Pc.steps, if_neg stale] at own
    omega
  | tailAwaited index waits => exact absurd rfl goes
  | tempHeadAwaited index dst waits => exact absurd rfl goes
  | pushFailed src old new failed =>
    have same := same rfl rfl
    simp only [Pc.steps, if_neg (failed rfl)] at own
    omega
  | popFailed old new failed =>
    have same := same rfl rfl
    simp only [Pc.steps, if_neg (failed rfl)] at own
    omega
  | full src old | tempHeadLoaded src old | empty old | tailLoaded old =>
    have same := same rfl rfl
    simp only [Pc.steps] at own
    split at own <;> omega
  | _ =>
    have same := same rfl rfl
    simp only [Pc.steps, if_true] at own
    omega

/-- The pushes that have an index, and those that may still acquire one. -/
theorem Moves.mayPush {before : Pc} (there : s.pc thread = before)
    (moves : Moves false s.queue before q' pc') :
    q'.tempTail + total Pc.mayPush (Function.update s.pc thread pc') ≤
      s.queue.tempTail + total Pc.mayPush s.pc := by
  have own := total_update Pc.mayPush s.pc thread pc'
  rw [there] at own
  cases moves with
  | _ =>
    simp only [Pc.mayPush] at own ⊢
    omega

/-- Whatever calls have been begun, steps of the threads alone lead to a state where all of them
have returned, in runs with fewer than `2 ^ 31` pushes. -/
theorem mpmc_queue_completes (reached : (queues Thread).Reachable s)
    (few : (acquiredPushes s.log).length + Fintype.card Thread < 2 ^ 31) :
    ∃ steps s', (queues Thread).replay s steps = some s' ∧
      (∀ step ∈ steps, ∃ thread, step = .step thread false) ∧
      (∀ thread, s'.pc thread = .idle) ∧
      pushes s'.log = (acquiredPushes s'.log).map Prod.fst ∧
      (pops s'.log).map Prod.fst = (acquiredPops s'.log).map Prod.fst := by
  have nearer : ∀ s : State Thread, (Valid s ∧ Holding s.queue s.pc ∧
        s.queue.tempTail + total Pc.mayPush s.pc < 2 ^ 31) →
      ¬ (∀ thread, s.pc thread = .idle) →
      ∃ action s', (∃ thread, action = .step thread false) ∧
        (queues Thread).next s action = some s' ∧
        (Valid s' ∧ Holding s'.queue s'.pc ∧ s'.queue.tempTail + total Pc.mayPush s'.pc < 2 ^ 31) ∧
        remaining s' < remaining s := by
    rintro s ⟨valid, holding, fits⟩ busy
    obtain ⟨thread, busy⟩ := not_forall.mp busy
    have few : s.queue.tempTail < 2 ^ 31 := by omega
    obtain ⟨thread, q', pc', events, stepped, goes⟩ := valid.somebody_goes few holding busy
    have moves := advance_moves valid.shared few (valid.threads thread) stepped
    have moved : (queues Thread).next s (.step thread false) =
        some ⟨q', Function.update s.pc thread pc', s.log ++ events⟩ := by
      simp [queues, stepped]
    refine ⟨.step thread false, _, ⟨thread, rfl⟩, moved, ⟨valid.next few moved,
      holding.moves rfl moves, ?_⟩, moves.nearer rfl goes⟩
    exact Nat.lt_of_le_of_lt (moves.mayPush rfl) fits
  obtain ⟨valid, -⟩ := reachable_valid reached (by omega)
  have holding := reachable_holding reached (by omega)
  have fits : s.queue.tempTail + total Pc.mayPush s.pc < 2 ^ 31 := by
    have lengths := congrArg List.length valid.shared.acquiredPushes
    rw [List.length_map, List.length_range] at lengths
    have most : total Pc.mayPush s.pc ≤ Fintype.card Thread := by
      refine (Finset.sum_le_card_nsmul Finset.univ _ 1 fun thread _ => ?_).trans ?_
      · cases s.pc thread <;> simp [Pc.mayPush]
      · simp [Finset.card_univ]
    change (acquiredPushes s.log).length = _ at lengths
    omega
  obtain ⟨steps, s', replayed, stepped, ⟨valid, holding, -⟩, idle⟩ :=
    replay_progress _ _ remaining nearer ⟨valid, holding, fits⟩
  have shared := valid.shared
  have pushed : s'.queue.tail = s'.queue.tempTail := by
    refine Nat.le_antisymm shared.pushesReleased (Nat.not_lt.mp fun more => ?_)
    obtain ⟨thread, holds⟩ := holding.pushers _ (Nat.le_refl _) more
    rw [idle] at holds
    cases holds
  have popped : s'.queue.tempHead = s'.queue.head := by
    refine Nat.le_antisymm shared.popsReleased (Nat.not_lt.mp fun more => ?_)
    obtain ⟨thread, holds⟩ := holding.poppers _ (Nat.le_refl _) more
    rw [idle] at holds
    cases holds
  refine ⟨steps, s', replayed, stepped, idle, ?_, ?_⟩
  · exact shared.pushes.trans (pushed ▸ shared.acquiredPushes.symm)
  · exact shared.pops.trans (popped ▸ shared.acquiredPops.symm)

/-- One thread waits to push into a queue of two items, another is about to pop. -/
theorem mpmc_queue_completes_begun : ∃ s, (queues Bool).Reachable s ∧
    s.pc true = .awaitTail 0 ∧ s.pc false = .loadTail 0 ∧
    ∃ steps s', (queues Bool).replay s steps = some s' ∧ ∀ thread, s'.pc thread = .idle := by
  have begins : (queues Bool).initial ⟨⟨0, 0, 0, 0, 2, 1, [0, 0]⟩, fun _ => .idle, []⟩ :=
    ⟨⟨[0, 0], 1, by decide, by decide, by decide, by decide⟩, fun _ => rfl, rfl⟩
  obtain ⟨s, reached, there⟩ := (Reachable.start begins).replay_check
    (.tryPush true [7] :: List.replicate 4 (.step true false) ++ [.tryPop false, .step false false])
    (fun s => s.pc true = .awaitTail 0 ∧ s.pc false = .loadTail 0 ∧
      (acquiredPushes s.log).length = 1) (by decide)
  obtain ⟨pushing, popping, one⟩ := of_decide_eq_true there
  obtain ⟨steps, s', replayed, -, idle, -⟩ := mpmc_queue_completes reached (by rw [one]; decide)
  exact ⟨s, reached, pushing, popping, steps, s', replayed, idle⟩

end Mysnips.MpmcQueue

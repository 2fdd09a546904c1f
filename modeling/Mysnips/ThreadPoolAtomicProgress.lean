import Mathlib.Data.Prod.Lex
import Mysnips.ThreadPoolAtomic

/-! The calls on the free list and on the ring of the thread pool come to an end. A
compare-exchange fails only because another one has succeeded. So an access that performs no
operation brings its call nearer to it, or moves `tail` after a claim. -/
namespace Mysnips.ThreadPoolAtomic
open Transition System Totals

section FreeList

open ThreadPoolFreeList

/-- The most accesses of a push to the free list before it succeeds, if no other operation does. -/
def listLeft (freeJobs : Option Job) : Pc → Nat
  | .idle => 4
  | .pushLoad _ => 3
  | .pushStore _ oldHead => if freeJobs = oldHead then 2 else 5
  | .pushExchange _ oldHead => if freeJobs = oldHead then 1 else 4
  | .popLoad | .popNext _ | .popExchange _ _ => 0

variable {Thread : Type} [DecidableEq Thread] [Fintype Thread] {s s' : State Thread}
  {thread : Thread}

/-- A push to the free list that has not succeeded is nearer to it after its next access. -/
theorem list_nearer {job : Job} (phase : listPhase (s.pc thread) = .pushing job)
    (moved : (freeLists Thread).next s (.step thread) = some s')
    (still : listOperations s (.step thread) = []) :
    total (listLeft s'.freeJobs) s'.pc < total (listLeft s.freeJobs) s.pc := by
  simp only [freeLists] at moved
  simp only [listOperations] at still
  have nearer : ∀ {pc : Pc}, listLeft s.freeJobs pc < listLeft s.freeJobs (s.pc thread) →
      total (listLeft s.freeJobs) (Function.update s.pc thread pc) <
        total (listLeft s.freeJobs) s.pc := by
    intro pc less
    have moved := total_update (listLeft s.freeJobs) s.pc thread pc
    omega
  cases there : s.pc thread with
  | pushLoad job =>
    rw [there] at moved
    cases moved
    refine nearer ?_
    rw [there]
    simp [listLeft]
  | pushStore job oldHead =>
    rw [there] at moved
    cases moved
    refine nearer ?_
    rw [there]
    simp only [listLeft]
    split <;> omega
  | pushExchange job oldHead =>
    rw [there] at moved still
    simp only [ThreadPoolFreeList.advance, listOperation] at moved still
    split at moved
    · rename_i same
      rw [if_pos same] at still
      cases still
    · rename_i changed
      cases moved
      refine nearer ?_
      rw [there]
      simp only [listLeft, if_neg changed]
      omega
  | idle | popLoad | popNext | popExchange =>
    rw [there] at phase
    cases phase

end FreeList

section Queue

open ThreadPoolQueue

/-- The push has claimed its slot and has not moved `tail`. -/
def unmoved : Pc → Nat
  | .copyIn _ _ _ | .loadTail | .exchangeTail _ _ => 1
  | _ => 0

theorem unmoved_eq_zero {pc : Pc} (elsewhere : ringPhase pc ≠ .filling) : unmoved pc = 0 := by
  cases pc <;> first | rfl | exact absurd rfl elsewhere

/-- The most accesses of a call before it performs its next operation or moves `tail`, if no other
call does. -/
def ringLeft (q : Queue) : Pc → Nat
  | .idle => 4
  | .loadTemp _ => 3
  | .exchangeTemp _ oldTemp _ => if q.temp = oldTemp then 2 else 4
  | .copyIn _ _ _ => 4
  | .loadTail => 3
  | .exchangeTail oldTail _ => if q.tail = oldTail then 2 else 4
  | .signal => 0
  | .wait => 3
  | .loadHead => 3
  | .copyOut oldHead _ => if q.head = oldHead then 2 else 5
  | .exchangeHead oldHead _ _ _ => if q.head = oldHead then 1 else 4

/-- An access that performs nothing moves `tail`, or brings the call nearer to its operation. -/
theorem advance_nearer {Thread : Type} {thread : Thread} {q q' : Queue} {pending pending' : Nat}
    {h h' : History} {pc pc' : Pc} (step : Advances false q pending h pc q' pending' pc' h')
    (still : lineOperation thread q pc = []) : unmoved pc' < unmoved pc ∨
      unmoved pc' = unmoved pc ∧ ringLeft q' = ringLeft q ∧ ringLeft q pc' < ringLeft q pc := by
  cases step with
  | readTemp there _ | readTail there | readHead there _ =>
    rw [there]
    refine .inr ⟨rfl, rfl, ?_⟩
    simp [ringLeft]
  | missedTemp there changed | missedHead there changed =>
    rw [there]
    refine .inr ⟨rfl, rfl, ?_⟩
    simp [ringLeft, changed]
  | copied there _ =>
    rw [there]
    refine .inr ⟨rfl, ?_, by simp [ringLeft]⟩
    funext pc
    cases pc <;> rfl
  | movedTail there =>
    rw [there]
    exact .inl Nat.one_pos
  | missedTail there failed =>
    rw [there]
    refine .inr ⟨rfl, rfl, ?_⟩
    simp only [and_true] at failed
    simp [ringLeft, failed]
  | read there _ _ =>
    rw [there]
    refine .inr ⟨rfl, rfl, ?_⟩
    simp only [ringLeft]
    split <;> omega
  | claimed there same | popped there same =>
    rw [there, lineOperation, if_pos same] at still
    cases still
  | signaled there | waited there _ =>
    rw [there] at still
    cases still

variable {Thread : Type} [Fintype Thread] [DecidableEq Thread] {s s' : State Thread}
  {thread : Thread}

/-- What the calls on a ring have still to do before they perform their operations: the pushes that
have to move `tail`, and the accesses that are left. -/
def ringRank (s : State Thread) : ℕ ×ₗ ℕ :=
  toLex (total unmoved s.pc, total (ringLeft s.queue) s.pc)

theorem ring_nearer (moved : (queues Thread).next s (.step thread false) = some s')
    (still : lineOperations s (.step thread false) = []) : ringRank s' < ringRank s := by
  simp only [lineOperations] at still
  obtain ⟨queue, pending, pc, history, step, rfl⟩ := step_advances moved
  have unmoved := total_update unmoved s.pc thread pc
  have left := total_update (ringLeft s.queue) s.pc thread pc
  refine Prod.Lex.toLex_lt_toLex.mpr ?_
  rcases advance_nearer step still with less | ⟨same, reads, less⟩
  · left
    show total _ (Function.update s.pc thread pc) < _
    omega
  · right
    rw [reads]
    show total _ (Function.update s.pc thread pc) = _ ∧ total _ (Function.update s.pc thread pc) < _
    omega

/-- A call has begun. -/
theorem ringRank_called {pc : Pc} {history : History} (idle : s.pc thread = .idle)
    (outside : unmoved pc = 0) (first : ringLeft s.queue pc < 4) :
    ringRank { s with pc := Function.update s.pc thread pc, history } < ringRank s := by
  have same := total_update unmoved s.pc thread pc
  have left := total_update (ringLeft s.queue) s.pc thread pc
  rw [idle, outside, show unmoved .idle = 0 from rfl, add_zero, add_zero] at same
  rw [idle, show ringLeft s.queue .idle = 4 from rfl] at left
  exact Prod.Lex.toLex_lt_toLex.mpr (.inr ⟨same, by simp only; omega⟩)

/-- Each pop that has read the slot at `head` has read the item that is the next one to be
popped. -/
def Fresh (s : State Thread) : Prop :=
  ∀ thread oldHead newHead dst copied, s.pc thread = .exchangeHead oldHead newHead dst copied →
    s.queue.head = oldHead → copied = some s.history.popped.length

omit [DecidableEq Thread] in
/-- While a thread pops, the next item is in the slot at `head`. -/
theorem next_inSlot (valid : Valid s) (popping : 0 < (s.pc thread).popping) :
    s.history.inSlot s.queue.size s.queue.head = some s.history.popped.length := by
  have some := total_pos popping
  have waits := valid.counted.waits
  have pending := valid.counted.pending
  have announced := valid.shared.announced s.history.popped.length (by omega)
  rw [valid.shared.head]
  exact (valid.shared.stored _ announced (Nat.le_refl _)).2

omit [DecidableEq Thread] in
theorem Fresh.timely (fresh : Fresh s) (valid : Valid s) {oldHead newHead : Nat} {dst : Item}
    {copied : Option Nat} (there : s.pc thread = .exchangeHead oldHead newHead dst copied) :
    (s.pc thread).Timely s.queue s.history := by
  have popping : 0 < (s.pc thread).popping := by
    rw [there]
    exact Nat.one_pos
  have inSlot := next_inSlot valid popping
  rw [there]
  intro same
  rw [fresh thread _ _ _ _ there same, ← inSlot, same]

omit [Fintype Thread] in
/-- An access that pops nothing. -/
theorem Fresh.moved {queue : Queue} {pending : Nat} {history : History} {pc : Pc} (fresh : Fresh s)
    (head : queue.head = s.queue.head) (popped : history.popped = s.history.popped)
    (own : ∀ oldHead newHead dst copied, pc = .exchangeHead oldHead newHead dst copied →
      queue.head = oldHead → copied = some history.popped.length) :
    Fresh ⟨queue, pending, Function.update s.pc thread pc, history⟩ := by
  intro other oldHead newHead dst copied there same
  by_cases here : other = thread
  · rw [here] at there
    simp only [Function.update_self] at there
    exact own _ _ _ _ there same
  · simp only [Function.update_of_ne here] at there
    simp only [popped]
    exact fresh other _ _ _ _ there (head ▸ same)

/-- Two threads that pop are on a ring of more than one slot. -/
theorem popping_apart (valid : Valid s) {other : Thread} (different : other ≠ thread)
    (one : 0 < (s.pc thread).popping) (two : 0 < (s.pc other).popping) : 1 < s.queue.size := by
  have rest := total_update Pc.popping s.pc thread .idle
  have theirs : 0 < (Function.update s.pc thread .idle other).popping := by
    rwa [Function.update_of_ne different]
  have others : 0 < total Pc.popping (Function.update s.pc thread .idle) := total_pos theirs
  have waits := valid.counted.waits
  have pending := valid.counted.pending
  have order := valid.counted.order
  have room := valid.shared.room
  simp only [Pc.popping] at rest one
  omega

/-- An access keeps the pops fresh, when all others that have read a slot have read the one at
`head` before an item is popped. -/
theorem Fresh.step (fresh : Fresh s) (valid : Valid s) {spurious : Bool}
    (moved : (queues Thread).next s (.step thread spurious) = some s')
    (alone : ∀ oldHead newHead dst copied,
      s.pc thread = .exchangeHead oldHead newHead dst copied → s.queue.head = oldHead →
      ∀ other oldHead' newHead' dst' copied',
        s.pc other = .exchangeHead oldHead' newHead' dst' copied' → s.queue.head = oldHead') :
    Fresh s' := by
  have known := valid.threads thread
  obtain ⟨queue, pending, pc, history, step, rfl⟩ := step_advances moved
  cases step with
  | readTemp | claimed | missedTemp | copied | readTail | movedTail | missedTail | signaled | waited
  | readHead | missedHead => exact fresh.moved rfl rfl (by simp)
  | read there _ _ =>
    refine fresh.moved rfl rfl fun _ _ _ _ pc same => ?_
    have popping : 0 < (s.pc thread).popping := by
      rw [there]
      exact Nat.one_pos
    cases pc
    rw [← same]
    exact next_inSlot valid popping
  | @popped oldHead _ _ _ there same =>
    -- the others have read the slot at the old `head`, which is not the one at the new
    intro other oldHead' newHead' dst' copied' here head
    have different : other ≠ thread := by
      rintro rfl
      simp at here
    simp only [Function.update_of_ne different] at here
    obtain rfl := same.symm.trans (alone _ _ _ _ there same other _ _ _ _ here)
    have size := popping_apart valid different (by rw [there]; exact Nat.one_pos)
      (by rw [here]; exact Nat.one_pos)
    rw [there] at known
    obtain ⟨inside, rfl, -⟩ := known
    have apart := RingSlots.mod_ne_of_window oldHead (Nat.succ_ne_self oldHead) (Nat.le_succ _)
      (Nat.add_lt_add_left size _) (Nat.le_refl _) (by omega)
    rw [Nat.mod_eq_of_lt inside] at apart
    exact absurd head apart

/-- Each claimed slot is filled, or a thread is about to fill it. -/
def Filled (s : State Thread) : Prop :=
  ∀ turn < s.history.claimed.length,
    turn ∈ s.history.copied ∨ ∃ thread, (s.pc thread).filling = some turn

omit [Fintype Thread] in
/-- An access that claims no slot and is not about to fill one. -/
theorem Filled.moved {queue : Queue} {pending : Nat} {history : History} {pc : Pc}
    (filled : Filled s) (claimed : history.claimed = s.history.claimed)
    (copied : s.history.copied ⊆ history.copied)
    (own : ∀ turn, (s.pc thread).filling = some turn → turn ∈ history.copied) :
    Filled ⟨queue, pending, Function.update s.pc thread pc, history⟩ := by
  intro turn before
  rw [claimed] at before
  rcases filled turn before with here | ⟨other, fills⟩
  · exact .inl (copied here)
  · by_cases same : other = thread
    · rw [same] at fills
      exact .inl (own turn fills)
    · exact .inr ⟨other, by simpa only [Function.update_of_ne same] using fills⟩

omit [Fintype Thread] in
theorem Filled.step (filled : Filled s) {spurious : Bool}
    (moved : (queues Thread).next s (.step thread spurious) = some s') : Filled s' := by
  obtain ⟨queue, pending, pc, history, step, rfl⟩ := step_advances moved
  cases step with
  | readTemp there _ | missedTemp there _ | readTail there | movedTail there | missedTail there _
  | signaled there | waited there _ | readHead there _ | read there _ _ | popped there _
  | missedHead there _ =>
    exact filled.moved rfl (List.Subset.refl _) (by simp [there, Pc.filling])
  | claimed there _ =>
    intro turn before
    simp only [List.length_append, List.length_singleton] at before
    rcases Nat.lt_succ_iff_lt_or_eq.mp before with before | rfl
    · rcases filled turn before with here | ⟨other, fills⟩
      · exact .inl here
      · have different : other ≠ thread := by
          rintro rfl
          rw [there] at fills
          cases fills
        exact .inr ⟨other, by simpa only [Function.update_of_ne different] using fills⟩
    · exact .inr ⟨thread, by simp only [Function.update_self]; rfl⟩
  | copied there _ =>
    refine filled.moved rfl (List.subset_append_left _ _) fun other fills => ?_
    rw [there] at fills
    cases fills
    exact List.mem_append_right _ List.mem_cons_self

omit [DecidableEq Thread] in
/-- When each push that has claimed its slot has moved `tail`, no signal is early. -/
theorem Filled.timely (filled : Filled s) (valid : Valid s)
    (all : ∀ thread, unmoved (s.pc thread) = 0) (there : s.pc thread = .signal) :
    (s.pc thread).Timely s.queue s.history := by
  rw [there]
  intro turn announced
  have silent := total_pos (show 0 < (s.pc thread).silent by rw [there]; exact Nat.one_pos)
  have signals := valid.counted.signals
  rcases filled turn (by omega) with copied | ⟨other, fills⟩
  · exact copied
  · have moved := all other
    cases pc : s.pc other with
    | copyIn =>
      rw [pc] at moved
      cases moved
    | _ =>
      rw [pc] at fills
      cases fills

end Queue

end Mysnips.ThreadPoolAtomic

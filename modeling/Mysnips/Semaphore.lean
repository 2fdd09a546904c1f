import Mathlib.Algebra.Order.BigOperators.Group.Finset
import Mathlib.Data.Fintype.Basic
import Mysnips.Machine
import Mysnips.Totals
import Mysnips.Transition

/-! The counting semaphore of `thread/sync.c`, used by any number of threads that wait
without a timeout. A thread holds the mutex from `os_mutex_lock` to `os_mutex_unlock`, so
that what it does in between is one step, except that `os_condvar_wait` gives the mutex
back while the thread sleeps. A signal wakes one sleeper, whatever the amount is: the
amount may be enough for others too, and the sleeper may find that it is not enough for
itself. -/
namespace Mysnips.Semaphore
open Machine Totals Transition

/-- Where a thread is. -/
inductive Place where
  | out
  | waitLock (count : Nat)
  | waitTest (count : Nat)
  | asleep (count : Nat)
  | woken (count : Nat)
  | waitUnlock
  | signalLock (count : Nat)
  | signalAdd (count : Nat)
  | signalUnlock
  deriving DecidableEq, Repr

/-- `semaphore_t`, the places of the threads, and what was signalled and acquired so far. -/
structure State (Thread : Type) where
  count : Int
  mutex : Option Thread
  place : Thread → Place
  signalled : Nat
  acquired : Nat

/-- A call, a step of a thread, the critical section of a signal with the sleeper that the
system wakes, and a sleeper that wakes up without a signal. -/
inductive Action (Thread : Type) where
  | wait (thread : Thread) (count : Nat)
  | signal (thread : Thread) (count : Nat)
  | advance (thread : Thread)
  | post (thread : Thread) (chosen : Option Thread)
  | stir (thread : Thread)
  deriving DecidableEq, Repr

def Place.IsAsleep : Place → Prop
  | .asleep _ => True
  | _ => False

def Place.IsWoken : Place → Prop
  | .woken _ => True
  | _ => False

instance : DecidablePred Place.IsAsleep := fun place =>
  match place with
  | .asleep _ => inferInstanceAs (Decidable True)
  | .out | .waitLock _ | .waitTest _ | .woken _ | .waitUnlock | .signalLock _ | .signalAdd _
  | .signalUnlock => inferInstanceAs (Decidable False)

/-- What the place of a sleeper becomes when it is woken. -/
def Place.rouse : Place → Place
  | .asleep count => .woken count
  | place => place

section Steps

variable {Thread : Type} [DecidableEq Thread]

def State.move (s : State Thread) (thread : Thread) (target : Place) : State Thread :=
  { s with place := Function.update s.place thread target }

/-- A thread takes the mutex, if it is free. -/
def State.lock (s : State Thread) (thread : Thread) (target : Place) : Option (State Thread) :=
  if s.mutex = none then some { s.move thread target with mutex := some thread } else none

def State.unlock (s : State Thread) (thread : Thread) (target : Place) : State Thread :=
  { s.move thread target with mutex := none }

/-- The test of the loop of `semaphore_wait`, and what follows it up to the next point where
the mutex is given back. -/
def State.test (s : State Thread) (thread : Thread) (count : Nat) : State Thread :=
  if s.count < count then s.unlock thread (.asleep count)
  else { s.move thread .waitUnlock with
    count := int32 (s.count - count)
    acquired := s.acquired + count }

variable [Fintype Thread]

/-- `os_condvar_signal`: some sleeper is woken, if there is one. -/
def State.condvarSignal (s : State Thread) : Option Thread → Option (State Thread)
  | none => if ∀ thread, ¬ (s.place thread).IsAsleep then some s else none
  | some sleeper =>
    if (s.place sleeper).IsAsleep then some (s.move sleeper (s.place sleeper).rouse) else none

/-- The critical section of `semaphore_signal`. -/
def State.add (s : State Thread) (thread : Thread) (count : Nat) (chosen : Option Thread) :
    Option (State Thread) :=
  let s := { s.move thread .signalUnlock with
    count := int32 (s.count + count)
    signalled := s.signalled + count }
  if 0 < s.count then s.condvarSignal chosen
  else if chosen = none then some s else none

/-- What an action does. A call with a count that is not positive fails its assertion. -/
def State.next (s : State Thread) : Action Thread → Option (State Thread)
  | .wait thread count =>
    if s.place thread = .out ∧ 0 < count ∧ count < 2 ^ 31 then some (s.move thread (.waitLock count))
    else none
  | .signal thread count =>
    if s.place thread = .out ∧ 0 < count ∧ count < 2 ^ 31 then some (s.move thread (.signalLock count))
    else none
  | .advance thread =>
    match s.place thread with
    | .waitLock count | .woken count => s.lock thread (.waitTest count)
    | .waitTest count => some (s.test thread count)
    | .signalLock count => s.lock thread (.signalAdd count)
    | .waitUnlock | .signalUnlock => some (s.unlock thread .out)
    | .out | .asleep _ | .signalAdd _ => none
  | .post thread chosen =>
    match s.place thread with
    | .signalAdd count => s.add thread count chosen
    | _ => none
  | .stir thread =>
    if (s.place thread).IsAsleep then some (s.move thread (s.place thread).rouse) else none

/-- The use of a semaphore that is created with a count. -/
def semaphores (Thread : Type) [DecidableEq Thread] [Fintype Thread] (initial : Int) :
    System (State Thread) (Action Thread) where
  initial s := s = ⟨initial, none, fun _ => .out, 0, 0⟩
  next := State.next

/-- How it may go on from a state without another amount being added. -/
def calmly (s : State Thread) : System (State Thread) (Action Thread) where
  initial := (· = s)
  next s action :=
    match action with
    | .post _ _ => none
    | action => s.next action

/-- The count is what the semaphore was created with and what was signalled, less what was
acquired; it is not negative; and when no thread is about to look at it, nobody sleeps whom
it would be enough for. -/
structure NothingLost (initial : Int) (s : State Thread) : Prop where
  balance : s.count = initial + s.signalled - s.acquired
  nonneg : 0 ≤ s.count
  served : s.mutex = none → (∀ thread, ¬ (s.place thread).IsWoken) →
    ∀ thread count, s.place thread = .asleep count → s.count < count

/-- What a thread that is about to look at the count may take, if it is at most `bound`. -/
def Place.claim (bound : Nat) : Place → Nat
  | .woken count | .waitTest count => if count ≤ bound then count else 0
  | _ => 0

/-- The count is not enough for a sleeper and for the threads that are about to look and want at
most as much as the sleeper. -/
def Claimed (count : Int) (place : Thread → Place) : Prop :=
  ∀ thread wanted, place thread = .asleep wanted →
    count < wanted + (total (Place.claim wanted) place : Nat)

/-- The places behind `os_condvar_signal`. -/
def roused (place : Thread → Place) : Option Thread → Thread → Place
  | none => place
  | some sleeper => Function.update place sleeper (place sleeper).rouse

/-- A signal whose amount fits into the count, and is claimed by the threads that are about to
look, the one it wakes among them. -/
def Suffices (s : State Thread) : Action Thread → Prop
  | .post thread chosen =>
    ∀ count, s.place thread = .signalAdd count →
      s.count + count < 2 ^ 31 ∧ Claimed (s.count + count) (roused s.place chosen)
  | _ => True

instance (count : Int) (place : Thread → Place) : Decidable (Claimed count place) :=
  decidable_of_iff (∀ thread, (match place thread with
      | .asleep wanted => some wanted
      | _ => none).all fun wanted => count < wanted + (total (Place.claim wanted) place : Nat)) (by
    apply forall_congr'
    intro thread
    cases place thread <;> simp)

instance (s : State Thread) (action : Action Thread) : Decidable (Suffices s action) :=
  match action with
  | .post thread chosen => decidable_of_iff ((match s.place thread with
      | .signalAdd count => some count
      | _ => none).all fun count =>
        s.count + count < 2 ^ 31 ∧ Claimed (s.count + count) (roused s.place chosen)) (by
    simp only [Suffices]
    cases s.place thread <;> simp)
  | .wait _ _ | .signal _ _ | .advance _ | .stir _ => inferInstanceAs (Decidable True)

/-! ## What is claimed -/

/-- The thread is between `os_mutex_lock` and `os_mutex_unlock`, and does not sleep. -/
def Place.Holds : Place → Prop
  | .waitTest _ | .waitUnlock | .signalAdd _ | .signalUnlock => True
  | .out | .waitLock _ | .asleep _ | .woken _ | .signalLock _ => False

variable {s s' : State Thread} {count count' : Int} {place : Thread → Place} {thread : Thread}
  {target : Place} {chosen : Option Thread} {initial : Int}

/-- A thread moves on, and the count falls by at most what the thread claims less. -/
theorem Claimed.move (claimed : Claimed count place) (awake : ¬ target.IsAsleep)
    (less : ∀ bound, count' + (place thread).claim bound ≤ count + target.claim bound) :
    Claimed count' (Function.update place thread target) := by
  intro other wanted sleeps
  by_cases same : other = thread
  · rw [same, Function.update_self] at sleeps
    rw [sleeps] at awake
    exact absurd trivial awake
  · rw [Function.update_of_ne same] at sleeps
    have before := claimed other wanted sleeps
    have moved := total_update (Place.claim wanted) place thread target
    have less := less wanted
    omega

/-- A thread moves on, and claims no less than before. -/
theorem Claimed.keep (claimed : Claimed count place) (awake : ¬ target.IsAsleep)
    (more : ∀ bound, (place thread).claim bound ≤ target.claim bound) :
    Claimed count (Function.update place thread target) := by
  apply claimed.move awake
  intro bound
  have more := more bound
  omega

/-- A thread goes to sleep because the count is not enough for it. -/
theorem Claimed.sleep {wanted : Nat} (claimed : Claimed count place)
    (here : place thread = .waitTest wanted) (short : count < wanted) :
    Claimed count (Function.update place thread (.asleep wanted)) := by
  intro other more sleeps
  by_cases same : other = thread
  · rw [same, Function.update_self] at sleeps
    cases sleeps
    omega
  · rw [Function.update_of_ne same] at sleeps
    have before := claimed other more sleeps
    have moved := total_update (Place.claim more) place thread (.asleep wanted)
    simp only [here, Place.claim] at moved
    split at moved
    · omega
    · omega

/-! ## The invariant -/

section Holds

variable {mutex : Option Thread}

omit [Fintype Thread]

theorem holds_move (holds : ∀ thread, (place thread).Holds ↔ mutex = some thread)
    (kept : (place thread).Holds ↔ target.Holds) (other : Thread) :
    (Function.update place thread target other).Holds ↔ mutex = some other := by
  by_cases same : other = thread
  · rw [same, Function.update_self, ← kept]
    exact holds thread
  · rw [Function.update_of_ne same]
    exact holds other

theorem holds_lock (holds : ∀ thread, (place thread).Holds ↔ mutex = some thread)
    (free : mutex = none) (inside : target.Holds) (other : Thread) :
    (Function.update place thread target other).Holds ↔ some thread = some other := by
  by_cases same : other = thread
  · simp [same, inside]
  · have others := holds other
    rw [free] at others
    simp [same, Ne.symm same, others]

theorem holds_unlock (holds : ∀ thread, (place thread).Holds ↔ mutex = some thread)
    (inside : (place thread).Holds) (outside : ¬ target.Holds) (other : Thread) :
    (Function.update place thread target other).Holds ↔ none = some other := by
  by_cases same : other = thread
  · simp [same, outside]
  · have held := (holds thread).mp inside
    have others := holds other
    rw [held, Option.some.injEq] at others
    simp [same, others, Ne.symm same]

end Holds

/-- The invariant of the runs whose signals suffice. -/
structure Valid (initial : Int) (s : State Thread) : Prop where
  balance : s.count = initial + s.signalled - s.acquired
  nonneg : 0 ≤ s.count
  small : s.count < 2 ^ 31
  holds : ∀ thread, (s.place thread).Holds ↔ s.mutex = some thread
  claimed : Claimed s.count s.place

omit [DecidableEq Thread] in
theorem Valid.nothingLost (valid : Valid initial s) : NothingLost initial s := by
  refine ⟨valid.balance, valid.nonneg, fun free calm thread count sleeps => ?_⟩
  have none : total (Place.claim count) s.place = 0 := by
    apply total_zero
    intro other
    cases here : s.place other with
    | woken wanted =>
      have calm := calm other
      rw [here] at calm
      exact absurd trivial calm
    | waitTest wanted =>
      have held := (valid.holds other).mp (by rw [here]; trivial)
      rw [free] at held
      cases held
    | _ => rfl
  have claimed := valid.claimed thread count sleeps
  rw [none] at claimed
  omega

/-- A thread moves on between two places with or without the mutex. -/
theorem Valid.move (valid : Valid initial s) (kept : (s.place thread).Holds ↔ target.Holds)
    (awake : ¬ target.IsAsleep) (more : ∀ bound, (s.place thread).claim bound ≤ target.claim bound) :
    Valid initial (s.move thread target) :=
  ⟨valid.balance, valid.nonneg, valid.small, holds_move valid.holds kept,
    valid.claimed.keep awake more⟩

theorem Valid.lock (valid : Valid initial s) (inside : target.Holds) (awake : ¬ target.IsAsleep)
    (more : ∀ bound, (s.place thread).claim bound ≤ target.claim bound)
    (locked : s.lock thread target = some s') : Valid initial s' := by
  obtain ⟨free, rest⟩ := Option.ite_none_right_eq_some.mp locked
  cases rest
  exact ⟨valid.balance, valid.nonneg, valid.small, holds_lock valid.holds free inside,
    valid.claimed.keep awake more⟩

theorem Valid.unlock (valid : Valid initial s) (inside : (s.place thread).Holds)
    (claimless : ∀ bound, (s.place thread).claim bound = 0) :
    Valid initial (s.unlock thread .out) := by
  refine ⟨valid.balance, valid.nonneg, valid.small, holds_unlock valid.holds inside id, ?_⟩
  apply valid.claimed.keep id
  intro bound
  rw [claimless]
  exact Nat.zero_le _

theorem Valid.test {wanted : Nat} (valid : Valid initial s)
    (here : s.place thread = .waitTest wanted) : Valid initial (s.test thread wanted) := by
  have inside : (s.place thread).Holds := by
    rw [here]
    trivial
  have nonneg := valid.nonneg
  have small := valid.small
  unfold State.test
  split
  · rename_i short
    exact ⟨valid.balance, nonneg, small, holds_unlock valid.holds inside id,
      valid.claimed.sleep here short⟩
  · rename_i enough
    have exact : int32 (s.count - wanted) = s.count - wanted := int32_eq (by omega) (by omega)
    rw [exact]
    have balance := valid.balance
    refine ⟨?_, ?_, ?_, holds_move valid.holds (iff_of_true inside trivial), ?_⟩
    · simp only [State.move]
      omega
    · simp only
      omega
    · simp only
      omega
    · apply valid.claimed.move id
      intro bound
      rw [here]
      simp only [Place.claim]
      split
      · omega
      · omega

theorem rouse_awake (place : Place) : ¬ place.rouse.IsAsleep := by
  cases place <;> exact id

theorem rouse_claim (place : Place) (bound : Nat) : place.claim bound ≤ place.rouse.claim bound := by
  cases place <;> simp [Place.rouse, Place.claim]

theorem rouse_holds (place : Place) : place.Holds ↔ place.rouse.Holds := by
  cases place <;> exact Iff.rfl

/-- Every step but that of a signal. -/
theorem Valid.calm {action : Action Thread} (valid : Valid initial s)
    (calm : ∀ thread chosen, action ≠ .post thread chosen) (moved : s.next action = some s') :
    Valid initial s' := by
  cases action with
  | wait thread wanted =>
    obtain ⟨⟨here, -⟩, rest⟩ := Option.ite_none_right_eq_some.mp moved
    cases rest
    apply valid.move <;> simp [here, Place.Holds, Place.IsAsleep, Place.claim]
  | signal thread amount =>
    obtain ⟨⟨here, -⟩, rest⟩ := Option.ite_none_right_eq_some.mp moved
    cases rest
    apply valid.move <;> simp [here, Place.Holds, Place.IsAsleep, Place.claim]
  | advance thread =>
    simp only [State.next] at moved
    split at moved
    · rename_i wanted here
      apply valid.lock _ _ _ moved <;> simp [here, Place.Holds, Place.IsAsleep, Place.claim]
    · rename_i wanted here
      apply valid.lock _ _ _ moved <;> simp [here, Place.Holds, Place.IsAsleep, Place.claim]
    · rename_i wanted here
      cases moved
      exact valid.test here
    · rename_i amount here
      apply valid.lock _ _ _ moved <;> simp [here, Place.Holds, Place.IsAsleep, Place.claim]
    · rename_i here
      cases moved
      apply valid.unlock <;> simp [here, Place.Holds, Place.claim]
    · rename_i here
      cases moved
      apply valid.unlock <;> simp [here, Place.Holds, Place.claim]
    · cases moved
    · cases moved
    · cases moved
  | post thread chosen => exact absurd rfl (calm thread chosen)
  | stir thread =>
    obtain ⟨-, rest⟩ := Option.ite_none_right_eq_some.mp moved
    cases rest
    exact valid.move (rouse_holds _) (rouse_awake _) (rouse_claim _)

/-- The critical section of a signal. -/
theorem add_spec {amount : Nat} (here : s.place thread = .signalAdd amount)
    (added : s.add thread amount chosen = some s') :
    roused s.place chosen thread = .signalAdd amount ∧ s' = { s with
      count := int32 (s.count + amount)
      signalled := s.signalled + amount
      place := Function.update (roused s.place chosen) thread .signalUnlock } := by
  have unchosen : chosen = none → s' = { s.move thread .signalUnlock with
      count := int32 (s.count + amount)
      signalled := s.signalled + amount } →
      roused s.place chosen thread = .signalAdd amount ∧ s' = { s with
        count := int32 (s.count + amount)
        signalled := s.signalled + amount
        place := Function.update (roused s.place chosen) thread .signalUnlock } := by
    rintro rfl rfl
    exact ⟨here, rfl⟩
  unfold State.add at added
  simp only at added
  split at added
  · cases chosen with
    | none =>
      obtain ⟨-, rest⟩ := Option.ite_none_right_eq_some.mp added
      exact unchosen rfl (Option.some.inj rest).symm
    | some sleeper =>
      obtain ⟨sleeps, rest⟩ := Option.ite_none_right_eq_some.mp added
      cases rest
      have different : sleeper ≠ thread := by
        rintro rfl
        simp only [State.move, Function.update_self] at sleeps
        exact sleeps
      simp only [roused, State.move, Function.update_of_ne different,
        Function.update_of_ne different.symm, here, Function.update_comm different, true_and]
  · obtain ⟨none, rest⟩ := Option.ite_none_right_eq_some.mp added
    exact unchosen none (Option.some.inj rest).symm

theorem post_spec (moved : s.next (.post thread chosen) = some s') : ∃ amount : Nat,
    s.place thread = .signalAdd amount ∧ roused s.place chosen thread = .signalAdd amount ∧
      s' = { s with
        count := int32 (s.count + amount)
        signalled := s.signalled + amount
        place := Function.update (roused s.place chosen) thread .signalUnlock } := by
  simp only [State.next] at moved
  split at moved
  · rename_i amount here
    exact ⟨amount, here, add_spec here moved⟩
  · cases moved

omit [Fintype Thread] in
theorem holds_roused {mutex : Option Thread}
    (holds : ∀ thread, (place thread).Holds ↔ mutex = some thread) (other : Thread) :
    (roused place chosen other).Holds ↔ mutex = some other := by
  cases chosen with
  | none => exact holds other
  | some sleeper => exact holds_move holds (rouse_holds _) other

/-- A signal that suffices. -/
theorem Valid.post (valid : Valid initial s) (enough : Suffices s (.post thread chosen))
    (moved : s.next (.post thread chosen) = some s') : Valid initial s' := by
  obtain ⟨amount, here, still, rfl⟩ := post_spec moved
  obtain ⟨fits, claimed⟩ := enough amount here
  have nonneg := valid.nonneg
  have balance := valid.balance
  have exact : int32 (s.count + amount) = s.count + amount := int32_eq (by omega) fits
  rw [exact]
  refine ⟨?_, ?_, fits, holds_move (holds_roused valid.holds) ?_, ?_⟩
  · simp only
    omega
  · simp only
    omega
  · rw [still]
    exact Iff.rfl
  · apply claimed.keep id
    intro bound
    rw [still]
    exact Nat.le_refl _

theorem Valid.next {action : Action Thread} (valid : Valid initial s)
    (enough : Suffices s action) (moved : s.next action = some s') : Valid initial s' := by
  cases action with
  | post thread chosen => exact valid.post enough moved
  | _ => exact valid.calm (by nofun) moved

theorem calmly_next {start : State Thread} {action : Action Thread} :
    (calmly start).next s action = some s' ↔
      (∀ thread chosen, action ≠ .post thread chosen) ∧ s.next action = some s' := by
  cases action with
  | post thread chosen => exact ⟨nofun, fun ⟨calm, _⟩ => absurd rfl (calm thread chosen)⟩
  | _ => exact ⟨fun moved => ⟨nofun, moved⟩, And.right⟩

/-! ## A signal that does not suffice -/

section Stuck

variable {start : State Thread} {amount wanted : Nat} {sleeper : Thread}

/-- A thread takes the mutex, and finds the count to be enough. -/
theorem acquires (reached : (calmly start).Reachable s) (free : s.mutex = none)
    (here : s.place thread = .woken amount ∨ s.place thread = .waitLock amount)
    (enough : amount ≤ s.count) (small : s.count < 2 ^ 31) :
    (calmly start).Reachable { s with
      count := s.count - amount
      mutex := none
      place := Function.update s.place thread .out
      acquired := s.acquired + amount } := by
  have locks : (calmly start).next s (.advance thread) =
      some { s.move thread (.waitTest amount) with mutex := some thread } := by
    rcases here with here | here
    · simp [calmly, State.next, here, State.lock, free]
    · simp [calmly, State.next, here, State.lock, free]
  have exact : int32 (s.count - amount) = s.count - amount := int32_eq (by omega) (by omega)
  have takes : (calmly start).next { s.move thread (.waitTest amount) with mutex := some thread }
      (.advance thread) = some { s.move thread .waitUnlock with
        mutex := some thread
        count := s.count - amount
        acquired := s.acquired + amount } := by
    simp [calmly, State.next, State.move, State.test, exact, Int.not_lt.mpr enough]
  have unlocks : (calmly start).next { s.move thread .waitUnlock with
        mutex := some thread
        count := s.count - amount
        acquired := s.acquired + amount } (.advance thread) = some { s with
      count := s.count - amount
      mutex := none
      place := Function.update s.place thread .out
      acquired := s.acquired + amount } := by
    simp [calmly, State.next, State.move, State.unlock]
  exact ((reached.step locks).step takes).step unlocks

/-- A thread takes the mutex, and goes back to sleep. -/
theorem goesBack (reached : (calmly start).Reachable s) (free : s.mutex = none)
    (here : s.place thread = .woken amount) (short : s.count < amount) :
    (calmly start).Reachable { s with
      mutex := none
      place := Function.update s.place thread (.asleep amount) } := by
  have locks : (calmly start).next s (.advance thread) =
      some { s.move thread (.waitTest amount) with mutex := some thread } := by
    simp [calmly, State.next, here, State.lock, free]
  have sleeps : (calmly start).next { s.move thread (.waitTest amount) with mutex := some thread }
      (.advance thread) = some { s with
        mutex := none
        place := Function.update s.place thread (.asleep amount) } := by
    simp [calmly, State.next, State.move, State.test, State.unlock, short]
  exact (reached.step locks).step sleeps

theorem unlocks (s : State Thread) (here : s.place thread = .signalUnlock) :
    (calmly start).next s (.advance thread) = some (s.unlock thread .out) := by
  simp [calmly, State.next, here]

def Place.wakes : Place → Nat
  | .woken _ => 1
  | _ => 0

/-- The mutex is free, and the count would be just enough for a sleeper behind the woken threads
that want at most as much. -/
structure Drifting (sleeper : Thread) (wanted : Nat) (s : State Thread) : Prop where
  free : s.mutex = none
  outside : ∀ thread, ¬ (s.place thread).Holds
  sleeps : s.place sleeper = .asleep wanted
  count : s.count = wanted + (total (Place.claim wanted) s.place : Nat)
  small : s.count < 2 ^ 31

omit [DecidableEq Thread] in
/-- When every woken thread wants more than the sleeper, nothing is claimed. -/
theorem Drifting.unclaimed (drifting : Drifting sleeper wanted s)
    (large : ∀ thread amount, s.place thread = .woken amount → wanted < amount) :
    total (Place.claim wanted) s.place = 0 := by
  apply total_zero
  intro thread
  cases here : s.place thread with
  | woken amount => exact if_neg (Nat.not_le.mpr (large thread amount here))
  | waitTest amount =>
    have outside := drifting.outside thread
    rw [here] at outside
    exact absurd trivial outside
  | _ => rfl

omit [Fintype Thread] in
theorem outside_update (outside : ∀ thread, ¬ (place thread).Holds) (not : ¬ target.Holds)
    (other : Thread) : ¬ (Function.update place thread target other).Holds := by
  by_cases same : other = thread
  · rw [same, Function.update_self]
    exact not
  · rw [Function.update_of_ne same]
    exact outside other

omit [DecidableEq Thread] in
theorem Drifting.different (drifting : Drifting sleeper wanted s)
    (here : s.place thread = .woken amount) : sleeper ≠ thread := by
  rintro rfl
  cases drifting.sleeps.symm.trans here

/-- A woken thread that wants at most as much as the sleeper goes on. -/
theorem Drifting.goesOn (drifting : Drifting sleeper wanted s) (reached : (calmly start).Reachable s)
    (here : s.place thread = .woken amount) (le : amount ≤ wanted) :
    ∃ s', (calmly start).Reachable s' ∧ Drifting sleeper wanted s' ∧
      total Place.wakes s'.place + 1 = total Place.wakes s.place := by
  have count := drifting.count
  have small := drifting.small
  have claim : (s.place thread).claim wanted = amount := by
    rw [here]
    exact if_pos le
  have moved := total_update (Place.claim wanted) s.place thread .out
  have fewer := total_update Place.wakes s.place thread .out
  rw [claim] at moved
  rw [here] at fewer
  simp only [Place.claim, Place.wakes] at moved fewer
  refine ⟨_, acquires reached drifting.free (.inl here) (by omega) small, ⟨rfl, ?_, ?_, ?_, ?_⟩, ?_⟩
  · exact outside_update drifting.outside id
  · exact (Function.update_of_ne (drifting.different here) ..).trans drifting.sleeps
  · simp only
    omega
  · simp only
    omega
  · simp only
    omega

/-- When no woken thread wants as little, one that wants more goes back to sleep. -/
theorem Drifting.goesBack (drifting : Drifting sleeper wanted s) (reached : (calmly start).Reachable s)
    (here : s.place thread = .woken amount)
    (large : ∀ thread amount, s.place thread = .woken amount → wanted < amount) :
    ∃ s', (calmly start).Reachable s' ∧ Drifting sleeper wanted s' ∧
      total Place.wakes s'.place + 1 = total Place.wakes s.place := by
  have count := drifting.count
  have unclaimed := drifting.unclaimed large
  have above := large thread amount here
  have same : total (Place.claim wanted) (Function.update s.place thread (.asleep amount)) =
      total (Place.claim wanted) s.place := by
    apply total_same
    rw [here]
    exact (if_neg (Nat.not_le.mpr above)).symm
  have fewer := total_update Place.wakes s.place thread (.asleep amount)
  rw [here] at fewer
  simp only [Place.wakes] at fewer
  refine ⟨_, Semaphore.goesBack reached drifting.free here (by omega), ⟨rfl, ?_, ?_, ?_, drifting.small⟩, ?_⟩
  · exact outside_update drifting.outside id
  · exact (Function.update_of_ne (drifting.different here) ..).trans drifting.sleeps
  · simp only [same]
    exact count
  · simp only
    omega

/-- The woken threads go on, those first that want at most as much as the sleeper: the others then
find that the count is not enough. -/
theorem Drifting.settles (n : Nat) (drifting : Drifting sleeper wanted s)
    (woken : total Place.wakes s.place = n) (reached : (calmly start).Reachable s) :
    ∃ s', (calmly start).Reachable s' ∧ Drifting sleeper wanted s' ∧
      ∀ thread, ¬ (s'.place thread).IsWoken := by
  induction n generalizing s with
  | zero =>
    refine ⟨s, reached, drifting, fun thread wakes => ?_⟩
    have none := (Finset.sum_eq_zero_iff.mp woken) thread (Finset.mem_univ thread)
    cases here : s.place thread with
    | woken amount =>
      rw [here] at none
      cases none
    | _ =>
      rw [here] at wakes
      exact wakes
  | succ n ih =>
    by_cases modest : ∃ thread amount, s.place thread = .woken amount ∧ amount ≤ wanted
    · obtain ⟨thread, amount, here, le⟩ := modest
      obtain ⟨s', reached', drifting', fewer⟩ := drifting.goesOn reached here le
      exact ih drifting' (by omega) reached'
    · have large : ∀ thread amount, s.place thread = .woken amount → wanted < amount := by
        intro thread amount here
        by_contra le
        exact modest ⟨thread, amount, here, Nat.not_lt.mp le⟩
      obtain ⟨thread, amount, here⟩ : ∃ thread amount, s.place thread = .woken amount := by
        by_contra nobody
        have none : total Place.wakes s.place = 0 := by
          apply total_zero
          intro thread
          cases here : s.place thread with
          | woken amount => exact absurd ⟨thread, amount, here⟩ nobody
          | _ => rfl
        omega
      obtain ⟨s', reached', drifting', fewer⟩ := drifting.goesBack reached here large
      exact ih drifting' (by omega) reached'

/-- A count that is enough for a sleeper behind the woken threads can be brought down to just
enough, by a thread that is not using the semaphore. -/
theorem drifts (reached : (calmly start).Reachable s) (free : s.mutex = none)
    (outside : ∀ thread, ¬ (s.place thread).Holds) (sleeps : s.place sleeper = .asleep wanted)
    (idle : s.place thread = .out) (small : s.count < 2 ^ 31)
    (enough : wanted + (total (Place.claim wanted) s.place : Nat) ≤ s.count) :
    ∃ s', (calmly start).Reachable s' ∧ Drifting sleeper wanted s' := by
  obtain ⟨rest, count⟩ : ∃ rest : Nat, s.count = wanted + (total (Place.claim wanted) s.place : Nat) + rest :=
    ⟨(s.count - (wanted + (total (Place.claim wanted) s.place : Nat))).toNat, by omega⟩
  by_cases zero : rest = 0
  · exact ⟨s, reached, free, outside, sleeps, by omega, small⟩
  · have calls : (calmly start).next s (.wait thread rest) = some (s.move thread (.waitLock rest)) := by
      have limits : 0 < rest ∧ rest < 2 ^ 31 := by omega
      simp only [calmly, State.next]
      exact if_pos ⟨idle, limits⟩
    have here : (s.move thread (.waitLock rest)).place thread = .waitLock rest := Function.update_self ..
    have different : sleeper ≠ thread := by
      rintro rfl
      cases sleeps.symm.trans idle
    have same : Function.update (s.move thread (.waitLock rest)).place thread .out = s.place := by
      simp only [State.move, Function.update_idem]
      rw [← idle, Function.update_eq_self]
    refine ⟨_, acquires (reached.step calls) free (.inr here) ?_ small, rfl, ?_, ?_, ?_, ?_⟩
    · simp only [State.move]
      omega
    · simp only [same]
      exact outside
    · simp only [same]
      exact sleeps
    · simp only [same]
      simp only [State.move]
      omega
    · simp only [State.move]
      omega

/-- A signal does not suffice because the count overflows, or because the amount is enough for a
sleeper that it leaves asleep. -/
theorem exceeds (here : s.place thread = .signalAdd amount)
    (short : ¬ Suffices s (.post thread chosen)) :
    2 ^ 31 ≤ s.count + amount ∨ (s.count + amount < 2 ^ 31 ∧ ∃ sleeper wanted,
      roused s.place chosen sleeper = .asleep wanted ∧
        wanted + (total (Place.claim wanted) (roused s.place chosen) : Nat) ≤ s.count + amount) := by
  by_cases fits : s.count + amount < 2 ^ 31
  · refine .inr ⟨fits, ?_⟩
    by_contra nobody
    refine short fun other there => ?_
    cases there.symm.trans here
    refine ⟨fits, fun sleeper wanted sleeps => ?_⟩
    by_contra enough
    exact nobody ⟨sleeper, wanted, sleeps, by omega⟩
  · exact .inl (Int.not_lt.mp fits)

/-- A signal that does not suffice: the count overflows, or the threads can go on so that a
sleeper stays asleep for whom the count is enough. -/
theorem loses (valid : Valid initial s) (moved : s.next (.post thread chosen) = some s')
    (short : ¬ Suffices s (.post thread chosen)) :
    ∃ last, (calmly s').Reachable last ∧ ¬ NothingLost initial last := by
  obtain ⟨amount, here, still, rfl⟩ := post_spec moved
  have nonneg := valid.nonneg
  have balance := valid.balance
  rcases exceeds here short with overflows | ⟨fits, sleeper, wanted, sleeps, enough⟩
  · refine ⟨_, .start rfl, fun kept => ?_⟩
    have wrapped := kept.balance
    have below := int32_lt (s.count + amount)
    simp only at wrapped
    omega
  · have exact : int32 (s.count + amount) = s.count + amount := int32_eq (by omega) fits
    rw [exact]
    have different : sleeper ≠ thread := by
      rintro rfl
      cases sleeps.symm.trans still
    have same : total (Place.claim wanted) (Function.update (roused s.place chosen) thread .out) =
        total (Place.claim wanted) (roused s.place chosen) := by
      apply total_same
      rw [still]
      rfl
    have inside : (roused s.place chosen thread).Holds := by
      rw [still]
      trivial
    have outside : ∀ other, ¬ (Function.update (roused s.place chosen) thread .out other).Holds :=
      fun other held => nomatch (holds_unlock (holds_roused valid.holds) inside id other).mp held
    let after : State Thread := { s with
      count := s.count + amount
      signalled := s.signalled + amount
      place := Function.update (roused s.place chosen) thread .signalUnlock }
    have begun : (calmly after).Reachable (after.unlock thread .out) :=
      System.Reachable.step (.start rfl) (unlocks after (Function.update_self ..))
    have place : (after.unlock thread .out).place =
        Function.update (roused s.place chosen) thread .out := Function.update_idem ..
    obtain ⟨middle, reached, drifting⟩ : ∃ s', (calmly after).Reachable s' ∧
        Drifting sleeper wanted s' := by
      apply drifts begun rfl
      · rw [place]
        exact outside
      · rw [place, Function.update_of_ne different]
        exact sleeps
      · exact Function.update_self ..
      · exact fits
      · rw [place, same]
        exact enough
    obtain ⟨last, ends, stuck, calm⟩ := drifting.settles _ rfl reached
    refine ⟨last, ends, fun kept => ?_⟩
    have short := kept.served stuck.free calm sleeper wanted stuck.sleeps
    have count := stuck.count
    omega

end Stuck

/-- While the signals suffice, nothing is lost; and nothing can be lost behind the next signal
exactly when it suffices. -/
theorem nothing_lost_while_signals_suffice (nonneg : 0 ≤ initial) (small : initial < 2 ^ 31)
    (reached : ((semaphores Thread initial).restrict Suffices).Reachable s) :
    NothingLost initial s ∧ ∀ thread chosen s', s.next (.post thread chosen) = some s' →
      ((∀ last, (calmly s').Reachable last → NothingLost initial last) ↔
        Suffices s (.post thread chosen)) := by
  have valid : Valid initial s := by
    refine reached.invariant (fun s begins => ?_) fun s action s' _ valid moved => ?_
    · cases begins
      exact ⟨by simp, nonneg, small, fun _ => ⟨nofun, nofun⟩, nofun⟩
    · obtain ⟨enough, moved⟩ := System.restrict_next.mp moved
      exact valid.next enough moved
  refine ⟨valid.nothingLost, fun thread chosen s' moved => ⟨fun kept => ?_, fun enough => ?_⟩⟩
  · by_contra short
    obtain ⟨last, ends, lost⟩ := loses valid moved short
    exact lost (kept last ends)
  · intro last ends
    have kept : Valid initial last := by
      refine ends.invariant (fun s begins => ?_) fun s action s' _ valid moved => ?_
      · cases begins
        exact valid.post enough moved
      · obtain ⟨calm, moved⟩ := calmly_next.mp moved
        exact valid.calm calm moved
    exact kept.nothingLost

end Steps

/-- Two threads that wait for one and for five, and a signal of three that wakes the first. -/
theorem nothing_lost_while_signals_suffice_applies : ∃ s,
    ((semaphores (Fin 3) 0).restrict Suffices).Reachable s ∧ s.place 0 = .woken 1 ∧
      s.place 1 = .asleep 5 ∧ s.count = 3 ∧ NothingLost 0 s := by
  have begun : ((semaphores (Fin 3) 0).restrict Suffices).Reachable ⟨0, none, fun _ => .out, 0, 0⟩ :=
    .start rfl
  obtain ⟨s, reached, checked⟩ := begun.replay_check
    [.wait 0 1, .advance 0, .advance 0, .wait 1 5, .advance 1, .advance 1, .signal 2 3, .advance 2,
      .post 2 (some 0), .advance 2]
    (fun s => s.place 0 = .woken 1 && s.place 1 = .asleep 5 && s.count = 3) (by decide +kernel)
  simp only [Bool.and_eq_true, decide_eq_true_eq] at checked
  exact ⟨s, reached, checked.1.1, checked.1.2, checked.2,
    (nothing_lost_while_signals_suffice (by decide) (by decide) reached).1⟩

/-- Two threads wait for one, and one signal of two wakes only the first: when it is through, the
count is one, and the second sleeps on. -/
theorem second_waiter_sleeps_on : ∃ s, (semaphores (Fin 3) 0).Reachable s ∧ s.mutex = none ∧
    s.place 0 = .out ∧ s.place 1 = .asleep 1 ∧ s.place 2 = .out ∧ s.count = 1 ∧
      ¬ NothingLost 0 s := by
  have begun : (semaphores (Fin 3) 0).Reachable ⟨0, none, fun _ => .out, 0, 0⟩ := .start rfl
  obtain ⟨s, reached, checked⟩ := begun.replay_check
    [.wait 0 1, .advance 0, .advance 0, .wait 1 1, .advance 1, .advance 1, .signal 2 2, .advance 2,
      .post 2 (some 0), .advance 2, .advance 0, .advance 0, .advance 0]
    (fun s => s.mutex = none && s.place 0 = .out && s.place 1 = .asleep 1 && s.place 2 = .out &&
      s.count = 1) (by decide +kernel)
  simp only [Bool.and_eq_true, decide_eq_true_eq] at checked
  obtain ⟨⟨⟨⟨free, first⟩, second⟩, third⟩, count⟩ := checked
  refine ⟨s, reached, free, first, second, third, count, fun kept => ?_⟩
  have calm : ∀ thread, ¬ (s.place thread).IsWoken := by
    simp [Fin.forall_fin_succ, first, second, third, Place.IsWoken]
  have short := kept.served free calm 1 1 second
  rw [count] at short
  cases short

end Mysnips.Semaphore

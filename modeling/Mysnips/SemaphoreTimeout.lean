import Mysnips.Machine

/-! The timed wait of `thread/sync.c`. `semaphore_wait` computes the time that remains again in
every round of its loop, as a signed difference. A negative timeout makes `os_condvar_wait`
sleep until it is woken, so that a thread which finds too small a count after its deadline
waits as if it had none. What the clock shows, how `os_condvar_wait` returns and what the other
threads leave in the count are inputs of the call. -/
namespace Mysnips.SemaphoreTimeout
open Machine

/-- A round of the loop: what `get_relative_time_ns` returns in it, what `os_condvar_wait`
returns, and the count by then. -/
structure Round where
  now : Nat
  woken : Bool
  found : Int
  deriving DecidableEq, Repr

/-- What a call has done: the timeouts that `os_condvar_wait` was given, what is returned, if
the call is over, and the count that is left. -/
structure Waited where
  timeouts : List Int
  result : Option Bool
  count : Int
  deriving DecidableEq, Repr

/-- A reading of the clock in milliseconds. -/
def ms (reading : Nat) : Nat := reading / 1000000

section Wait

variable (count timeoutMs : Int) (start : Nat)

/-- `remaining_ms`, for the readings of the clock at the start and in this round. -/
def remainingMs (now : Nat) : Int :=
  if timeoutMs ≥ 0 then int32 (timeoutMs - int32 (sub64 (ms now) (ms start))) else -1

/-- The loop of `semaphore_wait`, from the count that the semaphore has. -/
def waitLoop : Int → List Round → Waited
  | semCount, rounds =>
    if semCount < count then
      match rounds with
      | [] => ⟨[], none, semCount⟩
      | round :: rest =>
        let remaining := remainingMs timeoutMs start round.now
        if round.woken then
          let waited := waitLoop round.found rest
          { waited with timeouts := remaining :: waited.timeouts }
        else ⟨[remaining], some false, round.found⟩
    else ⟨[], some true, int32 (semCount - count)⟩

/-- `semaphore_wait` of a positive count. -/
def semaphoreWait (semCount : Int) (rounds : List Round) : Waited :=
  waitLoop count timeoutMs start semCount rounds

/-- The rounds that a call goes through, in each of which the count was too small. -/
def roundsTaken : Int → List Round → List Round
  | _, [] => []
  | semCount, round :: rest =>
    if semCount < count then round :: if round.woken then roundsTaken round.found rest else []
    else []

/-- The count that a call finds at last. -/
def lastFound (semCount : Int) (rounds : List Round) : Int :=
  ((roundsTaken count semCount rounds).getLast?.map Round.found).getD semCount

/-- No wait is without a timeout, and the count is left as it is found, less what is acquired. -/
structure StaysTimed (semCount : Int) (rounds : List Round) : Prop where
  timed : ∀ timeout ∈ (semaphoreWait count timeoutMs start semCount rounds).timeouts, 0 ≤ timeout
  failed : (semaphoreWait count timeoutMs start semCount rounds).result = some false →
    (semaphoreWait count timeoutMs start semCount rounds).count = lastFound count semCount rounds
  acquired : (semaphoreWait count timeoutMs start semCount rounds).result = some true →
    (semaphoreWait count timeoutMs start semCount rounds).count + count =
      lastFound count semCount rounds

/-- The deadline has not passed, as far as the difference of the readings can be seen in 32
bits. -/
def BeforeDeadline (now : Nat) : Prop :=
  ((ms now - ms start) % 2 ^ 32 : Nat) ≤ timeoutMs ∨
    2 ^ 31 + timeoutMs < ((ms now - ms start) % 2 ^ 32 : Nat)

end Wait

section Loop

variable {count timeoutMs : Int} {start now : Nat} {semCount : Int} {rounds : List Round}

theorem ms_mono {earlier later : Nat} (le : earlier ≤ later) : ms earlier ≤ ms later :=
  Nat.div_le_div_right le

/-- The remaining time is negative once the deadline has passed, but for a wait of more than
`2 ^ 31` milliseconds. -/
theorem remainingMs_nonneg_iff (nonneg : 0 ≤ timeoutMs) (small : timeoutMs < 2 ^ 31)
    (later : start ≤ now) (word : now < 2 ^ 64) :
    0 ≤ remainingMs timeoutMs start now ↔ BeforeDeadline timeoutMs start now := by
  have elapsed : sub64 (ms now) (ms start) = ms now - ms start :=
    sub64_eq (ms_mono later) (Nat.lt_of_le_of_lt (Nat.div_le_self ..) word)
  rw [remainingMs, if_pos nonneg, elapsed, BeforeDeadline]
  generalize ms now - ms start = elapsed
  -- The elapsed time is seen as an `int`, which the timeout may exceed by more than an `int`.
  unfold int32
  rw [Int.bmod_def, Int.bmod_def]
  split <;> split <;> omega

/-- The timeouts are the ones of the rounds that the call goes through. -/
theorem timeouts_eq :
    (semaphoreWait count timeoutMs start semCount rounds).timeouts =
      (roundsTaken count semCount rounds).map fun round => remainingMs timeoutMs start round.now := by
  unfold semaphoreWait
  induction rounds generalizing semCount with
  | nil =>
    unfold waitLoop roundsTaken
    split
    · rfl
    · rfl
  | cons round rest ih =>
    unfold waitLoop roundsTaken
    by_cases small : semCount < count
    · rw [if_pos small, if_pos small]
      cases woken : round.woken with
      | false =>
        simp only [woken, Bool.false_eq_true, if_false]
        rfl
      | true =>
        simp only [woken, if_true]
        exact congrArg (remainingMs timeoutMs start round.now :: ·) ih
    · rw [if_neg small, if_neg small]
      rfl

theorem roundsTaken_subset : ∀ round ∈ roundsTaken count semCount rounds, round ∈ rounds := by
  induction rounds generalizing semCount with
  | nil => exact fun round member => member
  | cons first rest ih =>
    intro round member
    unfold roundsTaken at member
    split at member
    · rcases List.mem_cons.mp member with same | member
      · exact List.mem_cons.mpr (.inl same)
      · split at member
        · exact List.mem_cons_of_mem first (ih round member)
        · cases member
    · cases member

/-- A round that wakes the thread passes on what it found. -/
theorem lastFound_cons {round : Round} {rest : List Round} (small : semCount < count)
    (woken : round.woken = true) :
    lastFound count semCount (round :: rest) = lastFound count round.found rest := by
  unfold lastFound
  rw [roundsTaken, if_pos small, if_pos woken, List.getLast?_cons, Option.map_some,
    Option.getD_some]
  cases (roundsTaken count round.found rest).getLast? with
  | none => rfl
  | some last => rfl

/-- What a call leaves in the count once it is over. -/
theorem waitLoop_count (positive : 0 < count) (fits : semCount < 2 ^ 31)
    (found : ∀ round ∈ rounds, round.found < 2 ^ 31) :
    ((waitLoop count timeoutMs start semCount rounds).result = some false →
      (waitLoop count timeoutMs start semCount rounds).count = lastFound count semCount rounds) ∧
    ((waitLoop count timeoutMs start semCount rounds).result = some true →
      (waitLoop count timeoutMs start semCount rounds).count + count =
        lastFound count semCount rounds) := by
  induction rounds generalizing semCount with
  | nil =>
    unfold waitLoop
    split
    · exact ⟨nofun, nofun⟩
    · refine ⟨nofun, fun _ => ?_⟩
      show int32 (semCount - count) + count = semCount
      rw [int32_eq (by omega) (by omega)]
      omega
  | cons round rest ih =>
    obtain ⟨first, others⟩ := List.forall_mem_cons.mp found
    by_cases small : semCount < count
    · cases woken : round.woken with
      | false =>
        unfold waitLoop
        simp only [small, if_true, woken, Bool.false_eq_true, if_false]
        refine ⟨fun _ => ?_, nofun⟩
        simp [lastFound, roundsTaken, small, woken]
      | true =>
        rw [lastFound_cons small woken]
        unfold waitLoop
        simp only [small, woken, if_true]
        exact ih first others
    · unfold waitLoop
      simp only [small, if_false]
      refine ⟨nofun, fun _ => ?_⟩
      simp only [lastFound, roundsTaken, small, if_false]
      rw [int32_eq (by omega) (by omega)]
      simp

end Loop

/-- For every timeout, amount and course of events, the waits are timed and the count is changed
by the amount that is acquired, if and only if no round that finds too small a count is after the
deadline. -/
theorem stays_timed_iff_before_deadline {count timeoutMs semCount : Int} {start : Nat}
    {rounds : List Round} (positive : 0 < count) (nonneg : 0 ≤ timeoutMs)
    (small : timeoutMs < 2 ^ 31) (fits : semCount < 2 ^ 31)
    (found : ∀ round ∈ rounds, round.found < 2 ^ 31)
    (words : ∀ round ∈ rounds, round.now < 2 ^ 64)
    (ordered : (start :: rounds.map Round.now).Pairwise (· ≤ ·)) :
    StaysTimed count timeoutMs start semCount rounds ↔
      ∀ round ∈ roundsTaken count semCount rounds, BeforeDeadline timeoutMs start round.now := by
  have exactly : ∀ round ∈ roundsTaken count semCount rounds,
      (0 ≤ remainingMs timeoutMs start round.now ↔ BeforeDeadline timeoutMs start round.now) := by
    intro round member
    have inside := roundsTaken_subset round member
    exact remainingMs_nonneg_iff nonneg small
      ((List.pairwise_cons.mp ordered).1 _ (List.mem_map_of_mem inside)) (words round inside)
  constructor
  · intro stays round member
    refine (exactly round member).mp (stays.timed _ ?_)
    rw [timeouts_eq]
    exact List.mem_map.mpr ⟨round, member, rfl⟩
  · intro before
    obtain ⟨failed, acquired⟩ :=
      @waitLoop_count count timeoutMs start semCount rounds positive fits found
    refine ⟨fun timeout member => ?_, failed, acquired⟩
    rw [timeouts_eq] at member
    obtain ⟨round, taken, rfl⟩ := List.mem_map.mp member
    exact (exactly round taken).mpr (before round taken)

/-- A thread that wants two is woken for one, 4 ms before its deadline, and times out. -/
theorem stays_timed_iff_before_deadline_applies :
    StaysTimed 2 10 0 0 [⟨1000000, true, 1⟩, ⟨6000000, false, 1⟩] :=
  (stays_timed_iff_before_deadline (by decide) (by decide) (by decide) (by decide) (by decide)
    (by decide) (by decide)).mpr (by unfold BeforeDeadline; decide)

/-- A thread that wants two within 10 ms is woken for one just before its deadline and tests the
count after it: it is to sleep for -1 ms, which is without end. -/
theorem late_test_waits_forever :
    (semaphoreWait 2 10 0 0 [⟨1000000, true, 1⟩, ⟨11000000, true, 1⟩]).timeouts = [9, -1] ∧
    ¬ StaysTimed 2 10 0 0 [⟨1000000, true, 1⟩, ⟨11000000, true, 1⟩] := by
  have late : (semaphoreWait 2 10 0 0 [⟨1000000, true, 1⟩, ⟨11000000, true, 1⟩]).timeouts =
      [9, -1] := by decide
  refine ⟨late, fun stays => ?_⟩
  have timed := stays.timed (-1) (by rw [late]; decide)
  exact absurd timed (by decide)

end Mysnips.SemaphoreTimeout

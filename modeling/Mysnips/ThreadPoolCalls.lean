import Mysnips.ThreadPoolSafety

/-! The calls of the program. An id that it was given leads to the use that it was given for,
unless that was freed or the sign of the generation is spread over the index; then it leads
nowhere, and not to another use. -/
namespace Mysnips.ThreadPool
open Transition ThreadPoolJobIds Machine

/-- Where the generation spills into the index, what comes back is no index of a job. -/
theorem unpackIdx_pack_spilled {gen : Int} (low : -2 ^ 31 ≤ gen) (high : gen < 2 ^ 31) {idx : Nat}
    (small : idx < 2 ^ 31 - 1) (spilled : ¬ Widens gen) :
    unpackIdxFromJobId (packJobId gen idx) = 2 ^ 32 - 2 := by
  have negative : -2 ^ 31 ≤ int32 (gen + 1) ∧ int32 (gen + 1) < 0 := by
    unfold Widens at spilled
    by_cases last : gen = 2 ^ 31 - 1
    · rw [last]
      decide
    · rw [int32_eq (by omega) (by omega)]
      omega
  have full : ofInt (int32 (gen + 1)) / 2 ^ 32 = 2 ^ 32 - 1 := by
    unfold ofInt
    omega
  have ones : (2 ^ 32 - 1) ||| (idx + 1) = 2 ^ 32 - 1 := by
    have bound : (2 ^ 32 - 1) ||| (idx + 1) < 2 ^ 32 := Nat.or_lt_two_pow (by decide) (by omega)
    have least : 2 ^ 32 - 1 ≤ (2 ^ 32 - 1) ||| (idx + 1) := Nat.left_le_or
    omega
  rw [unpackIdxFromJobId, Nat.shiftRight_eq_div_pow, packJobId_high gen small, full, ones,
    sub64_eq (by decide) (by decide), uint32_eq (by decide)]
  decide

variable {Thread Task : Type} {config : Config Thread} {s s' : State Thread Task} {use : Use}
  {id job : Nat}

/-- What an id that was packed from a generation and an index leads to. -/
theorem find_packed (gen : BitVec 32) (inside : job < config.maxJobs) (found : Nat) :
    s.find config (packJobId gen.toInt job) = some found ↔
      found = job ∧ (s.jobs job).gen = gen ∧ packJobId gen.toInt job ≠ config.invalidJob ∧
        Widens gen.toInt := by
  have small : job < 2 ^ 31 - 1 := by
    have fits := config.lt_int
    omega
  have back : unpackGenFromJobId (packJobId gen.toInt job) = gen.toNat := by
    rw [unpackGen_pack, toNat_eq_toInt_mod]
  rw [Core.find, getJobData, back]
  by_cases invalid : packJobId gen.toInt job = config.invalidJob
  · rw [if_pos invalid]
    simp only [Option.map_none, invalid, ne_eq, not_true_eq_false, false_and, and_false,
      reduceCtorEq]
  rw [if_neg invalid]
  by_cases widens : Widens gen.toInt
  · have index := (unpackIdx_pack_iff (BitVec.le_toInt gen) BitVec.toInt_lt small).mpr widens
    simp only [index, Core.pool, inside, dite_true]
    by_cases current : (s.jobs job).gen = gen
    · simp only [current, ne_eq, not_true_eq_false, if_false, Option.map_some, Option.some.injEq,
        invalid, not_false_eq_true, widens, and_true]
      exact eq_comm
    · have different : (s.jobs job).gen.toNat ≠ gen.toNat :=
        fun same => current (BitVec.eq_of_toNat_eq same)
      simp only [if_pos different, current, Option.map_none, false_and, and_false, reduceCtorEq]
  · have index := unpackIdx_pack_spilled (BitVec.le_toInt gen) BitVec.toInt_lt small widens
    have outside : ¬ 2 ^ 32 - 2 < config.maxJobs := by
      have fits := config.lt_int
      omega
    simp only [index, Core.pool, outside, dite_false, widens, and_false, Option.map_none,
      reduceCtorEq]

/-- No other use has the id of a use, as long as no generation comes round. -/
theorem Facts.same_gen (facts : Facts config.maxJobs s) (turn : use.turn ≤ (s.jobs use.job).turn) :
    (s.jobs use.job).gen = firstGen s use.job + BitVec.ofNat 32 use.turn ↔
      use = s.use use.job := by
  have current : (s.jobs use.job).gen =
      firstGen s use.job + BitVec.ofNat 32 (s.jobs use.job).turn := by
    rw [firstGen, sub_add_cancel]
  have bound := facts.turns use.job
  constructor
  · intro same
    rw [current] at same
    have turns : (s.jobs use.job).turn = use.turn := by
      have equal := congrArg BitVec.toNat (add_left_cancel same)
      rwa [BitVec.toNat_ofNat, BitVec.toNat_ofNat, Nat.mod_eq_of_lt bound,
        Nat.mod_eq_of_lt (Nat.lt_of_le_of_lt turn bound)] at equal
    rw [Core.use, turns]
  · intro same
    rw [current, show use.turn = (s.jobs use.job).turn from congrArg Use.turn same]

/-- Where an id leads that the program was given. -/
theorem Facts.find_issued (facts : Facts config.maxJobs s) (given : .issued use id ∈ s.log)
    (found : Nat) :
    s.find config id = some found ↔ found = use.job ∧ Live s use ∧ id ≠ config.invalidJob ∧
      Widens (s.jobs use.job).gen.toInt := by
  obtain ⟨sent, rfl, known⟩ := facts.issued use id given
  obtain ⟨turn, inside⟩ := facts.past use sent
  have live : (s.jobs use.job).gen = firstGen s use.job + BitVec.ofNat 32 use.turn ↔
      Live s use := by
    rw [facts.same_gen turn]
    refine ⟨fun same => ?_, fun live => live.1⟩
    rcases known with live | ⟨older, -⟩
    · exact live
    · exact absurd (congrArg Use.turn same) (Nat.ne_of_lt older)
  rw [idOf, find_packed _ inside, live]
  refine and_congr_right fun _ => and_congr_right fun alive => ?_
  rw [live.mpr alive]

/-- What a call finds for an id that the program was given. -/
theorem Facts.find_use (facts : Facts config.maxJobs s) (given : id ∈ ids s.log)
    (found : s.find config id = some job) : Live s (s.use job) ∧ Issued s (s.use job) := by
  obtain ⟨use, member⟩ := mem_ids.mp given
  obtain ⟨rfl, live, -⟩ := (facts.find_issued member job).mp found
  rw [← live.1]
  exact ⟨live, id, member⟩

section Calls

variable [DecidableEq Thread] {thread : Thread}

/-- A call of `create_job` keeps the invariant. -/
theorem Valid.create (valid : Valid config.maxJobs s) (idle : s.pc thread = .idle) (task : Task)
    (join : Bool) : Valid config.maxJobs (s.goto thread (.check task join)) :=
  valid.still rfl rfl rfl rfl rfl (by rw [idle]; rfl) trivial rfl rfl

/-- A call of `basic_thread_pool_done` keeps the invariant. -/
theorem Valid.done (valid : Valid config.maxJobs s) (idle : s.pc thread = .idle)
    (given : id ∈ ids s.log) (found : s.find config id = some job) :
    Valid config.maxJobs (s.goto thread (.readDone (s.use job))) :=
  valid.still rfl rfl rfl rfl rfl (by rw [idle]; rfl) (valid.facts.find_use given found).2 rfl rfl

/-- A call of `basic_thread_pool_wait` keeps the invariant, if nobody else waits for the job. -/
theorem Valid.wait (valid : Valid config.maxJobs s) (idle : s.pc thread = .idle)
    (given : id ∈ ids s.log) (found : s.find config id = some job)
    (alone : ∀ other, (s.pc other).collecting ≠ some job) :
    Valid config.maxJobs (s.goto thread (.waitSem (s.use job))) := by
  refine valid.quiet rfl rfl rfl rfl rfl (by rw [idle]; rfl) (valid.facts.find_use given found)
    (fun other collected _ collecting => ?_) (.inl rfl)
  cases collecting
  exact alone other

/-- A call of `ensure_deinit` keeps the invariant. -/
theorem Valid.deinit (valid : Valid config.maxJobs s) (idle : s.pc thread = .idle) :
    Valid config.maxJobs (s.goto thread (.pushStop 0)) :=
  valid.still rfl rfl rfl rfl rfl (by rw [idle]; rfl) trivial rfl rfl

/-- The invariant holds of a pool that `ensure_init` has set up. -/
theorem Valid.initial (begins : (pools Thread Task config).initial s) : Valid config.maxJobs s := by
  obtain ⟨⟨fresh, -, -, -, pcs, log⟩, free, queue, -⟩ := begins
  have turns : ∀ job, (s.jobs job).turn = 0 := fun job => (fresh job).2
  have holds : ∀ thread, (s.pc thread).holds = none := by
    intro thread
    rw [pcs]
    split <;> rfl
  have places : ∀ place job, job ∈ kept s.free s.queue s.pc place → place = .free := by
    intro place job member
    cases place with
    | free => rfl
    | queue =>
      rw [kept, queue] at member
      cases member
    | thread thread =>
      rw [kept, holds] at member
      cases member
  have unparked : ∀ job, ¬ (s.jobs job).Parked := by
    rintro job ⟨permits, sem⟩
    cases (fresh job).1.symm.trans sem
  have never : ∀ event, event ∉ s.log := by
    intro event member
    rw [log] at member
    cases member
  refine ⟨⟨?_, ⟨?_, ?_⟩, ?_, fun job parked => absurd parked (unparked job)⟩, ?_, ⟨?_, ?_, ?_⟩⟩
  · intro place job member
    cases places place job member
    rw [kept, free] at member
    exact List.mem_range.mp member
  · intro place
    cases place with
    | free =>
      rw [kept, free]
      exact List.nodup_range
    | queue =>
      rw [kept, queue]
      exact List.nodup_nil
    | thread thread =>
      rw [kept, holds]
      exact List.nodup_nil
  · intro one two job first second
    exact (places one job first).trans (places two job second).symm
  · intro job inside
    refine .inl ⟨.free, ?_⟩
    rw [kept, free]
    exact List.mem_range.mpr inside
  · refine ⟨fun job _ => ⟨(fresh job).1, ?_⟩, fun job member => ?_,
      fun job permits sem => absurd ⟨permits, sem⟩ (unparked job), fun use member => ?_, ?_,
      fun use task member => absurd member (never _), fun use id member => absurd member (never _),
      fun use member => absurd member (never _), fun use member => absurd member (never _),
      fun job => ?_⟩
    · rw [log]
      exact List.not_mem_nil
    · rw [queue] at member
      cases member
    · rw [log] at member
      cases member
    · rw [log]
      exact List.nodup_nil
    · rw [turns]
      decide
  · intro thread
    rw [pcs]
    split <;> exact trivial
  · intro thread other job collecting
    rw [pcs] at collecting
    split at collecting <;> cases collecting
  · intro thread other use issuing
    rw [pcs] at issuing
    split at issuing <;> cases issuing

end Calls

end Mysnips.ThreadPool

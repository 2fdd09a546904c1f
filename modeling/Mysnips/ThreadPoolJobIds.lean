import Mathlib.Data.BitVec
import Mathlib.Logic.Function.Iterate
import Mysnips.Machine

/-! The job handles of `thread/thread_pool.c`. A handle holds the index of a job
structure in its upper half and the generation of the structure in its lower
half, each plus one. The generation goes through `int` and is widened with its
sign, so a negative successor fills the upper half as well and the index is
lost. -/
namespace Mysnips.ThreadPoolJobIds
open Machine

/-- `PACK_JOB_ID`, with `int` arguments. -/
def packJobId (gen idx : Int) : Nat :=
  ofInt (int32 (gen + 1)) ||| (ofInt (int32 (idx + 1)) <<< 32) % 2 ^ 64

/-- `UNPACK_GEN_FROM_JOB_ID`. -/
def unpackGenFromJobId (jobId : Nat) : Nat := uint32 (sub64 (jobId &&& 0xffffffff) 1)

/-- `UNPACK_IDX_FROM_JOB_ID`. -/
def unpackIdxFromJobId (jobId : Nat) : Nat := uint32 (sub64 (jobId >>> 32) 1)

/-- The generation counter of `struct job_data`. -/
structure JobData where
  gen : BitVec 32

/-- The array of `struct thread_pool`, whose length is an `int`. -/
structure ThreadPool where
  maxJobs : Nat
  fits : maxJobs < 2 ^ 31
  jobs : Fin maxJobs → JobData

variable {pool : ThreadPool}

/-- `get_job_id`. -/
def getJobId (pool : ThreadPool) (job : Fin pool.maxJobs) : Nat :=
  let gen : Int := (pool.jobs job).gen.toInt
  let idx : Int := (job.val : Int)
  packJobId gen idx

/-- `get_job_data`, where `INVALID_JOB` is a constant of the header. -/
def getJobData (invalidJob : Nat) (pool : ThreadPool) (jobId : Nat) : Option (Fin pool.maxJobs) :=
  if jobId = invalidJob then none
  else
    let idx := unpackIdxFromJobId jobId
    let gen := unpackGenFromJobId jobId
    if inside : idx < pool.maxJobs then
      if (pool.jobs ⟨idx, inside⟩).gen.toNat ≠ gen then none else some ⟨idx, inside⟩
    else none

/-- `free_job`, as far as the generation goes. -/
def freeJob (job : JobData) : JobData := { gen := job.gen + 1 }

theorem freeJob_iterate (n : Nat) (job : JobData) :
    (freeJob^[n] job).gen = job.gen + BitVec.ofNat 32 n := by
  induction n with
  | zero => simp
  | succ n ih =>
    rw [Function.iterate_succ_apply', BitVec.ofNat_add, ← BitVec.add_assoc, ← ih]
    rfl

/-! ### The two halves of a handle -/

/-- The lower half of a handle is the successor of the generation. -/
theorem packJobId_low (gen idx : Int) :
    packJobId gen idx % 2 ^ 32 = ((gen + 1) % 2 ^ 32).toNat := by
  have shifted : (ofInt (int32 (idx + 1)) <<< 32) % 2 ^ 64 % 2 ^ 32 = 0 := by
    rw [Nat.shiftLeft_eq]
    omega
  rw [packJobId, Nat.or_mod_two_pow, shifted, Nat.or_zero, ofInt, int32, Int.bmod_def]
  split <;> omega

/-- The upper half of a handle is the successor of the index, or-ed with the bits
that the generation spilled into it. -/
theorem packJobId_high (gen : Int) {idx : Nat} (small : idx < 2 ^ 31 - 1) :
    packJobId gen idx / 2 ^ 32 = ofInt (int32 (gen + 1)) / 2 ^ 32 ||| (idx + 1) := by
  have next : ofInt (int32 ((idx : Int) + 1)) = idx + 1 := by
    rw [int32_eq (by omega) (by omega), ofInt_eq (by omega) (by omega)]
    omega
  have kept : ((idx + 1) <<< 32) % 2 ^ 64 = (idx + 1) * 2 ^ 32 := by
    rw [Nat.shiftLeft_eq]
    omega
  rw [packJobId, next, kept, ← Nat.shiftRight_eq_div_pow, Nat.shiftRight_or_distrib,
    Nat.shiftRight_eq_div_pow, Nat.shiftRight_eq_div_pow, Nat.mul_div_cancel _ (by decide)]

/-- The generation always comes back. -/
theorem unpackGen_pack (gen idx : Int) :
    unpackGenFromJobId (packJobId gen idx) = (gen % 2 ^ 32).toNat := by
  have mask : packJobId gen idx &&& 0xffffffff = packJobId gen idx % 2 ^ 32 :=
    Nat.and_two_pow_sub_one_eq_mod _ 32
  rw [unpackGenFromJobId, mask, packJobId_low, uint32, sub64]
  omega

/-- The generations whose successor is not negative as an `int`. -/
def Widens (gen : Int) : Prop := -1 ≤ gen ∧ gen < 2 ^ 31 - 1

/-- The index comes back unless the sign of the generation was spread over it. -/
theorem unpackIdx_pack_iff {gen : Int} (low : -2 ^ 31 ≤ gen) (high : gen < 2 ^ 31) {idx : Nat}
    (small : idx < 2 ^ 31 - 1) :
    unpackIdxFromJobId (packJobId gen idx) = idx ↔ Widens gen := by
  have below : idx + 1 < 2 ^ 32 := by omega
  have upper : unpackIdxFromJobId (packJobId gen idx) =
      uint32 (sub64 (ofInt (int32 (gen + 1)) / 2 ^ 32 ||| (idx + 1)) 1) := by
    rw [unpackIdxFromJobId, Nat.shiftRight_eq_div_pow, packJobId_high gen small]
  by_cases widens : Widens gen
  · have clear : ofInt (int32 (gen + 1)) / 2 ^ 32 = 0 := by
      obtain ⟨first, last⟩ := widens
      rw [int32_eq (by omega) (by omega), ofInt_eq (by omega) (by omega)]
      omega
    rw [upper, clear, Nat.zero_or, sub64_eq (by omega) (by omega), uint32_eq (by omega)]
    simp [widens]
  · have negative : -2 ^ 31 ≤ int32 (gen + 1) ∧ int32 (gen + 1) < 0 := by
      unfold Widens at widens
      by_cases last : gen = 2 ^ 31 - 1
      · rw [last]
        decide
      · rw [int32_eq (by omega) (by omega)]
        omega
    have full : ofInt (int32 (gen + 1)) / 2 ^ 32 = 2 ^ 32 - 1 := by
      unfold ofInt
      omega
    -- nothing can be or-ed into a half that is all ones
    have ones : (2 ^ 32 - 1) ||| (idx + 1) = 2 ^ 32 - 1 := by
      have bound : (2 ^ 32 - 1) ||| (idx + 1) < 2 ^ 32 := Nat.or_lt_two_pow (by decide) below
      have least : 2 ^ 32 - 1 ≤ (2 ^ 32 - 1) ||| (idx + 1) := Nat.left_le_or
      omega
    rw [upper, full, ones, sub64_eq (by decide) (by decide), uint32_eq (by decide)]
    simp only [widens, iff_false]
    omega

theorem toNat_eq_toInt_mod (gen : BitVec 32) : (gen.toInt % 2 ^ 32).toNat = gen.toNat := by
  have bound := gen.isLt
  rw [BitVec.toInt_eq_toNat_cond]
  split <;> omega

/-! ### Looking a job up by its own id -/

/-- No job has `INVALID_JOB` as its id. -/
def Reserved (invalidJob : Nat) : Prop :=
  ∀ (pool : ThreadPool) (job : Fin pool.maxJobs), getJobId pool job ≠ invalidJob

/-- The lookup fails or finds the index that the handle holds. -/
theorem getJobData_getJobId {invalidJob : Nat} (reserved : Reserved invalidJob)
    (job : Fin pool.maxJobs) :
    getJobData invalidJob pool (getJobId pool job) = some job ↔
      unpackIdxFromJobId (getJobId pool job) = job := by
  have gen : unpackGenFromJobId (getJobId pool job) = (pool.jobs job).gen.toNat := by
    rw [getJobId, unpackGen_pack, toNat_eq_toInt_mod]
  simp only [getJobData, if_neg (reserved pool job), gen]
  generalize unpackIdxFromJobId (getJobId pool job) = idx
  constructor
  · intro found
    split at found
    · split at found
      · simp at found
      · rw [Option.some.injEq] at found
        exact congrArg Fin.val found
    · simp at found
  · rintro rfl
    simp

/-- A handle gives back the generation and the index that it was packed from, and
leads back to its job, exactly when the successor of the generation is not
negative as an `int`. -/
theorem job_id_lossless_iff {invalidJob : Nat} (reserved : Reserved invalidJob) :
    (∀ (gen : BitVec 32) (idx : Nat), idx < 2 ^ 31 - 1 →
      ((unpackGenFromJobId (packJobId gen.toInt idx) = gen.toNat ∧
        unpackIdxFromJobId (packJobId gen.toInt idx) = idx) ↔ Widens gen.toInt)) ∧
    (∀ (pool : ThreadPool) (job : Fin pool.maxJobs),
      getJobData invalidJob pool (getJobId pool job) = some job ↔
        Widens (pool.jobs job).gen.toInt) := by
  constructor
  · intro gen idx small
    have index := unpackIdx_pack_iff (BitVec.le_toInt gen) (BitVec.toInt_lt) small
    rw [unpackGen_pack, toNat_eq_toInt_mod, index]
    simp
  · intro pool job
    have small : job.val < 2 ^ 31 - 1 := by
      have inside := job.isLt
      have fits := pool.fits
      omega
    rw [getJobData_getJobId reserved]
    exact unpackIdx_pack_iff (BitVec.le_toInt _) (BitVec.toInt_lt) small

/-- Zero is no id: the upper half of an id holds the successor of an index. -/
theorem reserved_zero : Reserved 0 := by
  intro pool job zero
  have inside := job.isLt
  have fits := pool.fits
  have small : job.val < 2 ^ 31 - 1 := by omega
  have upper := packJobId_high (pool.jobs job).gen.toInt small
  rw [show packJobId _ _ = 0 from zero, Nat.zero_div] at upper
  exact absurd (Nat.or_eq_zero_iff.mp upper.symm).2 (Nat.succ_ne_zero _)

theorem one_job_fits : 1 < 2 ^ 31 := by decide

/-- A pool of one job structure. -/
def single (gen : BitVec 32) : ThreadPool := ⟨1, one_job_fits, fun _ => ⟨gen⟩⟩

/-- The job structure of that pool. -/
def only (gen : BitVec 32) : Fin (single gen).maxJobs := ⟨0, Nat.one_pos⟩

theorem job_id_of_first_use :
    getJobData 0 (single 0) (getJobId (single 0) (only 0)) = some (only 0) :=
  ((job_id_lossless_iff reserved_zero).2 (single 0) (only 0)).mpr ⟨by decide, by decide⟩

/-- After `2 ^ 31` uses the id of a job structure leads nowhere. -/
theorem job_id_of_worn_job :
    (freeJob^[2 ^ 31] ⟨0⟩).gen = 0x80000000#32 ∧
      unpackIdxFromJobId (packJobId (0x80000000#32).toInt 0) = 2 ^ 32 - 2 ∧
      ∀ invalidJob, getJobData invalidJob (single 0x80000000#32)
        (getJobId (single 0x80000000#32) (only 0x80000000#32)) = none := by
  refine ⟨?_, by decide, fun invalidJob => ?_⟩
  · rw [freeJob_iterate]
    decide
  · have outside : ¬ unpackIdxFromJobId (getJobId (single 0x80000000#32) (only 0x80000000#32)) <
        (single 0x80000000#32).maxJobs := by decide
    simp only [getJobData, outside, dite_false, ite_self]

end Mysnips.ThreadPoolJobIds

import Mathlib.Algebra.Order.Group.Multiset
import Mathlib.Data.List.ReduceOption
import Mysnips.Custody
import Mysnips.ThreadPoolSteps
import Mysnips.Totals

/-! Where the job structures are. Each is in the free list, in the queue or in the hands of
one thread, or it is finished and waits for somebody to collect it: then its semaphore has
been signaled. -/
namespace Mysnips.ThreadPool
open Custody Totals

variable {Thread Task : Type}

/-- The job structure that a thread alone has. -/
def Pc.holds : Pc Task → Option Nat
  | .prepare job _ _ => some job
  | .countJoinable job => some job
  | .pushQueue job => some job
  | .freeJob job _ => some job
  | .pushFree job _ => some job
  | .call use => some use.job
  | .readJoin job => some job
  | .signalSem job => some job
  | _ => none

/-- The job that a thread is about to push. -/
def Pc.pushes : Pc Task → Multiset Nat
  | .pushQueue job => {job}
  | _ => 0

theorem Pc.mem_pushes {pc : Pc Task} {job : Nat} (member : job ∈ pc.pushes) :
    pc.pushes = {job} ∧ pc.holds = some job := by
  cases pc with
  | pushQueue other =>
    rw [Multiset.mem_singleton.mp member]
    exact ⟨rfl, rfl⟩
  | _ => exact absurd member (Multiset.notMem_zero job)

/-- The places of the job structures. -/
inductive Place (Thread : Type) where
  | free
  | queue
  | thread (thread : Thread)

/-- The job structures at a place. -/
def kept (free : List Nat) (queue : List (Option Nat)) (pc : Thread → Pc Task) :
    Place Thread → List Nat
  | .free => free
  | .queue => queue.reduceOption
  | .thread thread => (pc thread).holds.toList

/-- The job is finished, and its semaphore has been signaled. -/
def JobData.Parked (data : JobData Task) : Prop := ∃ permits, data.sem = some (permits + 1)

/-- Every job structure is at one place, or parked. -/
structure Placed (maxJobs : Nat) (jobs : Nat → JobData Task) (free : List Nat)
    (queue : List (Option Nat)) (pc : Thread → Pc Task) : Prop where
  inside : ∀ place, ∀ job ∈ kept free queue pc place, job < maxJobs
  separate : Separate (kept free queue pc)
  somewhere : ∀ job < maxJobs, (∃ place, job ∈ kept free queue pc place) ∨ (jobs job).Parked
  nowhere : ∀ job, (jobs job).Parked → ∀ place, job ∉ kept free queue pc place

variable {maxJobs : Nat} {jobs jobs' : Nat → JobData Task} {free : List Nat}
  {queue : List (Option Nat)} {pc : Thread → Pc Task} {thread : Thread} {pc' : Pc Task} {job : Nat}

theorem held (holds : (pc thread).holds = some job) :
    job ∈ kept free queue pc (.thread thread) := by
  rw [kept, holds]
  exact List.mem_singleton_self job

/-- Two threads do not have the same job structure. -/
theorem Placed.holder (placed : Placed maxJobs jobs free queue pc) {other : Thread}
    (mine : (pc thread).holds = some job) (theirs : (pc other).holds = some job) :
    thread = other := by
  have same := placed.separate.one _ _ job (held mine) (held theirs)
  injection same

theorem Placed.not_free (placed : Placed maxJobs jobs free queue pc)
    (holds : (pc thread).holds = some job) : job ∉ free := by
  intro listed
  cases placed.separate.one (.thread thread) .free job (held holds) listed

theorem Placed.not_queued (placed : Placed maxJobs jobs free queue pc)
    (holds : (pc thread).holds = some job) : job ∉ queue.reduceOption := by
  intro queued
  cases placed.separate.one (.thread thread) .queue job (held holds) queued

theorem Placed.not_parked (placed : Placed maxJobs jobs free queue pc)
    (holds : (pc thread).holds = some job) : ¬ (jobs job).Parked := by
  intro parked
  exact placed.nowhere job parked _ (held holds)

/-- There is room for the jobs in the queue and for those that threads are about to push, which are
different ones. -/
theorem Placed.room [Fintype Thread] (placed : Placed maxJobs jobs free queue pc) :
    queue.reduceOption.length + Multiset.card (total Pc.pushes pc) ≤ maxJobs := by
  have pushed : ∀ {job}, job ∈ total Pc.pushes pc → ∃ thread, (pc thread).pushes = {job} ∧
      (pc thread).holds = some job := by
    intro job member
    obtain ⟨thread, -, pushes⟩ := Multiset.mem_sum.mp member
    exact ⟨thread, Pc.mem_pushes pushes⟩
  have once : (total Pc.pushes pc).Nodup := by
    refine Multiset.nodup_iff_count_le_one.mpr fun job => ?_
    by_cases member : job ∈ total Pc.pushes pc
    · obtain ⟨thread, pushes, holds⟩ := pushed member
      rw [total, Multiset.count_sum', Finset.sum_eq_single thread, pushes, Multiset.count_singleton_self]
      · intro other _ different
        refine Multiset.count_eq_zero.mpr fun theirs => different ?_
        exact placed.holder (Pc.mem_pushes theirs).2 holds
      · exact fun absent => absurd (Finset.mem_univ thread) absent
    · rw [Multiset.count_eq_zero.mpr member]
      exact Nat.zero_le 1
  have distinct : ((queue.reduceOption : Multiset Nat) + total Pc.pushes pc).Nodup := by
    refine Multiset.nodup_add.mpr ⟨Multiset.coe_nodup.mpr (placed.separate.once .queue), once, ?_⟩
    refine Multiset.disjoint_left.mpr fun queued member => ?_
    obtain ⟨thread, -, holds⟩ := pushed member
    exact placed.not_queued holds (Multiset.mem_coe.mp queued)
  have inside : ((queue.reduceOption : Multiset Nat) + total Pc.pushes pc) ⊆ Multiset.range maxJobs := by
    intro job member
    rw [Multiset.mem_range]
    rcases Multiset.mem_add.mp member with queued | member
    · exact placed.inside .queue job (Multiset.mem_coe.mp queued)
    · obtain ⟨thread, -, holds⟩ := pushed member
      exact placed.inside _ job (held holds)
  have most := Multiset.card_le_card ((Multiset.le_iff_subset distinct).mpr inside)
  rwa [Multiset.card_add, Multiset.coe_card, Multiset.card_range] at most

/-- Only what is at a place and what is parked matters. -/
theorem Placed.congr {free' : List Nat} {queue' : List (Option Nat)} {pc' : Thread → Pc Task}
    (placed : Placed maxJobs jobs free queue pc)
    (same : kept free' queue' pc' = kept free queue pc)
    (parked : ∀ job, (jobs' job).Parked ↔ (jobs job).Parked) :
    Placed maxJobs jobs' free' queue' pc' := by
  refine ⟨?_, ?_, ?_, ?_⟩
  · rw [same]
    exact placed.inside
  · rw [same]
    exact placed.separate
  · intro job inside
    rw [same, parked]
    exact placed.somewhere job inside
  · intro job
    rw [same, parked]
    exact placed.nowhere job

/-- A job structure goes from one place to another. -/
theorem Placed.move {free' : List Nat} {queue' : List (Option Nat)} {pc' : Thread → Pc Task}
    (placed : Placed maxJobs jobs free queue pc) (job : Nat) (source target : Place Thread)
    (apart : source ≠ target)
    (lost : (kept free queue pc source).Perm (job :: kept free' queue' pc' source))
    (gained : (kept free' queue' pc' target).Perm (job :: kept free queue pc target))
    (others : ∀ place, place ≠ source → place ≠ target →
      (kept free' queue' pc' place).Perm (kept free queue pc place))
    (parked : ∀ job, (jobs' job).Parked ↔ (jobs job).Parked) :
    Placed maxJobs jobs' free' queue' pc' := by
  have there : job ∈ kept free queue pc source := lost.mem_iff.mpr List.mem_cons_self
  have was : ∀ place other, other ∈ kept free' queue' pc' place →
      ∃ place, other ∈ kept free queue pc place := by
    intro place other member
    by_cases isSource : place = source
    · rw [isSource] at member
      exact ⟨source, lost.mem_iff.mpr (List.mem_cons_of_mem job member)⟩
    by_cases isTarget : place = target
    · rw [isTarget] at member
      rcases List.mem_cons.mp (gained.mem_iff.mp member) with rfl | earlier
      · exact ⟨source, there⟩
      · exact ⟨target, earlier⟩
    · exact ⟨place, (others place isSource isTarget).mem_iff.mp member⟩
  refine ⟨?_, placed.separate.move job source target apart lost gained others, ?_, ?_⟩
  · intro place other member
    obtain ⟨place, earlier⟩ := was place other member
    exact placed.inside place other earlier
  · intro other inside
    rw [parked]
    rcases placed.somewhere other inside with ⟨place, earlier⟩ | parked
    · by_cases isSource : place = source
      · rw [isSource] at earlier
        rcases List.mem_cons.mp (lost.mem_iff.mp earlier) with rfl | kept
        · exact .inl ⟨target, gained.mem_iff.mpr List.mem_cons_self⟩
        · exact .inl ⟨source, kept⟩
      by_cases isTarget : place = target
      · rw [isTarget] at earlier
        exact .inl ⟨target, gained.mem_iff.mpr (List.mem_cons_of_mem job earlier)⟩
      · exact .inl ⟨place, (others place isSource isTarget).mem_iff.mpr earlier⟩
    · exact .inr parked
  · intro other isParked place member
    obtain ⟨place, earlier⟩ := was place other member
    exact placed.nowhere other ((parked other).mp isParked) place earlier

variable [DecidableEq Thread]

theorem kept_update (same : pc'.holds = (pc thread).holds) :
    kept free queue (Function.update pc thread pc') = kept free queue pc := by
  funext place
  cases place with
  | free => rfl
  | queue => rfl
  | thread other =>
    by_cases here : other = thread
    · simp only [kept, here, Function.update_self, same]
    · simp only [kept, Function.update_of_ne here]

theorem kept_thread_self :
    kept free queue (Function.update pc thread pc') (.thread thread) = pc'.holds.toList := by
  simp only [kept, Function.update_self]

theorem kept_thread_ne {other : Thread} (different : other ≠ thread) :
    kept free queue (Function.update pc thread pc') (.thread other) = (pc other).holds.toList := by
  simp only [kept, Function.update_of_ne different]

/-- Nothing changes at the other places. -/
theorem kept_others {place : Place Thread} (different : place ≠ .thread thread) :
    (kept free queue (Function.update pc thread pc') place).Perm (kept free queue pc place) := by
  cases place with
  | free => exact .refl _
  | queue => exact .refl _
  | thread other =>
    rw [kept_thread_ne (fun same => different (congrArg Place.thread same))]
    exact .refl _

/-- A thread takes the head of the free list. -/
theorem Placed.take {rest : List Nat} (placed : Placed maxJobs jobs (job :: rest) queue pc)
    (empty : (pc thread).holds = none) (holds : pc'.holds = some job) :
    Placed maxJobs jobs rest queue (Function.update pc thread pc') := by
  refine placed.move job .free (.thread thread) (by simp) (.refl _) ?_ ?_ fun _ => Iff.rfl
  · rw [kept_thread_self, holds, kept, empty]
    exact .refl _
  · intro place notFree notThread
    cases place with
    | free => exact absurd rfl notFree
    | queue => exact .refl _
    | thread other =>
      rw [kept_thread_ne (fun same => notThread (congrArg Place.thread same))]
      exact .refl _

/-- A thread gives its job structure to the free list. -/
theorem Placed.give (placed : Placed maxJobs jobs free queue pc)
    (holds : (pc thread).holds = some job) (empty : pc'.holds = none) :
    Placed maxJobs jobs (job :: free) queue (Function.update pc thread pc') := by
  refine placed.move job (.thread thread) .free (by simp) ?_ (.refl _) ?_ fun _ => Iff.rfl
  · rw [kept_thread_self, empty, kept, holds]
    exact .refl _
  · intro place notThread notFree
    cases place with
    | free => exact absurd rfl notFree
    | queue => exact .refl _
    | thread other =>
      rw [kept_thread_ne (fun same => notThread (congrArg Place.thread same))]
      exact .refl _

/-- A thread puts its job structure into the queue. -/
theorem Placed.enqueue (placed : Placed maxJobs jobs free queue pc)
    (holds : (pc thread).holds = some job) (empty : pc'.holds = none) :
    Placed maxJobs jobs free (queue ++ [some job]) (Function.update pc thread pc') := by
  refine placed.move job (.thread thread) .queue (by simp) ?_ ?_ ?_ fun _ => Iff.rfl
  · rw [kept_thread_self, empty, kept, holds]
    exact .refl _
  · simp only [kept, List.reduceOption_append, List.reduceOption_singleton]
    exact List.perm_append_singleton ..
  · intro place notThread notQueue
    cases place with
    | free => exact .refl _
    | queue => exact absurd rfl notQueue
    | thread other =>
      rw [kept_thread_ne (fun same => notThread (congrArg Place.thread same))]
      exact .refl _

/-- A thread takes the job structure at the head of the queue. -/
theorem Placed.dequeue {rest : List (Option Nat)}
    (placed : Placed maxJobs jobs free (some job :: rest) pc) (empty : (pc thread).holds = none)
    (holds : pc'.holds = some job) :
    Placed maxJobs jobs free rest (Function.update pc thread pc') := by
  refine placed.move job .queue (.thread thread) (by simp) ?_ ?_ ?_ fun _ => Iff.rfl
  · simp only [kept, List.reduceOption_cons_of_some]
    exact .refl _
  · rw [kept_thread_self, holds, kept, empty]
    exact .refl _
  · intro place notQueue notThread
    cases place with
    | free => exact .refl _
    | queue => exact absurd rfl notQueue
    | thread other =>
      rw [kept_thread_ne (fun same => notThread (congrArg Place.thread same))]
      exact .refl _

/-- A thread parks its job structure. -/
theorem Placed.park {data : JobData Task} (placed : Placed maxJobs jobs free queue pc)
    (holds : (pc thread).holds = some job) (empty : pc'.holds = none) (parked : data.Parked) :
    Placed maxJobs (Function.update jobs job data) free queue (Function.update pc thread pc') := by
  have lost : (kept free queue pc (.thread thread)).Perm
      (job :: kept free queue (Function.update pc thread pc') (.thread thread)) := by
    rw [kept_thread_self, empty, kept, holds]
    exact .refl _
  obtain ⟨separate, absent⟩ := placed.separate.lose job (.thread thread) lost (fun _ => kept_others)
  have was : ∀ place other, other ∈ kept free queue (Function.update pc thread pc') place →
      other ∈ kept free queue pc place := by
    intro place other member
    by_cases here : place = .thread thread
    · rw [here] at member ⊢
      exact lost.mem_iff.mpr (List.mem_cons_of_mem job member)
    · exact (kept_others here).mem_iff.mp member
  refine ⟨fun place other member => placed.inside place other (was place other member), separate,
    ?_, ?_⟩
  · intro other inside
    by_cases same : other = job
    · rw [same, Function.update_self]
      exact .inr parked
    · rw [Function.update_of_ne same]
      rcases placed.somewhere other inside with ⟨place, earlier⟩ | parked
      · by_cases here : place = .thread thread
        · rw [here] at earlier
          rcases List.mem_cons.mp (lost.mem_iff.mp earlier) with isJob | kept
          · exact absurd isJob same
          · exact .inl ⟨.thread thread, kept⟩
        · exact .inl ⟨place, (kept_others here).mem_iff.mpr earlier⟩
      · exact .inr parked
  · intro other isParked place member
    by_cases same : other = job
    · rw [same] at member
      exact absent place member
    · rw [Function.update_of_ne same] at isParked
      exact placed.nowhere other isParked place (was place other member)

/-- A thread collects a parked job structure. -/
theorem Placed.unpark {data : JobData Task} (placed : Placed maxJobs jobs free queue pc)
    (inside : job < maxJobs) (parked : (jobs job).Parked) (empty : (pc thread).holds = none)
    (holds : pc'.holds = some job) (taken : ¬ data.Parked) :
    Placed maxJobs (Function.update jobs job data) free queue (Function.update pc thread pc') := by
  have gained : (kept free queue (Function.update pc thread pc') (.thread thread)).Perm
      (job :: kept free queue pc (.thread thread)) := by
    rw [kept_thread_self, holds, kept, empty]
    exact .refl _
  have absent := placed.nowhere job parked
  have was : ∀ place other, other ∈ kept free queue (Function.update pc thread pc') place →
      other = job ∨ other ∈ kept free queue pc place := by
    intro place other member
    by_cases here : place = .thread thread
    · rw [here] at member ⊢
      exact List.mem_cons.mp (gained.mem_iff.mp member)
    · exact .inr ((kept_others here).mem_iff.mp member)
  refine ⟨?_, placed.separate.gain job (.thread thread) absent gained (fun _ => kept_others), ?_, ?_⟩
  · intro place other member
    rcases was place other member with rfl | earlier
    · exact inside
    · exact placed.inside place other earlier
  · intro other small
    by_cases same : other = job
    · rw [same]
      exact .inl ⟨.thread thread, gained.mem_iff.mpr List.mem_cons_self⟩
    · rw [Function.update_of_ne same]
      rcases placed.somewhere other small with ⟨place, earlier⟩ | parked
      · by_cases here : place = .thread thread
        · rw [here] at earlier
          exact .inl ⟨.thread thread, gained.mem_iff.mpr (List.mem_cons_of_mem job earlier)⟩
        · exact .inl ⟨place, (kept_others here).mem_iff.mpr earlier⟩
      · exact .inr parked
  · intro other isParked place member
    by_cases same : other = job
    · rw [same, Function.update_self] at isParked
      exact taken isParked
    · rw [Function.update_of_ne same] at isParked
      rcases was place other member with isJob | earlier
      · exact same isJob
      · exact placed.nowhere other isParked place earlier

end Mysnips.ThreadPool

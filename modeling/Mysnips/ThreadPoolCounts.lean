import Mathlib.Algebra.Order.Group.Multiset
import Mysnips.ThreadPoolSafety
import Mysnips.Totals

/-! The counts of the thread pool. The permits of `complete` are the free job structures, less
those that a thread is about to take and with those that it has given back and not signaled;
the permits of `pending` are the entries of the queue in the same way; and
`joinable_count` counts the semaphores. Each use that was submitted has run, is in the queue
or is in the hands of a worker. -/
namespace Mysnips.ThreadPool
open Totals

variable {Thread Task : Type}

/-- The thread has waited for `complete` and takes a free job structure next. -/
@[simp] def Pc.taking : Pc Task → Nat
  | .popFree _ _ => 1
  | _ => 0

/-- The thread has given a job structure back and signals `complete` next. -/
@[simp] def Pc.releasing : Pc Task → Nat
  | .signalComplete _ => 1
  | _ => 0

/-- The thread has waited for `pending` and takes an entry of the queue next. -/
@[simp] def Pc.fetching : Pc Task → Nat
  | .popQueue => 1
  | _ => 0

/-- How many entries of the queue the thread has still to announce. -/
@[simp] def Pc.announcing (workers : Nat) : Pc Task → Nat
  | .signalPending _ _ => 1
  | .pushStop pushed => pushed
  | .signalStop signaled => workers - signaled
  | _ => 0

/-- The use that the thread is about to run. -/
@[simp] def Pc.calling : Pc Task → Multiset Use
  | .call use => {use}
  | _ => 0

/-- The thread has made a semaphore and counts it next. -/
@[simp] def Pc.counting : Pc Task → Nat
  | .countJoinable _ => 1
  | _ => 0

/-- The thread has freed a semaphore and not uncounted it. -/
@[simp] def Pc.uncounting : Pc Task → Nat
  | .pushFree _ .waited => 1
  | .signalComplete .waited => 1
  | .uncountJoinable => 1
  | _ => 0

/-- What a thread adds to the counts. -/
def Pc.weights (workers : Nat) (pc : Pc Task) : (Nat × Nat × Nat × Nat) × (Nat × Nat) × Multiset Use :=
  ((pc.taking, pc.releasing, pc.fetching, pc.announcing workers), (pc.counting, pc.uncounting),
    pc.calling)

/-- How many of the job structures have a semaphore. -/
def semaphores (maxJobs : Nat) (jobs : Nat → JobData Task) : Nat :=
  (List.range maxJobs).countP fun job => (jobs job).sem.isSome

/-- The uses in the queue. -/
def queued (jobs : Nat → JobData Task) (queue : List (Option Nat)) : List Use :=
  queue.reduceOption.map fun job => ⟨job, (jobs job).turn⟩

variable {jobs : Nat → JobData Task} {queue : List (Option Nat)} {job : Nat}

theorem queued_cons_none : queued jobs (none :: queue) = queued jobs queue := by
  rw [queued, queued, List.reduceOption_cons_of_none]

theorem queued_cons_some :
    queued jobs (some job :: queue) = ⟨job, (jobs job).turn⟩ :: queued jobs queue := by
  rw [queued, queued, List.reduceOption_cons_of_some, List.map_cons]

theorem queued_append_none : queued jobs (queue ++ [none]) = queued jobs queue := by
  rw [queued, queued, List.reduceOption_append, List.reduceOption_singleton, Option.toList_none,
    List.append_nil]

theorem queued_append_some :
    queued jobs (queue ++ [some job]) = queued jobs queue ++ [⟨job, (jobs job).turn⟩] := by
  rw [queued, queued, List.reduceOption_append, List.reduceOption_singleton, Option.toList_some,
    List.map_append, List.map_singleton]

theorem turn_update {jobs : Nat → JobData Task} {job : Nat} {data : JobData Task}
    (turn : data.turn = (jobs job).turn) (other : Nat) :
    (Function.update jobs job data other).turn = (jobs other).turn := by
  by_cases same : other = job
  · rw [same, Function.update_self, turn]
  · rw [Function.update_of_ne same]

variable [Fintype Thread]

/-- Nothing is under way. -/
theorem totals_zero {workers : Nat} {pc : Thread → Pc Task}
    (still : ∀ thread, (pc thread).weights workers =
    (Pc.idle : Pc Task).weights workers) :
    total Pc.taking pc = 0 ∧ total Pc.releasing pc = 0 ∧ total Pc.fetching pc = 0 ∧
    total (Pc.announcing workers) pc = 0 ∧ total Pc.counting pc = 0 ∧
    total Pc.uncounting pc = 0 ∧ total Pc.calling pc = 0 := by
  simp only [Pc.weights, Prod.mk.injEq] at still
  exact ⟨total_zero fun thread => (still thread).1.1, total_zero fun thread => (still thread).1.2.1,
    total_zero fun thread => (still thread).1.2.2.1, total_zero fun thread => (still thread).1.2.2.2,
    total_zero fun thread => (still thread).2.1.1, total_zero fun thread => (still thread).2.1.2,
    total_zero fun thread => (still thread).2.2⟩

/-- The calls that are under way account for the differences between the counts. -/
structure Counted (maxJobs workers : Nat) (s : State Thread Task) : Prop where
  complete : s.complete + total Pc.taking s.pc + total Pc.releasing s.pc = s.free.length
  pending : s.pending + total Pc.fetching s.pc + total (Pc.announcing workers) s.pc = s.queue.length
  joinable : s.joinableCount + total Pc.counting s.pc =
    semaphores maxJobs s.jobs + total Pc.uncounting s.pc
  runs : (submitted s.log : Multiset Use) =
    ran s.log + queued s.jobs s.queue + total Pc.calling s.pc

variable [DecidableEq Thread] {maxJobs workers : Nat} {s s' : State Thread Task} {thread : Thread}
  {pc' : Pc Task}

/-- The totals after a step of a thread. -/
theorem totals_same {pc : Thread → Pc Task} (same : pc'.weights workers = (pc thread).weights workers) :
    total Pc.taking (Function.update pc thread pc') = total Pc.taking pc ∧
    total Pc.releasing (Function.update pc thread pc') = total Pc.releasing pc ∧
    total Pc.fetching (Function.update pc thread pc') = total Pc.fetching pc ∧
    total (Pc.announcing workers) (Function.update pc thread pc') =
      total (Pc.announcing workers) pc ∧
    total Pc.counting (Function.update pc thread pc') = total Pc.counting pc ∧
    total Pc.uncounting (Function.update pc thread pc') = total Pc.uncounting pc ∧
    total Pc.calling (Function.update pc thread pc') = total Pc.calling pc := by
  simp only [Pc.weights, Prod.mk.injEq] at same
  obtain ⟨⟨taking, releasing, fetching, announcing⟩, ⟨counting, uncounting⟩, calling⟩ := same
  exact ⟨total_same taking, total_same releasing, total_same fetching, total_same announcing,
    total_same counting, total_same uncounting, total_same calling⟩

/-- The turns of the job structures in the queue stay. -/
theorem Counted.runs_still (counted : Counted maxJobs workers s)
    (submits : submitted s'.log = submitted s.log) (runs : ran s'.log = ran s.log)
    (queue : s'.queue = s.queue)
    (turns : ∀ job ∈ s.queue.reduceOption, (s'.jobs job).turn = (s.jobs job).turn)
    (pcs : s'.pc = Function.update s.pc thread pc') (same : pc'.calling = (s.pc thread).calling) :
    (submitted s'.log : Multiset Use) =
      ran s'.log + queued s'.jobs s'.queue + total Pc.calling s'.pc := by
  have mapped : queued s'.jobs s.queue = queued s.jobs s.queue := by
    refine List.map_congr_left fun job member => ?_
    rw [turns job member]
  rw [submits, runs, queue, mapped, pcs, total_same same]
  exact counted.runs

/-- A thread does something that does not count. -/
theorem Counted.still (counted : Counted maxJobs workers s) (complete : s'.complete = s.complete)
    (pending : s'.pending = s.pending) (joinable : s'.joinableCount = s.joinableCount)
    (free : s'.free = s.free) (queue : s'.queue = s.queue)
    (submits : submitted s'.log = submitted s.log) (runs : ran s'.log = ran s.log)
    (semaphore : semaphores maxJobs s'.jobs = semaphores maxJobs s.jobs)
    (turns : ∀ job ∈ s.queue.reduceOption, (s'.jobs job).turn = (s.jobs job).turn)
    (pcs : s'.pc = Function.update s.pc thread pc')
    (same : pc'.weights workers = (s.pc thread).weights workers) : Counted maxJobs workers s' := by
  obtain ⟨taking, releasing, fetching, announcing, counting, uncounting, -⟩ := totals_same same
  refine ⟨?_, ?_, ?_, counted.runs_still submits runs queue turns pcs (congrArg (·.2.2) same)⟩
  · rw [complete, pcs, taking, releasing, free]
    exact counted.complete
  · rw [pending, pcs, fetching, announcing, queue]
    exact counted.pending
  · rw [joinable, pcs, counting, uncounting, semaphore]
    exact counted.joinable

/-- Changing one job structure changes the number of semaphores by its own. -/
theorem semaphores_update (jobs : Nat → JobData Task) {job : Nat} (data : JobData Task)
    (inside : job < maxJobs) :
    semaphores maxJobs (Function.update jobs job data) + (jobs job).sem.isSome.toNat =
      semaphores maxJobs jobs + data.sem.isSome.toNat := by
  have changed := countP_update List.nodup_range (fun data : JobData Task => data.sem.isSome) jobs
    (List.mem_range.mpr inside) data
  exact changed

theorem semaphores_same {job : Nat} {jobs : Nat → JobData Task} {data : JobData Task}
    (inside : job < maxJobs) (same : data.sem.isSome = (jobs job).sem.isSome) :
    semaphores maxJobs (Function.update jobs job data) = semaphores maxJobs jobs := by
  have changed := semaphores_update jobs data inside
  rw [same] at changed
  exact Nat.add_right_cancel changed

/-- What a step of a thread adds on the one side, it adds on the other. -/
theorem Counted.moved (counted : Counted maxJobs workers s)
    (pcs : s'.pc = Function.update s.pc thread pc')
    (complete : s'.complete + pc'.taking + pc'.releasing + s.free.length =
      s.complete + (s.pc thread).taking + (s.pc thread).releasing + s'.free.length)
    (pending : s'.pending + pc'.fetching + pc'.announcing workers + s.queue.length =
      s.pending + (s.pc thread).fetching + (s.pc thread).announcing workers + s'.queue.length)
    (joinable : s'.joinableCount + pc'.counting + semaphores maxJobs s.jobs +
        (s.pc thread).uncounting =
      s.joinableCount + (s.pc thread).counting + semaphores maxJobs s'.jobs + pc'.uncounting)
    (runs : (submitted s'.log : Multiset Use) =
      ran s'.log + queued s'.jobs s'.queue + total Pc.calling s'.pc) :
    Counted maxJobs workers s' := by
  have before := counted.complete
  have taking := total_update Pc.taking s.pc thread pc'
  have releasing := total_update Pc.releasing s.pc thread pc'
  have before' := counted.pending
  have fetching := total_update Pc.fetching s.pc thread pc'
  have announcing := total_update (Pc.announcing workers) s.pc thread pc'
  have before'' := counted.joinable
  have counting := total_update Pc.counting s.pc thread pc'
  have uncounting := total_update Pc.uncounting s.pc thread pc'
  rw [← pcs] at taking releasing fetching announcing counting uncounting
  exact ⟨by omega, by omega, by omega, runs⟩

/-- A job that is submitted goes into the queue. -/
theorem Counted.runs_submitted {maxJobs workers job : Nat} (counted : Counted maxJobs workers s)
    (there : s.pc thread = .pushQueue job) {task : Task} {use : Use} {join : Bool} :
    (submitted (s.log ++ [.submitted (s.use job) task]) : Multiset Use) =
      ran (s.log ++ [.submitted (s.use job) task]) + queued s.jobs (s.queue ++ [some job]) +
        total Pc.calling (Function.update s.pc thread (.signalPending use join)) := by
  rw [total_same (by rw [there]; rfl), queued_append_some, submitted_append, ran_append,
    submitted_singleton, ran_singleton, ← Multiset.coe_add, counted.runs, ← Multiset.coe_add,
    ← Multiset.coe_add]
  simp only [Event.submits, Event.runs, Option.toList_some, Option.toList_none,
    Multiset.coe_nil, add_zero, Core.use]
  ac_rfl

/-- A job that is popped goes into the hands of a worker. -/
theorem Counted.runs_fetched {maxJobs workers job : Nat} {queue : List (Option Nat)}
    (counted : Counted maxJobs workers s) (there : s.pc thread = .popQueue)
    (listed : s.queue = some job :: queue) :
    (submitted s.log : Multiset Use) = ran s.log + queued s.jobs queue +
      total Pc.calling (Function.update s.pc thread (.call (s.use job))) := by
  have gained := total_update Pc.calling s.pc thread (.call (s.use job))
  simp only [there, Pc.calling, add_zero] at gained
  rw [gained, counted.runs, listed, queued_cons_some, ← Multiset.cons_coe, ← Multiset.singleton_add,
    Core.use]
  ac_rfl

/-- A job that a worker runs leaves its hands. -/
theorem Counted.runs_ran {maxJobs workers : Nat} {use : Use} (counted : Counted maxJobs workers s)
    (there : s.pc thread = .call use) {task : Task} {job : Nat} :
    (submitted (s.log ++ [.ran use task]) : Multiset Use) = ran (s.log ++ [.ran use task]) +
      queued s.jobs s.queue + total Pc.calling (Function.update s.pc thread (.readJoin job)) := by
  have lost := total_update Pc.calling s.pc thread (.readJoin job)
  simp only [there, Pc.calling, add_zero] at lost
  rw [submitted_append, ran_append, submitted_singleton, ran_singleton, ← Multiset.coe_add,
    ← Multiset.coe_add, counted.runs, ← lost]
  simp only [Event.submits, Event.runs, Option.toList_some, Option.toList_none,
    Multiset.coe_nil, Multiset.coe_singleton, add_zero]
  ac_rfl

/-- An entry that stops a worker goes into the queue. -/
theorem Counted.runs_stopPushed {maxJobs workers pushed : Nat} (counted : Counted maxJobs workers s)
    (there : s.pc thread = .pushStop pushed) :
    (submitted s.log : Multiset Use) = ran s.log + queued s.jobs (s.queue ++ [none]) +
      total Pc.calling (Function.update s.pc thread (.pushStop (pushed + 1))) := by
  rw [total_same (by rw [there]; rfl), counted.runs, queued_append_none]

/-- A worker takes an entry that stops it. -/
theorem Counted.runs_dismissed {maxJobs workers : Nat} {queue : List (Option Nat)}
    (counted : Counted maxJobs workers s) (there : s.pc thread = .popQueue)
    (listed : s.queue = none :: queue) :
    (submitted s.log : Multiset Use) = ran s.log + queued s.jobs queue +
      total Pc.calling (Function.update s.pc thread .exited) := by
  rw [total_same (by rw [there]; rfl), counted.runs, listed, queued_cons_none]

section Structures

variable {maxJobs workers job : Nat} {data : JobData Task}

/-- A thread changes a job structure, and neither makes nor frees its semaphore. -/
theorem Counted.setJob (counted : Counted maxJobs workers s) (inside : job < maxJobs)
    (sem : data.sem.isSome = (s.jobs job).sem.isSome)
    (turns : ∀ other ∈ s.queue.reduceOption,
      (Function.update s.jobs job data other).turn = (s.jobs other).turn)
    (same : pc'.weights workers = (s.pc thread).weights workers) :
    Counted maxJobs workers ((s.setJob job data).goto thread pc') :=
  counted.still rfl rfl rfl rfl rfl rfl rfl (semaphores_same inside sem) turns rfl same

/-- A thread makes the semaphore of a job structure. -/
theorem Counted.prepared {task : Task} (counted : Counted maxJobs workers s) (inside : job < maxJobs)
    (there : s.pc thread = .prepare job task true) (empty : (s.jobs job).sem = none) :
    Counted maxJobs workers ((s.setJob job
      { s.jobs job with done := false, task, join := true, sem := some 0 }).goto thread
        (.countJoinable job)) := by
  have changed := semaphores_update s.jobs
    { s.jobs job with done := false, task, join := true, sem := some 0 } inside
  simp only [empty, Option.isSome_none, Bool.toNat_false, Option.isSome_some,
    Bool.toNat_true] at changed
  refine counted.moved rfl ?_ ?_ ?_
    (counted.runs_still rfl rfl rfl (fun other _ => turn_update (by rfl) other) rfl
      (by rw [there]; rfl)) <;>
  simp [there, State.goto, State.setJob]
  omega

/-- A thread frees the semaphore of a job structure. -/
theorem Counted.collected {permits : Nat} {use : Use} (counted : Counted maxJobs workers s)
    (inside : job < maxJobs) (there : s.pc thread = .freeJob job .waited)
    (sem : (s.jobs job).sem = some permits)
    (turns : ∀ other ∈ s.queue.reduceOption,
      (Function.update s.jobs job (s.jobs job).freed other).turn = (s.jobs other).turn) :
    Counted maxJobs workers (((s.setJob job (s.jobs job).freed).record (.collected use)).goto
      thread (.pushFree job .waited)) := by
  have changed := semaphores_update s.jobs (s.jobs job).freed inside
  rw [sem, show (s.jobs job).freed.sem = none from rfl] at changed
  simp only [Option.isSome_some, Option.isSome_none, Bool.toNat_true, Bool.toNat_false] at changed
  refine counted.moved rfl ?_ ?_ ?_
    (counted.runs_still (by simp [State.goto, State.record, State.setJob])
      (by simp [State.goto, State.record, State.setJob]) rfl turns rfl (by rw [there]; rfl)) <;>
  simp [there, State.goto, State.setJob, State.record]
  omega

end Structures

/-- A step of a thread keeps the counts. -/
theorem Counted.moves {config : Config Thread}
    (counted : Counted config.maxJobs config.workers.length s) (valid : Valid config.maxJobs s)
    (bounds : ∀ {pushed}, s.pc thread = .pushStop pushed → pushed ≤ config.workers.length)
    (moves : Moves config s thread s') :
    Counted config.maxJobs config.workers.length s' := by
  have known := valid.threads.each thread
  have inside : ∀ {job}, (s.pc thread).holds = some job → job < config.maxJobs :=
    fun holds => valid.placed.inside _ _ (held holds)
  have elsewhere : ∀ {job data}, (s.pc thread).holds = some job →
      ∀ other ∈ s.queue.reduceOption,
        (Function.update s.jobs job data other).turn = (s.jobs other).turn := by
    intro job data holds other member
    rw [Function.update_of_ne]
    rintro rfl
    exact valid.placed.not_queued holds member
  cases moves with
  | refused there _ | passed there | unissued there | interrupted there | forgotten there _
  | joined there _ _ | joinedAll there _ =>
    exact counted.still rfl rfl rfl rfl rfl rfl rfl rfl (fun _ _ => rfl) rfl (by rw [there]; rfl)
  | issued there | answered there =>
    exact counted.still rfl rfl rfl rfl rfl (by simp [State.goto, State.record])
      (by simp [State.goto, State.record]) rfl (fun _ _ => rfl) rfl (by rw [there]; rfl)
  | unprepared there | plain there | finished there _ =>
    exact counted.setJob (inside (by rw [there]; rfl)) rfl (fun other _ => turn_update (by rfl) other)
      (by rw [there]; rfl)
  | signaled there sem =>
    exact counted.setJob (inside (by rw [there]; rfl)) (by rw [sem]; rfl)
      (fun other _ => turn_update (by rfl) other) (by rw [there]; rfl)
  | @woken use permits there signaled =>
    rw [there] at known
    obtain ⟨-, id, member⟩ := known
    have sent := (valid.facts.issued use id member).1
    exact counted.setJob (valid.facts.past use sent).2 (by rw [signaled]; rfl)
      (fun other _ => turn_update (by rfl) other) (by rw [there]; rfl)
  | @freed job after there other fits =>
    rw [there] at known
    cases after with
    | failed => exact known.elim
    | waited => exact absurd rfl other
    | worked =>
      have empty : (s.jobs job).sem = none := known
      exact counted.setJob (inside (by rw [there]; rfl)) (by rw [empty]; rfl)
        (elsewhere (by rw [there]; rfl)) (by rw [there]; rfl)
  | joinable there =>
    rw [there] at known
    exact counted.prepared (inside (by rw [there]; rfl)) there known.1
  | collected there fits =>
    rw [there] at known
    exact counted.collected (inside (by rw [there]; rfl)) there known.1
      (elsewhere (by rw [there]; rfl))
  | counted there | announced there =>
    refine counted.moved rfl ?_ ?_ ?_
      (counted.runs_still rfl rfl rfl (fun _ _ => rfl) rfl (by rw [there]; rfl)) <;>
    simp [there, State.goto]
  | admitted there more | took there more | uncounted there | summoned there more
  | stopSignaled there more | stopsSignaled there more =>
    refine counted.moved rfl ?_ ?_ ?_
      (counted.runs_still rfl rfl rfl (fun _ _ => rfl) rfl (by rw [there]; rfl)) <;>
    simp [State.goto, *]
    omega
  | stopsPushed there all =>
    have most := bounds there
    refine counted.moved rfl ?_ ?_ ?_
      (counted.runs_still rfl rfl rfl (fun _ _ => rfl) rfl (by rw [there]; rfl)) <;>
    simp [there, State.goto]
    omega
  | @released after there =>
    refine counted.moved rfl ?_ ?_ ?_
      (counted.runs_still rfl rfl rfl (fun _ _ => rfl) rfl (by rw [there]; cases after <;> rfl)) <;>
    cases after <;> simp [there, State.goto, After.next]
  | @gave job after there =>
    refine counted.moved rfl ?_ ?_ ?_
      (counted.runs_still rfl rfl rfl (fun _ _ => rfl) rfl (by rw [there]; rfl))
    · simp [there, State.goto]
      omega
    · simp [there, State.goto]
    · cases after <;> simp [there, State.goto]
  | submitted there =>
    refine counted.moved rfl ?_ ?_ ?_ (counted.runs_submitted there) <;>
    simp [there, State.goto, State.record]
    omega
  | fetched there listed =>
    refine counted.moved rfl ?_ ?_ ?_ (counted.runs_fetched there listed) <;>
    simp [there, State.goto, listed]
    omega
  | dismissed there listed =>
    refine counted.moved rfl ?_ ?_ ?_ (counted.runs_dismissed there listed) <;>
    simp [there, State.goto, listed]
    omega
  | ran there =>
    refine counted.moved rfl ?_ ?_ ?_ (counted.runs_ran there) <;>
    simp [there, State.goto, State.record]
  | stopPushed there more =>
    refine counted.moved rfl ?_ ?_ ?_ (counted.runs_stopPushed there) <;>
    simp [there, State.goto]
    omega

/-- A call that a thread begins does not count. -/
theorem Counted.called (counted : Counted maxJobs workers s) (idle : s.pc thread = .idle)
    (weights : pc'.weights workers = (Pc.idle : Pc Task).weights workers) :
    Counted maxJobs workers (s.goto thread pc') :=
  counted.still rfl rfl rfl rfl rfl rfl rfl rfl (fun _ _ => rfl) rfl (by rw [idle, weights])

theorem Counted.initial {config : Config Thread} (begins : (pools Thread Task config).initial s) :
    Counted config.maxJobs config.workers.length s := by
  obtain ⟨⟨fresh, -, complete, joinable, pcs, log⟩, free, queue, pending⟩ := begins
  have still : ∀ thread, (s.pc thread).weights config.workers.length =
      (Pc.idle : Pc Task).weights config.workers.length := by
    intro thread
    rw [pcs]
    split <;> rfl
  obtain ⟨taking, releasing, fetching, announcing, counting, uncounting, calling⟩ :=
    totals_zero still
  have zero : semaphores config.maxJobs s.jobs = 0 := by
    refine List.countP_eq_zero.mpr fun job _ => ?_
    rw [(fresh job).1]
    simp
  refine ⟨?_, ?_, ?_, ?_⟩
  · rw [complete, free, List.length_range, taking, releasing]
    rfl
  · rw [pending, queue, fetching, announcing]
    rfl
  · rw [joinable, zero, counting, uncounting]
    rfl
  · rw [log, queue, calling]
    rfl

end Mysnips.ThreadPool

import Mysnips.ThreadPoolPlaces

/-! The invariant of the thread pool. What is known of a job structure depends on where it
is: a free one has no semaphore and its next use has not been submitted; one in the queue is
prepared and submitted; a parked one has run. A joinable use keeps its semaphore until the
thread that waited for it frees the structure, so that its id leads to it until then. -/
namespace Mysnips.ThreadPool
open Transition ThreadPoolJobIds Machine

variable {Thread Task : Type}

/-- The job is ready to be run: it is not done, and has a semaphore if it can be waited for. -/
def JobData.Prepared (data : JobData Task) : Prop :=
  data.done = false ∧ data.sem = if data.join then some 0 else none

/-- The program was given an id of the use. -/
def Issued (s : State Thread Task) (use : Use) : Prop := ∃ id, .issued use id ∈ s.log

/-- The use has not been freed, and has a semaphore. -/
def Live (s : State Thread Task) (use : Use) : Prop :=
  use = s.use use.job ∧ (s.jobs use.job).sem ≠ none

/-- The generation that a structure had at first. -/
def firstGen (s : State Thread Task) (job : Nat) : BitVec 32 :=
  (s.jobs job).gen - BitVec.ofNat 32 (s.jobs job).turn

/-- The id of a use. -/
def idOf (s : State Thread Task) (use : Use) : Nat :=
  packJobId (firstGen s use.job + BitVec.ofNat 32 use.turn).toInt use.job

/-- The use that a thread has submitted and not returned the id of. -/
def Pc.issuing : Pc Task → Option Use
  | .signalPending use _ => some use
  | .getId use _ => some use
  | _ => none

/-- The use that has to keep its semaphore for a thread. -/
def Pc.awaits : Pc Task → Option Use
  | .signalPending use true => some use
  | .getId use true => some use
  | .waitSem use => some use
  | _ => none

/-- What a thread knows, by its next step. -/
def Local (s : State Thread Task) : Pc Task → Prop
  | .prepare job _ _ => (s.jobs job).sem = none ∧ s.use job ∉ submitted s.log
  | .countJoinable job => (s.jobs job).Prepared ∧ s.use job ∉ submitted s.log
  | .pushQueue job => (s.jobs job).Prepared ∧ s.use job ∉ submitted s.log
  | .signalPending use join => use ∈ submitted s.log ∧ (join = true → Live s use ∧ ¬ Issued s use)
  | .getId use join => use ∈ submitted s.log ∧ (join = true → Live s use ∧ ¬ Issued s use)
  | .readDone use => Issued s use
  | .waitSem use => Live s use ∧ Issued s use
  | .freeJob _ .failed => False
  | .freeJob job .waited =>
    (s.jobs job).sem = some 0 ∧ s.use job ∈ ran s.log ∧ Issued s (s.use job)
  | .freeJob job .worked => (s.jobs job).sem = none
  | .pushFree job _ => (s.jobs job).sem = none ∧ s.use job ∉ submitted s.log
  | .call use =>
    use = s.use use.job ∧ (s.jobs use.job).Prepared ∧ .submitted use (s.jobs use.job).task ∈ s.log
  | .readJoin job => (s.jobs job).Prepared ∧ s.use job ∈ ran s.log
  | .signalSem job =>
    (s.jobs job).sem = some 0 ∧ (s.jobs job).done = true ∧ s.use job ∈ ran s.log
  | _ => True

/-- A use whose id is not returned yet has been submitted. -/
theorem Local.sent {s : State Thread Task} {pc : Pc Task} {use : Use} (known : Local s pc)
    (issuing : pc.issuing = some use) : use ∈ submitted s.log := by
  cases pc <;> cases issuing <;> exact known.1

/-- What is known of the job structures that no thread has, and of what has happened. -/
structure Facts (maxJobs : Nat) (s : State Thread Task) : Prop where
  free : ∀ job ∈ s.free, (s.jobs job).sem = none ∧ s.use job ∉ submitted s.log
  queued : ∀ job ∈ s.queue.reduceOption, (s.jobs job).Prepared ∧
    .submitted (s.use job) (s.jobs job).task ∈ s.log
  parked : ∀ job permits, (s.jobs job).sem = some (permits + 1) →
    permits = 0 ∧ (s.jobs job).done = true ∧ s.use job ∈ ran s.log
  past : ∀ use ∈ submitted s.log, use.turn ≤ (s.jobs use.job).turn ∧ use.job < maxJobs
  once : (submitted s.log).Nodup
  tasks : ∀ use task, .ran use task ∈ s.log → .submitted use task ∈ s.log
  issued : ∀ use id, .issued use id ∈ s.log → use ∈ submitted s.log ∧ id = idOf s use ∧
    (Live s use ∨ use.turn < (s.jobs use.job).turn ∧ use ∈ ran s.log)
  collected : ∀ use, .collected use ∈ s.log →
    use.turn < (s.jobs use.job).turn ∧ use ∈ ran s.log ∧ Issued s use
  answered : ∀ use, .answered use true ∈ s.log → use ∈ ran s.log
  turns : ∀ job, (s.jobs job).turn < 2 ^ 32

/-- What is known of the threads. -/
structure Threads (s : State Thread Task) : Prop where
  each : ∀ thread, Local s (s.pc thread)
  collectors : ∀ thread other job, (s.pc thread).collecting = some job →
    (s.pc other).collecting = some job → thread = other
  issuers : ∀ thread other use, (s.pc thread).issuing = some use →
    (s.pc other).issuing = some use → thread = other

/-- The invariant. -/
structure Valid (maxJobs : Nat) (s : State Thread Task) : Prop where
  placed : Placed maxJobs s.jobs s.free s.queue s.pc
  facts : Facts maxJobs s
  threads : Threads s

/-! ### Threads and what the others do -/

/-- What another thread leaves to a thread. -/
structure Spares (s s' : State Thread Task) (pc : Pc Task) : Prop where
  jobs : ∀ job, pc.holds = some job → s'.jobs job = s.jobs job
  live : ∀ use, pc.awaits = some use → Live s use → Live s' use
  fresh : ∀ job, pc.holds = some job → s.use job ∉ submitted s.log → s.use job ∉ submitted s'.log
  grows : ∀ event ∈ s.log, event ∈ s'.log
  unissued : ∀ use, pc.issuing = some use → ¬ Issued s use → ¬ Issued s' use

variable {s s' : State Thread Task} {pc : Pc Task} {maxJobs : Nat}

theorem Spares.ran {use : Use} (spares : Spares s s' pc) (before : use ∈ ran s.log) :
    use ∈ ran s'.log := by
  obtain ⟨task, member⟩ := mem_ran.mp before
  exact mem_ran.mpr ⟨task, spares.grows _ member⟩

theorem Spares.submitted {use : Use} (spares : Spares s s' pc) (before : use ∈ submitted s.log) :
    use ∈ ThreadPool.submitted s'.log := by
  obtain ⟨task, member⟩ := mem_submitted.mp before
  exact mem_submitted.mpr ⟨task, spares.grows _ member⟩

theorem Spares.issued {use : Use} (spares : Spares s s' pc) (before : Issued s use) :
    Issued s' use := by
  obtain ⟨id, member⟩ := before
  exact ⟨id, spares.grows _ member⟩

/-- What a thread knows holds on. -/
theorem Local.rely (known : Local s pc) (spares : Spares s s' pc) : Local s' pc := by
  have current : ∀ job, pc.holds = some job → s'.use job = s.use job := by
    intro job holds
    rw [Core.use, spares.jobs job holds, Core.use]
  have announced : ∀ use join, pc.issuing = some use → (join = true → pc.awaits = some use) →
      use ∈ submitted s.log ∧ (join = true → Live s use ∧ ¬ Issued s use) →
      use ∈ submitted s'.log ∧ (join = true → Live s' use ∧ ¬ Issued s' use) := by
    rintro use join issuing awaits ⟨before, live⟩
    refine ⟨spares.submitted before, fun joins => ?_⟩
    obtain ⟨live, unissued⟩ := live joins
    exact ⟨spares.live use (awaits joins) live, spares.unissued use issuing unissued⟩
  cases pc with
  | prepare job task join =>
    rw [Local, current job rfl, spares.jobs job rfl]
    exact ⟨known.1, spares.fresh job rfl known.2⟩
  | countJoinable job =>
    rw [Local, current job rfl, spares.jobs job rfl]
    exact ⟨known.1, spares.fresh job rfl known.2⟩
  | pushQueue job =>
    rw [Local, current job rfl, spares.jobs job rfl]
    exact ⟨known.1, spares.fresh job rfl known.2⟩
  | signalPending use join => exact announced use join rfl (by rintro rfl; rfl) known
  | getId use join => exact announced use join rfl (by rintro rfl; rfl) known
  | readDone use => exact spares.issued known
  | waitSem use => exact ⟨spares.live use rfl known.1, spares.issued known.2⟩
  | freeJob job after =>
    cases after with
    | failed => exact known
    | waited =>
      rw [Local, current job rfl, spares.jobs job rfl]
      exact ⟨known.1, spares.ran known.2.1, spares.issued known.2.2⟩
    | worked =>
      rw [Local, spares.jobs job rfl]
      exact known
  | pushFree job after =>
    rw [Local, current job rfl, spares.jobs job rfl]
    exact ⟨known.1, spares.fresh job rfl known.2⟩
  | call called =>
    rw [Local, current called.job rfl, spares.jobs called.job rfl]
    exact ⟨known.1, known.2.1, spares.grows _ known.2.2⟩
  | readJoin job =>
    rw [Local, current job rfl, spares.jobs job rfl]
    exact ⟨known.1, spares.ran known.2⟩
  | signalSem job =>
    rw [Local, current job rfl, spares.jobs job rfl]
    exact ⟨known.1, known.2.1, spares.ran known.2.2⟩
  | idle | check | waitComplete | popFree | signalComplete | uncountJoinable | waitPending
  | popQueue | exited | pushStop | signalStop | joinWorkers | stopped => trivial

theorem Spares.quiet (jobs : s'.jobs = s.jobs) (log : s'.log = s.log) : Spares s s' pc := by
  refine ⟨fun job _ => by rw [jobs], fun use _ live => ?_, fun job _ fresh => ?_,
    fun event member => ?_, fun use _ unissued => ?_⟩
  · unfold Live Core.use at live ⊢
    rwa [jobs]
  · rwa [log]
  · rwa [log]
  · unfold Issued at unissued ⊢
    rwa [log]

/-- Something happens that is not about the use of the thread. -/
theorem Spares.event {event : Event Task} (jobs : s'.jobs = s.jobs) (log : s'.log = s.log ++ [event])
    (submits : ∀ use, event.submits = some use → pc.holds ≠ some use.job)
    (issues : ∀ use id, event = .issued use id → pc.issuing ≠ some use) : Spares s s' pc := by
  refine ⟨fun job _ => by rw [jobs], fun use _ live => ?_, fun job holds fresh => ?_,
    fun event member => ?_, fun use issuing unissued => ?_⟩
  · unfold Live Core.use at live ⊢
    rwa [jobs]
  · rw [log, submitted_append, submitted_singleton, List.mem_append, Option.mem_toList]
    rintro (before | now)
    · exact fresh before
    · exact submits _ now holds
  · rw [log]
    exact List.mem_append_left _ member
  · rintro ⟨id, member⟩
    rw [log] at member
    rcases List.mem_append.mp member with before | now
    · exact unissued ⟨id, before⟩
    · exact issues use id (List.mem_singleton.mp now).symm issuing

/-- A job structure changes that the thread does not have. -/
theorem Spares.setJob {job : Nat} {data : JobData Task} (jobs : s'.jobs = Function.update s.jobs job data)
    (log : s'.log = s.log) (elsewhere : pc.holds ≠ some job)
    (live : ∀ use, pc.awaits = some use → use.job = job → Live s use →
      data.turn = (s.jobs job).turn ∧ data.sem ≠ none) : Spares s s' pc := by
  refine ⟨fun other holds => ?_, fun use awaits was => ?_, fun job _ fresh => ?_,
    fun event member => ?_, fun use _ unissued => ?_⟩
  · rw [jobs, Function.update_of_ne]
    rintro rfl
    exact elsewhere holds
  · by_cases here : use.job = job
    · obtain ⟨turn, sem⟩ := live use awaits here was
      obtain ⟨current, -⟩ := was
      have same : s'.use use.job = s.use use.job := by
        rw [Core.use, Core.use, jobs, here, Function.update_self, turn]
      refine ⟨current.trans same.symm, ?_⟩
      rw [jobs, here, Function.update_self]
      exact sem
    · unfold Live Core.use at was ⊢
      rwa [jobs, Function.update_of_ne here]
  · rwa [log]
  · rwa [log]
  · unfold Issued at unissued ⊢
    rwa [log]

/-- One step after another. -/
theorem Spares.trans {s'' : State Thread Task} (first : Spares s s' pc) (second : Spares s' s'' pc) :
    Spares s s'' pc := by
  refine ⟨fun job holds => (second.jobs job holds).trans (first.jobs job holds),
    fun use awaits live => second.live use awaits (first.live use awaits live),
    fun job holds fresh => ?_, fun event member => second.grows event (first.grows event member),
    fun use issuing unissued => second.unissued use issuing (first.unissued use issuing unissued)⟩
  have same : s'.use job = s.use job := by
    rw [Core.use, first.jobs job holds, Core.use]
  rw [← same] at fresh ⊢
  refine second.fresh job holds ?_
  rw [same] at fresh ⊢
  exact first.fresh job holds fresh

/-! ### What is known of the job structures -/

/-- Only the job structures, the lists and the log matter. -/
theorem Facts.relist (facts : Facts maxJobs s) (jobs : s'.jobs = s.jobs) (log : s'.log = s.log)
    (free : ∀ job ∈ s'.free, job ∈ s.free ∨
      ((s.jobs job).sem = none ∧ s.use job ∉ submitted s.log))
    (queue : ∀ job ∈ s'.queue.reduceOption, job ∈ s.queue.reduceOption ∨
      ((s.jobs job).Prepared ∧ .submitted (s.use job) (s.jobs job).task ∈ s.log)) :
    Facts maxJobs s' := by
  have use : s'.use = s.use := by
    funext job
    rw [Core.use, Core.use, jobs]
  have ids : idOf s' = idOf s := by
    funext use
    rw [idOf, idOf, firstGen, firstGen, jobs]
  refine ⟨fun job member => ?_, fun job member => ?_, ?_, ?_, ?_, ?_, ?_, ?_, ?_, ?_⟩
  · rw [jobs, log, use]
    rcases free job member with before | known
    · exact facts.free job before
    · exact known
  · rw [jobs, log, use]
    rcases queue job member with before | known
    · exact facts.queued job before
    · exact known
  · rw [jobs, log, use]
    exact facts.parked
  · rw [jobs, log]
    exact facts.past
  · rw [log]
    exact facts.once
  · rw [log]
    exact facts.tasks
  · unfold Live
    rw [jobs, log, use, ids]
    exact facts.issued
  · unfold Issued
    rw [jobs, log]
    exact facts.collected
  · rw [log]
    exact facts.answered
  · rw [jobs]
    exact facts.turns

/-- A job structure changes that nobody else can have, within its use. -/
theorem Facts.setJob {job : Nat} {data : JobData Task} (facts : Facts maxJobs s)
    (notFree : job ∉ s.free) (notQueued : job ∉ s.queue.reduceOption)
    (turn : data.turn = (s.jobs job).turn) (gen : data.gen = (s.jobs job).gen)
    (parked : ∀ permits, data.sem = some (permits + 1) →
      permits = 0 ∧ data.done = true ∧ s.use job ∈ ran s.log)
    (live : (s.jobs job).sem ≠ none → data.sem ≠ none) : Facts maxJobs (s.setJob job data) := by
  have turns : ∀ other, ((s.setJob job data).jobs other).turn = (s.jobs other).turn := by
    intro other
    by_cases same : other = job
    · simp only [same, State.setJob, Function.update_self, turn]
    · simp only [State.setJob, Function.update_of_ne same]
  have gens : ∀ other, ((s.setJob job data).jobs other).gen = (s.jobs other).gen := by
    intro other
    by_cases same : other = job
    · simp only [same, State.setJob, Function.update_self, gen]
    · simp only [State.setJob, Function.update_of_ne same]
  have use : (s.setJob job data).use = s.use := by
    funext other
    rw [Core.use, Core.use, turns]
  have ids : idOf (s.setJob job data) = idOf s := by
    funext use
    rw [idOf, idOf, firstGen, firstGen, turns, gens]
  have others : ∀ other, other ≠ job → (s.setJob job data).jobs other = s.jobs other :=
    fun other different => Function.update_of_ne different ..
  have own : (s.setJob job data).jobs job = data := Function.update_self ..
  refine ⟨fun other member => ?_, fun other member => ?_, fun other permits sem => ?_, ?_,
    facts.once, facts.tasks, fun use' id member => ?_, ?_, facts.answered, ?_⟩
  · rw [use, others other (by rintro rfl; exact notFree member)]
    exact facts.free other member
  · rw [use, others other (by rintro rfl; exact notQueued member)]
    exact facts.queued other member
  · rw [use]
    by_cases same : other = job
    · subst same
      rw [own] at sem ⊢
      exact parked permits sem
    · rw [others other same] at sem ⊢
      exact facts.parked other permits sem
  · intro use' member
    rw [turns]
    exact facts.past use' member
  · obtain ⟨before, id, known⟩ := facts.issued use' id member
    rw [ids, turns]
    refine ⟨before, id, known.imp_left fun was => ?_⟩
    rw [Live, use]
    refine ⟨was.1, ?_⟩
    by_cases same : use'.job = job
    · rw [same, own]
      exact live (same ▸ was.2)
    · rw [others use'.job same]
      exact was.2
  · intro use' member
    rw [turns]
    exact facts.collected use' member
  · intro other
    rw [turns]
    exact facts.turns other

/-- A job structure is freed, and its next use begins. -/
theorem Facts.freed {job : Nat} (facts : Facts maxJobs s) (notFree : job ∉ s.free)
    (notQueued : job ∉ s.queue.reduceOption) (fits : (s.jobs job).turn + 1 < 2 ^ 32)
    (collected : Live s (s.use job) → Issued s (s.use job) → s.use job ∈ ran s.log) :
    Facts maxJobs (s.setJob job (s.jobs job).freed) := by
  let data := (s.jobs job).freed
  have own : (s.setJob job data).jobs job = data := Function.update_self ..
  have others : ∀ other, other ≠ job → (s.setJob job data).jobs other = s.jobs other :=
    fun other different => Function.update_of_ne different ..
  have use : ∀ other, other ≠ job → (s.setJob job data).use other = s.use other := by
    intro other different
    rw [Core.use, Core.use, others other different]
  have grows : ∀ other, (s.jobs other).turn ≤ ((s.setJob job data).jobs other).turn := by
    intro other
    by_cases same : other = job
    · rw [same, own]
      exact Nat.le_succ _
    · rw [others other same]
  have ids : idOf (s.setJob job data) = idOf s := by
    have first : firstGen (s.setJob job data) = firstGen s := by
      funext other
      by_cases same : other = job
      · rw [same, firstGen, firstGen, own, show data.turn = (s.jobs job).turn + 1 from rfl,
          BitVec.ofNat_add]
        exact add_sub_add_right_eq_sub (s.jobs job).gen _ (BitVec.ofNat 32 1)
      · rw [firstGen, firstGen, others other same]
    funext use
    rw [idOf, idOf, first]
  refine ⟨fun other member => ?_, fun other member => ?_, fun other permits sem => ?_, ?_,
    facts.once, facts.tasks, fun use' id member => ?_, ?_, facts.answered, ?_⟩
  · have different : other ≠ job := by
      rintro rfl
      exact notFree member
    rw [use other different, others other different]
    exact facts.free other member
  · have different : other ≠ job := by
      rintro rfl
      exact notQueued member
    rw [use other different, others other different]
    exact facts.queued other member
  · by_cases same : other = job
    · rw [same, own] at sem
      cases sem
    · rw [others other same] at sem ⊢
      rw [use other same]
      exact facts.parked other permits sem
  · intro use' member
    obtain ⟨turn, inside⟩ := facts.past use' member
    exact ⟨Nat.le_trans turn (grows use'.job), inside⟩
  · obtain ⟨before, id', known⟩ := facts.issued use' id member
    rw [ids]
    refine ⟨before, id', ?_⟩
    rcases known with live | ⟨older, run⟩
    · by_cases same : use'.job = job
      · have current : use' = s.use job := same ▸ live.1
        refine .inr ⟨?_, ?_⟩
        · rw [same, own, current]
          exact Nat.lt_succ_self _
        · rw [current] at live member ⊢
          exact collected live ⟨id, member⟩
      · refine .inl ?_
        rw [Live, use _ same, others _ same]
        exact live
    · exact .inr ⟨Nat.lt_of_lt_of_le older (grows _), run⟩
  · intro use' member
    obtain ⟨older, known⟩ := facts.collected use' member
    exact ⟨Nat.lt_of_lt_of_le older (grows _), known⟩
  · intro other
    by_cases same : other = job
    · rw [same, own]
      exact fits
    · rw [others other same]
      exact facts.turns other

/-- Something happens. -/
theorem Facts.event {event : Event Task} (facts : Facts maxJobs s)
    (submits : ∀ use, event.submits = some use → s.use use.job = use ∧ use ∉ submitted s.log ∧
      use.job < maxJobs ∧ use.job ∉ s.free)
    (runs : ∀ use task, event = .ran use task → .submitted use task ∈ s.log)
    (issues : ∀ use id, event = .issued use id → use ∈ submitted s.log ∧ id = idOf s use ∧
      Live s use)
    (collects : ∀ use, event = .collected use →
      use.turn < (s.jobs use.job).turn ∧ use ∈ ran s.log ∧ Issued s use)
    (answers : ∀ use, event = .answered use true → use ∈ ran s.log) :
    Facts maxJobs (s.record event) := by
  have grows : ∀ {earlier : Event Task}, earlier ∈ s.log → earlier ∈ s.log ++ [event] :=
    fun member => List.mem_append_left _ member
  have submittedGrows : ∀ {use}, use ∈ submitted s.log → use ∈ submitted (s.log ++ [event]) := by
    intro use member
    rw [submitted_append]
    exact List.mem_append_left _ member
  have ranGrows : ∀ {use}, use ∈ ran s.log → use ∈ ran (s.log ++ [event]) := by
    intro use member
    rw [ran_append]
    exact List.mem_append_left _ member
  have issuedGrows : ∀ {use}, Issued s use → Issued (s.record event) use := by
    rintro use ⟨id, member⟩
    exact ⟨id, grows member⟩
  have split : ∀ {later : Event Task}, later ∈ s.log ++ [event] → later ∈ s.log ∨ event = later := by
    intro later member
    rcases List.mem_append.mp member with before | now
    · exact .inl before
    · exact .inr (List.mem_singleton.mp now).symm
  refine ⟨fun job member => ⟨(facts.free job member).1, ?_⟩, fun job member => ?_,
    fun job permits sem => ?_, fun use member => ?_, ?_, fun use task member => ?_,
    fun use id member => ?_, fun use member => ?_, fun use member => ?_, facts.turns⟩
  · show s.use job ∉ submitted (s.log ++ [event])
    rw [submitted_append, submitted_singleton, List.mem_append, Option.mem_toList]
    rintro (before | now)
    · exact (facts.free job member).2 before
    · exact (submits _ now).2.2.2 member
  · obtain ⟨prepared, before⟩ := facts.queued job member
    exact ⟨prepared, grows before⟩
  · obtain ⟨one, done, run⟩ := facts.parked job permits sem
    exact ⟨one, done, ranGrows run⟩
  · change use ∈ submitted (s.log ++ [event]) at member
    rw [submitted_append, submitted_singleton, List.mem_append, Option.mem_toList] at member
    rcases member with before | now
    · exact facts.past use before
    · obtain ⟨current, -, inside, -⟩ := submits use now
      exact ⟨Nat.le_of_eq (congrArg Use.turn current).symm, inside⟩
  · show (submitted (s.log ++ [event])).Nodup
    rw [submitted_append, submitted_singleton, List.nodup_append]
    refine ⟨facts.once, ?_, ?_⟩
    · cases event.submits <;> simp
    · rintro use before other now rfl
      exact (submits use (Option.mem_toList.mp now)).2.1 before
  · rcases split member with before | now
    · exact grows (facts.tasks use task before)
    · exact grows (runs use task now)
  · rcases split member with before | now
    · obtain ⟨sent, packed, known⟩ := facts.issued use id before
      exact ⟨submittedGrows sent, packed, known.imp_right fun past => ⟨past.1, ranGrows past.2⟩⟩
    · obtain ⟨sent, packed, live⟩ := issues use id now
      exact ⟨submittedGrows sent, packed, .inl live⟩
  · rcases split member with before | now
    · obtain ⟨older, run, issued⟩ := facts.collected use before
      exact ⟨older, ranGrows run, issuedGrows issued⟩
    · obtain ⟨older, run, issued⟩ := collects use now
      exact ⟨older, ranGrows run, issuedGrows issued⟩
  · rcases split member with before | now
    · exact ranGrows (facts.answered use before)
    · exact ranGrows (answers use now)

end Mysnips.ThreadPool

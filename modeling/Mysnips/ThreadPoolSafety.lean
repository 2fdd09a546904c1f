import Mysnips.ThreadPoolFacts

/-! Every step of the thread pool keeps its invariant. -/
namespace Mysnips.ThreadPool
open Transition ThreadPoolJobIds Machine

variable {Thread Task : Type} {s s' : State Thread Task} {pc : Pc Task} {maxJobs : Nat}

/-- A use that has a semaphore and is done has run. -/
theorem Valid.live_done (valid : Valid maxJobs s) {job : Nat} (inside : job < maxJobs)
    (sem : (s.jobs job).sem ≠ none) (done : (s.jobs job).done = true) : s.use job ∈ ran s.log := by
  rcases valid.placed.somewhere job inside with ⟨place, member⟩ | ⟨permits, signaled⟩
  · cases place with
    | free => exact absurd (valid.facts.free job member).1 sem
    | queue =>
      have waiting := (valid.facts.queued job member).1.1
      rw [done] at waiting
      cases waiting
    | thread thread =>
      have holds : (s.pc thread).holds = some job := Option.mem_toList.mp member
      have known := valid.threads.each thread
      have unprepared : ¬ (s.jobs job).Prepared := by
        rintro ⟨waiting, -⟩
        rw [done] at waiting
        cases waiting
      cases there : s.pc thread with
      | prepare job' task join =>
        rw [there] at holds known
        cases holds
        exact absurd known.1 sem
      | countJoinable job' =>
        rw [there] at holds known
        cases holds
        exact absurd known.1 unprepared
      | pushQueue job' =>
        rw [there] at holds known
        cases holds
        exact absurd known.1 unprepared
      | freeJob job' after =>
        rw [there] at holds known
        cases holds
        cases after with
        | failed => exact known.elim
        | waited => exact known.2.1
        | worked => exact absurd known sem
      | pushFree job' after =>
        rw [there] at holds known
        cases holds
        exact absurd known.1 sem
      | call use =>
        rw [there] at holds known
        cases holds
        exact absurd known.2.1 unprepared
      | readJoin job' =>
        rw [there] at holds known
        cases holds
        exact known.2
      | signalSem job' =>
        rw [there] at holds known
        cases holds
        exact known.2.2
      | idle | check | waitComplete | popFree | signalPending | getId | readDone | waitSem
      | signalComplete | uncountJoinable | waitPending | popQueue | exited | pushStop | signalStop
      | joinWorkers | stopped =>
        rw [there] at holds
        cases holds
  · exact (valid.facts.parked job permits signaled).2.2

/-- The program is told that a use is done only after it has run. -/
theorem Valid.done_ran (valid : Valid maxJobs s) {use : Use} (issued : Issued s use)
    (done : (s.jobs use.job).done = true) : use ∈ ran s.log := by
  obtain ⟨id, member⟩ := issued
  obtain ⟨sent, -, live | past⟩ := valid.facts.issued use id member
  · rw [live.1]
    exact valid.live_done (valid.facts.past use sent).2 live.2 done
  · exact past.2

variable {thread : Thread} {pc' : Pc Task}

/-- A thread frees the job structure that it has, for which nobody else waits. -/
private theorem Valid.spares_freed {job : Nat} (valid : Valid maxJobs s)
    (was : (s.pc thread).holds = some job)
    (alone : ∀ other use, other ≠ thread → (s.pc other).awaits = some use → use.job = job →
      ¬ Live s use) (later : State Thread Task)
    (jobs : later.jobs = Function.update s.jobs job (s.jobs job).freed) (log : later.log = s.log)
    (other : Thread) (different : other ≠ thread) : Spares s later (s.pc other) := by
  refine .setJob jobs log (fun theirs => different (valid.placed.holder theirs was)) ?_
  intro use awaits here live
  exact absurd live (alone other use different awaits here)

private theorem Facts.next_fresh {job : Nat} (facts : Facts maxJobs s) :
    ⟨job, (s.jobs job).turn + 1⟩ ∉ submitted s.log := by
  intro member
  exact Nat.not_succ_le_self _ (facts.past _ member).1

private theorem Live.not_none {job : Nat} {use : Use} (live : Live s use) (here : use.job = job) :
    (s.jobs job).sem ≠ none := here ▸ live.2

variable [DecidableEq Thread]

/-- The threads after a step of one of them. -/
theorem Threads.moved (threads : Threads s) (pcs : s'.pc = Function.update s.pc thread pc')
    (mine : Local s' pc') (others : ∀ other, other ≠ thread → Spares s s' (s.pc other))
    (collects : ∀ other job, other ≠ thread → pc'.collecting = some job →
      (s.pc other).collecting ≠ some job)
    (issues : ∀ other use, other ≠ thread → pc'.issuing = some use →
      (s.pc other).issuing ≠ some use) : Threads s' := by
  refine ⟨fun other => ?_, fun one two job first second => ?_, fun one two use first second => ?_⟩
  · rw [pcs]
    by_cases same : other = thread
    · rw [same, Function.update_self]
      exact mine
    · rw [Function.update_of_ne same]
      exact (threads.each other).rely (others other same)
  · rw [pcs] at first second
    by_cases isOne : one = thread
    · by_cases isTwo : two = thread
      · exact isOne.trans isTwo.symm
      · rw [isOne, Function.update_self] at first
        rw [Function.update_of_ne isTwo] at second
        exact absurd second (collects two job isTwo first)
    · rw [Function.update_of_ne isOne] at first
      by_cases isTwo : two = thread
      · rw [isTwo, Function.update_self] at second
        exact absurd first (collects one job isOne second)
      · rw [Function.update_of_ne isTwo] at second
        exact threads.collectors one two job first second
  · rw [pcs] at first second
    by_cases isOne : one = thread
    · by_cases isTwo : two = thread
      · exact isOne.trans isTwo.symm
      · rw [isOne, Function.update_self] at first
        rw [Function.update_of_ne isTwo] at second
        exact absurd second (issues two use isTwo first)
    · rw [Function.update_of_ne isOne] at first
      by_cases isTwo : two = thread
      · rw [isTwo, Function.update_self] at second
        exact absurd first (issues one use isOne second)
      · rw [Function.update_of_ne isTwo] at second
        exact threads.issuers one two use first second

/-- A thread does something that is not about job structures. -/
theorem Valid.quiet (valid : Valid maxJobs s) (jobs : s'.jobs = s.jobs) (log : s'.log = s.log)
    (free : s'.free = s.free) (queue : s'.queue.reduceOption = s.queue.reduceOption)
    (pcs : s'.pc = Function.update s.pc thread pc') (holds : pc'.holds = (s.pc thread).holds)
    (mine : Local s pc')
    (collects : ∀ other job, other ≠ thread → pc'.collecting = some job →
      (s.pc other).collecting ≠ some job)
    (issues : pc'.issuing = none ∨ pc'.issuing = (s.pc thread).issuing) : Valid maxJobs s' := by
  have same : kept s'.free s'.queue s'.pc = kept s.free s.queue s.pc := by
    rw [pcs, ← kept_update holds]
    funext place
    cases place with
    | free => exact free
    | queue => exact queue
    | thread other => rfl
  refine ⟨valid.placed.congr same fun job => by rw [jobs], ?_, ?_⟩
  · refine valid.facts.relist jobs log (fun job member => .inl ?_) fun job member => .inl ?_
    · rwa [free] at member
    · rwa [queue] at member
  · refine valid.threads.moved pcs (mine.rely (.quiet jobs log)) (fun _ _ => .quiet jobs log)
      collects fun other use different issuing theirs => ?_
    rcases issues with none | mine
    · rw [none] at issuing
      cases issuing
    · exact different (valid.threads.issuers other thread use theirs (mine ▸ issuing))

/-- A thread does something that is not about job structures, and waits for none. -/
theorem Valid.still (valid : Valid maxJobs s) (jobs : s'.jobs = s.jobs) (log : s'.log = s.log)
    (free : s'.free = s.free) (queue : s'.queue.reduceOption = s.queue.reduceOption)
    (pcs : s'.pc = Function.update s.pc thread pc') (holds : pc'.holds = (s.pc thread).holds)
    (mine : Local s pc') (collects : pc'.collecting = none) (issues : pc'.issuing = none) :
    Valid maxJobs s' := by
  refine valid.quiet jobs log free queue pcs holds mine (fun other job _ collecting => ?_) (.inl issues)
  rw [collects] at collecting
  cases collecting

/-- A thread changes the job structure that it has, within its use. -/
theorem Valid.setHeld {job : Nat} {data : JobData Task} (valid : Valid maxJobs s)
    (was : (s.pc thread).holds = some job) (holds : pc'.holds = some job)
    (turn : data.turn = (s.jobs job).turn) (gen : data.gen = (s.jobs job).gen)
    (unparked : ¬ data.Parked) (live : (s.jobs job).sem ≠ none → data.sem ≠ none)
    (mine : Local (s.setJob job data) pc') (collects : pc'.collecting = none)
    (issues : pc'.issuing = none) : Valid maxJobs ((s.setJob job data).goto thread pc') := by
  have placed := valid.placed
  refine ⟨?_, ?_, ?_⟩
  · refine placed.congr (kept_update (holds.trans was.symm)) fun other => ?_
    by_cases same : other = job
    · subst same
      have before := placed.not_parked was
      show (Function.update s.jobs other data other).Parked ↔ _
      rw [Function.update_self]
      exact ⟨fun parked => absurd parked unparked, fun parked => absurd parked before⟩
    · show (Function.update s.jobs job data other).Parked ↔ _
      rw [Function.update_of_ne same]
  · exact (valid.facts.setJob (placed.not_free was) (placed.not_queued was) turn gen
      (fun permits sem => absurd ⟨permits, sem⟩ unparked) live).relist rfl rfl
        (fun _ => .inl) fun _ => .inl
  · refine valid.threads.moved rfl mine (fun other different => ?_) (fun other job' _ collecting => ?_)
      fun other use _ issuing => ?_
    · refine .setJob rfl rfl (fun theirs => different (placed.holder theirs was)) ?_
      rintro use - here ⟨-, sem⟩
      exact ⟨turn, live (here ▸ sem)⟩
    · rw [collects] at collecting
      cases collecting
    · rw [issues] at issuing
      cases issuing

/-- Something happens that changes no job structure. -/
theorem Valid.event {event : Event Task} (valid : Valid maxJobs s)
    (holds : pc'.holds = (s.pc thread).holds) (mine : Local (s.record event) pc')
    (collects : pc'.collecting = none) (issues : pc'.issuing = none)
    (submits : event.submits = none)
    (facts : Facts maxJobs (s.record event))
    (issuer : ∀ use id, event = .issued use id → (s.pc thread).issuing = some use) :
    Valid maxJobs ((s.record event).goto thread pc') := by
  refine ⟨valid.placed.congr (kept_update holds) fun _ => Iff.rfl,
    facts.relist rfl rfl (fun _ => .inl) fun _ => .inl, ?_⟩
  refine valid.threads.moved rfl mine (fun other different => ?_) (fun other job' _ collecting => ?_)
    fun other use _ issuing => ?_
  · refine .event rfl rfl (fun use sent => ?_) fun use id isIssued theirs => ?_
    · rw [submits] at sent
      cases sent
    · exact different (valid.threads.issuers other thread use theirs (issuer use id isIssued))
  · rw [collects] at collecting
    cases collecting
  · rw [issues] at issuing
    cases issuing

private theorem Valid.placed_freed {job : Nat} {after : After} (valid : Valid maxJobs s)
    (was : (s.pc thread).holds = some job) :
    Placed maxJobs (s.setJob job (s.jobs job).freed).jobs s.free s.queue
      (Function.update s.pc thread (.pushFree job after)) := by
  refine valid.placed.congr (kept_update was.symm) fun other => ?_
  by_cases same : other = job
  · subst same
    have before := valid.placed.not_parked was
    show (Function.update s.jobs other _ other).Parked ↔ _
    rw [Function.update_self]
    refine ⟨?_, fun parked => absurd parked before⟩
    rintro ⟨permits, sem⟩
    cases sem
  · show (Function.update s.jobs job _ other).Parked ↔ _
    rw [Function.update_of_ne same]

/-- A worker frees a job structure that nobody waits for. -/
theorem Valid.freed {job : Nat} {after : After} (valid : Valid maxJobs s)
    (there : s.pc thread = .freeJob job after) (other : after ≠ .waited)
    (fits : (s.jobs job).turn + 1 < 2 ^ 32) :
    Valid maxJobs ((s.setJob job (s.jobs job).freed).goto thread (.pushFree job after)) := by
  have was : (s.pc thread).holds = some job := by
    rw [there]
    rfl
  have empty : (s.jobs job).sem = none := by
    have known := valid.threads.each thread
    rw [there] at known
    cases after with
    | failed => exact known.elim
    | waited => exact absurd rfl other
    | worked => exact known
  refine ⟨valid.placed_freed was, ?_, ?_⟩
  · refine (valid.facts.freed (valid.placed.not_free was) (valid.placed.not_queued was) fits
      fun live => ?_).relist rfl rfl (fun _ => .inl) fun _ => .inl
    exact absurd empty live.2
  · refine valid.threads.moved rfl ?_ (valid.spares_freed was (fun other use _ _ here live => ?_) _
      rfl rfl) (fun _ _ _ collecting => by cases collecting) fun _ _ _ issuing => by cases issuing
    · show (Function.update s.jobs job _ job).sem = none ∧
        ⟨job, (Function.update s.jobs job _ job).turn⟩ ∉ submitted s.log
      rw [Function.update_self]
      exact ⟨rfl, valid.facts.next_fresh⟩
    · exact live.not_none here empty

/-- A thread that has waited for a job frees its structure. -/
theorem Valid.collected {job : Nat} (valid : Valid maxJobs s)
    (there : s.pc thread = .freeJob job .waited) (fits : (s.jobs job).turn + 1 < 2 ^ 32) :
    Valid maxJobs (((s.setJob job (s.jobs job).freed).record (.collected (s.use job))).goto thread
      (.pushFree job .waited)) := by
  have was : (s.pc thread).holds = some job := by
    rw [there]
    rfl
  have known := valid.threads.each thread
  rw [there] at known
  obtain ⟨-, run, issued⟩ := known
  have own : (s.setJob job (s.jobs job).freed).jobs job = (s.jobs job).freed :=
    Function.update_self ..
  refine ⟨valid.placed_freed was, ?_, ?_⟩
  · have freed := valid.facts.freed (valid.placed.not_free was) (valid.placed.not_queued was) fits
      fun _ _ => run
    have recorded : Facts maxJobs
        ((s.setJob job (s.jobs job).freed).record (.collected (s.use job))) := ?_
    · exact recorded.relist rfl rfl (fun _ => .inl) fun _ => .inl
    refine freed.event nofun nofun nofun (fun use same => ?_) nofun
    cases same
    refine ⟨?_, run, issued⟩
    show (s.jobs job).turn < ((s.setJob job (s.jobs job).freed).jobs job).turn
    rw [own]
    exact Nat.lt_succ_self _
  · refine valid.threads.moved rfl ?_ (fun other different => ?_)
      (fun _ _ _ collecting => by cases collecting) fun _ _ _ issuing => by cases issuing
    · show (Function.update s.jobs job _ job).sem = none ∧
        ⟨job, (Function.update s.jobs job _ job).turn⟩ ∉ submitted (s.log ++ [_])
      rw [Function.update_self, submitted_append, submitted_singleton]
      refine ⟨rfl, fun member => ?_⟩
      rcases List.mem_append.mp member with before | now
      · exact valid.facts.next_fresh before
      · cases now
    · have alone : ∀ other use, other ≠ thread → (s.pc other).awaits = some use → use.job = job →
          ¬ Live s use := by
        intro other use different awaits here live
        have current : use = s.use job := here ▸ live.1
        have known := valid.threads.each other
        cases pc : s.pc other with
        | waitSem use' =>
          rw [pc] at awaits
          cases awaits
          refine different (valid.threads.collectors other thread job ?_ ?_)
          · rw [pc, ← here]
            rfl
          · rw [there]
            rfl
        | signalPending use' join =>
          rw [pc] at awaits known
          cases join <;> cases awaits
          exact (known.2 rfl).2 (current ▸ issued)
        | getId use' join =>
          rw [pc] at awaits known
          cases join <;> cases awaits
          exact (known.2 rfl).2 (current ▸ issued)
        | idle | check | waitComplete | popFree | prepare | countJoinable | pushQueue | readDone
        | freeJob | pushFree | signalComplete | uncountJoinable | waitPending | popQueue | call
        | readJoin | signalSem | exited | pushStop | signalStop | joinWorkers | stopped =>
          rw [pc] at awaits
          cases awaits
      have spared : Spares s (s.setJob job (s.jobs job).freed) (s.pc other) :=
        valid.spares_freed was alone (s.setJob job (s.jobs job).freed) rfl rfl other different
      exact spared.trans (.event rfl rfl nofun nofun)

/-- A thread takes the first free job structure. -/
theorem Valid.took {task : Task} {join : Bool} {job : Nat} {free : List Nat} (valid : Valid maxJobs s)
    (there : s.pc thread = .popFree task join) (listed : s.free = job :: free) :
    Valid maxJobs ({ s with free }.goto thread (.prepare job task join)) := by
  have placed := valid.placed
  have head : job ∈ s.free := listed ▸ List.mem_cons_self
  rw [listed] at placed
  refine ⟨placed.take (by rw [there]; rfl) rfl, valid.facts.relist rfl rfl (fun other member => ?_)
    fun _ => .inl, ?_⟩
  · exact .inl (listed ▸ List.mem_cons_of_mem _ member)
  · exact valid.threads.moved rfl (valid.facts.free job head) (fun _ _ => .quiet rfl rfl)
      (fun _ _ _ collecting => by cases collecting) fun _ _ _ issuing => by cases issuing

/-- A thread prepares the job structure that it has taken. -/
theorem Valid.prepared {task : Task} {join : Bool} {job : Nat} {data : JobData Task}
    (valid : Valid maxJobs s) (there : s.pc thread = .prepare job task join)
    (holds : pc'.holds = some job) (turn : data.turn = (s.jobs job).turn)
    (gen : data.gen = (s.jobs job).gen) (unparked : ¬ data.Parked)
    (mine : s.use job ∉ submitted s.log → Local (s.setJob job data) pc')
    (collects : pc'.collecting = none) (issues : pc'.issuing = none) :
    Valid maxJobs ((s.setJob job data).goto thread pc') := by
  have known := valid.threads.each thread
  rw [there] at known
  exact valid.setHeld (by rw [there]; rfl) holds turn gen unparked
    (fun set => absurd known.1 set) (mine known.2) collects issues

/-- A thread puts its job into the queue. -/
theorem Valid.enqueued {job : Nat} (valid : Valid maxJobs s) (there : s.pc thread = .pushQueue job) :
    Valid maxJobs (({ s with queue := s.queue ++ [some job] }.record
      (.submitted (s.use job) (s.jobs job).task)).goto thread
        (.signalPending (s.use job) (s.jobs job).join)) := by
  have known := valid.threads.each thread
  have placed := valid.placed
  rw [there] at known
  obtain ⟨prepared, fresh⟩ := known
  have was : (s.pc thread).holds = some job := by
    rw [there]
    rfl
  have sent : s.use job ∈ submitted
      (s.log ++ [.submitted (s.use job) (s.jobs job).task]) := by
    rw [submitted_append]
    exact List.mem_append_right _ List.mem_cons_self
  refine ⟨placed.enqueue was rfl, ?_, ?_⟩
  · have recorded : Facts maxJobs (s.record (.submitted (s.use job) (s.jobs job).task)) := by
      refine valid.facts.event (fun use same => ?_) nofun nofun nofun nofun
      cases same
      exact ⟨rfl, fresh, placed.inside _ job (held was), placed.not_free was⟩
    refine recorded.relist rfl rfl (fun _ => .inl) fun other member => ?_
    have queued : other ∈ (s.queue ++ [some job]).reduceOption := member
    rw [List.reduceOption_append, List.reduceOption_singleton, Option.toList_some] at queued
    rcases List.mem_append.mp queued with before | now
    · exact .inl before
    · rw [List.mem_singleton.mp now]
      exact .inr ⟨prepared, List.mem_append_right _ List.mem_cons_self⟩
  · refine valid.threads.moved rfl ⟨sent, fun joins => ?_⟩ (fun other different => ?_)
      (fun _ _ _ collecting => by cases collecting) fun other use different issuing theirs => ?_
    · refine ⟨⟨rfl, ?_⟩, ?_⟩
      · show (s.jobs job).sem ≠ none
        rw [prepared.2, joins]
        simp
      · rintro ⟨id, member⟩
        rcases List.mem_append.mp member with before | now
        · exact fresh (valid.facts.issued _ id before).1
        · cases List.mem_singleton.mp now
    · refine .event rfl rfl (fun use same theirs => ?_) nofun
      cases same
      exact different (placed.holder theirs was)
    · -- the use of another thread has been submitted before
      cases issuing
      exact fresh ((valid.threads.each other).sent theirs)

/-- The program is given the id of a job. -/
theorem Valid.issued {use : Use} (valid : Valid maxJobs s) (there : s.pc thread = .getId use true) :
    Valid maxJobs ((s.record (.issued use (packJobId (s.jobs use.job).gen.toInt use.job))).goto thread
      .idle) := by
  have known := valid.threads.each thread
  rw [there] at known
  obtain ⟨sent, live⟩ := known
  obtain ⟨live, -⟩ := live rfl
  refine valid.event (by rw [there]; rfl) trivial rfl rfl rfl ?_ ?_
  · refine valid.facts.event nofun nofun (fun use id same => ?_) nofun nofun
    cases same
    refine ⟨sent, ?_, live⟩
    have turn : use.turn = (s.jobs use.job).turn := congrArg Use.turn live.1
    rw [idOf, firstGen, turn, sub_add_cancel]
  · intro use id same
    cases same
    rw [there]
    rfl

/-- The program is told whether a job is done. -/
theorem Valid.answered {use : Use} (valid : Valid maxJobs s) (there : s.pc thread = .readDone use) :
    Valid maxJobs ((s.record (.answered use (s.jobs use.job).done)).goto thread .idle) := by
  have known := valid.threads.each thread
  rw [there] at known
  refine valid.event (by rw [there]; rfl) trivial rfl rfl rfl ?_ nofun
  refine valid.facts.event nofun nofun nofun nofun fun use' same => ?_
  injection same with same done
  rw [← same]
  exact valid.done_ran known done

/-- A thread that waits for a job takes its permit. -/
theorem Valid.woken {use : Use} {permits : Nat} (valid : Valid maxJobs s)
    (there : s.pc thread = .waitSem use) (signaled : (s.jobs use.job).sem = some (permits + 1)) :
    Valid maxJobs ((s.setJob use.job { s.jobs use.job with sem := some permits }).goto thread
      (.freeJob use.job .waited)) := by
  have known := valid.threads.each thread
  have placed := valid.placed
  rw [there] at known
  obtain ⟨live, issued⟩ := known
  have current : s.use use.job = use := live.1.symm
  have empty : (s.pc thread).holds = none := by
    rw [there]
    rfl
  have parked : (s.jobs use.job).Parked := ⟨permits, signaled⟩
  obtain ⟨rfl, done, run⟩ := valid.facts.parked use.job permits signaled
  have absent := placed.nowhere use.job parked
  have inside : use.job < maxJobs := by
    obtain ⟨id, member⟩ := issued
    exact (valid.facts.past use (valid.facts.issued use id member).1).2
  have taken : ¬ ({ s.jobs use.job with sem := some 0 } : JobData Task).Parked := by
    rintro ⟨permits, sem⟩
    cases sem
  refine ⟨placed.unpark inside parked empty rfl taken, ?_, ?_⟩
  · have facts : Facts maxJobs (s.setJob use.job { s.jobs use.job with sem := some 0 }) :=
      valid.facts.setJob (absent .free) (absent .queue) rfl rfl
        (fun permits sem => absurd ⟨permits, sem⟩ taken) (by simp)
    exact facts.relist rfl rfl (fun _ => .inl) fun _ => .inl
  · refine valid.threads.moved rfl ?_ (fun other different => ?_)
      (fun other job different collecting theirs => ?_) fun _ _ _ issuing => by cases issuing
    · show (Function.update s.jobs use.job _ use.job).sem = some 0 ∧
        ⟨use.job, (Function.update s.jobs use.job _ use.job).turn⟩ ∈ ran s.log ∧
        Issued s ⟨use.job, (Function.update s.jobs use.job _ use.job).turn⟩
      rw [Function.update_self]
      exact ⟨rfl, run, current ▸ issued⟩
    · refine .setJob rfl rfl (fun theirs => ?_) fun _ _ _ _ => ⟨rfl, by simp⟩
      exact absent (.thread other) (held theirs)
    · cases collecting
      refine different (valid.threads.collectors other thread _ theirs ?_)
      rw [there]
      rfl

/-- A thread puts a job structure back into the free list. -/
theorem Valid.gave {job : Nat} {after : After} (valid : Valid maxJobs s)
    (there : s.pc thread = .pushFree job after) :
    Valid maxJobs ({ s with free := job :: s.free }.goto thread (.signalComplete after)) := by
  have known := valid.threads.each thread
  rw [there] at known
  refine ⟨valid.placed.give (by rw [there]; rfl) rfl,
    valid.facts.relist rfl rfl (fun other member => ?_) fun _ => .inl, ?_⟩
  · rcases List.mem_cons.mp member with rfl | before
    · exact .inr known
    · exact .inl before
  · exact valid.threads.moved rfl trivial (fun _ _ => .quiet rfl rfl)
      (fun _ _ _ collecting => by cases collecting) fun _ _ _ issuing => by cases issuing

/-- A worker takes a job from the queue. -/
theorem Valid.fetched {job : Nat} {queue : List (Option Nat)} (valid : Valid maxJobs s)
    (there : s.pc thread = .popQueue) (listed : s.queue = some job :: queue) :
    Valid maxJobs ({ s with queue }.goto thread (.call (s.use job))) := by
  have placed := valid.placed
  have head : job ∈ s.queue.reduceOption := by
    rw [listed, List.reduceOption_cons_of_some]
    exact List.mem_cons_self
  obtain ⟨prepared, sent⟩ := valid.facts.queued job head
  rw [listed] at placed
  refine ⟨placed.dequeue (by rw [there]; rfl) rfl, valid.facts.relist rfl rfl (fun _ => .inl)
    fun other member => .inl ?_, ?_⟩
  · rw [listed, List.reduceOption_cons_of_some]
    exact List.mem_cons_of_mem _ member
  · exact valid.threads.moved rfl ⟨rfl, prepared, sent⟩ (fun _ _ => .quiet rfl rfl)
      (fun _ _ _ collecting => by cases collecting) fun _ _ _ issuing => by cases issuing

/-- The function of a job has returned. -/
theorem Valid.called {use : Use} (valid : Valid maxJobs s) (there : s.pc thread = .call use) :
    Valid maxJobs ((s.record (.ran use (s.jobs use.job).task)).goto thread (.readJoin use.job)) := by
  have known := valid.threads.each thread
  rw [there] at known
  obtain ⟨current, prepared, sent⟩ := known
  refine valid.event (by rw [there]; rfl) ⟨prepared, ?_⟩ rfl rfl rfl ?_ nofun
  · show s.use use.job ∈ ran (s.log ++ [.ran use (s.jobs use.job).task])
    rw [← current, ran_append]
    exact List.mem_append_right _ List.mem_cons_self
  · refine valid.facts.event nofun (fun use task same => ?_) nofun nofun nofun
    cases same
    exact sent

/-- A job that can be waited for is marked as done. -/
theorem Valid.finished {job : Nat} (valid : Valid maxJobs s) (there : s.pc thread = .readJoin job)
    (join : (s.jobs job).join = true) :
    Valid maxJobs ((s.setJob job { s.jobs job with done := true }).goto thread (.signalSem job)) := by
  have known := valid.threads.each thread
  rw [there] at known
  obtain ⟨prepared, run⟩ := known
  have sem : (s.jobs job).sem = some 0 := by
    rw [prepared.2, join]
    rfl
  refine valid.setHeld (by rw [there]; rfl) rfl rfl rfl ?_ id ?_ rfl rfl
  · rintro ⟨permits, signaled⟩
    cases sem.symm.trans signaled
  · show (Function.update s.jobs job _ job).sem = some 0 ∧
      (Function.update s.jobs job _ job).done = true ∧
      ⟨job, (Function.update s.jobs job _ job).turn⟩ ∈ ran s.log
    rw [Function.update_self]
    exact ⟨sem, rfl, run⟩

/-- A job that can be waited for is parked. -/
theorem Valid.signaled {job permits : Nat} (valid : Valid maxJobs s)
    (there : s.pc thread = .signalSem job) (sem : (s.jobs job).sem = some permits) :
    Valid maxJobs ((s.setJob job { s.jobs job with sem := some (permits + 1) }).goto thread
      .waitPending) := by
  have known := valid.threads.each thread
  have placed := valid.placed
  rw [there] at known
  obtain ⟨unsignaled, done, run⟩ := known
  cases unsignaled.symm.trans sem
  have was : (s.pc thread).holds = some job := by
    rw [there]
    rfl
  refine ⟨placed.park was rfl ⟨0, rfl⟩, ?_, ?_⟩
  · have facts : Facts maxJobs (s.setJob job { s.jobs job with sem := some (0 + 1) }) := by
      refine valid.facts.setJob (placed.not_free was) (placed.not_queued was) rfl rfl
        (fun permits sem => ?_) (by simp)
      cases sem
      exact ⟨rfl, done, run⟩
    exact facts.relist rfl rfl (fun _ => .inl) fun _ => .inl
  · refine valid.threads.moved rfl trivial (fun other different => ?_)
      (fun _ _ _ collecting => by cases collecting) fun _ _ _ issuing => by cases issuing
    exact .setJob rfl rfl (fun theirs => different (placed.holder theirs was))
      fun _ _ _ _ => ⟨rfl, by simp⟩

/-- A step of a thread keeps the invariant. -/
theorem Valid.moves {config : Config Thread} (valid : Valid config.maxJobs s)
    (moves : Moves config s thread s') : Valid config.maxJobs s' := by
  have known := valid.threads.each thread
  cases moves with
  | took there listed => exact valid.took there listed
  | @unprepared task job there =>
    rw [there] at known
    refine valid.prepared there rfl rfl rfl ?_ (fun fresh => ?_) rfl rfl
    · rintro ⟨permits, sem⟩
      cases known.1.symm.trans sem
    · simpa [Local, State.setJob, Core.use] using ⟨known.1, fresh⟩
  | @joinable task job there =>
    refine valid.prepared there rfl rfl rfl ?_ (fun fresh => ?_) rfl rfl
    · rintro ⟨permits, sem⟩
      cases sem
    · simpa [Local, State.setJob, Core.use, JobData.Prepared] using fresh
  | @plain task job there =>
    rw [there] at known
    refine valid.prepared there rfl rfl rfl ?_ (fun fresh => ?_) rfl rfl
    · rintro ⟨permits, sem⟩
      cases known.1.symm.trans sem
    · simpa [Local, State.setJob, Core.use, JobData.Prepared] using ⟨known.1, fresh⟩
  | counted there =>
    rw [there] at known
    exact valid.still rfl rfl rfl rfl rfl (by rw [there]; rfl) known rfl rfl
  | submitted there => exact valid.enqueued there
  | announced there =>
    rw [there] at known
    exact valid.quiet rfl rfl rfl rfl rfl (by rw [there]; rfl) known
      (fun _ _ _ collecting => by cases collecting) (.inr (by rw [there]; rfl))
  | issued there => exact valid.issued there
  | answered there => exact valid.answered there
  | woken there signaled => exact valid.woken there signaled
  | collected there fits => exact valid.collected there fits
  | freed there other fits => exact valid.freed there other fits
  | gave there => exact valid.gave there
  | @released after there =>
    refine valid.quiet rfl rfl rfl rfl rfl ?_ ?_ (fun other job different collecting => ?_) ?_
    · rw [there]
      cases after <;> rfl
    · cases after <;> trivial
    · cases after <;> cases collecting
    · cases after <;> exact .inl rfl
  | dismissed there queued =>
    refine valid.still rfl rfl rfl ?_ rfl (by rw [there]; rfl) trivial rfl rfl
    rw [queued, List.reduceOption_cons_of_none]
    rfl
  | fetched there queued => exact valid.fetched there queued
  | ran there => exact valid.called there
  | finished there join => exact valid.finished there join
  | forgotten there join =>
    rw [there] at known
    refine valid.still rfl rfl rfl rfl rfl (by rw [there]; rfl) ?_ rfl rfl
    have empty := known.1.2
    rwa [join] at empty
  | signaled there sem => exact valid.signaled there sem
  | stopPushed there _ =>
    refine valid.still rfl rfl rfl ?_ rfl (by rw [there]; rfl) trivial rfl rfl
    show (s.queue ++ [none]).reduceOption = _
    rw [List.reduceOption_append, List.reduceOption_singleton, Option.toList_none, List.append_nil]
  | refused there _ | passed there | admitted there _ | unissued there | interrupted there
  | uncounted there | summoned there _ | stopsPushed there _ | stopSignaled there _
  | stopsSignaled there _ | joined there _ _ | joinedAll there _ =>
    exact valid.still rfl rfl rfl rfl rfl (by rw [there]; rfl) trivial rfl rfl

end Mysnips.ThreadPool

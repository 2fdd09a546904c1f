import Mysnips.ThreadPoolRuns

/-! No job of the thread pool is forgotten, where operations on the free list and the queue are
single steps. As long as a job has not run, a worker can go on or somebody has still to signal; and
no worker is missing when `ensure_deinit` joins them. -/
namespace Mysnips.ThreadPool
open Transition System Totals

variable {Thread Task : Type} {config : Config Thread} {s s' : State Thread Task} {thread : Thread}

/-- The most steps that a thread takes before the program calls or a job is pushed. A stop entry
counts for its signal and for the worker that leaves. -/
def Pc.steps (workers : Nat) : Pc Task → Nat
  | .signalPending _ _ => 2
  | .call _ => 7
  | .readJoin _ => 6
  | .signalSem _ => 5
  | .freeJob _ .worked => 5
  | .pushFree _ .worked => 4
  | .signalComplete .worked => 3
  | .pushStop pushed => 12 * (workers - pushed) + 3 * workers + 3
  | .signalStop signaled => 2 * (workers - signaled) + workers + 2
  | .joinWorkers joined => workers - joined + 1
  | _ => 0

/-- The thread serves the pool: it announces a job, it is a worker, or it stops the workers. -/
def Pc.serving : Pc Task → Bool
  | .signalPending _ _ => true
  | pc => pc.working || pc.stopping

/-- The job that a worker has, before it is freed. -/
def Pc.carries : Pc Task → Option Nat
  | .call use => some use.job
  | .readJoin job => some job
  | .freeJob job .worked => some job
  | _ => none

/-- No generation comes round when the jobs at hand are freed. -/
def Young (s : State Thread Task) : Prop :=
  ∀ job, (job ∈ s.queue.reduceOption ∨ ∃ thread, (s.pc thread).carries = some job) →
    (s.jobs job).turn + 1 < 2 ^ 32

/-- The pool rests: no job is left, each worker waits or has left, and the workers are joined if
there was room to stop them. -/
structure Rests (config : Config Thread) (s : State Thread Task) : Prop where
  queue : s.queue.reduceOption = []
  workers : ∀ thread ∈ config.workers, s.pc thread = .waitPending ∨ s.pc thread = .exited
  stopped : config.workers.length ≤ config.maxJobs → ∀ thread, (s.pc thread).stopping = true →
    s.pc thread = .stopped

theorem Pc.holds_of_carries {pc : Pc Task} {job : Nat} (carries : pc.carries = some job) :
    pc.holds = some job := by
  cases pc with
  | freeJob other after => cases after <;> first | exact carries | cases carries
  | call | readJoin => exact carries
  | _ => cases carries

/-- While the pool rests, whoever waits for a job can go on. -/
theorem Sound.wakes [Fintype Thread] (sound : Sound config s) (rests : Rests config s) {use : Use}
    (there : s.pc thread = .waitSem use) : (s.jobs use.job).sem = some 1 := by
  have known := sound.valid.threads.each thread
  rw [there] at known
  obtain ⟨live, issued⟩ := known
  obtain ⟨id, given⟩ := issued
  have sent := (sound.valid.facts.issued use id given).1
  have inside := (sound.valid.facts.past use sent).2
  rcases sound.valid.placed.somewhere use.job inside with ⟨place, member⟩ | ⟨permits, sem⟩
  · cases place with
    | free => exact absurd (sound.valid.facts.free use.job member).1 live.2
    | queue =>
      rw [kept, rests.queue] at member
      cases member
    | thread other =>
      have holds : (s.pc other).holds = some use.job := Option.mem_toList.mp member
      have theirs := sound.valid.threads.each other
      have free : (s.pc other).working = true →
          s.pc other = .waitPending ∨ s.pc other = .exited :=
        fun works => rests.workers other ((sound.closing.roles other).mp works)
      cases pc : s.pc other with
      | prepare job task join =>
        rw [pc] at holds theirs
        cases holds
        exact absurd theirs.1 live.2
      | countJoinable job =>
        rw [pc] at holds theirs
        cases holds
        exact absurd sent (live.1 ▸ theirs.2)
      | pushQueue job =>
        rw [pc] at holds theirs
        cases holds
        exact absurd sent (live.1 ▸ theirs.2)
      | freeJob job after =>
        rw [pc] at holds theirs free
        cases holds
        cases after with
        | failed => exact theirs.elim
        | worked => exact absurd theirs live.2
        | waited =>
          have same := sound.valid.threads.collectors thread other use.job (by rw [there]; rfl)
            (by rw [pc]; rfl)
          rw [← same, there] at pc
          cases pc
      | pushFree job after =>
        rw [pc] at holds theirs
        cases holds
        exact absurd theirs.1 live.2
      | call | readJoin | signalSem =>
        rw [pc] at free
        rcases free rfl with waits | left
        · cases waits
        · cases left
      | _ =>
        rw [pc] at holds
        cases holds
  · obtain ⟨rfl, -⟩ := sound.valid.facts.parked use.job permits sem
    exact sem

/-- While the workers wait or have left, none takes an entry from the queue. -/
theorem Sound.fetching_zero [Fintype Thread] (sound : Sound config s)
    (quiet : ∀ worker ∈ config.workers, s.pc worker = .waitPending ∨ s.pc worker = .exited) :
    total Pc.fetching s.pc = 0 := by
  refine total_zero fun thread => ?_
  cases there : s.pc thread with
  | popQueue =>
    have member := (sound.closing.roles thread).mp (by rw [there]; rfl)
    rcases quiet thread member with waits | left
    · cases there.symm.trans waits
    · cases there.symm.trans left
  | _ => rfl

variable [DecidableEq Thread]

/-- The jobs at hand after a step of a thread. -/
theorem Young.moved {pc' : Pc Task} (young : Young s) (pcs : s'.pc = Function.update s.pc thread pc')
    (queue : ∀ job ∈ s'.queue.reduceOption, job ∈ s.queue.reduceOption)
    (carries : ∀ job, pc'.carries = some job →
      (s.pc thread).carries = some job ∨ job ∈ s.queue.reduceOption)
    (turns : ∀ job, (job ∈ s.queue.reduceOption ∨
        ∃ other, other ≠ thread ∧ (s.pc other).carries = some job) ∨ pc'.carries = some job →
      (s'.jobs job).turn = (s.jobs job).turn) : Young s' := by
  rintro job (queued | ⟨other, carried⟩)
  · rw [turns job (.inl (.inl (queue job queued)))]
    exact young job (.inl (queue job queued))
  · rw [pcs] at carried
    by_cases same : other = thread
    · rw [same, Function.update_self] at carried
      rw [turns job (.inr carried)]
      rcases carries job carried with before | queued
      · exact young job (.inr ⟨thread, before⟩)
      · exact young job (.inl queued)
    · rw [Function.update_of_ne same] at carried
      rw [turns job (.inl (.inr ⟨other, same, carried⟩))]
      exact young job (.inr ⟨other, carried⟩)

/-- A step of a thread that serves the pool leaves the jobs at hand young. -/
theorem Young.moves (young : Young s) (placed : Placed config.maxJobs s.jobs s.free s.queue s.pc)
    (serves : (s.pc thread).serving = true) (moves : Moves config s thread s') : Young s' := by
  cases moves with
  | @freed job after there _ _ =>
    have holds : (s.pc thread).holds = some job := by
      rw [there]
      rfl
    refine young.moved rfl (fun _ => id) (fun other carried => by cases carried) ?_
    rintro other (known | carried)
    · have different : other ≠ job := by
        rintro rfl
        rcases known with queued | ⟨thief, apart, carried⟩
        · exact placed.not_queued holds queued
        · exact apart (placed.holder (Pc.holds_of_carries carried) holds)
      exact congrArg JobData.turn (Function.update_of_ne different ..)
    · cases carried
  | finished there _ =>
    exact young.moved rfl (fun _ => id) (fun other carried => by cases carried)
      fun other _ => turn_update (by rfl) other
  | signaled there _ =>
    exact young.moved rfl (fun _ => id) (fun other carried => by cases carried)
      fun other _ => turn_update (by rfl) other
  | @fetched job queue there listed =>
    have queued : s.queue.reduceOption = job :: queue.reduceOption := by
      rw [listed, List.reduceOption_cons_of_some]
    refine young.moved rfl (fun other member => ?_) (fun other carried => ?_) fun _ _ => rfl
    · rw [queued]
      exact List.mem_cons_of_mem _ member
    · cases carried
      rw [queued]
      exact .inr List.mem_cons_self
  | dismissed there listed =>
    refine young.moved rfl (fun other member => ?_) (fun other carried => by cases carried)
      fun _ _ => rfl
    rw [listed, List.reduceOption_cons_of_none]
    exact member
  | stopPushed there _ =>
    refine young.moved rfl (fun other member => ?_) (fun other carried => by cases carried)
      fun _ _ => rfl
    have pushed : other ∈ (s.queue ++ [none]).reduceOption := member
    rwa [List.reduceOption_append, List.reduceOption_singleton, Option.toList_none,
      List.append_nil] at pushed
  | ran there | forgotten there _ =>
    exact young.moved rfl (fun _ => id) (fun other carried => .inl (by rw [there]; exact carried))
      fun _ _ => rfl
  | @released after there =>
    exact young.moved rfl (fun _ => id) (fun other carried => by cases after <;> cases carried)
      fun _ _ => rfl
  | refused there _ | passed there | admitted there _ | took there _ | unprepared there
  | joinable there | plain there | counted there | submitted there | issued there
  | unissued there | answered there | interrupted there | woken there _ | collected there _
  | uncounted there =>
    rw [there] at serves
    cases serves
  | gave there | announced there | summoned there _ | stopsPushed there _ | stopSignaled there _
  | stopsSignaled there _ | joined there _ _ | joinedAll there _ =>
    exact young.moved rfl (fun _ => id) (fun other carried => by cases carried) fun _ _ => rfl

/-- Nothing is submitted when a thread serves the pool. -/
theorem Moves.submits_nothing (serves : (s.pc thread).serving = true)
    (moves : Moves config s thread s') : ThreadPool.submitted s'.log = ThreadPool.submitted s.log := by
  cases moves with
  | submitted there =>
    rw [there] at serves
    cases serves
  | ran there => simp [State.goto, State.record]
  | issued there => simp [State.goto, State.record]
  | answered there => simp [State.goto, State.record]
  | collected there _ => simp [State.goto, State.record, State.setJob]
  | _ => rfl

/-! ### Somebody can go on -/

/-- The next step of the thread is part of serving the pool, and no wait. -/
def Pc.ready : Pc Task → Bool
  | .signalPending _ _ | .popQueue | .call _ | .readJoin _ | .signalSem _ => true
  | .freeJob _ .worked | .pushFree _ .worked | .signalComplete .worked => true
  | .pushStop _ | .signalStop _ => true
  | _ => false

theorem advance_ready (ready : (s.pc thread).ready = true) :
    advance config false s thread ≠ .error .blocked := by
  intro stepped
  unfold advance Core.advance at stepped
  cases there : s.pc thread with
  | signalPending | call | pushFree | signalComplete =>
    simp only [there] at stepped
    cases stepped
  | popQueue | readJoin | signalSem | freeJob | signalStop =>
    simp only [there] at stepped
    split at stepped <;> cases stepped
  | pushStop =>
    simp only [there] at stepped
    split at stepped
    · split at stepped <;> cases stepped
    · cases stepped
  | _ =>
    rw [there] at ready
    exact absurd ready Bool.false_ne_true

/-- A thread that serves the pool can go on properly. -/
def CanServe (config : Config Thread) (s : State Thread Task) : Prop :=
  ∃ thread s', (s.pc thread).serving = true ∧ ProperStep config s thread false ∧
    advance config false s thread = .ok s'

/-- A worker waits, and an entry of the queue was signaled. -/
theorem serve_pending (there : s.pc thread = .waitPending) (positive : s.pending ≠ 0) :
    CanServe config s := by
  refine ⟨thread, { s with pending := s.pending - 1 }.goto thread .popQueue, by rw [there]; rfl,
    .uninterrupted (by simp [there]) (by simp [there]), ?_⟩
  unfold advance
  simp only [there, Bool.false_eq_true, if_false, positive]

/-- The entries of the queue are jobs and stops. -/
theorem length_jobs_stops (queue : List (Option Nat)) :
    queue.length = queue.reduceOption.length + queue.count none := by
  induction queue with
  | nil => rfl
  | cons entry queue ih =>
    cases entry with
    | none =>
      rw [List.reduceOption_cons_of_none, List.count_cons_self, List.length_cons, ih]
      rfl
    | some job =>
      rw [List.reduceOption_cons_of_some, List.count_cons_of_ne (by simp), List.length_cons, ih,
        List.length_cons]
      omega

variable [Fintype Thread]

/-- The most steps that the pool takes before it rests. -/
def remaining (config : Config Thread) (s : State Thread Task) : Nat :=
  8 * s.queue.length + s.pending + total (Pc.steps config.workers.length) s.pc

/-- A step of a thread that serves the pool brings it nearer to its rest. -/
theorem Moves.nearer (serves : (s.pc thread).serving = true) (moves : Moves config s thread s') :
    remaining config s' < remaining config s := by
  have steps : ∀ {pc' : Pc Task}, s'.pc = Function.update s.pc thread pc' →
      total (Pc.steps config.workers.length) s'.pc + (s.pc thread).steps config.workers.length =
        total (Pc.steps config.workers.length) s.pc + pc'.steps config.workers.length := by
    rintro pc' pcs
    rw [pcs]
    exact total_update ..
  unfold remaining
  cases moves with
  | announced there | summoned there _ | ran there | finished there _ | forgotten there _
  | signaled there _ | stopsPushed there _ | stopSignaled there _ | stopsSignaled there _
  | joinedAll there _ =>
    have steps := steps rfl
    simp only [there, State.goto, State.record, State.setJob, Pc.steps] at steps ⊢
    omega
  | @freed job after there other fits =>
    have steps := steps rfl
    rw [there] at serves
    cases after with
    | worked =>
      simp only [there, State.goto, State.setJob, Pc.steps] at steps ⊢
      omega
    | failed => cases serves
    | waited => cases serves
  | @gave job after there =>
    have steps := steps rfl
    rw [there] at serves
    cases after with
    | worked =>
      simp only [there, State.goto, Pc.steps] at steps ⊢
      omega
    | failed => cases serves
    | waited => cases serves
  | @released after there =>
    have steps := steps rfl
    rw [there] at serves
    cases after with
    | worked =>
      simp only [there, State.goto, After.next, Pc.steps] at steps ⊢
      omega
    | failed => cases serves
    | waited => cases serves
  | dismissed there queued | fetched there queued =>
    have steps := steps rfl
    simp only [there, State.goto, Pc.steps, queued, List.length_cons] at steps ⊢
    omega
  | stopPushed there more =>
    have steps := steps rfl
    simp only [there, State.goto, Pc.steps, List.length_append, List.length_singleton] at steps ⊢
    omega
  | @joined joined worker there next _ =>
    have steps := steps rfl
    obtain ⟨inside, -⟩ := List.getElem?_eq_some_iff.mp next
    simp only [there, State.goto, Pc.steps] at steps ⊢
    omega
  | refused there _ | passed there | admitted there _ | took there _ | unprepared there
  | joinable there | plain there | counted there | submitted there | issued there
  | unissued there | answered there | interrupted there | woken there _ | collected there _
  | uncounted there =>
    rw [there] at serves
    cases serves

/-- Such a thread can go on. -/
theorem Sound.goes_on (sound : Sound config s) (ready : (s.pc thread).ready = true)
    (proper : ProperStep config s thread false) :
    ∃ s', advance config false s thread = .ok s' := by
  cases stepped : advance config false s thread with
  | ok s' => exact ⟨s', rfl⟩
  | error stop =>
    cases stop with
    | fault => exact absurd stepped (sound.no_fault proper)
    | blocked => exact absurd stepped (advance_ready ready)

/-- Somebody has pushed a job and not signaled it. -/
theorem Sound.serve_announcing (sound : Sound config s) {use : Use} {join : Bool}
    (there : s.pc thread = .signalPending use join) : CanServe config s := by
  have proper : ProperStep config s thread false :=
    .uninterrupted (by simp [there]) (by simp [there])
  obtain ⟨s', moved⟩ := sound.goes_on (by rw [there]; rfl) proper
  exact ⟨thread, s', by rw [there]; rfl, proper, moved⟩

/-- A worker is busy. -/
theorem Sound.serve_busy (sound : Sound config s) (tolerant : config.freesUnset = true)
    (young : Young s)
    (works : (s.pc thread).working = true) (here : s.pc thread ≠ .exited)
    (busy : s.pc thread ≠ .waitPending) : CanServe config s := by
  have proper : ProperStep config s thread false := by
    refine .uninterrupted (fun job after there => ?_) fun pushed there => ?_
    · rw [there] at works
      cases after with
      | worked => exact ⟨young job (.inr ⟨thread, by rw [there]; rfl⟩), fun _ => tolerant⟩
      | failed | waited => cases works
    · rw [there] at works
      cases works
  have ready : (s.pc thread).ready = true := by
    cases there : s.pc thread with
    | exited => exact absurd there here
    | waitPending => exact absurd there busy
    | popQueue | call | readJoin | signalSem => rfl
    | freeJob job after | pushFree job after =>
      rw [there] at works
      cases after <;> first | rfl | cases works
    | signalComplete after =>
      rw [there] at works
      cases after <;> first | rfl | cases works
    | _ =>
      rw [there] at works
      cases works
  obtain ⟨s', moved⟩ := sound.goes_on ready proper
  refine ⟨thread, s', ?_, proper, moved⟩
  cases there : s.pc thread <;> rw [there] at works <;> simp [Pc.serving, works]

/-- The thread that shuts the pool down can go on, or it waits for a worker that waits itself. -/
theorem Sound.serve_stopping (sound : Sound config s) (stopping : (s.pc thread).stopping = true)
    (there : s.pc thread ≠ .stopped) (enough : config.workers.length ≤ config.maxJobs)
    (quiet : ∀ worker ∈ config.workers, s.pc worker = .waitPending ∨ s.pc worker = .exited)
    (empty : s.queue.reduceOption = []) : CanServe config s := by
  have total := sound.closing.total_stops stopping
  have stops := sound.closing.stops
  have length := length_jobs_stops s.queue
  rw [empty, List.length_nil, Nat.zero_add] at length
  have serves : (s.pc thread).serving = true := by
    cases pc : s.pc thread <;> rw [pc] at stopping <;> first | rfl | cases stopping
  have goes : (s.pc thread).ready = true → ProperStep config s thread false → CanServe config s := by
    intro ready proper
    obtain ⟨s', moved⟩ := sound.goes_on ready proper
    exact ⟨thread, s', serves, proper, moved⟩
  cases pc : s.pc thread with
  | stopped => exact absurd pc there
  | pushStop pushed =>
    refine goes (by rw [pc]; rfl) (.uninterrupted (by simp [pc]) fun pushed' here more => ?_)
    rw [here] at total
    change _ = pushed' at total
    omega
  | signalStop signaled => exact goes (by rw [pc]; rfl) (.uninterrupted (by simp [pc]) (by simp [pc]))
  | joinWorkers joined =>
    have proper : ProperStep config s thread false := .uninterrupted (by simp [pc]) (by simp [pc])
    cases next : config.workers[joined]? with
    | none =>
      refine ⟨thread, s.goto thread .stopped, serves, proper, ?_⟩
      unfold advance Core.advance
      simp only [pc, next]
      rfl
    | some worker =>
      have works : worker ∈ config.workers := List.mem_of_getElem? next
      by_cases left : s.pc worker = .exited
      · refine ⟨thread, s.goto thread (.joinWorkers (joined + 1)), serves, proper, ?_⟩
        unfold advance Core.advance
        simp only [pc, next, left]
        rfl
      · -- the entry for this worker is in the queue, and was signaled
        refine serve_pending ((quiet worker works).resolve_right left) fun none => ?_
        have gone := sound.closing.some_left works left
        have announcing : Totals.total (Pc.announcing config.workers.length) s.pc = 0 := by
          refine total_zero fun other => ?_
          by_cases role : other ∈ config.workers
          · rcases quiet other role with waits | left
            · rw [waits]
              rfl
            · rw [left]
              rfl
          by_cases same : other = thread
          · rw [same, pc]
            rfl
          · rw [sound.closing.alone thread stopping other same role]
            rfl
        have fetching := sound.fetching_zero quiet
        have pending := sound.counted.pending
        rw [pc] at total
        change _ = config.workers.length at total
        omega
  | _ =>
    rw [pc] at stopping
    cases stopping

/-- As long as the pool does not rest, a thread that serves it can go on. -/
theorem Sound.serves (sound : Sound config s) (tolerant : config.freesUnset = true) (young : Young s)
    (busy : ¬ Rests config s) : CanServe config s := by
  by_contra stuck
  have quiet : ∀ thread ∈ config.workers, s.pc thread = .waitPending ∨ s.pc thread = .exited := by
    intro worker member
    by_cases here : s.pc worker = .exited
    · exact .inr here
    by_cases waits : s.pc worker = .waitPending
    · exact .inl waits
    · have works := (sound.closing.roles worker).mpr member
      exact absurd (sound.serve_busy tolerant young works here waits) stuck
  -- what was pushed and not signaled is for the workers to stop
  have announced : total (Pc.announcing config.workers.length) s.pc ≤
      total (Pc.stops config.workers.length) s.pc := by
    refine Finset.sum_le_sum fun thread _ => ?_
    cases there : s.pc thread with
    | signalPending use join => exact absurd (sound.serve_announcing there) stuck
    | signalStop signaled => exact Nat.sub_le ..
    | _ => first | exact Nat.zero_le _ | exact Nat.le_refl _
  have empty : s.queue.reduceOption = [] := by
    by_contra jobs
    have there : ∀ worker, s.pc worker ≠ .exited :=
      fun worker left => jobs (sound.closing.drained worker left)
    have gone : total Pc.gone s.pc = 0 := by
      refine total_zero fun thread => ?_
      unfold Pc.gone
      split
      · rename_i left
        exact absurd left (there thread)
      · rfl
    obtain ⟨worker, member⟩ := List.exists_mem_of_ne_nil _ config.created
    have none : s.pending = 0 := by
      by_contra positive
      exact stuck (serve_pending ((quiet worker member).resolve_right (there worker)) positive)
    have some := List.length_pos_of_ne_nil jobs
    have fetching := sound.fetching_zero quiet
    have pending := sound.counted.pending
    have stops := sound.closing.stops
    have length := length_jobs_stops s.queue
    omega
  refine busy ⟨empty, quiet, fun enough thread stopping => ?_⟩
  by_contra there
  exact stuck (sound.serve_stopping stopping there enough quiet empty)

omit [DecidableEq Thread] in
/-- When the pool rests, each job that was submitted has run. -/
theorem Sound.finished (sound : Sound config s) (rests : Rests config s) :
    (ran s.log).Perm (submitted s.log) := by
  have still : total Pc.calling s.pc = 0 := by
    refine total_zero fun thread => ?_
    cases there : s.pc thread with
    | call use =>
      have works := (sound.closing.roles thread).mp (by rw [there]; rfl)
      rcases rests.workers thread works with waits | left
      · cases there.symm.trans waits
      · cases there.symm.trans left
    | _ => rfl
  have runs := sound.counted.runs
  rw [queued, rests.queue, still, List.map_nil, Multiset.coe_nil, add_zero, add_zero] at runs
  exact (Multiset.coe_eq_coe.mp runs).symm

omit [DecidableEq Thread] in
/-- No generation comes round when no structure is freed too often. -/
theorem Young.of_all (sound : Sound config s)
    (all : ∀ job < config.maxJobs, (s.jobs job).turn + 1 < 2 ^ 32) : Young s := by
  have inside := sound.valid.placed.inside
  rintro job (queued | ⟨thread, carried⟩)
  · exact all job (inside .queue job queued)
  · exact all job (inside _ job (held (Pc.holds_of_carries carried)))

end Mysnips.ThreadPool

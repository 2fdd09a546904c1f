import Mathlib.Data.Fintype.Basic
import Mysnips.ThreadPool

/-! The steps of the thread pool, one by one. `Moves` lists what a step of a thread does
when it does not go wrong, and `Proper` says what the pool relies on: the program waits for
ids that it was given, one thread for each, and shuts the pool down when nobody else uses
it; the waits for its own semaphores are not interrupted; and no generation comes round. -/
namespace Mysnips.ThreadPool
open Transition ThreadPoolJobIds Machine

section Log

variable {Task : Type}

@[simp] def Event.submits : Event Task → Option Use
  | .submitted use _ => some use
  | _ => none

@[simp] def Event.runs : Event Task → Option Use
  | .ran use _ => some use
  | _ => none

/-- The uses that went into the queue. -/
def submitted (log : List (Event Task)) : List Use := log.filterMap Event.submits

/-- The uses whose function has returned. -/
def ran (log : List (Event Task)) : List Use := log.filterMap Event.runs

/-- The ids that the program was given. -/
def ids (log : List (Event Task)) : List Nat :=
  log.filterMap fun
    | .issued _ id => some id
    | _ => none

variable {log : List (Event Task)} {use : Use} {id : Nat}

/-- What is picked from the log, where it is picked from one kind of event. -/
theorem mem_picked {Key Rest : Type} {pick : Event Task → Option Key}
    {E : Key → Rest → Event Task} {key : Key}
    (picks : ∀ event key, pick event = some key ↔ ∃ rest, event = E key rest) :
    key ∈ log.filterMap pick ↔ ∃ rest, E key rest ∈ log := by
  rw [List.mem_filterMap]
  constructor
  · rintro ⟨picked, member, found⟩
    obtain ⟨rest, rfl⟩ := (picks picked key).mp found
    exact ⟨rest, member⟩
  · rintro ⟨rest, member⟩
    exact ⟨_, member, (picks _ key).mpr ⟨rest, rfl⟩⟩

theorem mem_submitted : use ∈ submitted log ↔ ∃ task, .submitted use task ∈ log :=
  mem_picked fun event use => by cases event <;> simp

theorem mem_ran : use ∈ ran log ↔ ∃ task, .ran use task ∈ log :=
  mem_picked fun event use => by cases event <;> simp

theorem mem_ids : id ∈ ids log ↔ ∃ use, .issued use id ∈ log :=
  mem_picked (E := fun id use => .issued use id) fun event id => by cases event <;> simp

@[simp] theorem submitted_append (log later : List (Event Task)) :
    submitted (log ++ later) = submitted log ++ submitted later := List.filterMap_append

@[simp] theorem submitted_singleton (event : Event Task) :
    submitted [event] = event.submits.toList := by
  cases event <;> rfl

@[simp] theorem ran_append (log later : List (Event Task)) :
    ran (log ++ later) = ran log ++ ran later := List.filterMap_append

@[simp] theorem ran_singleton (event : Event Task) : ran [event] = event.runs.toList := by
  cases event <;> rfl

end Log

section Pcs

variable {Task : Type}

def Pc.isIdle : Pc Task → Bool
  | .idle => true
  | _ => false

/-- The thread is inside `ensure_deinit`. -/
def Pc.stopping : Pc Task → Bool
  | .pushStop _ | .signalStop _ | .joinWorkers _ | .stopped => true
  | _ => false

/-- The job that a thread waits for, or has waited for and not freed yet. -/
def Pc.collecting : Pc Task → Option Nat
  | .waitSem use => some use.job
  | .freeJob job .waited => some job
  | _ => none

end Pcs

section Steps

variable {Thread Task : Type} (config : Config Thread)

/-- The next step of a thread is not an interrupted wait for a semaphore of the pool, brings no
generation round, and frees a semaphore that is not initialized only where that does nothing. -/
def Core.ProperStep (c : Core Thread Task) (thread : Thread) (failed : Bool) : Prop :=
  match c.pc thread with
  | .waitComplete _ _ => failed = false
  | .waitPending => failed = false
  | .freeJob job _ => (c.jobs job).turn + 1 < 2 ^ 32 ∧
      ((c.jobs job).sem = none → config.freesUnset = true)
  | _ => True

instance (c : Core Thread Task) (thread : Thread) (failed : Bool) :
    Decidable (c.ProperStep config thread failed) := by
  unfold Core.ProperStep
  cases c.pc thread <;> infer_instance

/-- There is room in the queue for the next index that stops a worker. -/
def State.Room (s : State Thread Task) (thread : Thread) : Prop :=
  match s.pc thread with
  | .pushStop pushed => pushed < config.workers.length → s.queue.length < config.maxJobs
  | _ => True

instance (s : State Thread Task) (thread : Thread) : Decidable (s.Room config thread) := by
  unfold State.Room
  cases s.pc thread <;> infer_instance

/-- A step that the pool is made for. -/
def ProperStep (s : State Thread Task) (thread : Thread) (failed : Bool) : Prop :=
  s.toCore.ProperStep config thread failed ∧ s.Room config thread

instance (s : State Thread Task) (thread : Thread) (failed : Bool) :
    Decidable (ProperStep config s thread failed) :=
  inferInstanceAs (Decidable (_ ∧ _))

variable {config} in
/-- A step that is not interrupted, when it frees a job structure properly. -/
theorem Core.ProperStep.uninterrupted {c : Core Thread Task} {thread : Thread}
    (frees : ∀ job after, c.pc thread = .freeJob job after → (c.jobs job).turn + 1 < 2 ^ 32 ∧
      ((c.jobs job).sem = none → config.freesUnset = true)) : c.ProperStep config thread false := by
  unfold Core.ProperStep
  cases there : c.pc thread with
  | freeJob job after => exact frees job after there
  | waitComplete | waitPending => rfl
  | _ => trivial

variable {config} in
/-- A step that is not interrupted, when it frees a job structure and pushes an index properly. -/
theorem ProperStep.uninterrupted {s : State Thread Task} {thread : Thread}
    (frees : ∀ job after, s.pc thread = .freeJob job after → (s.jobs job).turn + 1 < 2 ^ 32 ∧
      ((s.jobs job).sem = none → config.freesUnset = true))
    (room : ∀ pushed, s.pc thread = .pushStop pushed → pushed < config.workers.length →
      s.queue.length < config.maxJobs) : ProperStep config s thread false := by
  refine ⟨.uninterrupted frees, ?_⟩
  unfold State.Room
  cases there : s.pc thread with
  | pushStop pushed => exact room pushed there
  | _ => trivial

variable [DecidableEq Thread] [Fintype Thread]

/-- A call that the pool is made for. -/
def Core.ProperCall (c : Core Thread Task) : Action Thread Task → Prop
  | .create _ _ _ => ∀ other, (c.pc other).stopping = false
  | .done _ id => (∀ other, (c.pc other).stopping = false) ∧ id ∈ ids c.log
  | .wait _ id => (∀ other, (c.pc other).stopping = false) ∧ id ∈ ids c.log ∧
      ∀ job ∈ c.find config id, ∀ other, (c.pc other).collecting ≠ some job
  | .deinit thread => ∀ other, other ∉ config.workers → other ≠ thread → (c.pc other).isIdle
  | .step _ _ => True

instance (c : Core Thread Task) : (action : Action Thread Task) →
    Decidable (c.ProperCall config action)
  | .create _ _ _ => inferInstanceAs (Decidable (∀ other, (c.pc other).stopping = false))
  | .done _ id =>
    inferInstanceAs (Decidable ((∀ other, (c.pc other).stopping = false) ∧ id ∈ ids c.log))
  | .wait _ id => inferInstanceAs (Decidable ((∀ other, (c.pc other).stopping = false) ∧
      id ∈ ids c.log ∧ ∀ job ∈ c.find config id, ∀ other, (c.pc other).collecting ≠ some job))
  | .deinit thread => inferInstanceAs (Decidable (∀ other, other ∉ config.workers →
      other ≠ thread → (c.pc other).isIdle))
  | .step _ _ => isTrue trivial

/-- The pool is used as it is meant to be. -/
def Proper (s : State Thread Task) : Action Thread Task → Prop
  | .step thread failed => ProperStep config s thread failed
  | call => s.toCore.ProperCall config call

instance (s : State Thread Task) : (action : Action Thread Task) → Decidable (Proper config s action)
  | .step thread failed => inferInstanceAs (Decidable (ProperStep config s thread failed))
  | .create thread task join =>
    inferInstanceAs (Decidable (s.toCore.ProperCall config (.create thread task join)))
  | .done thread id => inferInstanceAs (Decidable (s.toCore.ProperCall config (.done thread id)))
  | .wait thread id => inferInstanceAs (Decidable (s.toCore.ProperCall config (.wait thread id)))
  | .deinit thread => inferInstanceAs (Decidable (s.toCore.ProperCall config (.deinit thread)))

/-- The pool, used as it is meant to be. -/
def properPools (Thread Task : Type) [DecidableEq Thread] [Fintype Thread] (config : Config Thread) :
    System (State Thread Task) (Action Thread Task) :=
  (pools Thread Task config).restrict (Proper config)

end Steps

/-- What a proper step of a thread does. -/
inductive Moves {Thread Task : Type} [DecidableEq Thread] (config : Config Thread)
    (s : State Thread Task) (thread : Thread) : State Thread Task → Prop where
  | refused {task : Task} {join : Bool} (there : s.pc thread = .check task join)
      (full : s.joinableCount = config.maxJobs) : Moves config s thread (s.goto thread .idle)
  | passed {task : Task} {join : Bool} (there : s.pc thread = .check task join) :
      Moves config s thread (s.goto thread (.waitComplete task join))
  | admitted {task : Task} {join : Bool} (there : s.pc thread = .waitComplete task join)
      (positive : s.complete ≠ 0) :
      Moves config s thread
        ({ s with complete := s.complete - 1 }.goto thread (.popFree task join))
  | took {task : Task} {join : Bool} {job : Nat} {free : List Nat}
      (there : s.pc thread = .popFree task join) (listed : s.free = job :: free) :
      Moves config s thread ({ s with free }.goto thread (.prepare job task join))
  | unprepared {task : Task} {job : Nat} (there : s.pc thread = .prepare job task true) :
      Moves config s thread ((s.setJob job { s.jobs job with done := false, task, join := true }).goto
        thread (.pushFree job .failed))
  | joinable {task : Task} {job : Nat} (there : s.pc thread = .prepare job task true) :
      Moves config s thread ((s.setJob job
        { s.jobs job with done := false, task, join := true, sem := some 0 }).goto
          thread (.countJoinable job))
  | plain {task : Task} {job : Nat} (there : s.pc thread = .prepare job task false) :
      Moves config s thread ((s.setJob job { s.jobs job with done := false, task, join := false }).goto
        thread (.pushQueue job))
  | counted {job : Nat} (there : s.pc thread = .countJoinable job) :
      Moves config s thread
        ({ s with joinableCount := s.joinableCount + 1 }.goto thread (.pushQueue job))
  | submitted {job : Nat} (there : s.pc thread = .pushQueue job) :
      Moves config s thread (({ s with queue := s.queue ++ [some job] }.record
        (.submitted (s.use job) (s.jobs job).task)).goto thread
          (.signalPending (s.use job) (s.jobs job).join))
  | announced {use : Use} {join : Bool} (there : s.pc thread = .signalPending use join) :
      Moves config s thread ({ s with pending := s.pending + 1 }.goto thread (.getId use join))
  | issued {use : Use} (there : s.pc thread = .getId use true) :
      Moves config s thread ((s.record (.issued use
        (packJobId (s.jobs use.job).gen.toInt use.job))).goto thread .idle)
  | unissued {use : Use} (there : s.pc thread = .getId use false) :
      Moves config s thread (s.goto thread .idle)
  | answered {use : Use} (there : s.pc thread = .readDone use) :
      Moves config s thread
        ((s.record (.answered use (s.jobs use.job).done)).goto thread .idle)
  | interrupted {use : Use} (there : s.pc thread = .waitSem use) :
      Moves config s thread (s.goto thread .idle)
  | woken {use : Use} {permits : Nat} (there : s.pc thread = .waitSem use)
      (signaled : (s.jobs use.job).sem = some (permits + 1)) :
      Moves config s thread ((s.setJob use.job { s.jobs use.job with sem := some permits }).goto
        thread (.freeJob use.job .waited))
  | collected {job : Nat} (there : s.pc thread = .freeJob job .waited)
      (fits : (s.jobs job).turn + 1 < 2 ^ 32) :
      Moves config s thread (((s.setJob job (s.jobs job).freed).record
          (.collected (s.use job))).goto thread (.pushFree job .waited))
  | freed {job : Nat} {after : After} (there : s.pc thread = .freeJob job after)
      (other : after ≠ .waited) (fits : (s.jobs job).turn + 1 < 2 ^ 32) :
      Moves config s thread ((s.setJob job (s.jobs job).freed).goto thread
          (.pushFree job after))
  | gave {job : Nat} {after : After} (there : s.pc thread = .pushFree job after) :
      Moves config s thread ({ s with free := job :: s.free }.goto thread (.signalComplete after))
  | released {after : After} (there : s.pc thread = .signalComplete after) :
      Moves config s thread ({ s with complete := s.complete + 1 }.goto thread after.next)
  | uncounted (there : s.pc thread = .uncountJoinable) :
      Moves config s thread
        ({ s with joinableCount := s.joinableCount - 1 }.goto thread .idle)
  | summoned (there : s.pc thread = .waitPending) (positive : s.pending ≠ 0) :
      Moves config s thread ({ s with pending := s.pending - 1 }.goto thread .popQueue)
  | dismissed {queue : List (Option Nat)} (there : s.pc thread = .popQueue)
      (queued : s.queue = none :: queue) :
      Moves config s thread ({ s with queue }.goto thread .exited)
  | fetched {job : Nat} {queue : List (Option Nat)} (there : s.pc thread = .popQueue)
      (queued : s.queue = some job :: queue) :
      Moves config s thread ({ s with queue }.goto thread (.call (s.use job)))
  | ran {use : Use} (there : s.pc thread = .call use) :
      Moves config s thread
        ((s.record (.ran use (s.jobs use.job).task)).goto thread (.readJoin use.job))
  | finished {job : Nat} (there : s.pc thread = .readJoin job) (join : (s.jobs job).join = true) :
      Moves config s thread
        ((s.setJob job { s.jobs job with done := true }).goto thread (.signalSem job))
  | forgotten {job : Nat} (there : s.pc thread = .readJoin job) (join : (s.jobs job).join = false) :
      Moves config s thread (s.goto thread (.freeJob job .worked))
  | signaled {job permits : Nat} (there : s.pc thread = .signalSem job)
      (sem : (s.jobs job).sem = some permits) :
      Moves config s thread ((s.setJob job { s.jobs job with sem := some (permits + 1) }).goto
        thread .waitPending)
  | stopPushed {pushed : Nat} (there : s.pc thread = .pushStop pushed)
      (more : pushed < config.workers.length) :
      Moves config s thread
        ({ s with queue := s.queue ++ [none] }.goto thread (.pushStop (pushed + 1)))
  | stopsPushed {pushed : Nat} (there : s.pc thread = .pushStop pushed)
      (all : ¬ pushed < config.workers.length) : Moves config s thread (s.goto thread (.signalStop 0))
  | stopSignaled {signaled : Nat} (there : s.pc thread = .signalStop signaled)
      (more : signaled < config.workers.length) :
      Moves config s thread ({ s with pending := s.pending + 1 }.goto thread (.signalStop (signaled + 1)))
  | stopsSignaled {signaled : Nat} (there : s.pc thread = .signalStop signaled)
      (all : ¬ signaled < config.workers.length) : Moves config s thread (s.goto thread (.joinWorkers 0))
  | joined {joined : Nat} {worker : Thread} (there : s.pc thread = .joinWorkers joined)
      (next : config.workers[joined]? = some worker) (exited : s.pc worker = .exited) :
      Moves config s thread (s.goto thread (.joinWorkers (joined + 1)))
  | joinedAll {joined : Nat} (there : s.pc thread = .joinWorkers joined)
      (all : config.workers[joined]? = none) : Moves config s thread (s.goto thread .stopped)

section Cases

variable {Thread Task : Type} [DecidableEq Thread] {config : Config Thread}
  {s s' : State Thread Task} {core : Core Thread Task} {thread : Thread} {failed : Bool}

/-- A proper step that is not about the free list or the queue is one of those listed. -/
theorem Core.advance_moves (proper : s.toCore.ProperStep config thread failed)
    (moved : s.toCore.advance config failed thread = .ok core) :
    Moves config s thread { s with toCore := core } := by
  unfold Core.ProperStep at proper
  unfold Core.advance at moved
  cases there : s.pc thread with
  | check task join =>
    simp only [there] at moved
    split at moved <;> cases moved
    · rename_i full
      exact .refused there full
    · exact .passed there
  | waitComplete task join =>
    simp only [there] at moved proper
    rw [proper, if_neg (by decide)] at moved
    split at moved <;> cases moved
    rename_i positive
    exact .admitted there positive
  | prepare job task join =>
    simp only [there] at moved
    cases join with
    | true =>
      simp only [if_true] at moved
      split at moved <;> cases moved
      · exact .unprepared there
      · exact .joinable there
    | false =>
      cases moved
      exact .plain there
  | countJoinable job =>
    simp only [there] at moved
    cases moved
    exact .counted there
  | getId use join =>
    simp only [there] at moved
    cases join <;> cases moved
    · exact .unissued there
    · exact .issued there
  | readDone use =>
    simp only [there] at moved
    cases moved
    exact .answered there
  | waitSem use =>
    simp only [there] at moved
    split at moved
    · cases moved
      exact .interrupted there
    · split at moved <;> cases moved
      rename_i signaled
      exact .woken there signaled
  | freeJob job after =>
    simp only [there] at moved proper
    split at moved
    · cases moved
    · split at moved <;> cases moved
      · rename_i waited
        subst waited
        exact .collected there proper.1
      · rename_i other
        exact .freed there other proper.1
  | signalComplete after =>
    simp only [there] at moved
    cases moved
    exact .released there
  | uncountJoinable =>
    simp only [there] at moved
    cases moved
    exact .uncounted there
  | call use =>
    simp only [there] at moved
    cases moved
    exact .ran there
  | readJoin job =>
    simp only [there] at moved
    split at moved <;> cases moved
    · rename_i join
      exact .finished there join
    · rename_i join
      exact .forgotten there (by simpa using join)
  | signalSem job =>
    simp only [there] at moved
    split at moved <;> cases moved
    rename_i sem
    exact .signaled there sem
  | joinWorkers joined =>
    simp only [there] at moved
    split at moved
    · rename_i all
      cases moved
      exact .joinedAll there all
    · rename_i next
      split at moved <;> cases moved
      rename_i exited
      exact .joined there next exited
  | idle | exited | stopped | popFree | pushFree | pushQueue | signalPending | waitPending | popQueue
  | pushStop | signalStop =>
    simp only [there] at moved
    cases moved

/-- A proper step that does not go wrong is one of those listed. -/
theorem advance_moves (proper : ProperStep config s thread failed)
    (moved : advance config failed s thread = .ok s') : Moves config s thread s' := by
  have core : ∀ {after : Except Stop (Core Thread Task)}, s.toCore.advance config failed thread = after →
      after.map (fun core => { s with toCore := core }) = .ok s' → Moves config s thread s' := by
    rintro (stop | core) stepped kept <;> cases kept
    exact Core.advance_moves proper.1 stepped
  unfold advance at moved
  cases there : s.pc thread with
  | popFree task join =>
    simp only [there] at moved
    split at moved <;> cases moved
    rename_i listed
    exact .took there listed
  | pushFree job after =>
    simp only [there] at moved
    cases moved
    exact .gave there
  | pushQueue job =>
    simp only [there] at moved
    split at moved <;> cases moved
    exact .submitted there
  | signalPending use join =>
    simp only [there] at moved
    cases moved
    exact .announced there
  | waitPending =>
    have uninterrupted : failed = false := by
      have step := proper.1
      unfold Core.ProperStep at step
      rwa [there] at step
    simp only [there, uninterrupted, Bool.false_eq_true, if_false] at moved
    split at moved <;> cases moved
    rename_i positive
    exact .summoned there positive
  | popQueue =>
    simp only [there] at moved
    split at moved <;> cases moved <;> rename_i queued
    · exact .dismissed there queued
    · exact .fetched there queued
  | pushStop pushed =>
    simp only [there] at moved
    split at moved
    · rename_i more
      split at moved <;> cases moved
      exact .stopPushed there more
    · rename_i all
      cases moved
      exact .stopsPushed there all
  | signalStop signaled =>
    simp only [there] at moved
    split at moved <;> cases moved
    · rename_i more
      exact .stopSignaled there more
    · rename_i all
      exact .stopsSignaled there all
  | _ =>
    simp only [there] at moved
    exact core rfl moved

end Cases

end Mysnips.ThreadPool

import Mathlib.Data.Fintype.Basic
import Mysnips.ThreadPoolJobIds
import Mysnips.Transition

/-! The thread pool of `thread/thread_pool.c`. Any number of threads call
`basic_thread_pool_run`, `basic_thread_pool_run_2`, `basic_thread_pool_done` and
`basic_thread_pool_wait` while the workers run the jobs, and one thread shuts the pool
down. An operation on a semaphore, on the free list or on the queue of pending jobs is
one step, and so is each access to what threads share besides; the accesses of a thread
to a job structure that it alone has are one step together. The list and the queue take
several steps for their operations: with them the pool is the one of
`ThreadPoolAccesses`, which comes to this one while no pop is overtaken and no signal is
early. The fields of `struct thread_pool` and the semaphores are not part of the
repository; its counters are taken to be atomic. -/
namespace Mysnips.ThreadPool
open Transition ThreadPoolJobIds

/-- What `ensure_init` is given: how many job structures there are, such that the bytes of their
indices fit an `int`, and the threads, which it has created all. `INVALID_JOB` is a constant of
the header. `freesUnset` says that `tinycsem_free` does nothing to a semaphore that was never
initialized. -/
structure Config (Thread : Type) where
  maxJobs : Nat
  positive : 0 < maxJobs
  fits : 4 * maxJobs < 2 ^ 31
  workers : List Thread
  distinct : workers.Nodup
  created : workers ≠ []
  invalidJob : Nat
  freesUnset : Bool

theorem Config.lt_int {Thread : Type} (config : Config Thread) : config.maxJobs < 2 ^ 31 := by
  have fits := config.fits
  omega

/-- `struct job_data` without its `next`, with `data` and `func` as one task. Without a value
the semaphore is not initialized. `turn` is not a field of the source: it counts how often the
structure was freed. -/
structure JobData (Task : Type) where
  gen : BitVec 32
  done : Bool
  task : Task
  join : Bool
  sem : Option Nat
  turn : Nat

/-- What `free_job` does to a job structure. -/
def JobData.freed {Task : Type} (data : JobData Task) : JobData Task :=
  { data with sem := none, gen := data.gen + 1, turn := data.turn + 1 }

/-- One use of a job structure: its index, and how often it was freed before. -/
structure Use where
  job : Nat
  turn : Nat
  deriving DecidableEq, Repr

/-- What a thread does after a job structure is back in the free list. -/
inductive After where
  | failed
  | waited
  | worked
  deriving DecidableEq, Repr

/-- The next step of a thread, with the locals it still needs: those of `create_job`, of
`basic_thread_pool_done` and `basic_thread_pool_wait`, of `free_job` and what follows it, of
`worker_routine`, and of `ensure_deinit`. The turn of a use is not a local of the source. -/
inductive Pc (Task : Type) where
  | idle
  | check (task : Task) (join : Bool)
  | waitComplete (task : Task) (join : Bool)
  | popFree (task : Task) (join : Bool)
  | prepare (job : Nat) (task : Task) (join : Bool)
  | countJoinable (job : Nat)
  | pushQueue (job : Nat)
  | signalPending (use : Use) (join : Bool)
  | getId (use : Use) (join : Bool)
  | readDone (use : Use)
  | waitSem (use : Use)
  | freeJob (job : Nat) (after : After)
  | pushFree (job : Nat) (after : After)
  | signalComplete (after : After)
  | uncountJoinable
  | waitPending
  | popQueue
  | call (use : Use)
  | readJoin (job : Nat)
  | signalSem (job : Nat)
  | exited
  | pushStop (pushed : Nat)
  | signalStop (signaled : Nat)
  | joinWorkers (joined : Nat)
  | stopped

/-- What has happened: a job went into the queue, its function has returned, its id was returned
to the program, and the program was told that it is done or not, or has waited for it and freed
it. -/
inductive Event (Task : Type) where
  | submitted (use : Use) (task : Task)
  | ran (use : Use) (task : Task)
  | issued (use : Use) (id : Nat)
  | answered (use : Use) (done : Bool)
  | collected (use : Use)
  deriving DecidableEq

/-- `struct thread_pool` without the free list and the queue, where each thread is, and what has
happened. -/
structure Core (Thread Task : Type) where
  jobs : Nat → JobData Task
  complete : Nat
  joinableCount : Int
  pc : Thread → Pc Task
  log : List (Event Task)

/-- The pool with its free list and its queue of indices, where none stands for the index -1. -/
structure State (Thread Task : Type) extends Core Thread Task where
  free : List Nat
  queue : List (Option Nat)
  pending : Nat

/-- Why a thread does not step: it waits, or it goes wrong. -/
inductive Stop where
  | blocked
  | fault
  deriving DecidableEq, Repr

section Steps

variable {Thread Task : Type}

namespace Core

def setJob (c : Core Thread Task) (job : Nat) (data : JobData Task) : Core Thread Task :=
  { c with jobs := Function.update c.jobs job data }

def record (c : Core Thread Task) (event : Event Task) : Core Thread Task :=
  { c with log := c.log ++ [event] }

def goto [DecidableEq Thread] (c : Core Thread Task) (thread : Thread) (pc : Pc Task) :
    Core Thread Task :=
  { c with pc := Function.update c.pc thread pc }

/-- The current use of a job structure. -/
def use (c : Core Thread Task) (job : Nat) : Use := ⟨job, (c.jobs job).turn⟩

/-- The generations, for the packing of ids. -/
def pool (config : Config Thread) (c : Core Thread Task) : ThreadPoolJobIds.ThreadPool :=
  ⟨config.maxJobs, config.lt_int, fun job => ⟨(c.jobs job).gen⟩⟩

/-- `get_job_data`, as an index. -/
def find (config : Config Thread) (c : Core Thread Task) (id : Nat) : Option Nat :=
  (getJobData config.invalidJob (c.pool config) id).map Fin.val

end Core

namespace State

def setJob (s : State Thread Task) (job : Nat) (data : JobData Task) : State Thread Task :=
  { s with jobs := Function.update s.jobs job data }

def record (s : State Thread Task) (event : Event Task) : State Thread Task :=
  { s with log := s.log ++ [event] }

def goto [DecidableEq Thread] (s : State Thread Task) (thread : Thread) (pc : Pc Task) :
    State Thread Task :=
  { s with pc := Function.update s.pc thread pc }

end State

/-- Where a thread goes after it has signaled `complete`. -/
def After.next : After → Pc Task
  | failed => .idle
  | waited => .uncountJoinable
  | worked => .waitPending

/-- The calls of a program, and the steps of the threads. `basic_thread_pool_run` makes a job
that can be waited for, and `basic_thread_pool_run_2` one that cannot. -/
inductive Action (Thread Task : Type) where
  | create (thread : Thread) (task : Task) (join : Bool)
  | done (thread : Thread) (id : Nat)
  | wait (thread : Thread) (id : Nat)
  | deinit (thread : Thread)
  | step (thread : Thread) (failed : Bool)

variable [DecidableEq Thread] (config : Config Thread)

/-- A call of a thread that is not inside another one. -/
def Core.call (c : Core Thread Task) : Action Thread Task → Option (Core Thread Task)
  | .create thread task join =>
    match c.pc thread with
    | .idle => some (c.goto thread (.check task join))
    | _ => none
  | .done thread id =>
    match c.pc thread with
    | .idle =>
      match c.find config id with
      | none => some c
      | some job => some (c.goto thread (.readDone (c.use job)))
    | _ => none
  | .wait thread id =>
    match c.pc thread with
    | .idle =>
      match c.find config id with
      | none => some c
      | some job => some (c.goto thread (.waitSem (c.use job)))
    | _ => none
  | .deinit thread =>
    match c.pc thread with
    | .idle => some (c.goto thread (.pushStop 0))
    | _ => none
  | .step _ _ => none

/-- The next step of a thread that is not about the free list or the queue. An outcome of
`failed` means that a wait for a semaphore was interrupted, or that a semaphore could not be
initialized. -/
def Core.advance (failed : Bool) (c : Core Thread Task) (thread : Thread) :
    Except Stop (Core Thread Task) :=
  match c.pc thread with
  | .check task join =>
    if c.joinableCount = config.maxJobs then .ok (c.goto thread .idle)
    else .ok (c.goto thread (.waitComplete task join))
  | .waitComplete task join =>
    if failed then .ok (c.goto thread (.popFree task join))
    else if c.complete = 0 then .error .blocked
    else .ok ({ c with complete := c.complete - 1 }.goto thread (.popFree task join))
  | .prepare job task join =>
    let data := { c.jobs job with done := false, task, join }
    if join then
      if failed then .ok ((c.setJob job data).goto thread (.pushFree job .failed))
      else .ok ((c.setJob job { data with sem := some 0 }).goto thread (.countJoinable job))
    else .ok ((c.setJob job data).goto thread (.pushQueue job))
  | .countJoinable job =>
    .ok ({ c with joinableCount := c.joinableCount + 1 }.goto thread (.pushQueue job))
  | .getId use join =>
    let id := packJobId (c.jobs use.job).gen.toInt use.job
    -- `basic_thread_pool_run_2` does not return the id
    .ok ((if join then c.record (.issued use id) else c).goto thread .idle)
  | .readDone use => .ok ((c.record (.answered use (c.jobs use.job).done)).goto thread .idle)
  | .waitSem use =>
    if failed then .ok (c.goto thread .idle)
    else
      match (c.jobs use.job).sem with
      | none => .error .fault
      | some 0 => .error .blocked
      | some (permits + 1) =>
        .ok ((c.setJob use.job { c.jobs use.job with sem := some permits }).goto thread
          (.freeJob use.job .waited))
  | .freeJob job after =>
    -- nobody has initialized the semaphore of a job that cannot be waited for
    if (c.jobs job).sem = none ∧ config.freesUnset = false then .error .fault
    else
      let freed := c.setJob job (c.jobs job).freed
      .ok ((if after = .waited then freed.record (.collected (c.use job)) else freed).goto thread
        (.pushFree job after))
  | .signalComplete after => .ok ({ c with complete := c.complete + 1 }.goto thread after.next)
  | .uncountJoinable => .ok ({ c with joinableCount := c.joinableCount - 1 }.goto thread .idle)
  | .call use =>
    .ok ((c.record (.ran use (c.jobs use.job).task)).goto thread (.readJoin use.job))
  | .readJoin job =>
    if (c.jobs job).join then
      .ok ((c.setJob job { c.jobs job with done := true }).goto thread (.signalSem job))
    else .ok (c.goto thread (.freeJob job .worked))
  | .signalSem job =>
    match (c.jobs job).sem with
    | none => .error .fault
    | some permits =>
      .ok ((c.setJob job { c.jobs job with sem := some (permits + 1) }).goto thread .waitPending)
  | .joinWorkers joined =>
    match config.workers[joined]? with
    | none => .ok (c.goto thread .stopped)
    | some worker =>
      match c.pc worker with
      | .exited => .ok (c.goto thread (.joinWorkers (joined + 1)))
      | _ => .error .blocked
  | .idle | .exited | .stopped => .error .blocked
  | .popFree _ _ | .pushFree _ _ | .pushQueue _ | .signalPending _ _ | .waitPending | .popQueue
  | .pushStop _ | .signalStop _ => .error .blocked

/-- The next step of a thread, where an operation on the free list or the queue is one step. -/
def advance (failed : Bool) (s : State Thread Task) (thread : Thread) :
    Except Stop (State Thread Task) :=
  match s.pc thread with
  | .popFree task join =>
    match s.free with
    | [] => .error .fault
    | job :: free => .ok ({ s with free }.goto thread (.prepare job task join))
  | .pushFree job after => .ok ({ s with free := job :: s.free }.goto thread (.signalComplete after))
  | .pushQueue job =>
    if s.queue.length < config.maxJobs then
      .ok (({ s with queue := s.queue ++ [some job] }.record
        (.submitted (s.use job) (s.jobs job).task)).goto thread
          (.signalPending (s.use job) (s.jobs job).join))
    else .error .fault
  | .signalPending use join =>
    .ok ({ s with pending := s.pending + 1 }.goto thread (.getId use join))
  | .waitPending =>
    if failed then .ok (s.goto thread .popQueue)
    else if s.pending = 0 then .error .blocked
    else .ok ({ s with pending := s.pending - 1 }.goto thread .popQueue)
  | .popQueue =>
    match s.queue with
    | [] => .error .fault
    | none :: queue => .ok ({ s with queue }.goto thread .exited)
    | some job :: queue => .ok ({ s with queue }.goto thread (.call (s.use job)))
  | .pushStop pushed =>
    if pushed < config.workers.length then
      if s.queue.length < config.maxJobs then
        .ok ({ s with queue := s.queue ++ [none] }.goto thread (.pushStop (pushed + 1)))
      else .error .fault
    else .ok (s.goto thread (.signalStop 0))
  | .signalStop signaled =>
    if signaled < config.workers.length then
      .ok ({ s with pending := s.pending + 1 }.goto thread (.signalStop (signaled + 1)))
    else .ok (s.goto thread (.joinWorkers 0))
  | _ => (s.toCore.advance config failed thread).map fun core => { s with toCore := core }

/-- What `ensure_init` does besides the free list and the queue. It gives the last job structure
no generation, and no structure anything but a generation. -/
def Core.Initial (c : Core Thread Task) : Prop :=
  (∀ job, (c.jobs job).sem = none ∧ (c.jobs job).turn = 0) ∧
    (∀ job < config.maxJobs - 1, (c.jobs job).gen = 0) ∧ c.complete = config.maxJobs ∧
    c.joinableCount = 0 ∧
    (∀ thread, c.pc thread = if thread ∈ config.workers then .waitPending else .idle) ∧ c.log = []

/-- The program and the workers on a pool that `ensure_init` has set up. -/
def pools (Thread Task : Type) [DecidableEq Thread] (config : Config Thread) :
    System (State Thread Task) (Action Thread Task) where
  initial s := s.toCore.Initial config ∧ s.free = List.range config.maxJobs ∧ s.queue = [] ∧
    s.pending = 0
  next s action :=
    match action with
    | .step thread failed => (advance config failed s thread).toOption
    | call => (s.toCore.call config call).map fun core => { s with toCore := core }

end Steps

end Mysnips.ThreadPool

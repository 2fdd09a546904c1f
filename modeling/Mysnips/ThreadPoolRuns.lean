import Mysnips.ThreadPoolCalls
import Mysnips.ThreadPoolClosing
import Mysnips.ThreadPoolCounts

/-! What is known in every run of the thread pool whose operations on the free list and the queue
are single steps. -/
namespace Mysnips.ThreadPool
open Transition System ThreadPoolJobIds Totals

variable {Thread Task : Type} [Fintype Thread] {config : Config Thread} {s s' : State Thread Task}
  {thread : Thread}

/-- All that is known of the pool. -/
structure Sound (config : Config Thread) (s : State Thread Task) : Prop where
  valid : Valid config.maxJobs s
  counted : Counted config.maxJobs config.workers.length s
  closing : Closing config s

/-- While nobody shuts the pool down, the queue holds jobs only. -/
theorem Sound.only_jobs (sound : Sound config s) (still : ∀ thread, (s.pc thread).stopping = false) :
    s.queue.reduceOption.length = s.queue.length := by
  have jobs := List.count_eq_zero.mp (sound.closing.running still).1
  refine List.reduceOption_length_eq_iff.mpr fun entry member => ?_
  cases entry with
  | none => exact absurd member jobs
  | some job => rfl

/-- There is room in the queue for all the jobs that threads are about to push. -/
theorem Sound.room (sound : Sound config s) {job : Nat} (there : s.pc thread = .pushQueue job) :
    s.queue.length + Multiset.card (total Pc.pushes s.pc) ≤ config.maxJobs := by
  have still := sound.closing.busy (by rw [there]; rfl) (by rw [there]; simp) (by rw [there]; rfl)
  rw [← sound.only_jobs still]
  exact sound.valid.placed.room

/-- The queue has room for the job that a thread is about to push. -/
theorem Sound.room_for_one (sound : Sound config s) {job : Nat} (there : s.pc thread = .pushQueue job) :
    s.queue.length < config.maxJobs := by
  have room := sound.room there
  have mine : 0 < (s.pc thread).pushes.card := by
    rw [there]
    exact Nat.one_pos
  have some : 0 < total (fun pc : Pc Task => pc.pushes.card) s.pc := total_pos mine
  rw [total, Multiset.card_sum] at room
  change 0 < ∑ thread, (s.pc thread).pushes.card at some
  omega

/-- The free list is not empty when a thread is about to take a job structure from it. -/
theorem Sound.listed (sound : Sound config s) {task : Task} {join : Bool}
    (there : s.pc thread = .popFree task join) : s.free ≠ [] := by
  have taking := total_pos (by simp [there] : 0 < (s.pc thread).taking)
  have counted := sound.counted.complete
  intro empty
  rw [empty, List.length_nil] at counted
  omega

/-- The queue is not empty when a worker is about to take an entry from it. -/
theorem Sound.filled (sound : Sound config s) (there : s.pc thread = .popQueue) : s.queue ≠ [] := by
  have fetching := total_pos (by simp [there] : 0 < (s.pc thread).fetching)
  have counted := sound.counted.pending
  intro empty
  rw [empty, List.length_nil] at counted
  omega

/-- Each job structure is in one place only, or it has run and waits to be collected. -/
theorem Sound.custody (sound : Sound config s) :
    (∀ place, (kept s.free s.queue s.pc place).Nodup) ∧
    (∀ place, ∀ job ∈ kept s.free s.queue s.pc place, job < config.maxJobs) ∧
    ∀ job < config.maxJobs,
      (∃ place, job ∈ kept s.free s.queue s.pc place ∧
        ∀ other, job ∈ kept s.free s.queue s.pc other → other = place) ∨
      ((s.jobs job).sem = some 1 ∧ s.use job ∈ ran s.log ∧
        ∀ place, job ∉ kept s.free s.queue s.pc place) := by
  obtain ⟨placed, facts, -⟩ := sound.valid
  refine ⟨placed.separate.once, placed.inside, fun job inside => ?_⟩
  rcases placed.somewhere job inside with ⟨place, member⟩ | ⟨permits, sem⟩
  · exact .inl ⟨place, member, fun other also => placed.separate.one other place job also member⟩
  · obtain ⟨rfl, -, run⟩ := facts.parked job permits sem
    exact .inr ⟨sem, run, placed.nowhere job ⟨0, sem⟩⟩

/-- Each use is submitted and run at most once, with the task that it was submitted with; what was
submitted has run, is in the queue or is about to be run by one thread; and the program is told
that a use is done only when it has run. -/
theorem Sound.runs_once (sound : Sound config s) :
    (submitted s.log).Nodup ∧ (ran s.log).Nodup ∧
    (∀ use task, .ran use task ∈ s.log → .submitted use task ∈ s.log) ∧
    (submitted s.log : Multiset Use) =
      ran s.log + queued s.jobs s.queue + total Pc.calling s.pc ∧
    ∀ use, .answered use true ∈ s.log ∨ .collected use ∈ s.log → use ∈ ran s.log := by
  obtain ⟨⟨-, facts, -⟩, counted, -⟩ := sound
  refine ⟨facts.once, ?_, facts.tasks, counted.runs, fun use told => ?_⟩
  · have part : (ran s.log : Multiset Use) ≤ submitted s.log := by
      rw [counted.runs, add_assoc]
      exact Multiset.le_add_right ..
    exact Multiset.coe_nodup.mp (Multiset.nodup_of_le part (Multiset.coe_nodup.mpr facts.once))
  · rcases told with answered | collected
    · exact facts.answered use answered
    · exact (facts.collected use collected).2.1

/-- An id that the program was given leads to its own use while that has not been freed, as long as
generations do not spill into the index, and nowhere after it was collected. -/
theorem Sound.ids (sound : Sound config s) {use : Use} {id : Nat} (given : .issued use id ∈ s.log) :
    (∀ found, s.find config id = some found ↔ found = use.job ∧
      (s.jobs use.job).turn = use.turn ∧ id ≠ config.invalidJob ∧
        Widens (s.jobs use.job).gen.toInt) ∧
    (.collected use ∈ s.log → s.find config id = none) := by
  have facts := sound.valid.facts
  have live : Live s use ↔ (s.jobs use.job).turn = use.turn := by
    constructor
    · intro live
      exact (congrArg Use.turn live.1).symm
    · intro turn
      rcases (facts.issued use id given).2.2 with live | ⟨older, -⟩
      · exact live
      · exact absurd turn (Nat.ne_of_gt older)
  refine ⟨fun found => ?_, fun collected => ?_⟩
  · rw [facts.find_issued given, live]
  · cases found : s.find config id with
    | none => rfl
    | some job =>
      have alive := ((facts.find_issued given job).mp found).2.1
      have older := (facts.collected use collected).1
      rw [live.mp alive] at older
      exact absurd older (Nat.lt_irrefl _)

/-- The counters of the pool are exact, up to the calls that are under way. So when none is,
`joinable_count` says whether each job structure is a job to be collected. -/
theorem Sound.counts (sound : Sound config s) :
    s.complete + total Pc.taking s.pc + total Pc.releasing s.pc = s.free.length ∧
    s.pending + total Pc.fetching s.pc + total (Pc.announcing config.workers.length) s.pc =
      s.queue.length ∧
    s.joinableCount + total Pc.counting s.pc =
      semaphores config.maxJobs s.jobs + total Pc.uncounting s.pc ∧
    ((∀ thread, (s.pc thread).counting = 0 ∧ (s.pc thread).uncounting = 0) →
      (s.joinableCount = config.maxJobs ↔ ∀ job < config.maxJobs, (s.jobs job).sem ≠ none)) := by
  obtain ⟨complete, pending, joinable, -⟩ := sound.counted
  refine ⟨complete, pending, joinable, fun still => ?_⟩
  rw [total_zero fun thread => (still thread).1, total_zero fun thread => (still thread).2] at joinable
  have count : s.joinableCount = semaphores config.maxJobs s.jobs := by
    simpa using joinable
  have full := List.countP_eq_length (p := fun job => (s.jobs job).sem.isSome)
    (l := List.range config.maxJobs)
  rw [List.length_range] at full
  rw [count, Int.natCast_inj, semaphores, full]
  simp only [List.mem_range, Option.isSome_iff_ne_none]

variable [DecidableEq Thread]

theorem Sound.moves (sound : Sound config s) (moves : Moves config s thread s') : Sound config s' := by
  refine ⟨sound.valid.moves moves, sound.counted.moves sound.valid (fun there => ?_) moves,
    sound.closing.moves moves⟩
  have stopping := sound.closing.stopping thread
  rw [there] at stopping
  exact stopping

/-- A call of a proper program keeps what is known. -/
theorem Sound.call (sound : Sound config s) {action : Action Thread Task} {core : Core Thread Task}
    (called : s.toCore.call config action = some core) (proper : s.toCore.ProperCall config action) :
    Sound config { s with toCore := core } := by
  obtain ⟨valid, counted, closing⟩ := sound
  cases action with
  | create thread task join =>
    simp only [Core.call] at called
    split at called <;> cases called
    rename_i idle
    exact ⟨valid.create idle task join, counted.called idle rfl,
      closing.called idle proper rfl rfl rfl⟩
  | done thread id =>
    simp only [Core.call] at called
    split at called
    · rename_i idle
      split at called <;> cases called
      · exact ⟨valid, counted, closing⟩
      · rename_i found
        exact ⟨valid.done idle proper.2 found, counted.called idle rfl,
          closing.called idle proper.1 rfl rfl rfl⟩
    · cases called
  | wait thread id =>
    simp only [Core.call] at called
    split at called
    · rename_i idle
      split at called <;> cases called
      · exact ⟨valid, counted, closing⟩
      · rename_i found
        exact ⟨valid.wait idle proper.2.1 found (proper.2.2 _ found), counted.called idle rfl,
          closing.called idle proper.1 rfl rfl rfl⟩
    · cases called
  | deinit thread =>
    simp only [Core.call] at called
    split at called <;> cases called
    rename_i idle
    exact ⟨valid.deinit idle, counted.called idle rfl, closing.deinit idle proper⟩
  | step thread failed => cases called

/-- A call or a step of a proper program keeps what is known. -/
theorem Sound.next (sound : Sound config s) {action : Action Thread Task}
    (proper : Proper config s action)
    (moved : (pools Thread Task config).next s action = some s') : Sound config s' := by
  cases action with
  | step thread failed => exact sound.moves (advance_moves proper (toOption_ok moved))
  | create thread task join | done thread id | wait thread id | deinit thread =>
    obtain ⟨core, called, rfl⟩ := Option.map_eq_some_iff.mp moved
    exact sound.call called proper

theorem reachable_sound (reached : (properPools Thread Task config).Reachable s) :
    Sound config s := by
  refine reached.invariant (fun s begins => ?_) (fun s action s' _ sound moved => ?_)
  · exact ⟨Valid.initial begins, Counted.initial begins, Closing.initial begins⟩
  · obtain ⟨proper, moved⟩ := restrict_next.mp moved
    exact sound.next proper moved

/-! ### No step goes wrong -/

/-- A proper step uses initialized semaphores only, or frees one where that does nothing. -/
theorem Sound.core_no_fault (sound : Sound config s) {failed : Bool}
    (proper : s.toCore.ProperStep config thread failed) :
    s.toCore.advance config failed thread ≠ .error .fault := by
  have known := sound.valid.threads.each thread
  intro fault
  unfold Core.ProperStep at proper
  unfold Core.advance at fault
  cases there : s.pc thread with
  | waitSem use =>
    rw [there] at known
    simp only [there] at fault
    split at fault
    · cases fault
    · split at fault <;> cases fault
      rename_i freed
      exact known.1.2 freed
  | signalSem job =>
    rw [there] at known
    simp only [there, known.1] at fault
    cases fault
  | freeJob job after =>
    simp only [there] at fault proper
    split at fault
    · rename_i unset
      rw [proper.2 unset.1] at unset
      cases unset.2
    · cases fault
  | check | waitComplete | readJoin =>
    simp only [there] at fault
    split at fault <;> first | cases fault | (split at fault <;> cases fault)
  | prepare =>
    simp only [there] at fault
    split at fault <;> first | cases fault | (split at fault <;> cases fault)
  | joinWorkers =>
    simp only [there] at fault
    split at fault <;> first | cases fault | (split at fault <;> cases fault)
  | _ =>
    simp only [there] at fault
    cases fault

/-- A proper step does not pop an empty list or queue, does not push to a full queue, and uses
initialized semaphores only. -/
theorem Sound.no_fault (sound : Sound config s) {failed : Bool}
    (proper : ProperStep config s thread failed) :
    advance config failed s thread ≠ .error .fault := by
  have core := sound.core_no_fault proper.1
  have room := proper.2
  intro fault
  unfold State.Room at room
  unfold advance at fault
  cases there : s.pc thread with
  | popFree task join =>
    simp only [there] at fault
    split at fault <;> cases fault
    rename_i empty
    exact sound.listed there empty
  | pushQueue job =>
    simp only [there, if_pos (sound.room_for_one there)] at fault
    cases fault
  | popQueue =>
    simp only [there] at fault
    split at fault <;> cases fault
    rename_i empty
    exact sound.filled there empty
  | waitPending =>
    simp only [there] at fault
    split at fault <;> first | cases fault | (split at fault <;> cases fault)
  | pushStop pushed =>
    simp only [there] at fault room
    split at fault
    · rename_i more
      rw [if_pos (room more)] at fault
      cases fault
    · cases fault
  | signalStop signaled =>
    simp only [there] at fault
    split at fault <;> cases fault
  | pushFree | signalPending =>
    simp only [there] at fault
    cases fault
  | _ =>
    simp only [there] at fault
    cases stepped : s.toCore.advance config failed thread with
    | ok core =>
      rw [stepped] at fault
      cases fault
    | error stop =>
      rw [stepped] at fault
      cases fault
      exact core stepped

/-- When `ensure_deinit` has joined the workers, each use that was submitted has run once, the queue
is empty, and no other thread uses the pool. -/
theorem Sound.shutdown (sound : Sound config s) (stopped : s.pc thread = .stopped) :
    (∀ worker ∈ config.workers, s.pc worker = .exited) ∧
    (∀ other, other ≠ thread → other ∉ config.workers → s.pc other = .idle) ∧
    s.queue = [] ∧ (ran s.log).Perm (submitted s.log) := by
  obtain ⟨-, counted, closing⟩ := sound
  have exited := closing.stopping thread
  rw [stopped] at exited
  have alone := closing.alone thread (by rw [stopped]; rfl)
  obtain ⟨worker, works⟩ := List.exists_mem_of_ne_nil _ config.created
  have empty := closing.drained worker (exited worker works)
  have none : s.queue.count none = 0 := by
    have balance := closing.stops
    rw [closing.all_gone exited, closing.total_stops (by rw [stopped]; rfl), stopped] at balance
    exact Nat.add_right_cancel (balance.trans (Nat.zero_add _).symm)
  refine ⟨exited, alone, ?_, ?_⟩
  · rw [closing.queue_stops empty, none]
    rfl
  · have still : total Pc.calling s.pc = 0 := by
      refine total_zero fun other => ?_
      by_cases works : other ∈ config.workers
      · rw [exited other works]
        rfl
      by_cases same : other = thread
      · rw [same, stopped]
        rfl
      · rw [alone other same works]
        rfl
    have runs := counted.runs
    rw [queued, empty, still, List.map_nil, Multiset.coe_nil, add_zero, add_zero] at runs
    exact (Multiset.coe_eq_coe.mp runs).symm

end Mysnips.ThreadPool

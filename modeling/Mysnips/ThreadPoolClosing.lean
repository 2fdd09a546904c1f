import Mathlib.Data.List.ReduceOption
import Mysnips.ThreadPoolSteps
import Mysnips.Totals

/-! Shutting the thread pool down. One thread pushes an entry for each worker, behind all the
jobs, and a worker leaves when it pops such an entry. So no job is left in the queue when a
worker has left, and the entries left are for the workers that are still there. -/
namespace Mysnips.ThreadPool
open Transition Totals

variable {Thread Task : Type}

/-- The thread runs `worker_routine`. -/
def Pc.working : Pc Task → Bool
  | .waitPending | .popQueue | .call _ | .readJoin _ | .signalSem _ | .exited => true
  | .freeJob _ .worked | .pushFree _ .worked | .signalComplete .worked => true
  | _ => false

/-- How many entries that stop a worker the thread has pushed. -/
def Pc.stops (workers : Nat) : Pc Task → Nat
  | .pushStop pushed => pushed
  | .signalStop _ | .joinWorkers _ | .stopped => workers
  | _ => 0

/-- The worker has left. -/
def Pc.gone : Pc Task → Nat
  | .exited => 1
  | _ => 0

/-- How far a thread inside `ensure_deinit` is. -/
def Stopping (config : Config Thread) (s : State Thread Task) : Pc Task → Prop
  | .pushStop pushed => pushed ≤ config.workers.length
  | .signalStop signaled => signaled ≤ config.workers.length
  | .joinWorkers joined => ∀ worker ∈ config.workers.take joined, s.pc worker = .exited
  | .stopped => ∀ worker ∈ config.workers, s.pc worker = .exited
  | _ => True

/-- The entries that stop workers are behind the jobs. -/
def Ordered (queue : List (Option Nat)) : Prop :=
  ∃ (jobs : List Nat) (stops : Nat), queue = jobs.map some ++ List.replicate stops none

/-- The invariant of the shutdown. -/
structure Closing [Fintype Thread] (config : Config Thread) (s : State Thread Task) : Prop where
  roles : ∀ thread, (s.pc thread).working = true ↔ thread ∈ config.workers
  alone : ∀ thread, (s.pc thread).stopping = true → ∀ other, other ≠ thread →
    other ∉ config.workers → s.pc other = .idle
  stopping : ∀ thread, Stopping config s (s.pc thread)
  stops : s.queue.count none + total Pc.gone s.pc =
    total (Pc.stops config.workers.length) s.pc
  ordered : Ordered s.queue
  drained : ∀ thread, s.pc thread = .exited → s.queue.reduceOption = []

section Queues

variable {queue : List (Option Nat)} {job : Nat}

theorem Ordered.push_job (ordered : Ordered queue) (open' : queue.count none = 0) :
    Ordered (queue ++ [some job]) := by
  obtain ⟨jobs, stops, rfl⟩ := ordered
  have none : stops = 0 := by
    rw [List.count_append, List.count_replicate_self] at open'
    omega
  refine ⟨jobs ++ [job], 0, ?_⟩
  simp [none]

theorem Ordered.push_stop (ordered : Ordered queue) : Ordered (queue ++ [none]) := by
  obtain ⟨jobs, stops, rfl⟩ := ordered
  refine ⟨jobs, stops + 1, ?_⟩
  rw [List.replicate_succ', List.append_assoc]

theorem Ordered.pop_job (ordered : Ordered (some job :: queue)) : Ordered queue := by
  obtain ⟨jobs, stops, same⟩ := ordered
  cases jobs with
  | nil =>
    cases stops with
    | zero => cases same
    | succ stops => cases (List.cons.inj same).1
  | cons first jobs => exact ⟨jobs, stops, (List.cons.inj same).2⟩

/-- Behind an entry that stops a worker there is no job. -/
theorem Ordered.pop_stop (ordered : Ordered (none :: queue)) :
    Ordered queue ∧ queue.reduceOption = [] := by
  obtain ⟨jobs, stops, same⟩ := ordered
  cases jobs with
  | cons first jobs => cases (List.cons.inj same).1
  | nil =>
    cases stops with
    | zero => cases same
    | succ stops =>
      have rest : queue = List.replicate stops none := (List.cons.inj same).2
      rw [rest]
      exact ⟨⟨[], stops, rfl⟩, List.reduceOption_replicate_none⟩

end Queues

section Pcs

variable {pc : Pc Task} {workers : Nat}

theorem Pc.not_working (stopping : pc.stopping = true) : pc.working = false := by
  cases pc <;> first | rfl | cases stopping

theorem Pc.eq_idle (idle : pc.isIdle = true) : pc = .idle := by
  cases pc <;> first | rfl | cases idle

theorem Pc.stops_eq_zero (still : pc.stopping = false) : pc.stops workers = 0 := by
  cases pc <;> first | rfl | cases still

theorem Pc.gone_le (pc : Pc Task) : pc.gone ≤ 1 := by
  unfold Pc.gone
  split <;> decide

theorem Pc.gone_pos (exited : pc = .exited) : 0 < pc.gone := by
  rw [exited]
  exact Nat.one_pos

end Pcs

variable [Fintype Thread] {config : Config Thread} {s s' : State Thread Task} {thread : Thread}
  {pc' : Pc Task}

/-- While nobody shuts the pool down, the queue holds jobs only and no worker has left. -/
theorem Closing.running (closing : Closing config s)
    (still : ∀ thread, (s.pc thread).stopping = false) :
    s.queue.count none = 0 ∧ ∀ thread, s.pc thread ≠ .exited := by
  have zero : total (Pc.stops config.workers.length) s.pc = 0 :=
    total_zero fun thread => Pc.stops_eq_zero (still thread)
  have balance := closing.stops
  rw [zero] at balance
  obtain ⟨entries, gone⟩ := Nat.add_eq_zero_iff.mp balance
  refine ⟨entries, fun thread exited => ?_⟩
  have none := (Finset.sum_eq_zero_iff.mp gone) thread (Finset.mem_univ thread)
  exact absurd none (Nat.ne_of_gt (Pc.gone_pos exited))

/-- While a thread other than a worker is inside a call, nobody shuts the pool down. -/
theorem Closing.busy (closing : Closing config s) (caller : (s.pc thread).working = false)
    (busy : s.pc thread ≠ .idle) (still : (s.pc thread).stopping = false) (other : Thread) :
    (s.pc other).stopping = false := by
  cases stopping : (s.pc other).stopping with
  | false => rfl
  | true =>
    have different : thread ≠ other := by
      rintro rfl
      rw [still] at stopping
      cases stopping
    have outside : thread ∉ config.workers := by
      rw [← closing.roles, caller]
      exact Bool.false_ne_true
    exact absurd (closing.alone other stopping thread different outside) busy

/-- Only the thread inside `ensure_deinit` has pushed entries that stop workers. -/
theorem Closing.total_stops (closing : Closing config s)
    (stopping : (s.pc thread).stopping = true) :
    total (Pc.stops config.workers.length) s.pc = (s.pc thread).stops config.workers.length := by
  refine Finset.sum_eq_single thread (fun other _ different => Pc.stops_eq_zero ?_)
    fun absent => absurd (Finset.mem_univ thread) absent
  by_cases works : other ∈ config.workers
  · cases theirs : (s.pc other).stopping with
    | false => rfl
    | true =>
      have role := (closing.roles other).mpr works
      rw [Pc.not_working theirs] at role
      cases role
  · rw [closing.alone thread stopping other different works]
    rfl

/-- Behind the jobs, the queue holds an entry for each worker that is still there. -/
theorem Closing.queue_stops (closing : Closing config s) (empty : s.queue.reduceOption = []) :
    s.queue = List.replicate (s.queue.count none) none := by
  obtain ⟨jobs, stops, ordered⟩ := closing.ordered
  have none : jobs = [] := by
    rw [ordered, List.reduceOption_append, List.reduceOption_replicate_none, List.append_nil] at empty
    simpa [List.reduceOption] using empty
  rw [ordered, none]
  simp

variable [DecidableEq Thread]

/-- The workers are those that can leave. -/
theorem Closing.total_gone (closing : Closing config s) :
    total Pc.gone s.pc = ∑ worker ∈ config.workers.toFinset, (s.pc worker).gone := by
  refine (Finset.sum_subset (Finset.subset_univ _) fun other _ outside => ?_).symm
  have role : (s.pc other).working = false := by
    rw [← Bool.not_eq_true, closing.roles]
    exact fun works => outside (List.mem_toFinset.mpr works)
  cases there : s.pc other <;> rw [there] at role <;> first | rfl | cases role

/-- All workers have left when each of them has. -/
theorem Closing.all_gone (closing : Closing config s)
    (exited : ∀ worker ∈ config.workers, s.pc worker = .exited) :
    total Pc.gone s.pc = config.workers.length := by
  rw [closing.total_gone, ← List.toFinset_card_of_nodup config.distinct, Finset.card_eq_sum_ones]
  refine Finset.sum_congr rfl fun worker member => ?_
  rw [exited worker (List.mem_toFinset.mp member)]
  rfl

/-- One worker is still there. -/
theorem Closing.some_left (closing : Closing config s) (works : thread ∈ config.workers)
    (there : s.pc thread ≠ .exited) : total Pc.gone s.pc < config.workers.length := by
  have zero : (s.pc thread).gone < 1 := by
    unfold Pc.gone
    split
    · rename_i left
      exact absurd left there
    · exact Nat.one_pos
  rw [closing.total_gone, ← List.toFinset_card_of_nodup config.distinct, Finset.card_eq_sum_ones]
  exact Finset.sum_lt_sum (fun worker _ => Pc.gone_le _) ⟨thread, List.mem_toFinset.mpr works, zero⟩

/-- A step of a thread, with what has to be known of it. -/
theorem Closing.moved (closing : Closing config s) (pcs : s'.pc = Function.update s.pc thread pc')
    (role : pc'.working = (s.pc thread).working) (here : s.pc thread ≠ .exited)
    (busy : s.pc thread ≠ .idle ∨ ∀ other, (s.pc other).stopping = false)
    (alone : pc'.stopping = true → ∀ other, other ≠ thread → other ∉ config.workers →
      s.pc other = .idle)
    (stopping : Stopping config s pc')
    (stops : s'.queue.count none + pc'.gone + (s.pc thread).stops config.workers.length =
      s.queue.count none + (s.pc thread).gone + pc'.stops config.workers.length)
    (ordered : Ordered s'.queue)
    (drained : ∀ other, s.pc other = .exited ∨ pc' = .exited → s'.queue.reduceOption = []) :
    Closing config s' := by
  have exited : ∀ worker, s.pc worker = .exited → s'.pc worker = .exited := by
    intro worker left
    rw [pcs, Function.update_of_ne, left]
    rintro rfl
    exact here left
  have known : ∀ pc : Pc Task, Stopping config s pc → Stopping config s' pc := by
    intro pc before
    cases pc with
    | joinWorkers joined => exact fun worker member => exited worker (before worker member)
    | stopped => exact fun worker member => exited worker (before worker member)
    | _ => exact before
  refine ⟨fun other => ?_, fun one first other different outside => ?_, fun other => ?_, ?_, ordered,
    fun other left => ?_⟩
  · rw [pcs]
    by_cases same : other = thread
    · rw [same, Function.update_self, role]
      exact closing.roles thread
    · rw [Function.update_of_ne same]
      exact closing.roles other
  · rw [pcs] at first ⊢
    by_cases isOne : one = thread
    · rw [isOne, Function.update_self] at first
      rw [isOne] at different
      rw [Function.update_of_ne different]
      exact alone first other different outside
    · rw [Function.update_of_ne isOne] at first
      have idle := closing.alone one first other different outside
      by_cases isOther : other = thread
      · rcases busy with busy | still
        · exact absurd (isOther ▸ idle) busy
        · rw [still one] at first
          cases first
      · rw [Function.update_of_ne isOther]
        exact idle
  · rw [pcs]
    by_cases same : other = thread
    · rw [same, Function.update_self]
      exact known pc' stopping
    · rw [Function.update_of_ne same]
      exact known _ (closing.stopping other)
  · have before := closing.stops
    have gone := total_update Pc.gone s.pc thread pc'
    have pushed := total_update (Pc.stops config.workers.length) s.pc thread pc'
    rw [← pcs] at gone pushed
    omega
  · rw [pcs] at left
    by_cases same : other = thread
    · rw [same, Function.update_self] at left
      exact drained other (.inr left)
    · rw [Function.update_of_ne same] at left
      exact drained other (.inl left)

/-- A step of a thread that leaves the queue alone and is not part of the shutdown. -/
theorem Closing.still (closing : Closing config s) (pcs : s'.pc = Function.update s.pc thread pc')
    (queue : s'.queue = s.queue) (role : pc'.working = (s.pc thread).working)
    (here : (s.pc thread).gone = 0) (there : pc'.gone = 0)
    (busy : s.pc thread ≠ .idle ∨ ∀ other, (s.pc other).stopping = false)
    (before : (s.pc thread).stopping = false) (after : pc'.stopping = false) :
    Closing config s' := by
  refine closing.moved pcs role (fun exited => ?_) busy (fun stopping => ?_) ?_ ?_ ?_
    fun other left => ?_
  · exact absurd here (Nat.ne_of_gt (Pc.gone_pos exited))
  · rw [after] at stopping
    cases stopping
  · cases pc' <;> trivial
  · rw [queue, here, there, Pc.stops_eq_zero before, Pc.stops_eq_zero after]
  · rw [queue]
    exact closing.ordered
  · rw [queue]
    rcases left with left | left
    · exact closing.drained other left
    · exact absurd there (Nat.ne_of_gt (Pc.gone_pos left))

/-- A step of the thread that shuts the pool down. -/
theorem Closing.stepped (closing : Closing config s)
    (pcs : s'.pc = Function.update s.pc thread pc') (before : (s.pc thread).stopping = true)
    (after : pc'.stopping = true) (stopping : Stopping config s pc')
    (stops : s'.queue.count none + (s.pc thread).stops config.workers.length =
      s.queue.count none + pc'.stops config.workers.length)
    (ordered : Ordered s'.queue)
    (same : s'.queue.reduceOption = s.queue.reduceOption) : Closing config s' := by
  have gone : ∀ {pc : Pc Task}, pc.stopping = true → pc.gone = 0 := by
    intro pc stopping
    cases pc <;> first | rfl | cases stopping
  refine closing.moved pcs ?_ (fun exited => ?_) (.inl fun idle => ?_)
    (fun _ => closing.alone thread before) stopping ?_ ordered fun other left => ?_
  · rw [Pc.not_working before, Pc.not_working after]
  · rw [exited] at before
    cases before
  · rw [idle] at before
    cases before
  · rw [gone before, gone after, add_zero, add_zero]
    exact stops
  · rw [same]
    rcases left with left | left
    · exact closing.drained other left
    · rw [left] at after
      cases after

/-- A step of a thread keeps the invariant of the shutdown. -/
theorem Closing.moves (closing : Closing config s) (moves : Moves config s thread s') :
    Closing config s' := by
  have stopping := closing.stopping thread
  have ordered := closing.ordered
  cases moves with
  | @submitted job there =>
    have still := closing.busy (by rw [there]; rfl) (by rw [there]; simp) (by rw [there]; rfl)
    obtain ⟨entries, here⟩ := closing.running still
    refine closing.moved rfl (by rw [there]; rfl) (here thread) (.inr still)
      (fun stopping => by cases stopping) trivial ?_ (ordered.push_job entries) fun other left => ?_
    · simp [there, State.goto, State.record, Pc.gone, Pc.stops]
    · rcases left with left | left
      · exact absurd left (here other)
      · cases left
  | @dismissed queue there listed =>
    rw [listed] at ordered
    obtain ⟨ordered, empty⟩ := ordered.pop_stop
    refine closing.moved rfl (by rw [there]; rfl) (by rw [there]; simp) (.inl (by rw [there]; simp))
      (fun stopping => by cases stopping) trivial ?_ ordered fun other _ => empty
    simp [there, State.goto, listed, Pc.gone, Pc.stops]
  | @fetched job queue there listed =>
    rw [listed] at ordered
    refine closing.moved rfl (by rw [there]; rfl) (by rw [there]; simp) (.inl (by rw [there]; simp))
      (fun stopping => by cases stopping) trivial ?_ ordered.pop_job fun other left => ?_
    · simp [there, State.goto, listed, Pc.gone, Pc.stops]
    · rcases left with left | left
      · have empty := closing.drained other left
        rw [listed] at empty
        cases empty
      · cases left
  | stopPushed there more =>
    refine closing.stepped rfl (by rw [there]; rfl) rfl more ?_ ordered.push_stop ?_
    · simp [there, State.goto, Pc.stops]
      omega
    · show (s.queue ++ [none]).reduceOption = _
      rw [List.reduceOption_append, List.reduceOption_singleton, Option.toList_none,
        List.append_nil]
  | stopsPushed there all =>
    rw [there] at stopping
    refine closing.stepped rfl (by rw [there]; rfl) rfl (Nat.zero_le _) ?_ ordered rfl
    rw [there]
    exact congrArg _ (Nat.le_antisymm stopping (Nat.not_lt.mp all))
  | stopSignaled there more =>
    exact closing.stepped rfl (by rw [there]; rfl) rfl more (by rw [there]; rfl) ordered rfl
  | stopsSignaled there all =>
    refine closing.stepped rfl (by rw [there]; rfl) rfl ?_ (by rw [there]; rfl) ordered rfl
    intro worker member
    cases member
  | @joined joined worker there next exited =>
    rw [there] at stopping
    refine closing.stepped rfl (by rw [there]; rfl) rfl ?_ (by rw [there]; rfl) ordered rfl
    intro other member
    rw [List.take_add_one, next, List.mem_append] at member
    rcases member with before | now
    · exact stopping other before
    · rwa [List.mem_singleton.mp now]
  | @joinedAll joined there all =>
    rw [there] at stopping
    refine closing.stepped rfl (by rw [there]; rfl) rfl ?_ (by rw [there]; rfl) ordered rfl
    intro worker member
    refine stopping worker ?_
    rwa [List.take_of_length_le (List.getElem?_eq_none_iff.mp all)]
  | @released after there =>
    refine closing.still rfl rfl ?_ (by rw [there]; rfl) ?_ (.inl (by rw [there]; simp))
      (by rw [there]; rfl) ?_
    · rw [there]
      cases after <;> rfl
    · cases after <;> rfl
    · cases after <;> rfl
  | @freed job after there _ _ =>
    refine closing.still rfl rfl ?_ (by rw [there]; rfl) rfl (.inl (by rw [there]; simp))
      (by rw [there]; rfl) rfl
    rw [there]
    cases after <;> rfl
  | @gave job after there =>
    refine closing.still rfl rfl ?_ (by rw [there]; rfl) rfl (.inl (by rw [there]; simp))
      (by rw [there]; rfl) rfl
    rw [there]
    cases after <;> rfl
  | refused there _ | passed there | admitted there _ | took there _ | unprepared there
  | joinable there | plain there | counted there | announced there | issued there
  | unissued there | answered there | interrupted there | woken there _ | collected there _
  | uncounted there | summoned there _ | ran there | finished there _ | forgotten there _
  | signaled there _ =>
    exact closing.still rfl rfl (by rw [there]; rfl) (by rw [there]; rfl) rfl
      (.inl (by rw [there]; simp)) (by rw [there]; rfl) rfl

/-- A call that a thread begins while nobody shuts the pool down. -/
theorem Closing.called (closing : Closing config s) (idle : s.pc thread = .idle)
    (open' : ∀ other, (s.pc other).stopping = false) (role : pc'.working = false)
    (gone : pc'.gone = 0) (after : pc'.stopping = false) : Closing config (s.goto thread pc') :=
  closing.still rfl rfl (by rw [idle, role]; rfl) (by rw [idle]; rfl) gone (.inr open')
    (open' thread) after

omit [DecidableEq Thread] in
/-- Nobody shuts the pool down when no other thread uses it. -/
theorem Closing.none_stops (closing : Closing config s) (idle : s.pc thread = .idle)
    (alone : ∀ other, other ∉ config.workers → other ≠ thread → (s.pc other).isIdle = true)
    (other : Thread) : (s.pc other).stopping = false := by
  cases stopping : (s.pc other).stopping with
  | false => rfl
  | true =>
    have outside : other ∉ config.workers := by
      rw [← closing.roles, Pc.not_working stopping]
      exact Bool.false_ne_true
    have different : other ≠ thread := by
      rintro rfl
      rw [idle] at stopping
      cases stopping
    rw [Pc.eq_idle (alone other outside different)] at stopping
    cases stopping

/-- A call of `ensure_deinit`, when no other thread uses the pool. -/
theorem Closing.deinit (closing : Closing config s) (idle : s.pc thread = .idle)
    (alone : ∀ other, other ∉ config.workers → other ≠ thread → (s.pc other).isIdle = true) :
    Closing config (s.goto thread (.pushStop 0)) := by
  have still := closing.none_stops idle alone
  refine closing.moved rfl (by rw [idle]; rfl) (by rw [idle]; simp) (.inr still)
    (fun _ other different outside => Pc.eq_idle (alone other outside different)) (Nat.zero_le _) (by rw [idle]; rfl) closing.ordered
    fun other left => ?_
  rcases left with left | left
  · exact closing.drained other left
  · cases left

theorem Closing.initial (begins : (pools Thread Task config).initial s) : Closing config s := by
  obtain ⟨⟨-, -, -, -, pcs, -⟩, -, queue, -⟩ := begins
  have quiet : ∀ thread, (s.pc thread).gone = 0 ∧ (s.pc thread).stopping = false := by
    intro thread
    rw [pcs]
    split <;> exact ⟨rfl, rfl⟩
  have still : ∀ thread, (s.pc thread).stops config.workers.length = 0 :=
    fun thread => Pc.stops_eq_zero (quiet thread).2
  refine ⟨fun thread => ?_, fun thread stopping => ?_, fun thread => ?_, ?_, ⟨[], 0, queue⟩,
    fun thread left => ?_⟩
  · rw [pcs]
    split <;> simp [Pc.working, *]
  · rw [(quiet thread).2] at stopping
    cases stopping
  · rw [pcs]
    split <;> exact trivial
  · rw [queue, total_zero fun thread => (quiet thread).1, total_zero still]
    rfl
  · exact absurd (quiet thread).1 (Nat.ne_of_gt (Pc.gone_pos left))

end Mysnips.ThreadPool

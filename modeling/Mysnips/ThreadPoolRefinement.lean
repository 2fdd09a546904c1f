import Mathlib.Data.Fintype.BigOperators
import Mathlib.Data.Fintype.Sum
import Mysnips.ThreadPoolAccesses
import Mysnips.ThreadPoolRuns

/-! The pool access by access comes to the pool whose list and queue take one step for an
operation: each of its steps is a step of that pool or none, while no pop is overtaken and no
signal is early. A pop or a push takes effect at its successful compare-exchange. -/
namespace Mysnips.ThreadPool
open Transition System Totals ThreadPoolAtomic

variable {Thread Task : Type} {config : Config Thread}

/-- What a thread can be about in the free list and in the ring, by its step in the pool. -/
def Agrees : Pc Task → ListPhase → RingPhase → Prop
  | .popFree _ _, list, ring => (list = .idle ∨ list = .popping) ∧ ring = .idle
  | .pushFree job _, list, ring => (list = .idle ∨ list = .pushing job) ∧ ring = .idle
  | .pushQueue job, list, ring =>
    list = .idle ∧ (ring = .idle ∨ ring = .claiming (indexBytes (some job)))
  | .signalPending _ _, list, ring => list = .idle ∧ (ring = .filling ∨ ring = .signaling)
  | .waitPending, list, ring => list = .idle ∧ (ring = .idle ∨ ring = .waiting)
  | .popQueue, list, ring => list = .idle ∧ ring = .popping
  | _, list, ring => list = .idle ∧ ring = .idle

/-- What the push of an index that stops a worker is about, by the step of `ensure_deinit`. -/
def StopAgrees : Pc Task → Nat → RingPhase → Prop
  | .pushStop pushed, stop, ring =>
    if stop + 1 < pushed then ring = .signaling
    else if stop + 1 = pushed then ring = .filling ∨ ring = .signaling
    else if stop = pushed then ring = .idle ∨ ring = .claiming (indexBytes none)
    else ring = .idle
  | .signalStop signaled, stop, ring => if stop < signaled then ring = .idle else ring = .signaling
  | _, _, ring => ring = .idle

/-- The push that `ensure_deinit` calls next. -/
theorem stopAgrees_next {pushed : Nat} {ring : RingPhase} :
    StopAgrees (.pushStop pushed : Pc Task) pushed ring ↔
      ring = .idle ∨ ring = .claiming (indexBytes none) := by
  rw [StopAgrees, if_neg (by simp), if_neg (by simp), if_pos rfl]

/-- The push that moves `tail` is the last one that `ensure_deinit` has called. -/
theorem stopAgrees_filling {pushed stop : Nat}
    (agrees : StopAgrees (.pushStop pushed : Pc Task) stop .filling) : stop + 1 = pushed := by
  simp only [StopAgrees] at agrees
  split at agrees
  · cases agrees
  split at agrees
  · rename_i last
    exact last
  split at agrees
  · rcases agrees with idle | claiming
    · cases idle
    · cases claiming
  · cases agrees

section Phases

variable {pc : ThreadPoolQueue.Pc}

theorem ringPhase_idle : ringPhase pc = .idle ↔ pc = .idle := by
  cases pc <;> simp [ringPhase]

theorem ringPhase_signaling : ringPhase pc = .signaling ↔ pc = .signal := by
  cases pc <;> simp [ringPhase]

theorem ringPhase_waiting : ringPhase pc = .waiting ↔ pc = .wait := by
  cases pc <;> simp [ringPhase]

theorem listPhase_idle {pc : ThreadPoolFreeList.Pc} : listPhase pc = .idle ↔ pc = .idle := by
  cases pc <;> simp [listPhase]

end Phases

variable {f f' : Detailed Task config} {t t' : State Thread Task} {thread : Thread}

/-- The list of pointers holds the free jobs and the ring the bytes of the queue, and each thread
is in both where its step in the pool says. -/
structure Shows [Fintype Thread] [DecidableEq Thread] (f : Detailed Task config)
    (t : State Thread Task) : Prop where
  core : t.toCore = f.toCore
  linked : Linked f.list t.free
  heads : ∀ thread, f.list.pc thread ≠ .popNext none
  ring : LineRefines f.ring ⟨t.queue.map indexBytes, t.pending⟩
  size : f.ring.queue.size = config.maxJobs
  cell : f.ring.queue.cell = 4
  agrees : ∀ thread, Agrees (f.pc thread) (listPhase (f.list.pc thread))
    (ringPhase (f.ring.pc (.inl thread)))
  stopping : ∀ thread, (f.pc thread).stopping = true → ∀ stop,
    StopAgrees (f.pc thread) stop.val (ringPhase (f.ring.pc (.inr stop)))
  running : (∀ thread, (f.pc thread).stopping = false) → ∀ stop,
    ringPhase (f.ring.pc (.inr stop)) = .idle

theorem Shows.pcs [Fintype Thread] [DecidableEq Thread] (shows : Shows f t) : t.pc = f.pc :=
  congrArg Core.pc shows.core

variable [Fintype Thread]

/-- One thread at most shuts the pool down. -/
theorem Closing.one_stops (closing : Closing config t) {other : Thread}
    (stopping : (t.pc thread).stopping = true) (different : other ≠ thread) :
    (t.pc other).stopping = false := by
  cases theirs : (t.pc other).stopping with
  | false => rfl
  | true =>
    have outside : other ∉ config.workers := by
      rw [← closing.roles, Pc.not_working theirs]
      exact Bool.false_ne_true
    rw [closing.alone thread stopping other different outside] at theirs
    cases theirs

variable [DecidableEq Thread]

theorem Shows.alone (shows : Shows f t) (sound : Sound config t)
    (stopping : (f.pc thread).stopping = true) {other : Thread} (different : other ≠ thread) :
    (f.pc other).stopping = false := by
  rw [← shows.pcs] at stopping ⊢
  exact sound.closing.one_stops stopping different

/-- What the ring still has to be told of the threads after a step of one of them. -/
structure Follows (f f' : Detailed Task config) (t' : State Thread Task) (thread : Thread)
    (pc' : Pc Task) : Prop where
  core : t'.toCore = f'.toCore
  pcs : f'.pc = Function.update f.pc thread pc'
  linked : Linked f'.list t'.free
  heads : ∀ thread, f'.list.pc thread ≠ .popNext none
  ring : LineRefines f'.ring ⟨t'.queue.map indexBytes, t'.pending⟩
  size : f'.ring.queue.size = f.ring.queue.size
  cell : f'.ring.queue.cell = f.ring.queue.cell
  mine : Agrees pc' (listPhase (f'.list.pc thread)) (ringPhase (f'.ring.pc (.inl thread)))
  others : ∀ other, other ≠ thread → f'.list.pc other = f.list.pc other ∧
    f'.ring.pc (.inl other) = f.ring.pc (.inl other)

theorem Shows.agrees_after (shows : Shows f t) {pc' : Pc Task} (follows : Follows f f' t' thread pc')
    (other : Thread) : Agrees (f'.pc other) (listPhase (f'.list.pc other))
      (ringPhase (f'.ring.pc (.inl other))) := by
  rw [follows.pcs]
  by_cases same : other = thread
  · rw [same, Function.update_self]
    exact follows.mine
  · obtain ⟨list, ring⟩ := follows.others other same
    rw [Function.update_of_ne same, list, ring]
    exact shows.agrees other

/-- A step of a thread that does not shut the pool down. -/
theorem Shows.ran (shows : Shows f t) {pc' : Pc Task} (follows : Follows f f' t' thread pc')
    (before : (f.pc thread).stopping = false) (after : pc'.stopping = false)
    (stops : ∀ stop, f'.ring.pc (.inr stop) = f.ring.pc (.inr stop)) : Shows f' t' := by
  have same : ∀ other, (f'.pc other).stopping = (f.pc other).stopping := by
    intro other
    rw [follows.pcs]
    by_cases same : other = thread
    · rw [same, Function.update_self, before, after]
    · rw [Function.update_of_ne same]
  refine ⟨follows.core, follows.linked, follows.heads, follows.ring, follows.size.trans shows.size,
    follows.cell.trans shows.cell, shows.agrees_after follows, fun other stopping stop => ?_,
    fun running stop => ?_⟩
  · have different : other ≠ thread := by
      rintro rfl
      rw [same, before] at stopping
      cases stopping
    rw [same] at stopping
    rw [follows.pcs, Function.update_of_ne different, stops]
    exact shows.stopping other stopping stop
  · rw [stops]
    exact shows.running (fun other => same other ▸ running other) stop

/-- A step of the thread that shuts the pool down, or begins to. -/
theorem Shows.stopped (shows : Shows f t) {pc' : Pc Task} (follows : Follows f f' t' thread pc')
    (alone : ∀ other, other ≠ thread → (f.pc other).stopping = false) (after : pc'.stopping = true)
    (stops : ∀ stop : Fin config.workers.length,
      StopAgrees pc' stop.val (ringPhase (f'.ring.pc (.inr stop)))) : Shows f' t' := by
  refine ⟨follows.core, follows.linked, follows.heads, follows.ring, follows.size.trans shows.size,
    follows.cell.trans shows.cell, shows.agrees_after follows, fun other stopping stop => ?_,
    fun running stop => ?_⟩
  · by_cases same : other = thread
    · rw [same, follows.pcs, Function.update_self]
      exact stops stop
    · rw [follows.pcs, Function.update_of_ne same, alone other same] at stopping
      cases stopping
  · have none := running thread
    rw [follows.pcs, Function.update_self, after] at none
    cases none

/-! ### Calls, and steps that are not about the list or the ring -/

omit [Fintype Thread] in
/-- Where a call leads. -/
theorem Core.call_goto {c core : Core Thread Task} {action : Action Thread Task}
    (called : c.call config action = some core) : core = c ∨ ∃ thread pc', c.pc thread = .idle ∧
      core = c.goto thread pc' ∧ Agrees pc' .idle .idle ∧
      (pc'.stopping = false ∨ action = .deinit thread ∧ pc' = .pushStop 0) := by
  cases action with
  | create thread task join =>
    simp only [Core.call] at called
    split at called <;> cases called
    rename_i idle
    exact .inr ⟨thread, _, idle, rfl, ⟨rfl, rfl⟩, .inl rfl⟩
  | done thread id | wait thread id =>
    simp only [Core.call] at called
    split at called
    · rename_i idle
      split at called <;> cases called
      · exact .inl rfl
      · exact .inr ⟨thread, _, idle, rfl, ⟨rfl, rfl⟩, .inl rfl⟩
    · cases called
  | deinit thread =>
    simp only [Core.call] at called
    split at called <;> cases called
    rename_i idle
    exact .inr ⟨thread, _, idle, rfl, ⟨rfl, rfl⟩, .inr ⟨rfl, rfl⟩⟩
  | step thread failed => cases called

/-- A call changes neither the list nor the ring. -/
theorem Shows.call (shows : Shows f t) (sound : Sound config t) {action : Action Thread Task}
    {core : Core Thread Task} (called : f.toCore.call config action = some core)
    (proper : f.toCore.ProperCall config action) :
    Shows { f with toCore := core } { t with toCore := core } := by
  obtain rfl | ⟨thread, pc', idle, rfl, agrees, kind⟩ := Core.call_goto called
  · have same : ({ t with toCore := f.toCore } : State Thread Task) = t := by rw [← shows.core]
    rw [same]
    exact shows
  have mine := shows.agrees thread
  rw [idle] at mine
  have follows : Follows f { f with toCore := f.toCore.goto thread pc' }
      { t with toCore := f.toCore.goto thread pc' } thread pc' := by
    refine ⟨rfl, rfl, shows.linked, shows.heads, shows.ring, rfl, rfl, ?_, fun _ _ => ⟨rfl, rfl⟩⟩
    rw [mine.1, mine.2]
    exact agrees
  rcases kind with after | ⟨rfl, rfl⟩
  · exact shows.ran follows (by rw [idle]; rfl) after fun _ => rfl
  · have none : ∀ other, (f.pc other).stopping = false := by
      rw [← shows.pcs] at idle ⊢
      refine sound.closing.none_stops idle ?_
      rw [shows.pcs]
      exact proper
    refine shows.stopped follows (fun other _ => none other) rfl fun stop => ?_
    have idle := shows.running none stop
    simp [StopAgrees, idle]

/-- A step from one place to another begins and ends no operation on the list or on the ring. -/
structure Apart (pc pc' : Pc Task) : Prop where
  changed : pc' ≠ pc
  stopping : pc'.stopping = pc.stopping
  agrees : ∀ list ring, Agrees pc list ring → list = .idle ∧ ring = .idle ∧ Agrees pc' .idle .idle
  stops : ∀ stop ring, StopAgrees pc stop ring → StopAgrees pc' stop ring

omit [Fintype Thread] in
/-- Where a step leads that is not about the list or the ring. -/
theorem Core.advance_apart {c core : Core Thread Task} {failed : Bool}
    (moved : c.advance config failed thread = .ok core) :
    ∃ pc', core.pc = Function.update c.pc thread pc' ∧ Apart (c.pc thread) pc' := by
  unfold Core.advance at moved
  cases there : c.pc thread with
  | check | waitComplete | readJoin | waitSem | freeJob | signalSem | joinWorkers | prepare =>
    simp only [there] at moved
    split at moved <;> first
      | (cases moved; done)
      | (cases moved; exact ⟨_, rfl, by simp, rfl,
          fun _ _ both => ⟨both.1, both.2, by simp [Agrees]⟩, fun _ _ => id⟩)
      | (split at moved <;> first
        | (cases moved; done)
        | (cases moved; exact ⟨_, rfl, by simp, rfl,
            fun _ _ both => ⟨both.1, both.2, by simp [Agrees]⟩, fun _ _ => id⟩))
  | signalComplete after =>
    simp only [there] at moved
    cases moved
    refine ⟨after.next, rfl, ?_, ?_, fun _ _ both => ⟨both.1, both.2, ?_⟩, ?_⟩
    · cases after <;> simp [After.next]
    · cases after <;> rfl
    · cases after <;> simp [Agrees, After.next]
    · cases after <;> exact fun _ _ => id
  | getId use join =>
    simp only [there] at moved
    cases join <;> cases moved <;>
      exact ⟨_, rfl, by simp, rfl, fun _ _ both => ⟨both.1, both.2, by simp [Agrees]⟩,
        fun _ _ => id⟩
  | countJoinable | readDone | uncountJoinable | call =>
    simp only [there] at moved
    cases moved
    exact ⟨_, rfl, by simp, rfl, fun _ _ both => ⟨both.1, both.2, by simp [Agrees]⟩,
      fun _ _ => id⟩
  | idle | exited | stopped | popFree | pushFree | pushQueue | signalPending | waitPending | popQueue
  | pushStop | signalStop =>
    simp only [there] at moved
    cases moved

/-- A step that is not about the list or the ring. -/
theorem Shows.core_step (shows : Shows f t) (sound : Sound config t) {core : Core Thread Task}
    {failed : Bool} (moved : f.toCore.advance config failed thread = .ok core) :
    Shows { f with toCore := core } { t with toCore := core } := by
  obtain ⟨pc', pcs, apart⟩ := Core.advance_apart moved
  obtain ⟨list, ring, after⟩ := apart.agrees _ _ (shows.agrees thread)
  have follows : Follows f { f with toCore := core } { t with toCore := core } thread pc' := by
    refine ⟨rfl, pcs, shows.linked, shows.heads, shows.ring, rfl, rfl, ?_, fun _ _ => ⟨rfl, rfl⟩⟩
    rw [list, ring]
    exact after
  cases before : (f.pc thread).stopping with
  | false => exact shows.ran follows before (apart.stopping.trans before) fun _ => rfl
  | true =>
    exact shows.stopped follows (fun _ => shows.alone sound before) (apart.stopping.trans before)
      fun stop => apart.stops _ _ (shows.stopping thread before stop)

/-! ### The free list -/

/-- The call of an operation on the free list. -/
theorem Shows.call_list (shows : Shows f t) {called : ThreadPoolFreeList.Pc}
    (unlinked : ∀ job oldHead, called ≠ .pushExchange job oldHead) (head : called ≠ .popNext none)
    (mine : Agrees (f.pc thread) (listPhase called) (ringPhase (f.ring.pc (.inl thread))))
    (running : (f.pc thread).stopping = false) :
    Shows { f with list := f.list.goto thread called } t := by
  refine shows.ran ⟨shows.core, (Function.update_eq_self ..).symm, shows.linked.goto unlinked,
    fun other => ?_, shows.ring, rfl, rfl, ?_, fun other different => ?_⟩ running running fun _ => rfl
  · by_cases same : other = thread
    · simpa [same] using head
    · simpa [ThreadPoolFreeList.goto_pc_ne same] using shows.heads other
  · simpa using mine
  · exact ⟨ThreadPoolFreeList.goto_pc_ne different, rfl⟩

/-- A step of a thread inside `free_list_pop` or `free_list_push`: the call, an access that performs
nothing, or the one that performs the operation. -/
theorem Shows.useList (shows : Shows f t) {called : ThreadPoolFreeList.Pc} {returned : Nat → Pc Task}
    (running : (f.pc thread).stopping = false)
    (calls : f.list.pc thread = .idle →
      Agrees (f.pc thread) (listPhase called) (ringPhase (f.ring.pc (.inl thread))))
    (unlinked : ∀ job oldHead, called ≠ .pushExchange job oldHead) (head : called ≠ .popNext none)
    (unchanged : ThreadPoolFreeList.HeadUnchanged f.list (.step thread))
    (mine : ∀ job ∈ (f.list.pc thread).pushing, job ∉ t.free ∧
      ∀ other, other ≠ thread → (f.list.pc other).pushing ≠ some job)
    (listed : listPhase (f.list.pc thread) = .popping → t.free ≠ [])
    (moved : f.useList thread called returned = .ok f') :
    Shows f' t ∨ ∃ job list free, f' = { f with list, toCore := f.toCore.goto thread (returned job) } ∧
      Linked list free ∧ list.pc = Function.update f.list.pc thread .idle ∧
      ((listPhase (f.list.pc thread) = .popping ∧ t.free = job :: free) ∨
        listPhase (f.list.pc thread) = .pushing job ∧ free = job :: t.free) := by
  unfold Detailed.useList at moved
  split at moved
  · rename_i idle
    cases moved
    exact .inl (shows.call_list unlinked head (calls idle) running)
  · split at moved
    · cases moved
    · rename_i list stepped
      obtain ⟨free, linked, step⟩ := shows.linked.advance unchanged mine stepped
      rw [listOperations] at moved
      generalize ThreadPoolAtomic.listOperation thread f.list.freeJobs (f.list.pc thread) =
        operations at step moved
      cases step with
      | @still pc pcs phase held head =>
        cases moved
        refine .inl (shows.ran ⟨shows.core, (Function.update_eq_self ..).symm, linked,
          fun other => ?_, shows.ring, rfl, rfl, ?_, fun other different => ?_⟩ running running
          fun _ => rfl)
        · rw [pcs]
          by_cases same : other = thread
          · rw [same, Function.update_self]
            intro none
            refine head (listed ?_) none
            rw [← phase, none]
            rfl
          · rw [Function.update_of_ne same]
            exact shows.heads other
        · rw [pcs, Function.update_self, phase]
          exact shows.agrees thread
        · exact ⟨by rw [pcs, Function.update_of_ne different], rfl⟩
      | @popped job rest pcs phase first held =>
        cases moved
        exact .inr ⟨job, list, free, rfl, linked, pcs, .inl ⟨phase, first⟩⟩
      | @pushed job pcs phase held =>
        cases moved
        exact .inr ⟨job, list, _, rfl, linked, pcs, .inr ⟨phase, rfl⟩⟩

/-- The thread has performed its operation on the free list. -/
theorem Shows.list_done (shows : Shows f t) {list : ThreadPoolFreeList.State Thread}
    {free : List Nat} (linked : Linked list free)
    (pcs : list.pc = Function.update f.list.pc thread .idle)
    (running : (f.pc thread).stopping = false) (pc' : Pc Task) (after : pc'.stopping = false)
    (mine : Agrees pc' .idle (ringPhase (f.ring.pc (.inl thread)))) :
    Shows { f with list, toCore := f.toCore.goto thread pc' } ({ t with free }.goto thread pc') := by
  refine shows.ran ⟨?_, rfl, linked, fun other => ?_, shows.ring, rfl, rfl, ?_,
    fun other different => ?_⟩ running after fun _ => rfl
  · show t.toCore.goto thread pc' = _
    rw [shows.core]
  · show list.pc other ≠ _
    rw [pcs]
    by_cases same : other = thread
    · rw [same, Function.update_self]
      exact nofun
    · rw [Function.update_of_ne same]
      exact shows.heads other
  · show Agrees pc' (listPhase (list.pc thread)) _
    rw [pcs, Function.update_self]
    exact mine
  · exact ⟨by rw [pcs, Function.update_of_ne different], rfl⟩

/-- A step of `free_list_pop`. -/
theorem Shows.popFree (shows : Shows f t) (sound : Sound config t) {task : Task} {join failed : Bool}
    (there : f.pc thread = .popFree task join)
    (unchanged : ThreadPoolFreeList.HeadUnchanged f.list (.step thread))
    (moved : f.useList thread .popLoad (fun job => .prepare job task join) = .ok f') :
    Shows f' t ∨ ∃ t', advance config failed t thread = .ok t' ∧ Shows f' t' := by
  have mine := shows.agrees thread
  rw [there] at mine
  have here : t.pc thread = .popFree task join := shows.pcs ▸ there
  have listed := sound.listed here
  have still : ∀ job, (f.list.pc thread).pushing ≠ some job := by
    intro job pushing
    rw [pushing_eq] at pushing
    rcases mine.1 with idle | popping
    · rw [idle] at pushing
      cases pushing
    · rw [popping] at pushing
      cases pushing
  rcases shows.useList (by rw [there]; rfl) (fun _ => by rw [there]; exact ⟨.inr rfl, mine.2⟩)
    (by simp) (by simp) unchanged (fun job pushing => absurd pushing (still job)) (fun _ => listed) moved
    with shown | ⟨job, list, free, rfl, linked, idle, ⟨-, first⟩ | ⟨pushing, -⟩⟩
  · exact .inl shown
  · refine .inr ⟨{ t with free }.goto thread (.prepare job task join), ?_,
      shows.list_done linked idle (by rw [there]; rfl) (.prepare job task join) rfl ⟨rfl, mine.2⟩⟩
    unfold advance
    rw [shows.pcs]
    simp only [there, first]
  · refine absurd ?_ (still job)
    rw [pushing_eq, pushing]
    rfl

/-- Who pushes a job in the free list has it. -/
theorem Shows.holds (shows : Shows f t) {other : Thread} {job : Nat}
    (pushing : (f.list.pc other).pushing = some job) : (t.pc other).holds = some job := by
  have agrees := shows.agrees other
  rw [pushing_eq] at pushing
  rw [shows.pcs]
  cases phase : listPhase (f.list.pc other) with
  | idle | popping =>
    rw [phase] at pushing
    cases pushing
  | pushing job' =>
    rw [phase] at pushing agrees
    cases pushing
    cases there : f.pc other with
    | pushFree job'' after =>
      rw [there] at agrees
      rcases agrees.1 with idle | same
      · cases idle
      · cases same
        rfl
    | popFree =>
      rw [there] at agrees
      rcases agrees.1 with idle | popping
      · cases idle
      · cases popping
    | _ =>
      rw [there] at agrees
      cases agrees.1

/-- A step of `free_list_push`. -/
theorem Shows.pushFree (shows : Shows f t) (sound : Sound config t) {job : Nat} {after : After}
    {failed : Bool} (there : f.pc thread = .pushFree job after)
    (unchanged : ThreadPoolFreeList.HeadUnchanged f.list (.step thread))
    (moved : f.useList thread (.pushLoad job) (fun _ => .signalComplete after) = .ok f') :
    Shows f' t ∨ ∃ t', advance config failed t thread = .ok t' ∧ Shows f' t' := by
  have placed := sound.valid.placed
  have mine := shows.agrees thread
  rw [there] at mine
  have alone : ∀ job ∈ (f.list.pc thread).pushing, job ∉ t.free ∧
      ∀ other, other ≠ thread → (f.list.pc other).pushing ≠ some job := by
    intro job pushing
    refine ⟨placed.not_free (shows.holds pushing), fun other different theirs => different ?_⟩
    exact placed.holder (shows.holds theirs) (shows.holds pushing)
  have unlisted : listPhase (f.list.pc thread) ≠ .popping := by
    rcases mine.1 with idle | pushing
    · rw [idle]
      exact nofun
    · rw [pushing]
      exact nofun
  rcases shows.useList (by rw [there]; rfl) (fun _ => by rw [there]; exact ⟨.inr rfl, mine.2⟩)
    (by simp) (by simp) unchanged alone (fun popping => absurd popping unlisted) moved
    with shown | ⟨job', list, free, rfl, linked, idle, ⟨popping, -⟩ | ⟨pushing, rfl⟩⟩
  · exact .inl shown
  · exact absurd popping unlisted
  · have same : job' = job := by
      rcases mine.1 with idle | mine
      · cases idle.symm.trans pushing
      · exact ListPhase.pushing.inj (pushing.symm.trans mine)
    subst same
    refine .inr ⟨{ t with free := job' :: t.free }.goto thread (.signalComplete after), ?_,
      shows.list_done linked idle (by rw [there]; rfl) (.signalComplete after) rfl ⟨rfl, mine.2⟩⟩
    unfold advance
    rw [shows.pcs]
    simp only [there]

/-! ### The ring -/

/-- What the pool does with what an access to the ring has performed. -/
def Detailed.after (f : Detailed Task config)
    (returned : LineAction (Caller config) → Core Thread Task) :
    List (LineAction (Caller config)) → Core Thread Task
  | [] => f.toCore
  | operation :: _ => returned operation

/-- An access of a caller to the ring. -/
theorem Shows.useRing (shows : Shows f t) {caller : Caller config} {spurious : Bool}
    {returned : LineAction (Caller config) → Core Thread Task}
    (timely : ThreadPoolQueue.Timely f.ring (.step caller spurious))
    (moved : f.useRing caller spurious returned = .ok f') : ∃ ring pc line operations,
      f' = { f with ring, toCore := f.after returned operations } ∧
      ring.pc = Function.update f.ring.pc caller pc ∧ ring.queue.size = f.ring.queue.size ∧
      ring.queue.cell = f.ring.queue.cell ∧ LineRefines ring line ∧
      (lines (Caller config)).replay ⟨t.queue.map indexBytes, t.pending⟩ operations = some line ∧
      RingStep caller operations (ringPhase (f.ring.pc caller)) (ringPhase pc) := by
  unfold Detailed.useRing at moved
  split at moved
  · cases moved
  · rename_i ring stepped
    obtain ⟨line, pc, replayed, refines, pcs, size, cell, step⟩ := shows.ring.step timely stepped
    refine ⟨ring, pc, line, _, ?_, pcs, size, cell, refines, replayed, step⟩
    generalize lineOperations f.ring (.step caller spurious) = operations at moved
    cases operations <;> cases moved <;> rfl

/-- A thread that does not shut the pool down has used the ring. -/
theorem Shows.ring_used (shows : Shows f t) {core : Core Thread Task}
    {ring : ThreadPoolQueue.State (Caller config)} {pc : ThreadPoolQueue.Pc} {pc' : Pc Task}
    (same : t'.toCore = core) (free : t'.free = t.free)
    (pcs : core.pc = Function.update f.pc thread pc')
    (ringPcs : ring.pc = Function.update f.ring.pc (.inl thread) pc)
    (refines : LineRefines ring ⟨t'.queue.map indexBytes, t'.pending⟩)
    (size : ring.queue.size = f.ring.queue.size) (cell : ring.queue.cell = f.ring.queue.cell)
    (before : (f.pc thread).stopping = false) (after : pc'.stopping = false)
    (mine : Agrees pc' (listPhase (f.list.pc thread)) (ringPhase pc)) :
    Shows { f with ring, toCore := core } t' := by
  refine shows.ran ⟨same, pcs, ?_, shows.heads, refines, size, cell, ?_, fun other different => ?_⟩
    before after fun stop => ?_
  · rw [free]
    exact shows.linked
  · show Agrees pc' _ (ringPhase (ring.pc (.inl thread)))
    rw [ringPcs, Function.update_self]
    exact mine
  · refine ⟨rfl, ?_⟩
    show ring.pc (.inl other) = _
    rw [ringPcs, Function.update_of_ne (by simpa using different)]
  · show ring.pc (.inr stop) = _
    rw [ringPcs, Function.update_of_ne (by simp)]

/-- An access to the ring has performed nothing. -/
theorem Shows.ring_still (shows : Shows f t) {ring : ThreadPoolQueue.State (Caller config)}
    {pc : ThreadPoolQueue.Pc} (ringPcs : ring.pc = Function.update f.ring.pc (.inl thread) pc)
    (refines : LineRefines ring ⟨t.queue.map indexBytes, t.pending⟩)
    (size : ring.queue.size = f.ring.queue.size) (cell : ring.queue.cell = f.ring.queue.cell)
    (running : (f.pc thread).stopping = false)
    (mine : Agrees (f.pc thread) (listPhase (f.list.pc thread)) (ringPhase pc)) :
    Shows { f with ring } t :=
  shows.ring_used shows.core rfl (Function.update_eq_self ..).symm ringPcs refines size cell running
    running mine

/-- The thread that shuts the pool down has used the ring. -/
theorem Shows.ring_stopped (shows : Shows f t) (sound : Sound config t) {core : Core Thread Task}
    {ring : ThreadPoolQueue.State (Caller config)} {pc : ThreadPoolQueue.Pc} {pc' : Pc Task}
    {stop : Fin config.workers.length} (same : t'.toCore = core) (free : t'.free = t.free)
    (pcs : core.pc = Function.update f.pc thread pc')
    (ringPcs : ring.pc = Function.update f.ring.pc (.inr stop) pc)
    (refines : LineRefines ring ⟨t'.queue.map indexBytes, t'.pending⟩)
    (size : ring.queue.size = f.ring.queue.size) (cell : ring.queue.cell = f.ring.queue.cell)
    (before : (f.pc thread).stopping = true) (after : pc'.stopping = true)
    (mine : Agrees pc' (listPhase (f.list.pc thread)) (ringPhase (f.ring.pc (.inl thread))))
    (own : StopAgrees pc' stop.val (ringPhase pc))
    (others : ∀ other : Fin config.workers.length, other.val ≠ stop.val →
      StopAgrees pc' other.val (ringPhase (f.ring.pc (.inr other)))) :
    Shows { f with ring, toCore := core } t' := by
  refine shows.stopped ⟨same, pcs, ?_, shows.heads, refines, size, cell, ?_, fun other different => ?_⟩
    (fun _ => shows.alone sound before) after fun other => ?_
  · rw [free]
    exact shows.linked
  · show Agrees pc' _ (ringPhase (ring.pc (.inl thread)))
    rw [ringPcs, Function.update_of_ne (by simp)]
    exact mine
  · refine ⟨rfl, ?_⟩
    show ring.pc (.inl other) = _
    rw [ringPcs, Function.update_of_ne (by simp)]
  · show StopAgrees pc' other.val (ringPhase (ring.pc (.inr other)))
    rw [ringPcs]
    by_cases here : other = stop
    · rw [here, Function.update_self]
      exact own
    · rw [Function.update_of_ne (by simpa using here)]
      exact others other fun value => here (Fin.ext value)

/-- A call of `lock_free_queue_push` that finds room. -/
theorem Shows.push_refines (shows : Shows f t) {caller : Caller config} (entry : Option Nat)
    (idle : f.ring.pc caller = .idle)
    (room : f.ring.history.called.length < f.ring.history.popped.length + f.ring.queue.size) :
    LineRefines (f.push caller entry).ring ⟨t.queue.map indexBytes, t.pending⟩ := by
  have moved : (ThreadPoolQueue.queues (Caller config)).next f.ring (.push caller (indexBytes entry)) =
      some (f.push caller entry).ring :=
    if_pos ⟨idle, (indexBytes_length entry).trans shows.cell.symm, room⟩
  have timely : ThreadPoolQueue.Timely f.ring (.push caller (indexBytes entry)) := trivial
  obtain ⟨line, replayed, refines⟩ := shows.ring.next timely moved
  cases replayed
  exact refines

omit [Fintype Thread] [DecidableEq Thread] in
/-- Whoever has not claimed its slot is about to push a job. -/
theorem Agrees.unclaimed {pc : Pc Task} {list : ListPhase} {ring : RingPhase}
    (agrees : Agrees pc list ring) : ring.unclaimed.card ≤ pc.pushes.card := by
  cases pc with
  | pushQueue job =>
    obtain ⟨-, rfl | rfl⟩ := agrees
    · exact Nat.zero_le _
    · exact Nat.le_refl _
  | signalPending | waitPending =>
    obtain ⟨-, rfl | rfl⟩ := agrees <;> exact Nat.zero_le _
  | _ =>
    obtain ⟨-, rfl⟩ := agrees
    exact Nat.zero_le _

/-- There is room in the ring when the push of a job is called. -/
theorem Shows.room (shows : Shows f t) (sound : Sound config t) {job : Nat}
    (there : f.pc thread = .pushQueue job) (idle : f.ring.pc (.inl thread) = .idle) :
    f.ring.history.called.length < f.ring.history.popped.length + f.ring.queue.size := by
  have here : t.pc thread = .pushQueue job := shows.pcs ▸ there
  have room := sound.room here
  have still := sound.closing.busy (by rw [here]; rfl) (by rw [here]; simp) (by rw [here]; rfl)
  rw [shows.pcs] at room still
  have unclaimed : (total ThreadPoolQueue.Pc.unclaimed f.ring.pc).card <
      (total Pc.pushes f.pc).card := by
    have stops : ∑ stop, (f.ring.pc (.inr stop)).unclaimed.card = 0 := by
      refine Finset.sum_eq_zero fun stop _ => ?_
      rw [unclaimed_eq, shows.running still stop]
      rfl
    rw [total, total, Multiset.card_sum, Multiset.card_sum, Fintype.sum_sum_type, stops, add_zero]
    refine Finset.sum_lt_sum (fun other _ => ?_) ⟨thread, Finset.mem_univ thread, ?_⟩
    · rw [unclaimed_eq]
      exact (shows.agrees other).unclaimed
    · rw [idle, there]
      exact Nat.one_pos
  have called := congrArg Multiset.card shows.ring.valid.counted.called
  have claimed := congrArg List.length shows.ring.items
  rw [Multiset.card_add, Multiset.coe_card, Multiset.coe_card] at called
  rw [List.length_append, List.length_map, List.length_map] at claimed
  rw [shows.size]
  omega

/-- A step of `lock_free_queue_push` for a job, up to the claim of a slot. -/
theorem Shows.pushQueue (shows : Shows f t) (sound : Sound config t) {job : Nat} {failed : Bool}
    (there : f.pc thread = .pushQueue job)
    (timely : ThreadPoolQueue.Timely f.ring (.step (.inl thread) failed))
    (moved : access failed f thread = .ok f') :
    Shows f' t ∨ ∃ t', advance config failed t thread = .ok t' ∧ Shows f' t' := by
  have mine := shows.agrees thread
  have running : (f.pc thread).stopping = false := by
    rw [there]
    rfl
  simp only [access, there] at moved
  split at moved
  · rename_i idle
    cases moved
    refine .inl (shows.ring_still rfl
      (shows.push_refines (some job) idle (shows.room sound there idle)) rfl rfl running ?_)
    rw [there] at mine ⊢
    exact ⟨mine.1, .inr rfl⟩
  · rename_i busy
    obtain ⟨ring, pc, line, operations, rfl, ringPcs, size, cell, refines, replayed, step⟩ :=
      shows.useRing timely moved
    rw [there] at mine
    rw [mine.2.resolve_left fun idle => busy (ringPhase_idle.mp idle)] at step
    generalize phase : ringPhase pc = after at step
    cases step with
    | still =>
      cases replayed
      refine .inl (shows.ring_still ringPcs refines size cell running ?_)
      rw [there, phase]
      exact ⟨mine.1, .inr rfl⟩
    | pushed =>
      cases replayed
      refine .inr ⟨({ t with queue := t.queue ++ [some job] }.record
        (.submitted (t.use job) (t.jobs job).task)).goto thread
          (.signalPending (t.use job) (t.jobs job).join), ?_, ?_⟩
      · have room := sound.room_for_one (shows.pcs ▸ there)
        unfold advance
        rw [shows.pcs]
        simp only [there, if_pos room]
      · refine shows.ring_used ?_ rfl rfl ringPcs ?_ size cell running rfl ?_
        · show (t.toCore.record _).goto thread _ = _
          rw [shows.core]
          rfl
        · simpa [State.goto, State.record] using refines
        · rw [phase]
          exact ⟨mine.1, .inl rfl⟩

/-- A step of a push that has claimed its slot, up to its signal. -/
theorem Shows.signalPending (shows : Shows f t) {use : Use} {join failed : Bool}
    (there : f.pc thread = .signalPending use join)
    (timely : ThreadPoolQueue.Timely f.ring (.step (.inl thread) failed))
    (moved : access failed f thread = .ok f') :
    Shows f' t ∨ ∃ t', advance config failed t thread = .ok t' ∧ Shows f' t' := by
  have mine := shows.agrees thread
  have running : (f.pc thread).stopping = false := by
    rw [there]
    rfl
  simp only [access, there] at moved
  obtain ⟨ring, pc, line, operations, rfl, ringPcs, size, cell, refines, replayed, step⟩ :=
    shows.useRing timely moved
  rw [there] at mine
  have still : ∀ {phase}, ringPhase pc = phase → phase = .filling ∨ phase = .signaling →
      line = ⟨t.queue.map indexBytes, t.pending⟩ → Shows { f with ring } t := by
    rintro _ rfl phase rfl
    refine shows.ring_still ringPcs refines size cell running ?_
    rw [there]
    exact ⟨mine.1, phase⟩
  generalize phase : ringPhase pc = after at step
  rcases mine.2 with filling | signaling
  · rw [filling] at step
    cases step with
    | still =>
      cases replayed
      exact .inl (still phase (.inl rfl) rfl)
    | filled =>
      cases replayed
      exact .inl (still phase (.inr rfl) rfl)
  · rw [signaling] at step
    cases step with
    | still =>
      cases replayed
      exact .inl (still phase (.inr rfl) rfl)
    | signaled =>
      cases replayed
      refine .inr ⟨{ t with pending := t.pending + 1 }.goto thread (.getId use join), ?_,
        shows.ring_used ?_ rfl rfl ringPcs refines size cell running rfl ?_⟩
      · unfold advance
        rw [shows.pcs]
        simp only [there]
      · show t.toCore.goto thread _ = _
        rw [shows.core]
        rfl
      · rw [phase]
        exact ⟨mine.1, rfl⟩

/-- A step of a wait for the semaphore of the ring. -/
theorem Shows.waitPending (shows : Shows f t) {failed : Bool} (there : f.pc thread = .waitPending)
    (uninterrupted : failed = false)
    (timely : ThreadPoolQueue.Timely f.ring (.step (.inl thread) failed))
    (moved : access failed f thread = .ok f') :
    Shows f' t ∨ ∃ t', advance config failed t thread = .ok t' ∧ Shows f' t' := by
  have mine := shows.agrees thread
  have running : (f.pc thread).stopping = false := by
    rw [there]
    rfl
  simp only [access, there] at moved
  split at moved
  · rename_i idle
    cases moved
    have called : (ThreadPoolQueue.queues (Caller config)).next f.ring (.pop (.inl thread)) =
        some (f.gotoRing (.inl thread) .wait).ring := if_pos idle
    have timely : ThreadPoolQueue.Timely f.ring (.pop (.inl thread)) := trivial
    obtain ⟨line, replayed, refines⟩ := shows.ring.next timely called
    cases replayed
    refine .inl (shows.ring_still rfl refines rfl rfl running ?_)
    rw [there] at mine ⊢
    exact ⟨mine.1, .inr rfl⟩
  · rename_i busy
    rw [uninterrupted, if_neg Bool.false_ne_true] at moved
    split at moved
    · cases moved
    · rename_i positive
      rw [uninterrupted] at timely
      obtain ⟨ring, pc, line, operations, rfl, ringPcs, size, cell, refines, replayed, step⟩ :=
        shows.useRing timely moved
      rw [there] at mine
      rw [mine.2.resolve_left fun idle => busy (ringPhase_idle.mp idle)] at step
      generalize phase : ringPhase pc = after at step
      cases step with
      | still =>
        cases replayed
        refine .inl (shows.ring_still ringPcs refines size cell running ?_)
        rw [there, phase]
        exact ⟨mine.1, .inr rfl⟩
      | waited =>
        have pending : t.pending = f.ring.pending := shows.ring.pending
        rw [replay_singleton] at replayed
        simp only [lines] at replayed
        split at replayed <;> cases replayed
        refine .inr ⟨{ t with pending := t.pending - 1 }.goto thread .popQueue, ?_,
          shows.ring_used ?_ rfl rfl ringPcs refines size cell running rfl ?_⟩
        · unfold advance
          rw [shows.pcs]
          simp only [there, uninterrupted, Bool.false_eq_true, if_false, pending, positive]
        · show t.toCore.goto thread _ = _
          rw [shows.core]
          rfl
        · rw [phase]
          exact ⟨mine.1, rfl⟩

/-- A step of `lock_free_queue_pop`. -/
theorem Shows.popQueue (shows : Shows f t) (sound : Sound config t) {failed : Bool}
    (there : f.pc thread = .popQueue)
    (timely : ThreadPoolQueue.Timely f.ring (.step (.inl thread) failed))
    (moved : access failed f thread = .ok f') :
    Shows f' t ∨ ∃ t', advance config failed t thread = .ok t' ∧ Shows f' t' := by
  have mine := shows.agrees thread
  have running : (f.pc thread).stopping = false := by
    rw [there]
    rfl
  simp only [access, there] at moved
  obtain ⟨ring, pc, line, operations, rfl, ringPcs, size, cell, refines, replayed, step⟩ :=
    shows.useRing timely moved
  rw [there] at mine
  rw [mine.2] at step
  generalize phase : ringPhase pc = after at step
  cases step with
  | still =>
    cases replayed
    refine .inl (shows.ring_still ringPcs refines size cell running ?_)
    rw [there, phase]
    exact ⟨mine.1, rfl⟩
  | popped dst =>
    rw [replay_singleton] at replayed
    simp only [lines] at replayed
    cases listed : t.queue with
    | nil => simp [listed] at replayed
    | cons entry queue =>
      rw [listed, List.map_cons] at replayed
      simp only at replayed
      split at replayed <;> cases replayed
      rename_i first
      have read : readIndex dst = entry := by
        rw [← first]
        refine readIndex_indexBytes fun job same => ?_
        have queued : job ∈ t.queue.reduceOption := by
          rw [listed, List.reduceOption_mem_iff, ← Option.mem_def.mp same]
          exact List.mem_cons_self
        exact Nat.lt_trans (sound.valid.placed.inside .queue job queued) config.lt_int
      cases entry with
      | none =>
        refine .inr ⟨{ t with queue }.goto thread .exited, ?_,
          shows.ring_used ?_ rfl rfl ringPcs refines size cell running ?_ ?_⟩
        · unfold advance
          rw [shows.pcs]
          simp only [there, listed]
        · show t.toCore.goto thread _ = f.popped thread (.pop (.inl thread) dst)
          rw [shows.core, Detailed.popped, read]
        · rw [read]
          rfl
        · rw [read, phase]
          exact ⟨mine.1, rfl⟩
      | some job =>
        refine .inr ⟨{ t with queue }.goto thread (.call (t.use job)), ?_,
          shows.ring_used ?_ rfl rfl ringPcs refines size cell running ?_ ?_⟩
        · unfold advance
          rw [shows.pcs]
          simp only [there, listed]
        · show t.toCore.goto thread _ = f.popped thread (.pop (.inl thread) dst)
          rw [shows.core, Detailed.popped, read]
        · rw [read]
          rfl
        · rw [read, phase]
          exact ⟨mine.1, rfl⟩

/-! ### The shutdown -/

omit [Fintype Thread] [DecidableEq Thread] in
/-- Which push `ensure_deinit` is at: the last one that has claimed its slot, while it moves
`tail`, or the next one. -/
theorem Detailed.pushing_cases {pushed : Nat}
    (agrees : ∀ stop : Fin config.workers.length,
      StopAgrees (.pushStop pushed : Pc Task) stop.val (ringPhase (f.ring.pc (.inr stop)))) :
    (∃ stop, f.pushing pushed = some stop ∧ stop.val + 1 = pushed ∧
        ringPhase (f.ring.pc (.inr stop)) = .filling) ∨
      (∀ stop : Fin config.workers.length, stop.val < pushed →
          ringPhase (f.ring.pc (.inr stop)) = .signaling) ∧
        f.pushing pushed =
          if more : pushed < config.workers.length then some ⟨pushed, more⟩ else none := by
  have before : ∀ stop : Fin config.workers.length, stop.val + 1 < pushed →
      ringPhase (f.ring.pc (.inr stop)) = .signaling := by
    intro stop earlier
    have own := agrees stop
    rwa [StopAgrees, if_pos earlier] at own
  cases pushed with
  | zero => exact .inr ⟨fun stop earlier => absurd earlier (Nat.not_lt_zero _), rfl⟩
  | succ last =>
    by_cases claimed : last < config.workers.length
    · have own := agrees ⟨last, claimed⟩
      rw [StopAgrees, if_neg (Nat.lt_irrefl _), if_pos rfl] at own
      rcases own with filling | signaling
      · have busy : f.ring.pc (.inr ⟨last, claimed⟩) ≠ .signal := by
          intro signal
          rw [signal] at filling
          cases filling
        refine .inl ⟨⟨last, claimed⟩, ?_, rfl, filling⟩
        simp only [Detailed.pushing, dif_pos claimed, if_neg busy]
      · refine .inr ⟨fun stop earlier => ?_, ?_⟩
        · rcases Nat.lt_succ_iff_lt_or_eq.mp earlier with earlier | same
          · exact before stop (Nat.succ_lt_succ earlier)
          · rwa [show stop = ⟨last, claimed⟩ from Fin.ext same]
        · simp only [Detailed.pushing, dif_pos claimed, if_pos (ringPhase_signaling.mp signaling)]
    · refine .inr ⟨fun stop earlier => before stop ?_, ?_⟩
      · have inside := stop.isLt
        omega
      · simp only [Detailed.pushing, dif_neg claimed,
          dif_neg fun more => claimed (Nat.lt_of_succ_lt more)]

/-- An access to the ring of the thread that shuts the pool down has performed nothing. -/
theorem Shows.stop_still (shows : Shows f t) (sound : Sound config t) {here : Pc Task}
    (there : f.pc thread = here) (stopping : here.stopping = true)
    {ring : ThreadPoolQueue.State (Caller config)} {pc : ThreadPoolQueue.Pc}
    {stop : Fin config.workers.length}
    (ringPcs : ring.pc = Function.update f.ring.pc (.inr stop) pc)
    (refines : LineRefines ring ⟨t.queue.map indexBytes, t.pending⟩)
    (size : ring.queue.size = f.ring.queue.size) (cell : ring.queue.cell = f.ring.queue.cell)
    (own : StopAgrees here stop.val (ringPhase pc)) : Shows { f with ring } t := by
  subst there
  exact shows.ring_stopped sound shows.core rfl (Function.update_eq_self ..).symm ringPcs refines size
    cell stopping stopping (shows.agrees thread) own fun other _ => shows.stopping thread stopping other

/-- The last push of `ensure_deinit` moves `tail`. -/
theorem Shows.pushStop_filling (shows : Shows f t) (sound : Sound config t) {pushed : Nat}
    {failed : Bool} {stop : Fin config.workers.length}
    {returned : LineAction (Caller config) → Core Thread Task} (there : f.pc thread = .pushStop pushed)
    (last : stop.val + 1 = pushed) (filling : ringPhase (f.ring.pc (.inr stop)) = .filling)
    (timely : ThreadPoolQueue.Timely f.ring (.step (.inr stop) failed))
    (moved : f.useRing (.inr stop) failed returned = .ok f') : Shows f' t := by
  obtain ⟨ring, pc, line, operations, rfl, ringPcs, size, cell, refines, replayed, step⟩ :=
    shows.useRing timely moved
  rw [filling] at step
  have own : ∀ {phase}, ringPhase pc = phase → phase = .filling ∨ phase = .signaling →
      StopAgrees (.pushStop pushed : Pc Task) stop.val (ringPhase pc) := by
    rintro _ rfl phase
    rwa [StopAgrees, if_neg (by omega), if_pos last]
  generalize phase : ringPhase pc = after at step
  cases step with
  | still =>
    cases replayed
    exact shows.stop_still sound there rfl ringPcs refines size cell (own phase (.inl rfl))
  | filled =>
    cases replayed
    exact shows.stop_still sound there rfl ringPcs refines size cell (own phase (.inr rfl))

/-- The next push of `ensure_deinit` claims its slot. -/
theorem Shows.pushStop_claiming (shows : Shows f t) (sound : Sound config t) {pushed : Nat}
    {failed : Bool} (there : f.pc thread = .pushStop pushed) (more : pushed < config.workers.length)
    (claiming : ringPhase (f.ring.pc (.inr ⟨pushed, more⟩)) = .claiming (indexBytes none))
    (before : ∀ stop : Fin config.workers.length, stop.val < pushed →
      ringPhase (f.ring.pc (.inr stop)) = .signaling)
    (timely : ThreadPoolQueue.Timely f.ring (.step (.inr ⟨pushed, more⟩) failed))
    (moved : (f.useRing (.inr ⟨pushed, more⟩) failed fun _ =>
      f.toCore.goto thread (.pushStop (pushed + 1))) = .ok f') :
    Shows f' t ∨ ∃ t', advance config failed t thread = .ok t' ∧ Shows f' t' := by
  have stopping : (f.pc thread).stopping = true := by
    rw [there]
    rfl
  have agrees := shows.stopping thread stopping
  have mine := shows.agrees thread
  rw [there] at agrees mine
  obtain ⟨ring, pc, line, operations, rfl, ringPcs, size, cell, refines, replayed, step⟩ :=
    shows.useRing timely moved
  rw [claiming] at step
  generalize phase : ringPhase pc = after at step
  cases step with
  | still =>
    cases replayed
    refine .inl (shows.stop_still sound there rfl ringPcs refines size cell ?_)
    rw [phase]
    exact stopAgrees_next.mpr (.inr rfl)
  | pushed =>
    cases replayed
    have space : t.queue.length < config.maxJobs := by
      have room := refines.room
      rw [size, shows.size, List.length_append, List.length_map] at room
      exact room
    refine .inr ⟨{ t with queue := t.queue ++ [none] }.goto thread (.pushStop (pushed + 1)), ?_,
      shows.ring_stopped sound ?_ rfl rfl ringPcs ?_ size cell stopping rfl mine ?_
        fun other different => ?_⟩
    · unfold advance
      rw [shows.pcs]
      simp only [there, if_pos more, if_pos space]
    · show t.toCore.goto thread _ = _
      rw [shows.core]
      rfl
    · simpa [State.goto] using refines
    · rw [phase, StopAgrees, if_neg (Nat.lt_irrefl _), if_pos rfl]
      exact .inl rfl
    · have own := agrees other
      by_cases earlier : other.val < pushed
      · rw [before other earlier, StopAgrees, if_pos (Nat.succ_lt_succ earlier)]
      · simp only [StopAgrees, if_neg (show ¬ other.val + 1 < pushed by omega),
          if_neg (show other.val + 1 ≠ pushed by omega), if_neg different] at own
        have idle : ringPhase (f.ring.pc (.inr other)) = .idle := own
        simp [StopAgrees, idle, earlier, different]

/-- `ensure_deinit` has pushed for every worker. -/
theorem Shows.stopsPushed (shows : Shows f t) (sound : Sound config t) {pushed : Nat} {failed : Bool}
    (there : f.pc thread = .pushStop pushed) (all : ¬ pushed < config.workers.length)
    (before : ∀ stop : Fin config.workers.length, stop.val < pushed →
      ringPhase (f.ring.pc (.inr stop)) = .signaling) :
    ∃ t', advance config failed t thread = .ok t' ∧
      Shows { f with toCore := f.toCore.goto thread (.signalStop 0) } t' := by
  have stopping : (f.pc thread).stopping = true := by
    rw [there]
    rfl
  have mine := shows.agrees thread
  rw [there] at mine
  refine ⟨t.goto thread (.signalStop 0), ?_, ?_⟩
  · unfold advance
    rw [shows.pcs]
    simp only [there, if_neg all]
  · refine shows.stopped ⟨?_, rfl, shows.linked, shows.heads, shows.ring, rfl, rfl, mine,
      fun _ _ => ⟨rfl, rfl⟩⟩ (fun _ => shows.alone sound stopping) rfl fun stop => ?_
    · show t.toCore.goto thread _ = _
      rw [shows.core]
    · rw [StopAgrees, if_neg (Nat.not_lt_zero _)]
      exact before stop (by omega)

/-- A step of `ensure_deinit` while it pushes. -/
theorem Shows.pushStop (shows : Shows f t) (sound : Sound config t) {pushed : Nat} {failed : Bool}
    (there : f.pc thread = .pushStop pushed) (room : f.Room thread)
    (timely : ∀ caller ∈ f.caller thread, ThreadPoolQueue.Timely f.ring (.step caller failed))
    (moved : access failed f thread = .ok f') :
    Shows f' t ∨ ∃ t', advance config failed t thread = .ok t' ∧ Shows f' t' := by
  have agrees := shows.stopping thread (by rw [there]; rfl)
  rw [there] at agrees
  simp only [Detailed.caller, there] at timely
  simp only [Detailed.Room, there] at room
  simp only [access, there] at moved
  rcases Detailed.pushing_cases agrees with ⟨stop, found, last, filling⟩ | ⟨before, found⟩
  · simp only [found] at moved timely
    split at moved
    · rename_i idle
      rw [idle] at filling
      cases filling
    exact .inl (shows.pushStop_filling sound there last filling (timely _ rfl) moved)
  by_cases more : pushed < config.workers.length
  · rw [dif_pos more] at found
    simp only [found] at moved timely room
    have own := stopAgrees_next.mp (agrees ⟨pushed, more⟩)
    split at moved
    · rename_i idle
      cases moved
      exact .inl (shows.stop_still sound there rfl rfl (shows.push_refines none idle (room _ rfl idle))
        rfl rfl (stopAgrees_next.mpr (.inr rfl)))
    · rename_i busy
      have claiming := own.resolve_left fun idle => busy (ringPhase_idle.mp idle)
      exact shows.pushStop_claiming sound there more claiming before (timely _ rfl) moved
  · rw [dif_neg more] at found
    simp only [found] at moved
    cases moved
    exact .inr (shows.stopsPushed sound there more before)

/-- A step of `ensure_deinit` while it signals. -/
theorem Shows.signalStop (shows : Shows f t) (sound : Sound config t) {signaled : Nat} {failed : Bool}
    (there : f.pc thread = .signalStop signaled)
    (timely : ∀ caller ∈ f.caller thread, ThreadPoolQueue.Timely f.ring (.step caller failed))
    (moved : access failed f thread = .ok f') :
    Shows f' t ∨ ∃ t', advance config failed t thread = .ok t' ∧ Shows f' t' := by
  have stopping : (f.pc thread).stopping = true := by
    rw [there]
    rfl
  have agrees := shows.stopping thread stopping
  have mine := shows.agrees thread
  rw [there] at agrees mine
  simp only [Detailed.caller, there] at timely
  simp only [access, there] at moved
  by_cases more : signaled < config.workers.length
  · simp only [dif_pos more] at moved timely
    obtain ⟨ring, pc, line, operations, rfl, ringPcs, size, cell, refines, replayed, step⟩ :=
      shows.useRing (timely _ rfl) moved
    have own := agrees ⟨signaled, more⟩
    rw [StopAgrees, if_neg (Nat.lt_irrefl _)] at own
    rw [own] at step
    generalize phase : ringPhase pc = after at step
    cases step with
    | still =>
      cases replayed
      refine .inl (shows.stop_still sound there rfl ringPcs refines size cell ?_)
      rw [phase, StopAgrees, if_neg (Nat.lt_irrefl _)]
    | signaled =>
      cases replayed
      refine .inr ⟨{ t with pending := t.pending + 1 }.goto thread (.signalStop (signaled + 1)), ?_,
        shows.ring_stopped sound ?_ rfl rfl ringPcs refines size cell stopping rfl mine ?_
          fun other different => ?_⟩
      · unfold advance
        rw [shows.pcs]
        simp only [there, if_pos more]
      · show t.toCore.goto thread _ = _
        rw [shows.core]
        rfl
      · rw [phase, StopAgrees, if_pos (Nat.lt_succ_self _)]
      · have own := agrees other
        by_cases earlier : other.val < signaled
        · rw [StopAgrees, if_pos earlier] at own
          rw [own, StopAgrees, if_pos (Nat.lt_succ_of_lt earlier)]
        · rw [StopAgrees, if_neg earlier] at own
          rw [own, StopAgrees, if_neg fun later => ?_]
          exact earlier (Nat.lt_of_le_of_ne (Nat.le_of_lt_succ later) different)
  · simp only [dif_neg more] at moved
    cases moved
    refine .inr ⟨t.goto thread (.joinWorkers 0), ?_, ?_⟩
    · unfold advance
      rw [shows.pcs]
      simp only [there, if_neg more]
    · refine shows.stopped ⟨?_, rfl, shows.linked, shows.heads, shows.ring, rfl, rfl, mine,
        fun _ _ => ⟨rfl, rfl⟩⟩ (fun _ => shows.alone sound stopping) rfl fun stop => ?_
      · show t.toCore.goto thread _ = _
        rw [shows.core]
      · have own := agrees stop
        rwa [StopAgrees, if_pos (by omega)] at own

end Mysnips.ThreadPool

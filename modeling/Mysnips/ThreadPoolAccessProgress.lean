import Mysnips.ThreadPoolAccessRuns
import Mysnips.ThreadPoolAtomicProgress
import Mysnips.ThreadPoolProgress

/-! No job of the thread pool is forgotten, access by access. While no pop of the ring is being
overtaken, the threads can finish the operations that are under way and then serve the pool until
it rests. -/
namespace Mysnips.ThreadPool
open Transition System Totals ThreadPoolAtomic

variable {Thread Task : Type} [DecidableEq Thread] {config : Config Thread}
  {f f' : Detailed Task config} {t t' : State Thread Task} {thread : Thread}

/-- What an access of a thread does to the list and to the ring. What is around them stays as it is
exactly when the access performs no operation. -/
inductive Detailed.Moves (f : Detailed Task config) (thread : Thread) (failed : Bool) :
    Detailed Task config → Prop where
  | pushes (caller : Caller config) (entry : Option Nat) (idle : f.ring.pc caller = .idle) :
      f.Moves thread failed (f.push caller entry)
  | waits (idle : f.ring.pc (.inl thread) = .idle) :
      f.Moves thread failed (f.gotoRing (.inl thread) .wait)
  | used {caller : Caller config} {ring : ThreadPoolQueue.State (Caller config)}
      {core : Core Thread Task} (mine : f.caller thread = some caller)
      (stepped :
        (ThreadPoolQueue.queues (Caller config)).next f.ring (.step caller failed) = some ring)
      (quiet : core = f.toCore → lineOperations f.ring (.step caller failed) = []) :
      f.Moves thread failed { f with ring, toCore := core }
  | gives {called : ThreadPoolFreeList.Pc} (idle : f.list.pc thread = .idle)
      (first : listLeft f.list.freeJobs called < 4) :
      f.Moves thread failed { f with list := f.list.goto thread called }
  | linked {list : ThreadPoolFreeList.State Thread} {core : Core Thread Task}
      (stepped : (ThreadPoolFreeList.freeLists Thread).next f.list (.step thread) = some list)
      (quiet : core = f.toCore → listOperations f.list (.step thread) = []) :
      f.Moves thread failed { f with list, toCore := core }
  | elsewhere {core : Core Thread Task} (changed : core ≠ f.toCore) :
      f.Moves thread failed { f with toCore := core }

omit [DecidableEq Thread] in
theorem Core.ne_of_pc {c core : Core Thread Task} (thread : Thread)
    (different : core.pc thread ≠ c.pc thread) : core ≠ c := fun same => different (by rw [same])

@[simp] theorem Core.goto_pc_self {c : Core Thread Task} {pc' : Pc Task} :
    (c.goto thread pc').pc thread = pc' := Function.update_self ..

omit [DecidableEq Thread] in
/-- The next access of a thread to the list performs one pop, one push or nothing. -/
theorem listOperations_step (s : ThreadPoolFreeList.State Thread) (thread : Thread) :
    listOperations s (.step thread) = [] ∨ ∃ job,
      listOperations s (.step thread) = [.pop thread job] ∨
        listOperations s (.step thread) = [.push thread job] := by
  rw [listOperations]
  cases s.pc thread with
  | popExchange oldHead newHead =>
    rw [listOperation]
    split
    · exact .inr ⟨oldHead, .inl rfl⟩
    · exact .inl rfl
  | pushExchange job oldHead =>
    rw [listOperation]
    split
    · exact .inr ⟨job, .inr rfl⟩
    · exact .inl rfl
  | _ => exact .inl rfl

/-- An access to the list. -/
theorem Detailed.Moves.of_useList {failed : Bool} {called : ThreadPoolFreeList.Pc}
    {returned : Nat → Pc Task} (first : listLeft f.list.freeJobs called < 4)
    (goes : ∀ job, returned job ≠ f.pc thread)
    (moved : f.useList thread called returned = .ok f') : f.Moves thread failed f' := by
  unfold Detailed.useList at moved
  split at moved
  · rename_i idle
    cases moved
    exact .gives idle first
  · split at moved
    · cases moved
    · rename_i list stepped
      rcases listOperations_step f.list thread with still | ⟨job, popped | pushed⟩
      · simp only [still] at moved
        cases moved
        exact .linked stepped fun _ => still
      · simp only [popped] at moved
        cases moved
        refine .linked stepped fun same => absurd same (Core.ne_of_pc thread ?_)
        rw [Core.goto_pc_self]
        exact goes job
      · simp only [pushed] at moved
        cases moved
        refine .linked stepped fun same => absurd same (Core.ne_of_pc thread ?_)
        rw [Core.goto_pc_self]
        exact goes job

/-- An access to the ring. -/
theorem Detailed.Moves.of_useRing {failed : Bool} {caller : Caller config}
    {returned : LineAction (Caller config) → Core Thread Task} (mine : f.caller thread = some caller)
    (goes : ∀ operation ∈ lineOperations f.ring (.step caller failed),
      returned operation ≠ f.toCore)
    (moved : f.useRing caller failed returned = .ok f') : f.Moves thread failed f' := by
  unfold Detailed.useRing at moved
  split at moved
  · cases moved
  · rename_i ring stepped
    split at moved
    · rename_i operation rest performed
      cases moved
      refine .used mine stepped fun same => absurd same (goes _ ?_)
      rw [performed]
      exact List.mem_cons_self
    · rename_i performed
      cases moved
      exact .used mine stepped fun _ => performed

omit [DecidableEq Thread] in
/-- The next access of a pop performs the pop or nothing. -/
theorem lineOperation_popping {q : ThreadPoolQueue.Queue} {pc : ThreadPoolQueue.Pc}
    {operation : LineAction Thread} (phase : ringPhase pc = .popping)
    (performs : operation ∈ lineOperation thread q pc) : ∃ dst, operation = .pop thread dst := by
  cases pc with
  | loadHead | copyOut => cases performs
  | exchangeHead oldHead newHead dst copied =>
    rw [lineOperation] at performs
    split at performs
    · exact ⟨dst, List.mem_singleton.mp performs⟩
    · cases performs
  | _ => cases phase

/-- What a proper access does. -/
theorem Shows.moves [Fintype Thread] (shows : Shows f t) {failed : Bool}
    (proper : f.ProperStep thread failed) (moved : access failed f thread = .ok f') :
    f.Moves thread failed f' := by
  have mine := shows.agrees thread
  have core := proper.core
  unfold Core.ProperStep at core
  unfold access at moved
  cases there : f.pc thread with
  | popFree task join =>
    simp only [there] at moved
    exact .of_useList (by simp [listLeft]) (by simp [there]) moved
  | pushFree job after =>
    simp only [there] at moved
    exact .of_useList (by simp [listLeft]) (by simp [there]) moved
  | pushQueue job =>
    simp only [there] at moved
    split at moved
    · rename_i idle
      cases moved
      exact .pushes _ _ idle
    · refine .of_useRing (by simp [Detailed.caller, there]) (fun _ _ => ?_) moved
      exact Core.ne_of_pc thread (by simp [there])
  | signalPending use join =>
    simp only [there] at moved
    refine .of_useRing (by simp [Detailed.caller, there]) (fun _ _ => ?_) moved
    exact Core.ne_of_pc thread (by simp [there])
  | waitPending =>
    simp only [there] at moved core
    split at moved
    · rename_i idle
      cases moved
      exact .waits idle
    · rw [core, if_neg Bool.false_ne_true] at moved
      split at moved
      · cases moved
      · rw [core]
        refine .of_useRing (by simp [Detailed.caller, there]) (fun _ _ => ?_) moved
        exact Core.ne_of_pc thread (by simp [there])
  | popQueue =>
    simp only [there] at moved
    rw [there] at mine
    refine .of_useRing (by simp [Detailed.caller, there]) (fun operation performs => ?_) moved
    obtain ⟨dst, rfl⟩ := lineOperation_popping mine.2 performs
    refine Core.ne_of_pc thread ?_
    rw [Detailed.popped, Core.goto_pc_self, there]
    split <;> simp
  | pushStop pushed =>
    simp only [there] at moved
    split at moved
    · cases moved
      exact .elsewhere (Core.ne_of_pc thread (by simp [there]))
    · rename_i stop found
      split at moved
      · rename_i idle
        cases moved
        exact .pushes _ _ idle
      · refine .of_useRing (by simp [Detailed.caller, there, found]) (fun _ _ => ?_) moved
        exact Core.ne_of_pc thread (by simp [there])
  | signalStop signaled =>
    simp only [there] at moved
    split at moved
    · rename_i more
      refine .of_useRing (by simp [Detailed.caller, there, more]) (fun _ _ => ?_) moved
      exact Core.ne_of_pc thread (by simp [there])
    · cases moved
      exact .elsewhere (Core.ne_of_pc thread (by simp [there]))
  | _ =>
    simp only [there] at moved
    cases stepped : f.toCore.advance config failed thread with
    | error stop =>
      rw [stepped] at moved
      cases moved
    | ok core =>
      rw [stepped] at moved
      cases moved
      obtain ⟨pc', pcs, apart⟩ := Core.advance_apart stepped
      refine .elsewhere (Core.ne_of_pc thread ?_)
      rw [pcs, Function.update_self]
      exact apart.changed

variable [Fintype Thread]

/-! ### The accesses that are left -/

/-- What the pool has still to do before it rests: its steps, then what the calls on the ring have
to do for them, and the accesses to the list. -/
def Detailed.rank (f : Detailed Task config) : ℕ ×ₗ (ℕ ×ₗ ℕ) ×ₗ ℕ :=
  toLex (8 * (f.ring.history.claimed.length - f.ring.history.popped.length) + f.ring.pending +
      total (Pc.steps config.workers.length) f.pc,
    toLex (ringRank f.ring, total (listLeft f.list.freeJobs) f.list.pc))

/-- The steps of the pool are those of the pool that it shows. -/
theorem Shows.remaining (shows : Shows f t) : remaining config t =
    8 * (f.ring.history.claimed.length - f.ring.history.popped.length) + f.ring.pending +
      total (Pc.steps config.workers.length) f.pc := by
  have pending : t.pending = f.ring.pending := shows.ring.pending
  have items := congrArg List.length shows.ring.items
  rw [List.length_append, List.length_map, List.length_map] at items
  rw [ThreadPool.remaining, shows.pcs, pending, show t.queue.length =
    f.ring.history.claimed.length - f.ring.history.popped.length by omega]

/-- An access that performs nothing for a thread that serves the pool. -/
theorem Detailed.Moves.nearer (moves : f.Moves thread false f') (same : f'.toCore = f.toCore)
    (pushing : listPhase (f.list.pc thread) ≠ .popping) :
    toLex (ringRank f'.ring, total (listLeft f'.list.freeJobs) f'.list.pc) <
      toLex (ringRank f.ring, total (listLeft f.list.freeJobs) f.list.pc) := by
  rw [Prod.Lex.toLex_lt_toLex]
  cases moves with
  | pushes caller entry idle => exact .inl (ringRank_called idle rfl (by simp [ringLeft]))
  | waits idle => exact .inl (ringRank_called idle rfl (by simp [ringLeft]))
  | used mine stepped quiet => exact .inl (ring_nearer stepped (quiet same))
  | @gives called idle first =>
    have left := total_update (listLeft f.list.freeJobs) f.list.pc thread called
    rw [idle] at left
    refine .inr ⟨rfl, ?_⟩
    show total (listLeft f.list.freeJobs) (Function.update f.list.pc thread called) <
      total (listLeft f.list.freeJobs) f.list.pc
    rw [show listLeft f.list.freeJobs .idle = 4 from rfl] at left
    omega
  | linked stepped quiet =>
    cases phase : listPhase (f.list.pc thread) with
    | pushing job => exact .inr ⟨rfl, list_nearer phase stepped (quiet same)⟩
    | popping => exact absurd phase pushing
    | idle =>
      simp only [ThreadPoolFreeList.freeLists, listPhase_idle.mp phase] at stepped
      cases stepped
  | elsewhere changed => exact absurd same changed

/-! ### What the calls on the ring keep -/

omit [Fintype Thread] in
theorem Detailed.Moves.filled {failed : Bool} (moves : f.Moves thread failed f')
    (filled : Filled f.ring) : Filled f'.ring := by
  cases moves with
  | pushes caller entry idle =>
    exact filled.moved rfl (List.Subset.refl _) (by simp [idle, ThreadPoolQueue.Pc.filling])
  | waits idle => exact filled.moved rfl (List.Subset.refl _) (by simp [idle, ThreadPoolQueue.Pc.filling])
  | used mine stepped quiet => exact filled.step stepped
  | gives | linked | elsewhere => exact filled

/-- All that have read a slot of the ring have read the one at `head`. -/
def Detailed.AtHead (f : Detailed Task config) : Prop :=
  ∀ caller oldHead newHead dst copied,
    f.ring.pc caller = .exchangeHead oldHead newHead dst copied → f.ring.queue.head = oldHead

theorem Detailed.Moves.fresh {failed : Bool} (moves : f.Moves thread failed f')
    (valid : ThreadPoolQueue.Valid f.ring) (fresh : Fresh f.ring)
    (alone : ∀ caller ∈ f.caller thread, ∀ oldHead newHead dst copied,
      f.ring.pc caller = .exchangeHead oldHead newHead dst copied → f.ring.queue.head = oldHead →
        f.AtHead) : Fresh f'.ring := by
  cases moves with
  | pushes caller entry idle => exact fresh.moved rfl rfl (by simp)
  | waits idle => exact fresh.moved rfl rfl (by simp)
  | used mine stepped quiet =>
    exact fresh.step valid stepped fun _ _ _ _ there same => alone _ mine _ _ _ _ there same
  | gives | linked | elsewhere => exact fresh

/-- In every run each claimed slot is filled, or somebody is about to fill it. -/
theorem reachable_filled (reached : (properAccesses Task config).Reachable f) : Filled f.ring := by
  refine reached.invariant (P := fun f => Filled f.ring) (fun f begins => ?_)
    fun f action f' before filled moved => ?_
  · obtain ⟨-, -, -, -, -, history⟩ := begins
    intro turn claimed
    rw [history] at claimed
    cases claimed
  · obtain ⟨proper, moved⟩ := restrict_next.mp moved
    cases action with
    | step thread failed =>
      obtain ⟨t, -, shows⟩ := shows_reachable before
      exact (shows.moves proper (toOption_ok moved)).filled filled
    | create thread task join | done thread id | wait thread id | deinit thread =>
      obtain ⟨core, -, rfl⟩ := Option.map_eq_some_iff.mp moved
      exact filled

/-! ### Somebody can go on -/

/-- A thread that serves the pool can take its next access properly, and the pops stay fresh. -/
def Detailed.CanServe (f : Detailed Task config) : Prop :=
  ∃ thread f', (f.pc thread).serving = true ∧ f.ProperStep thread false ∧
    access false f thread = .ok f' ∧ Fresh f'.ring

/-- A thread that serves the pool takes no job structure from the list. -/
theorem Shows.not_popping (shows : Shows f t) (serves : (f.pc thread).serving = true) :
    listPhase (f.list.pc thread) ≠ .popping := by
  intro popping
  have mine := shows.agrees thread
  rw [popping] at mine
  cases there : f.pc thread with
  | popFree =>
    rw [there] at serves
    cases serves
  | pushFree =>
    rw [there] at mine
    rcases mine.1 with idle | pushing
    · cases idle
    · cases pushing
  | _ =>
    rw [there] at mine
    cases mine.1

/-- Who moves `tail` for a push that has claimed its slot. -/
theorem Shows.filler (shows : Shows f t) {caller : Caller config}
    (claimed : ringPhase (f.ring.pc caller) = .filling) :
    ∃ thread returned, (f.pc thread).serving = true ∧
      (∀ job after, f.pc thread ≠ .freeJob job after) ∧ f.caller thread = some caller ∧
      access false f thread = f.useRing caller false returned := by
  cases caller with
  | inl thread =>
    have mine := shows.agrees thread
    rw [claimed] at mine
    cases there : f.pc thread with
    | signalPending use join =>
      refine ⟨thread, fun _ => f.toCore.goto thread (.getId use join), by rw [there]; rfl,
        by simp [there], by simp [Detailed.caller, there], ?_⟩
      simp only [access, there]
    | pushQueue | waitPending =>
      rw [there] at mine
      rcases mine.2 with idle | busy
      · cases idle
      · cases busy
    | _ =>
      rw [there] at mine
      cases mine.2
  | inr stop =>
    obtain ⟨thread, stopping⟩ : ∃ thread, (f.pc thread).stopping = true := by
      by_contra none
      have idle := shows.running (fun thread => Bool.eq_false_iff.mpr fun stops => none ⟨thread, stops⟩)
        stop
      rw [claimed] at idle
      cases idle
    have agrees := shows.stopping thread stopping
    have own := agrees stop
    rw [claimed] at own
    cases there : f.pc thread with
    | pushStop pushed =>
      rw [there] at agrees own
      have last := stopAgrees_filling own
      have found : f.pushing pushed = some stop := by
        rcases Detailed.pushing_cases agrees with ⟨stop', found, last', -⟩ | ⟨before, -⟩
        · rw [found, show stop' = stop from Fin.ext (by omega)]
        · have signaling := before stop (by omega)
          rw [claimed] at signaling
          cases signaling
      refine ⟨thread, fun _ => f.toCore.goto thread (.pushStop (pushed + 1)), by rw [there]; rfl,
        by simp [there], by simp [Detailed.caller, there, found], ?_⟩
      simp only [access, there, found]
      split
      · rename_i idle
        rw [idle] at claimed
        cases claimed
      · rfl
    | signalStop signaled =>
      rw [there] at own
      simp only [StopAgrees] at own
      split at own <;> cases own
    | _ =>
      rw [there] at own
      cases own

omit [Fintype Thread] [DecidableEq Thread] in
/-- A push of an index that has begun needs no room. -/
theorem Detailed.Room.of_busy {caller : Caller config} (mine : f.caller thread = some caller)
    (busy : f.ring.pc caller ≠ .idle) : f.Room thread := by
  unfold Detailed.Room
  unfold Detailed.caller at mine
  cases there : f.pc thread with
  | pushStop pushed =>
    simp only [there] at mine
    intro stop found idle
    rw [Option.mem_def.mp found] at mine
    cases mine
    exact absurd idle busy
  | _ => trivial

/-- A step of a thread that serves the pool is proper when it is so without the list. -/
theorem Shows.proper (shows : Shows f t) (serves : (f.pc thread).serving = true)
    (core : f.toCore.ProperStep config thread false)
    (timely : ∀ caller ∈ f.caller thread, ThreadPoolQueue.Timely f.ring (.step caller false))
    (room : f.Room thread) : f.ProperStep thread false := by
  refine ⟨core, fun heads exchanging => ?_, timely, room⟩
  have apart := shows.not_popping serves
  cases there : f.list.pc thread with
  | popExchange =>
    rw [there] at apart
    exact absurd rfl apart
  | _ =>
    rw [there] at exchanging
    cases exchanging

/-- A caller that has begun an operation on the ring can go on, where it is no pop and no signal,
or the pop has to begin again. -/
theorem Shows.serve_ring (shows : Shows f t) (fresh : Fresh f.ring) {caller : Caller config}
    {returned : LineAction (Caller config) → Core Thread Task}
    (serves : (f.pc thread).serving = true) (frees : ∀ job after, f.pc thread ≠ .freeJob job after)
    (mine : f.caller thread = some caller)
    (accessed : access false f thread = f.useRing caller false returned)
    (busy : ringPhase (f.ring.pc caller) ≠ .idle) (going : ringPhase (f.ring.pc caller) ≠ .waiting)
    (announcing : ringPhase (f.ring.pc caller) ≠ .signaling)
    (behind : ∀ oldHead newHead dst copied,
      f.ring.pc caller = .exchangeHead oldHead newHead dst copied → f.ring.queue.head ≠ oldHead) :
    f.CanServe := by
  have timely : (f.ring.pc caller).Timely f.ring.queue f.ring.history := by
    cases there : f.ring.pc caller with
    | signal =>
      rw [there] at announcing
      exact absurd rfl announcing
    | exchangeHead oldHead newHead dst copied =>
      exact fun same => absurd same (behind _ _ _ _ there)
    | _ => trivial
  have proper : f.ProperStep thread false := by
    refine shows.proper serves (.uninterrupted fun job after there => absurd there (frees job after))
      (fun other theirs => ?_) (.of_busy mine fun idle => busy (ringPhase_idle.mpr idle))
    rw [mine] at theirs
    cases theirs
    exact timely
  obtain ⟨f', moved⟩ := shows.ring_goes_on false returned busy
    fun waits => absurd waits going
  refine ⟨thread, f', serves, proper, accessed.trans moved, ?_⟩
  refine (shows.moves proper (accessed.trans moved)).fresh shows.ring.valid fresh ?_
  intro other theirs oldHead newHead dst copied there same
  rw [mine] at theirs
  cases theirs
  exact absurd same (behind _ _ _ _ there)

omit [Fintype Thread] in
theorem Detailed.useRing_not_blocked {caller : Caller config} {failed : Bool}
    {returned : LineAction (Caller config) → Core Thread Task} :
    f.useRing caller failed returned ≠ .error .blocked := by
  unfold Detailed.useRing
  split
  · simp
  · split <;> simp

/-- An access waits only where the step that it is part of waits. -/
theorem Shows.not_blocked (shows : Shows f t)
    (able : advance config false t thread ≠ .error .blocked) :
    access false f thread ≠ .error .blocked := by
  intro blocked
  unfold advance at able
  rw [shows.pcs] at able
  cases there : f.pc thread with
  | popFree task join | pushFree job after =>
    simp only [access, there] at blocked
    obtain ⟨f', moved⟩ := shows.list_goes_on thread _ _
    cases moved.symm.trans blocked
  | pushQueue job =>
    simp only [access, there] at blocked
    split at blocked
    · cases blocked
    · exact Detailed.useRing_not_blocked blocked
  | waitPending =>
    simp only [access, there] at blocked able
    split at blocked
    · cases blocked
    · rw [if_neg Bool.false_ne_true] at blocked able
      split at blocked
      · rename_i none
        have pending : t.pending = f.ring.pending := shows.ring.pending
        rw [if_pos (pending.trans none)] at able
        exact able rfl
      · exact Detailed.useRing_not_blocked blocked
  | signalPending | popQueue =>
    simp only [access, there] at blocked
    exact Detailed.useRing_not_blocked blocked
  | pushStop pushed =>
    simp only [access, there] at blocked
    split at blocked
    · cases blocked
    · split at blocked
      · cases blocked
      · exact Detailed.useRing_not_blocked blocked
  | signalStop signaled =>
    simp only [access, there] at blocked
    split at blocked
    · exact Detailed.useRing_not_blocked blocked
    · cases blocked
  | _ =>
    simp only [access, there] at blocked
    simp only [there, shows.core] at able
    cases stepped : f.toCore.advance config false thread with
    | ok core =>
      rw [stepped] at blocked
      cases blocked
    | error stop =>
      rw [stepped] at blocked able
      cases blocked
      exact able rfl

/-- The next access of a thread exists where the step that it is part of does. -/
theorem Shows.goes_on (shows : Shows f t) (sound : Sound config t) (proper : f.ProperStep thread false)
    (able : advance config false t thread = .ok t') : ∃ f', access false f thread = .ok f' := by
  cases stepped : access false f thread with
  | ok f' => exact ⟨f', rfl⟩
  | error stop =>
    cases stop with
    | fault => exact absurd stepped (shows.no_fault sound proper)
    | blocked => exact absurd stepped (shows.not_blocked (by simp [able]))

/-- Beside the thread that shuts the pool down nobody is about to push a job. -/
theorem Sound.no_pushes (sound : Sound config t) (stopping : (t.pc thread).stopping = true)
    (other : Thread) : (t.pc other).pushes = 0 := by
  have still : ∀ {pc : Pc Task}, pc.stopping = true ∨ pc.working = true ∨ pc = .idle →
      pc.pushes = 0 := by
    intro pc kind
    cases pc with
    | pushQueue => rcases kind with stops | works | idle <;> contradiction
    | _ => rfl
  by_cases same : other = thread
  · exact still (.inl (same ▸ stopping))
  by_cases works : other ∈ config.workers
  · exact still (.inr (.inl ((sound.closing.roles other).mpr works)))
  · exact still (.inr (.inr (sound.closing.alone thread stopping other same works)))

/-- There is room in the ring for the next index that stops a worker where there is room in the
queue, because nobody else pushes. -/
theorem Shows.stop_room (shows : Shows f t) (sound : Sound config t) (room : t.Room config thread) :
    f.Room thread := by
  unfold State.Room at room
  unfold Detailed.Room
  rw [shows.pcs] at room
  cases there : f.pc thread with
  | pushStop pushed =>
    simp only [there] at room
    intro stop found idle
    have stopping : (f.pc thread).stopping = true := by
      rw [there]
      rfl
    have agrees := shows.stopping thread stopping
    rw [there] at agrees
    rcases Detailed.pushing_cases agrees with ⟨stop', found', -, filling⟩ | ⟨before, next⟩
    · cases found'.symm.trans found
      rw [idle] at filling
      cases filling
    · rw [next] at found
      obtain ⟨more, same⟩ := Option.dite_none_right_eq_some.mp found
      cases same
      have unclaimed : total ThreadPoolQueue.Pc.unclaimed f.ring.pc = 0 := by
        refine total_zero fun caller => ?_
        rw [unclaimed_eq]
        cases caller with
        | inl other =>
          have pushes := sound.no_pushes (by rwa [shows.pcs]) other
          have few := (shows.agrees other).unclaimed
          rw [shows.pcs] at pushes
          rw [pushes] at few
          exact Multiset.card_eq_zero.mp (Nat.le_zero.mp few)
        | inr other =>
          have own := agrees other
          by_cases earlier : other.val < pushed
          · rw [before other earlier]
            rfl
          · by_cases here : other.val = pushed
            · rw [show other = ⟨pushed, more⟩ from Fin.ext here, idle]
              rfl
            · rw [StopAgrees, if_neg (by omega), if_neg (by omega), if_neg here] at own
              rw [own]
              rfl
      have called := congrArg Multiset.card shows.ring.valid.counted.called
      have items := congrArg List.length shows.ring.items
      rw [unclaimed, add_zero, Multiset.coe_card, Multiset.coe_card] at called
      rw [List.length_append, List.length_map, List.length_map] at items
      have space := room more
      rw [shows.size]
      omega
  | _ => trivial

/-- Who uses a slot of the ring for a pop is a worker. -/
theorem Shows.popper (shows : Shows f t) {caller : Caller config}
    (popping : ringPhase (f.ring.pc caller) = .popping) :
    ∃ thread, caller = .inl thread ∧ f.pc thread = .popQueue := by
  cases caller with
  | inl thread =>
    have mine := shows.agrees thread
    rw [popping] at mine
    refine ⟨thread, rfl, ?_⟩
    cases there : f.pc thread with
    | popQueue => rfl
    | pushQueue | signalPending | waitPending =>
      rw [there] at mine
      rcases mine.2 with idle | busy
      · cases idle
      · cases busy
    | _ =>
      rw [there] at mine
      cases mine.2
  | inr stop =>
    by_cases stops : ∃ thread, (f.pc thread).stopping = true
    · obtain ⟨thread, stopping⟩ := stops
      have own := shows.stopping thread stopping stop
      rw [popping] at own
      cases there : f.pc thread with
      | pushStop | signalStop =>
        rw [there] at own
        simp [StopAgrees] at own
      | _ =>
        rw [there] at own
        cases own
    · have idle := shows.running
        (fun thread => Bool.eq_false_iff.mpr fun stopping => stops ⟨thread, stopping⟩) stop
      rw [popping] at idle
      cases idle

/-- As long as the pool does not rest, somebody can go on. First the pushes that have claimed a
slot move `tail`, then the pops that read a slot behind `head` begin again. -/
theorem Shows.serves (shows : Shows f t) (sound : Sound config t) (filled : Filled f.ring)
    (fresh : Fresh f.ring) (tolerant : config.freesUnset = true) (young : Young t)
    (busy : ¬ Rests config t) : f.CanServe := by
  by_cases filling : ∃ caller, ringPhase (f.ring.pc caller) = .filling
  · obtain ⟨caller, claimed⟩ := filling
    obtain ⟨thread, returned, serves, frees, mine, accessed⟩ := shows.filler claimed
    refine shows.serve_ring fresh serves frees mine accessed (by simp [claimed])
      (by simp [claimed]) (by simp [claimed]) fun _ _ _ _ there => ?_
    rw [there] at claimed
    cases claimed
  by_cases atHead : f.AtHead
  · obtain ⟨thread, t', serves, proper, moved⟩ := sound.serves tolerant young busy
    rw [shows.core] at serves
    have timely : ∀ caller ∈ f.caller thread,
        ThreadPoolQueue.Timely f.ring (.step caller false) := by
      intro caller _
      show (f.ring.pc caller).Timely f.ring.queue f.ring.history
      cases there : f.ring.pc caller with
      | signal =>
        rw [← there]
        refine filled.timely shows.ring.valid (fun other => ?_) there
        exact unmoved_eq_zero fun claimed => filling ⟨other, claimed⟩
      | exchangeHead oldHead newHead dst copied =>
        rw [← there]
        exact fresh.timely shows.ring.valid there
      | _ => trivial
    have proper := shows.proper serves (shows.core ▸ proper.1) timely (shows.stop_room sound proper.2)
    obtain ⟨f', accessed⟩ := shows.goes_on sound proper moved
    exact ⟨thread, f', serves, proper, accessed,
      (shows.moves proper accessed).fresh shows.ring.valid fresh fun _ _ _ _ _ _ _ _ => atHead⟩
  · simp only [Detailed.AtHead, not_forall] at atHead
    obtain ⟨caller, oldHead, newHead, dst, copied, there, behind⟩ := atHead
    have popping : ringPhase (f.ring.pc caller) = .popping := by
      rw [there]
      rfl
    obtain ⟨thread, rfl, pops⟩ := shows.popper popping
    have mine : f.caller thread = some (.inl thread) := by simp [Detailed.caller, pops]
    have accessed : access false f thread =
        f.useRing (.inl thread) false (f.popped thread) := by simp only [access, pops]
    refine shows.serve_ring fresh (by rw [pops]; rfl) (by simp [pops]) mine accessed
      (by simp [popping]) (by simp [popping]) (by simp [popping])
      fun _ _ _ _ here => ?_
    cases there.symm.trans here
    exact behind

/-! ### What can always be reached -/

end Mysnips.ThreadPool

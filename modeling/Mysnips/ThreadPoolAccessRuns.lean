import Mysnips.ThreadPoolRefinement

/-! What holds in every run of the thread pool access by access, as long as no pop is overtaken
and no signal is early. -/
namespace Mysnips.ThreadPool
open Transition System Totals ThreadPoolAtomic

variable {Thread Task : Type} [Fintype Thread] [DecidableEq Thread] {config : Config Thread}
  {f f' : Detailed Task config} {t t' : State Thread Task} {thread : Thread}

/-- A proper access is a step of the pool whose operations are single steps, or none. -/
theorem Shows.accessed (shows : Shows f t) (sound : Sound config t) {failed : Bool}
    (proper : f.ProperStep thread failed) (moved : access failed f thread = .ok f') :
    Shows f' t ∨ ∃ t', advance config failed t thread = .ok t' ∧ Shows f' t' := by
  have core := proper.core
  have timely := proper.timely
  unfold Core.ProperStep at core
  unfold Detailed.caller at timely
  cases there : f.pc thread with
  | popFree task join =>
    simp only [access, there] at moved
    exact shows.popFree sound there proper.unchanged moved
  | pushFree job after =>
    simp only [access, there] at moved
    exact shows.pushFree sound there proper.unchanged moved
  | pushQueue job =>
    simp only [there] at timely
    exact shows.pushQueue sound there (timely _ rfl) moved
  | signalPending use join =>
    simp only [there] at timely
    exact shows.signalPending there (timely _ rfl) moved
  | waitPending =>
    simp only [there] at timely core
    exact shows.waitPending there core (timely _ rfl) moved
  | popQueue =>
    simp only [there] at timely
    exact shows.popQueue sound there (timely _ rfl) moved
  | pushStop pushed => exact shows.pushStop sound there proper.room proper.timely moved
  | signalStop signaled => exact shows.signalStop sound there proper.timely moved
  | _ =>
    simp only [access, there] at moved
    cases stepped : f.toCore.advance config failed thread with
    | error stop =>
      rw [stepped] at moved
      cases moved
    | ok core =>
      rw [stepped] at moved
      cases moved
      refine .inr ⟨{ t with toCore := core }, ?_, shows.core_step sound stepped⟩
      unfold advance
      rw [shows.pcs]
      simp only [there, shows.core, stepped]
      rfl

omit [Fintype Thread] in
/-- A step that is taken finds room in the queue. -/
theorem State.Room.of_advance {failed : Bool} (moved : advance config failed t thread = .ok t') :
    t.Room config thread := by
  unfold State.Room
  cases there : t.pc thread with
  | pushStop pushed =>
    intro more
    by_contra full
    unfold advance at moved
    simp only [there, if_pos more, if_neg full] at moved
    cases moved
  | _ => trivial

/-- A proper call or step is one of the pool whose operations are single steps, or none. -/
theorem Shows.next (shows : Shows f t) (sound : Sound config t) {action : Action Thread Task}
    (moved : (properAccesses Task config).next f action = some f') :
    Shows f' t ∨ ∃ t', (properPools Thread Task config).next t action = some t' ∧ Shows f' t' := by
  obtain ⟨proper, moved⟩ := restrict_next.mp moved
  cases action with
  | step thread failed =>
    rcases shows.accessed sound proper (toOption_ok moved) with shown | ⟨t', stepped, shown⟩
    · exact .inl shown
    · refine .inr ⟨t', restrict_next.mpr ⟨⟨?_, .of_advance stepped⟩, ?_⟩, shown⟩
      · rw [shows.core]
        exact proper.core
      · simp only [pools, stepped]
        rfl
  | create thread task join | done thread id | wait thread id | deinit thread =>
    obtain ⟨core, called, rfl⟩ := Option.map_eq_some_iff.mp moved
    refine .inr ⟨{ t with toCore := core }, restrict_next.mpr ⟨?_, ?_⟩,
      shows.call sound called proper⟩
    · simp only [Proper, shows.core]
      exact proper
    · simp only [pools, shows.core, called]
      rfl

/-- `ensure_init` links all jobs and makes an empty ring. -/
theorem Shows.start (begins : (accesses Task config).initial f) :
    ∃ t, (properPools Thread Task config).initial t ∧ Shows f t := by
  obtain ⟨core, list, ⟨indices, length, queue⟩, pending, idle, history⟩ := begins
  have positive := config.positive
  have fits := config.fits
  have pcs := core.2.2.2.2.1
  have ring : LineRefines f.ring ⟨[], 0⟩ :=
    .start ⟨⟨indices, 4, by decide, by omega, queue⟩, pending, idle, history⟩
  have made : f.ring.queue = ⟨0, 0, 0, config.maxJobs, 4, indices⟩ := by
    rw [ThreadPoolQueue.init, if_pos (by omega)] at queue
    rw [← Option.some.inj queue, length, Nat.mul_div_cancel _ (by decide)]
  have role : ∀ thread, f.pc thread = .waitPending ∨ f.pc thread = .idle := by
    intro thread
    rw [pcs]
    split
    · exact .inl rfl
    · exact .inr rfl
  refine ⟨⟨f.toCore, List.range config.maxJobs, [], 0⟩, ⟨core, rfl, rfl, rfl⟩, rfl, ⟨?_, ?_⟩, ?_,
    ring, by rw [made], by rw [made], fun thread => ?_, fun thread stopping => ?_, fun _ stop => ?_⟩
  · rw [list, List.range_eq_range', ← Nat.sub_add_cancel positive]
    exact ThreadPoolFreeList.initNext_chain (by omega)
  · rw [list]
    exact nofun
  · rw [list]
    exact nofun
  · rw [list, idle]
    rcases role thread with waits | free
    · rw [waits]
      exact ⟨rfl, .inl rfl⟩
    · rw [free]
      exact ⟨rfl, rfl⟩
  · rcases role thread with waits | free
    · rw [waits] at stopping
      cases stopping
    · rw [free] at stopping
      cases stopping
  · rw [idle]
    rfl

/-- Each state of a run shows one of the pool whose operations are single steps. -/
theorem shows_reachable (reached : (properAccesses Task config).Reachable f) :
    ∃ t, (properPools Thread Task config).Reachable t ∧ Shows f t := by
  have related : ∃ t, (properPools Thread Task config).Reachable t ∧ Shows f t ∧ Sound config t := by
    refine reached.refines (R := fun f t => Shows f t ∧ Sound config t) (fun f begins => ?_) ?_
    · obtain ⟨t, initial, shows⟩ := Shows.start begins
      exact ⟨t, initial, shows, reachable_sound (.start initial)⟩
    · rintro f action f' t ⟨shows, sound⟩ moved
      rcases shows.next sound moved with shown | ⟨t', stepped, shown⟩
      · exact .inl ⟨shown, sound⟩
      · obtain ⟨proper, taken⟩ := restrict_next.mp stepped
        exact .inr ⟨action, t', stepped, shown, sound.next proper taken⟩
  obtain ⟨t, before, shows, -⟩ := related
  exact ⟨t, before, shows⟩

/-- What the pointers and the ring hold: the jobs in the free list in its order, and the entries
whose slots are claimed and that are not popped. -/
structure Detailed.Holds (f : Detailed Task config) (free : List Nat) (queue : List (Option Nat)) :
    Prop where
  free : SinglyLinked.Chain f.list.next f.list.freeJobs free
  queue : f.ring.history.claimed =
    f.ring.history.popped.map Prod.fst ++ queue.map indexBytes

/-- In every state of a run all is known of the pool, with what its pointers and its ring hold. -/
theorem reachable_holds (reached : (properAccesses Task config).Reachable f) : ∃ free queue,
    f.Holds free queue ∧ Sound config ⟨f.toCore, free, queue, f.ring.pending⟩ := by
  obtain ⟨⟨core, free, queue, pending⟩, before, shows⟩ := shows_reachable reached
  obtain rfl : core = f.toCore := shows.core
  obtain rfl : pending = f.ring.pending := shows.ring.pending
  exact ⟨free, queue, ⟨shows.linked.chain, shows.ring.items⟩, reachable_sound before⟩

/-- The next access of a thread inside `free_list_pop` or `free_list_push` exists. -/
theorem Shows.list_goes_on (shows : Shows f t) (thread : Thread) (called : ThreadPoolFreeList.Pc)
    (returned : Nat → Pc Task) : ∃ f', f.useList thread called returned = .ok f' := by
  have head := shows.heads thread
  unfold Detailed.useList
  split
  · exact ⟨_, rfl⟩
  · rename_i busy
    obtain ⟨list, stepped⟩ :
        ∃ list, (ThreadPoolFreeList.freeLists Thread).next f.list (.step thread) = some list := by
      simp only [ThreadPoolFreeList.freeLists]
      cases there : f.list.pc thread with
      | idle => exact absurd there busy
      | popNext oldHead =>
        cases oldHead with
        | none => exact absurd there head
        | some oldHead => exact ⟨_, rfl⟩
      | popExchange | pushExchange =>
        simp only [ThreadPoolFreeList.advance]
        split <;> exact ⟨_, rfl⟩
      | popLoad | pushLoad | pushStore => exact ⟨_, rfl⟩
    simp only [stepped]
    split <;> exact ⟨_, rfl⟩

/-- The next access of a caller to the ring exists, unless it waits for the semaphore. -/
theorem Shows.ring_goes_on (shows : Shows f t) {caller : Caller config} (spurious : Bool)
    (returned : LineAction (Caller config) → Core Thread Task)
    (busy : ringPhase (f.ring.pc caller) ≠ .idle)
    (pending : ringPhase (f.ring.pc caller) = .waiting → 0 < f.ring.pending) :
    ∃ f', f.useRing caller spurious returned = .ok f' := by
  have positive : 0 < f.ring.queue.size := by
    rw [shows.size]
    exact config.positive
  obtain ⟨ring, stepped⟩ := shows.ring.goes_on positive (fun idle => busy (ringPhase_idle.mpr idle))
    (fun waits => pending (ringPhase_waiting.mpr waits)) spurious
  unfold Detailed.useRing
  simp only [stepped]
  split <;> exact ⟨_, rfl⟩

/-- No access to the free list faults. -/
theorem Shows.list_no_fault (shows : Shows f t) {called : ThreadPoolFreeList.Pc}
    {returned : Nat → Pc Task} : f.useList thread called returned ≠ .error .fault := by
  intro stuck
  obtain ⟨f', moved⟩ := shows.list_goes_on thread called returned
  cases moved.symm.trans stuck

/-- No access to the ring faults. -/
theorem Shows.ring_no_fault (shows : Shows f t) {caller : Caller config} {spurious : Bool}
    {returned : LineAction (Caller config) → Core Thread Task}
    (busy : ringPhase (f.ring.pc caller) ≠ .idle)
    (pending : ringPhase (f.ring.pc caller) = .waiting → 0 < f.ring.pending) :
    f.useRing caller spurious returned ≠ .error .fault := by
  intro stuck
  obtain ⟨f', moved⟩ := shows.ring_goes_on spurious returned busy pending
  cases moved.symm.trans stuck

/-- No access of `ensure_deinit` while it pushes faults. -/
theorem Shows.pushStop_no_fault (shows : Shows f t) {pushed : Nat} {failed : Bool}
    (there : f.pc thread = .pushStop pushed) : access failed f thread ≠ .error .fault := by
  intro fault
  have agrees := shows.stopping thread (by rw [there]; rfl)
  rw [there] at agrees
  simp only [access, there] at fault
  rcases Detailed.pushing_cases agrees with ⟨stop, found, -, filling⟩ | ⟨-, found⟩
  · simp only [found] at fault
    split at fault
    · cases fault
    · exact shows.ring_no_fault (by simp [filling]) (by simp [filling]) fault
  by_cases more : pushed < config.workers.length
  · rw [dif_pos more] at found
    simp only [found] at fault
    split at fault
    · cases fault
    · rename_i busy
      have own := stopAgrees_next.mp (agrees ⟨pushed, more⟩)
      have claiming := own.resolve_left fun idle => busy (ringPhase_idle.mp idle)
      exact shows.ring_no_fault (by simp [claiming]) (by simp [claiming]) fault
  · rw [dif_neg more] at found
    simp only [found] at fault
    cases fault

/-- A proper access does not follow a null pointer, does not leave the array of indices, and uses
initialized semaphores only. -/
theorem Shows.no_fault (shows : Shows f t) (sound : Sound config t) {failed : Bool}
    (proper : f.ProperStep thread failed) : access failed f thread ≠ .error .fault := by
  have mine := shows.agrees thread
  have core := sound.core_no_fault (shows.core.symm ▸ proper.core)
  rw [shows.core] at core
  intro fault
  cases there : f.pc thread with
  | popFree task join | pushFree job after =>
    simp only [access, there] at fault
    exact shows.list_no_fault fault
  | pushQueue job =>
    simp only [access, there] at fault
    rw [there] at mine
    split at fault
    · cases fault
    · rename_i busy
      have claiming := mine.2.resolve_left fun idle => busy (ringPhase_idle.mp idle)
      exact shows.ring_no_fault (by simp [claiming]) (by simp [claiming]) fault
  | signalPending use join =>
    simp only [access, there] at fault
    rw [there] at mine
    rcases mine.2 with filling | signaling
    · exact shows.ring_no_fault (by simp [filling]) (by simp [filling]) fault
    · exact shows.ring_no_fault (by simp [signaling]) (by simp [signaling]) fault
  | waitPending =>
    simp only [access, there] at fault
    split at fault
    · cases fault
    · rename_i busy
      split at fault
      · cases fault
      · split at fault
        · cases fault
        · rename_i positive
          exact shows.ring_no_fault (fun idle => busy (ringPhase_idle.mp idle))
            (fun _ => Nat.pos_of_ne_zero positive) fault
  | popQueue =>
    simp only [access, there] at fault
    rw [there] at mine
    exact shows.ring_no_fault (by simp [mine.2]) (by simp [mine.2]) fault
  | pushStop pushed => exact shows.pushStop_no_fault there fault
  | signalStop signaled =>
    have agrees := shows.stopping thread (by rw [there]; rfl)
    rw [there] at agrees
    simp only [access, there] at fault
    split at fault
    · rename_i more
      have own := agrees ⟨signaled, more⟩
      rw [StopAgrees, if_neg (Nat.lt_irrefl _)] at own
      exact shows.ring_no_fault (by simp [own]) (by simp [own]) fault
    · cases fault
  | _ =>
    simp only [access, there] at fault
    cases stepped : f.toCore.advance config failed thread with
    | ok core =>
      rw [stepped] at fault
      cases fault
    | error stop =>
      rw [stepped] at fault
      cases fault
      exact core stepped

/-! ### A pool of one job structure and one worker -/

def single : Config Bool where
  maxJobs := 1
  positive := Nat.one_pos
  fits := by decide
  workers := [true]
  distinct := List.nodup_singleton true
  created := by simp
  invalidJob := 0
  freesUnset := true

def started : Detailed Unit single where
  jobs _ := ⟨0, false, (), false, none, 0⟩
  complete := 1
  joinableCount := 0
  pc thread := if thread then .waitPending else .idle
  log := []
  list := ⟨ThreadPoolFreeList.initNext 1, some 0, fun _ => .idle, fun _ => []⟩
  ring := ⟨⟨0, 0, 0, 1, 4, [0, 0, 0, 0]⟩, 0, fun _ => .idle, ⟨[], [], [], 0, 0, []⟩⟩

theorem started_reachable : (properAccesses Unit single).Reachable started := by
  refine .start ⟨⟨fun _ => ⟨rfl, rfl⟩, fun _ _ => rfl, rfl, rfl, fun thread => ?_, rfl⟩, rfl,
    ⟨[0, 0, 0, 0], rfl, rfl⟩, rfl, fun _ => rfl, rfl⟩
  simp [started, single]

/-- A job is submitted, and the worker runs it. -/
def work : List (Action Bool Unit) :=
  .create false () true :: List.replicate 16 (.step false false) ++ List.replicate 8 (.step true false)

/-- The job is collected. -/
def collection : List (Action Bool Unit) :=
  .wait false 4294967297 :: List.replicate 8 (.step false false)

/-- The pool is shut down. -/
def shutdown : List (Action Bool Unit) :=
  .deinit false :: List.replicate 9 (.step false false) ++ List.replicate 5 (.step true false) ++
    List.replicate 2 (.step false false)

/-! ### What holds in every run -/

theorem Pc.eq_popQueue {pc : Pc Task} (fetching : pc.fetching = 1) : pc = .popQueue := by
  cases pc <;> first | rfl | cases fetching

def Pc.isStopped : Pc Task → Bool
  | .stopped => true
  | _ => false

theorem Pc.eq_stopped {pc : Pc Task} (stopped : pc.isStopped = true) : pc = .stopped := by
  cases pc <;> first | rfl | cases stopped

end Mysnips.ThreadPool

import Mathlib.Logic.Function.Basic
import Mysnips.Custody
import Mysnips.SinglyLinked
import Mysnips.Transition

/-! The free list of `thread/thread_pool.c`. Any number of threads run
`free_list_pop` and `free_list_push`; the load of the head, the load or store of
`next` and the compare-exchange are separate steps. A pop that is suspended between
its load of `next` and its compare-exchange can find the same head over another
list: the exchange then makes a job the head that somebody owns. -/
namespace Mysnips.ThreadPoolFreeList
open Custody SinglyLinked Transition

/-- A job structure, by its index in `pool->jobs`. -/
abbrev Job : Type := Nat

/-- The next access of a thread, with the locals it still needs. -/
inductive Pc where
  | idle
  | popLoad
  | popNext (oldHead : Option Job)
  | popExchange (oldHead : Job) (newHead : Option Job)
  | pushLoad (job : Job)
  | pushStore (job : Job) (oldHead : Option Job)
  | pushExchange (job : Job) (oldHead : Option Job)
  deriving DecidableEq, Repr

/-- The job that a thread is pushing back. -/
def Pc.pushing : Pc → Option Job
  | .pushLoad job => some job
  | .pushStore job _ => some job
  | .pushExchange job _ => some job
  | _ => none

@[simp] theorem pushing_idle : Pc.idle.pushing = none := rfl

@[simp] theorem pushing_pushLoad {job : Job} : (Pc.pushLoad job).pushing = some job := rfl

@[simp] theorem pushing_pushStore {job : Job} {oldHead : Option Job} :
    (Pc.pushStore job oldHead).pushing = some job := rfl

@[simp] theorem pushing_pushExchange {job : Job} {oldHead : Option Job} :
    (Pc.pushExchange job oldHead).pushing = some job := rfl

/-- The `next` fields and `free_jobs`, where each thread is, and the jobs it was given. -/
structure State (Thread : Type) where
  next : Job → Option Job
  freeJobs : Option Job
  pc : Thread → Pc
  held : Thread → List Job

/-- The jobs a thread owns: those it was given, up to the exchange that pushes them back. -/
def State.owned {Thread : Type} (s : State Thread) (thread : Thread) : List Job :=
  (s.pc thread).pushing.toList ++ s.held thread

/-- `ensure_init`: the free list holds the jobs in their order. -/
def initNext (maxJobs : Nat) (job : Job) : Option Job :=
  if job + 1 < maxJobs then some (job + 1) else none

/-- A call of an idle thread, the next step of a call, or a job that goes to another
thread through the queue of pending jobs. -/
inductive Action (Thread : Type) where
  | pop (thread : Thread)
  | push (thread : Thread) (job : Job)
  | step (thread : Thread)
  | hand (giver receiver : Thread) (job : Job)

variable {Thread : Type} [DecidableEq Thread]

def State.goto (s : State Thread) (thread : Thread) (pc : Pc) : State Thread :=
  { s with pc := Function.update s.pc thread pc }

@[simp] theorem goto_pc_self {s : State Thread} {thread : Thread} {pc : Pc} :
    (s.goto thread pc).pc thread = pc := Function.update_self ..

theorem goto_pc_ne {s : State Thread} {thread other : Thread} {pc : Pc}
    (different : other ≠ thread) : (s.goto thread pc).pc other = s.pc other :=
  Function.update_of_ne different ..

/-- The next access of `free_list_pop` or `free_list_push`. Following a null head is a
fault. -/
def advance (s : State Thread) (thread : Thread) : Pc → Option (State Thread)
  | .idle => none
  | .popLoad => some (s.goto thread (.popNext s.freeJobs))
  | .popNext none => none
  | .popNext (some oldHead) => some (s.goto thread (.popExchange oldHead (s.next oldHead)))
  | .popExchange oldHead newHead =>
    if s.freeJobs = some oldHead then
      some { s.goto thread .idle with
        freeJobs := newHead
        held := Function.update s.held thread (oldHead :: s.held thread) }
    else some (s.goto thread .popLoad)
  | .pushLoad job => some (s.goto thread (.pushStore job s.freeJobs))
  | .pushStore job oldHead =>
    some { s.goto thread (.pushExchange job oldHead) with
      next := Function.update s.next job oldHead }
  | .pushExchange job oldHead =>
    if s.freeJobs = oldHead then some { s.goto thread .idle with freeJobs := some job }
    else some (s.goto thread (.pushLoad job))

/-- Any number of threads on one free list. A thread pushes and hands over only jobs that
it holds. -/
def freeLists (Thread : Type) [DecidableEq Thread] : System (State Thread) (Action Thread) where
  initial s := ∃ maxJobs, 0 < maxJobs ∧ s.next = initNext maxJobs ∧ s.freeJobs = some 0 ∧
    (∀ thread, s.pc thread = .idle) ∧ ∀ thread, s.held thread = []
  next s action :=
    match action with
    | .pop thread => if s.pc thread = .idle then some (s.goto thread .popLoad) else none
    | .push thread job =>
      if s.pc thread = .idle ∧ job ∈ s.held thread then
        some { s.goto thread (.pushLoad job) with
          held := Function.update s.held thread ((s.held thread).erase job) }
      else none
    | .step thread => advance s thread (s.pc thread)
    | .hand giver receiver job =>
      if s.pc giver = .idle ∧ job ∈ s.held giver ∧ giver ≠ receiver then
        some { s with
          held := Function.update (Function.update s.held giver ((s.held giver).erase job))
            receiver (job :: s.held receiver) }
      else none

/-- The list is a duplicate-free chain of jobs that nobody owns, and no job has two owners. -/
structure Exclusive (s : State Thread) : Prop where
  free : ∃ jobs, Chain s.next s.freeJobs jobs ∧ jobs.Nodup ∧
    ∀ job ∈ jobs, ∀ thread, job ∉ s.owned thread
  owner : ∀ thread other job, job ∈ s.owned thread → job ∈ s.owned other → thread = other
  once : ∀ thread, (s.owned thread).Nodup

/-- The two pointers of a pop that is about to exchange them. -/
def Pc.exchanging : Pc → Option (Job × Option Job)
  | .popExchange oldHead newHead => some (oldHead, newHead)
  | _ => none

/-- A pop whose exchange is about to succeed would still read the same `next` at the head. -/
def HeadUnchanged (s : State Thread) : Action Thread → Prop
  | .step thread => ∀ heads ∈ (s.pc thread).exchanging,
    s.freeJobs = some heads.1 → s.next heads.1 = heads.2
  | _ => True

instance (s : State Thread) : (action : Action Thread) → Decidable (HeadUnchanged s action)
  | .step thread => inferInstanceAs (Decidable (∀ heads ∈ (s.pc thread).exchanging,
    s.freeJobs = some heads.1 → s.next heads.1 = heads.2))
  | .pop _ => isTrue trivial
  | .push _ _ => isTrue trivial
  | .hand _ _ _ => isTrue trivial

/-! ## The invariant -/

/-- The jobs of the list, and those of each thread. -/
def State.places {Thread : Type} (s : State Thread) (free : List Job) : Option Thread → List Job
  | none => free
  | some thread => s.owned thread

/-- The invariant. A thread that is about to push has linked its job before the head it saw. -/
structure Valid {Thread : Type} (s : State Thread) : Prop where
  places : ∃ free, Chain s.next s.freeJobs free ∧ Separate (s.places free)
  linked : ∀ thread job oldHead, s.pc thread = .pushExchange job oldHead → s.next job = oldHead

omit [DecidableEq Thread] in
theorem Valid.exclusive {s : State Thread} (valid : Valid s) : Exclusive s := by
  obtain ⟨free, chain, separate⟩ := valid.places
  refine ⟨⟨free, chain, separate.once none, ?_⟩, ?_, fun thread => separate.once (some thread)⟩
  · intro job listed thread member
    cases separate.one none (some thread) job listed member
  · intro thread other job first second
    exact Option.some.inj (separate.one (some thread) (some other) job first second)

/-- What the other threads linked stays linked when only owned jobs are linked anew. -/
theorem Valid.linked_goto {s : State Thread} {thread : Thread} {pc : Pc} {next : Job → Option Job}
    (valid : Valid s) (mine : ∀ job oldHead, pc = .pushExchange job oldHead → next job = oldHead)
    (others : ∀ other, other ≠ thread → ∀ job ∈ (s.pc other).pushing, next job = s.next job) :
    ∀ other job oldHead, (s.goto thread pc).pc other = .pushExchange job oldHead →
      next job = oldHead := by
  intro other job oldHead there
  by_cases same : other = thread
  · rw [same, goto_pc_self] at there
    exact mine job oldHead there
  · rw [goto_pc_ne same] at there
    rw [others other same job (by rw [there]; rfl)]
    exact valid.linked other job oldHead there

theorem Valid.goto {s : State Thread} {thread : Thread} {pc : Pc} (valid : Valid s)
    (pushing : pc.pushing = (s.pc thread).pushing)
    (mine : ∀ job oldHead, pc = .pushExchange job oldHead → s.next job = oldHead) :
    Valid (s.goto thread pc) := by
  obtain ⟨free, chain, separate⟩ := valid.places
  refine ⟨⟨free, chain, separate.reorder fun place => ?_⟩,
    valid.linked_goto mine fun _ _ _ _ => rfl⟩
  cases place with
  | none => exact .refl _
  | some other =>
    apply List.Perm.of_eq
    by_cases same : other = thread
    · simp only [State.places, State.owned, same, goto_pc_self, pushing]
      rfl
    · simp only [State.places, State.owned, goto_pc_ne same]
      rfl

/-- A pop whose exchange succeeds on an unchanged head takes the first job of the list. -/
theorem Valid.taken {s : State Thread} {thread : Thread} {job : Job} (valid : Valid s)
    (idle : (s.pc thread).pushing = none) (first : s.freeJobs = some job) :
    Valid { s.goto thread .idle with
      freeJobs := s.next job
      held := Function.update s.held thread (job :: s.held thread) } := by
  obtain ⟨free, chain, separate⟩ := valid.places
  rw [first] at chain
  obtain ⟨rest, rfl, tail⟩ := chain.of_some
  refine ⟨⟨rest, tail, ?_⟩, valid.linked_goto (fun _ _ => nofun) fun _ _ _ _ => rfl⟩
  refine separate.move job none (some thread) nofun (.refl _) ?_ ?_
  · simp [State.places, State.owned, State.goto, idle]
  · intro place listed different
    cases place with
    | none => exact absurd rfl listed
    | some other =>
      have different : other ≠ thread := fun same => different (congrArg some same)
      simp [State.places, State.owned, State.goto, Function.update_of_ne different]

/-- A push links its job, which nobody else owns, before the head it saw. -/
theorem Valid.linkedAnew {s : State Thread} {thread : Thread} {job : Job} {oldHead : Option Job}
    (valid : Valid s) (there : s.pc thread = .pushStore job oldHead) :
    Valid { s.goto thread (.pushExchange job oldHead) with
      next := Function.update s.next job oldHead } := by
  obtain ⟨free, chain, separate⟩ := valid.places
  have mine : job ∈ s.places free (some thread) := by simp [State.places, State.owned, there]
  refine ⟨⟨free, chain.update ?_ oldHead, separate.reorder fun place => ?_⟩,
    valid.linked_goto ?_ fun other different job' pushing => ?_⟩
  · intro listed
    cases separate.one none (some thread) job listed mine
  · cases place with
    | none => exact .refl _
    | some other =>
      by_cases same : other = thread
      · simp [State.places, State.owned, same, there, State.goto]
      · simp [State.places, State.owned, State.goto, Function.update_of_ne same]
  · intro job' oldHead' same
    cases same
    exact Function.update_self ..
  · apply Function.update_of_ne
    rintro rfl
    have theirs : job' ∈ s.places free (some other) := by
      simp [State.places, State.owned, Option.mem_def.mp pushing]
    exact different (Option.some.inj (separate.one _ _ job' theirs mine))

/-- A push whose exchange succeeds gives its job to the list. -/
theorem Valid.given {s : State Thread} {thread : Thread} {job : Job} (valid : Valid s)
    (there : s.pc thread = .pushExchange job s.freeJobs) :
    Valid { s.goto thread .idle with freeJobs := some job } := by
  obtain ⟨free, chain, separate⟩ := valid.places
  refine ⟨⟨job :: free, ⟨rfl, ?_⟩, ?_⟩, valid.linked_goto (fun _ _ => nofun) fun _ _ _ _ => rfl⟩
  · show Chain s.next (s.next job) free
    rw [valid.linked thread job s.freeJobs there]
    exact chain
  refine separate.move job (some thread) none nofun ?_ (.refl _) ?_
  · simp [State.places, State.owned, State.goto, there]
  · intro place different listed
    cases place with
    | none => exact absurd rfl listed
    | some other =>
      have different : other ≠ thread := fun same => different (congrArg some same)
      simp [State.places, State.owned, State.goto, Function.update_of_ne different]

/-- A thread begins to push a job that it holds. -/
theorem Valid.pushed {s : State Thread} {thread : Thread} {job : Job} (valid : Valid s)
    (idle : s.pc thread = .idle) (held : job ∈ s.held thread) :
    Valid { s.goto thread (.pushLoad job) with
      held := Function.update s.held thread ((s.held thread).erase job) } := by
  obtain ⟨free, chain, separate⟩ := valid.places
  refine ⟨⟨free, chain, separate.reorder fun place => ?_⟩,
    valid.linked_goto (fun _ _ => nofun) fun _ _ _ _ => rfl⟩
  cases place with
  | none => exact .refl _
  | some other =>
    by_cases same : other = thread
    · simp only [State.places, State.owned, same, goto_pc_self, idle, pushing_idle, pushing_pushLoad,
        Function.update_self, Option.toList_some, Option.toList_none, List.nil_append]
      exact (List.perm_cons_erase held).symm
    · simp [State.places, State.owned, State.goto, Function.update_of_ne same]

/-- A held job goes to another thread. -/
theorem Valid.handed {s : State Thread} {giver receiver : Thread} {job : Job} (valid : Valid s)
    (held : job ∈ s.held giver) (apart : giver ≠ receiver) :
    Valid { s with
      held := Function.update (Function.update s.held giver ((s.held giver).erase job))
        receiver (job :: s.held receiver) } := by
  obtain ⟨free, chain, separate⟩ := valid.places
  refine ⟨⟨free, chain, ?_⟩, valid.linked⟩
  refine separate.move job (some giver) (some receiver) (fun same => apart (Option.some.inj same))
    ?_ ?_ ?_
  · simp only [State.places, State.owned, Function.update_of_ne apart, Function.update_self]
    exact ((List.perm_cons_erase held).append_left _).trans List.perm_middle
  · simp only [State.places, State.owned, Function.update_self]
    exact List.perm_middle
  · intro place notGiver notReceiver
    cases place with
    | none => exact .refl _
    | some other =>
      have notGiver : other ≠ giver := fun same => notGiver (congrArg some same)
      have notReceiver : other ≠ receiver := fun same => notReceiver (congrArg some same)
      simp [State.places, State.owned, Function.update_of_ne notGiver,
        Function.update_of_ne notReceiver]

/-- `ensure_init` links the jobs in their order. -/
theorem initNext_chain {maxJobs count first : Nat} (last : first + count + 1 = maxJobs) :
    Chain (initNext maxJobs) (some first) (List.range' first (count + 1)) := by
  induction count generalizing first with
  | zero => simp [List.range', initNext, ← last]
  | succ count ih =>
    have inside : first + 1 < maxJobs := by omega
    refine ⟨rfl, ?_⟩
    rw [initNext, if_pos inside]
    exact ih (by omega)

theorem Valid.start {s : State Thread} (begins : (freeLists Thread).initial s) : Valid s := by
  obtain ⟨maxJobs, positive, next, head, idle, held⟩ := begins
  refine ⟨⟨List.range' 0 (maxJobs - 1 + 1), ?_, ?_⟩, ?_⟩
  · rw [next, head]
    exact initNext_chain (by omega)
  · have empty : ∀ thread, s.owned thread = [] := by
      intro thread
      simp [State.owned, idle, held]
    refine ⟨fun place => ?_, fun place other job first second => ?_⟩
    · cases place with
      | none => exact List.nodup_range' ..
      | some thread => simp [State.places, empty]
    · cases place with
      | none =>
        cases other with
        | none => rfl
        | some other => simp [State.places, empty] at second
      | some thread => simp [State.places, empty] at first
  · intro thread job oldHead there
    cases (idle thread).symm.trans there

/-- The next access of a call keeps the invariant. -/
theorem Valid.advance {s s' : State Thread} {thread : Thread} (valid : Valid s)
    (unchanged : HeadUnchanged s (.step thread))
    (moved : ThreadPoolFreeList.advance s thread (s.pc thread) = some s') : Valid s' := by
  cases pc : s.pc thread with
  | idle =>
    rw [pc] at moved
    cases moved
  | popLoad =>
    rw [pc] at moved
    cases moved
    exact valid.goto (by rw [pc]; rfl) fun _ _ => nofun
  | popNext oldHead =>
    rw [pc] at moved
    cases oldHead with
    | none => cases moved
    | some oldHead =>
      cases moved
      exact valid.goto (by rw [pc]; rfl) fun _ _ => nofun
  | popExchange oldHead newHead =>
    simp only [pc, ThreadPoolFreeList.advance] at moved
    split at moved
    · rename_i same
      cases moved
      have linked : s.next oldHead = newHead :=
        unchanged (oldHead, newHead) (by rw [pc]; rfl) same
      rw [← linked]
      exact valid.taken (by rw [pc]; rfl) same
    · cases moved
      exact valid.goto (by rw [pc]; rfl) fun _ _ => nofun
  | pushLoad job =>
    rw [pc] at moved
    cases moved
    exact valid.goto (by rw [pc]; rfl) fun _ _ => nofun
  | pushStore job oldHead =>
    rw [pc] at moved
    cases moved
    exact valid.linkedAnew pc
  | pushExchange job oldHead =>
    simp only [pc, ThreadPoolFreeList.advance] at moved
    split at moved
    · rename_i same
      cases moved
      rw [← same] at pc
      exact valid.given pc
    · cases moved
      exact valid.goto (by rw [pc]; rfl) fun _ _ => nofun

theorem Valid.next {s s' : State Thread} {action : Action Thread} (valid : Valid s)
    (unchanged : HeadUnchanged s action) (moved : (freeLists Thread).next s action = some s') :
    Valid s' := by
  cases action with
  | pop thread =>
    simp only [freeLists] at moved
    split at moved
    · rename_i idle
      cases moved
      exact valid.goto (by rw [idle]; rfl) fun _ _ => nofun
    · cases moved
  | push thread job =>
    simp only [freeLists] at moved
    split at moved
    · rename_i called
      cases moved
      exact valid.pushed called.1 called.2
    · cases moved
  | hand giver receiver job =>
    simp only [freeLists] at moved
    split at moved
    · rename_i called
      cases moved
      exact valid.handed called.2.1 called.2.2
    · cases moved
  | step thread => exact valid.advance unchanged moved

/-- In every run in which each successful pop still finds the link it has read, the list is
a duplicate-free chain of jobs that nobody owns, and no job has two owners. -/
theorem exclusive_while_head_unchanged {Thread : Type} [DecidableEq Thread] {s : State Thread}
    (reached : ((freeLists Thread).restrict HeadUnchanged).Reachable s) : Exclusive s := by
  have valid : Valid s := by
    refine reached.invariant (fun _ begins => .start begins) ?_
    intro s action s' _ valid moved
    obtain ⟨unchanged, moved⟩ := System.restrict_next.mp moved
    exact valid.next unchanged moved
  exact valid.exclusive

/-- Three free jobs, and three threads that do nothing yet. -/
def threeJobs : State (Fin 3) := ⟨initNext 3, some 0, fun _ => .idle, fun _ => []⟩

theorem threeJobs_initial : (freeLists (Fin 3)).initial threeJobs :=
  ⟨3, by decide, rfl, rfl, fun _ => rfl, fun _ => rfl⟩

/-- The steps of a pop that is not disturbed. -/
def popSteps (thread : Fin 3) : List (Action (Fin 3)) :=
  [.pop thread, .step thread, .step thread, .step thread]

/-- The steps of a push that is not disturbed. -/
def pushSteps (thread : Fin 3) (job : Job) : List (Action (Fin 3)) :=
  [.push thread job, .step thread, .step thread, .step thread]

/-- Two threads pop, and the second gives its job to the first, which pushes it back. -/
theorem exclusive_while_head_unchanged_applies :
    ∃ s, ((freeLists (Fin 3)).restrict HeadUnchanged).Reachable s ∧
      s.freeJobs = some 1 ∧ s.owned 0 = [0] ∧ Exclusive s := by
  have begun : ((freeLists (Fin 3)).restrict HeadUnchanged).Reachable threeJobs :=
    .start threeJobs_initial
  obtain ⟨s, reached, checked⟩ := begun.replay_check
    (popSteps 0 ++ popSteps 1 ++ [.hand 1 0 1] ++ pushSteps 0 1)
    (fun s => s.freeJobs = some 1 && s.owned 0 = [0]) (by decide)
  obtain ⟨head, owned⟩ : s.freeJobs = some 1 ∧ s.owned 0 = [0] := by simpa using checked
  exact ⟨s, reached, head, owned, exclusive_while_head_unchanged reached⟩

/-- A pop is suspended before its exchange while the others pop two jobs and push the first
one back. Its exchange then makes the second one the head, and the next pop hands that one
out again. -/
theorem suspended_pop_hands_out_twice : ∃ s, (freeLists (Fin 3)).Reachable s ∧
    1 ∈ s.owned 1 ∧ 1 ∈ s.owned 2 ∧ ¬ Exclusive s := by
  have begun : (freeLists (Fin 3)).Reachable threeJobs := .start threeJobs_initial
  obtain ⟨s, reached, checked⟩ := begun.replay_check
    ([.pop 0, .step 0, .step 0] ++ popSteps 1 ++ popSteps 2 ++ pushSteps 1 0 ++ [.step 0] ++
      popSteps 1)
    (fun s => s.owned 1 = [1] && s.owned 2 = [1]) (by decide)
  obtain ⟨one, two⟩ : s.owned 1 = [1] ∧ s.owned 2 = [1] := by simpa using checked
  have first : 1 ∈ s.owned 1 := by simp [one]
  have second : 1 ∈ s.owned 2 := by simp [two]
  refine ⟨s, reached, first, second, fun exclusive => ?_⟩
  have same := exclusive.owner 1 2 1 first second
  cases same

end Mysnips.ThreadPoolFreeList

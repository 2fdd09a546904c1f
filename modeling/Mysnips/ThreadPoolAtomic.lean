import Mysnips.ThreadPoolFreeList
import Mysnips.ThreadPoolQueue

/-! The free list and the queue of the thread pool as they are meant to be, with operations that
take effect at once. A run of the list of pointers, or of the ring of indices, performs each of its
operations at one of the compare-exchanges. While no pop is overtaken and no signal is early, what
it has performed is a run of the stack, or of the queue, with the same results in the same order. -/
namespace Mysnips.ThreadPoolAtomic
open Transition System

section FreeList

open ThreadPoolFreeList Custody SinglyLinked

/-- The free jobs, and those of each thread. -/
structure Lists (Thread : Type) where
  free : List Job
  owned : Thread → Multiset Job

/-- An operation, with the job that a pop returns. -/
inductive ListAction (Thread : Type) where
  | pop (thread : Thread) (job : Job)
  | push (thread : Thread) (job : Job)
  | hand (giver receiver : Thread) (job : Job)
  deriving DecidableEq

/-- A stack of jobs. -/
def lists (Thread : Type) [DecidableEq Thread] : System (Lists Thread) (ListAction Thread) where
  initial t := ∃ maxJobs, 0 < maxJobs ∧ t.free = List.range maxJobs ∧ ∀ thread, t.owned thread = 0
  next t action :=
    match action with
    | .pop thread job =>
      match t.free with
      | [] => none
      | first :: free =>
        if first = job then some ⟨free, Function.update t.owned thread (job ::ₘ t.owned thread)⟩
        else none
    | .push thread job =>
      if job ∈ t.owned thread then
        some ⟨job :: t.free, Function.update t.owned thread ((t.owned thread).erase job)⟩
      else none
    | .hand giver receiver job =>
      if job ∈ t.owned giver ∧ giver ≠ receiver then
        some ⟨t.free, Function.update (Function.update t.owned giver ((t.owned giver).erase job))
          receiver (job ::ₘ t.owned receiver)⟩
      else none

/-- What the next access of `free_list_pop` or `free_list_push` performs. -/
def listOperation {Thread : Type} (thread : Thread) (freeJobs : Option Job) :
    Pc → List (ListAction Thread)
  | .popExchange oldHead _ => if freeJobs = some oldHead then [.pop thread oldHead] else []
  | .pushExchange job oldHead => if freeJobs = oldHead then [.push thread job] else []
  | _ => []

/-- What a step of the list of pointers performs. -/
def listOperations {Thread : Type} (s : State Thread) : Action Thread → List (ListAction Thread)
  | .step thread => listOperation thread s.freeJobs (s.pc thread)
  | .hand giver receiver job => [.hand giver receiver job]
  | .pop _ | .push _ _ => []

/-- What a call is about. -/
inductive ListPhase where
  | idle
  | popping
  | pushing (job : Job)

def listPhase : Pc → ListPhase
  | .idle => .idle
  | .popLoad | .popNext _ | .popExchange _ _ => .popping
  | .pushLoad job | .pushStore job _ | .pushExchange job _ => .pushing job

/-- The job that is pushed. -/
def ListPhase.job : ListPhase → Option Job
  | .pushing job => some job
  | _ => none

theorem pushing_eq (pc : Pc) : pc.pushing = (listPhase pc).job := by
  cases pc <;> rfl

variable {Thread : Type} {s s' : State Thread} {thread : Thread} {free : List Job}

/-- The pointers lead through the free jobs, and a thread that is about to push has linked its job
before the head it saw. -/
structure Linked (s : State Thread) (free : List Job) : Prop where
  chain : Chain s.next s.freeJobs free
  linked : ∀ thread job oldHead, s.pc thread = .pushExchange job oldHead → s.next job = oldHead

variable [DecidableEq Thread]

/-- What the next access of a thread does to the list of the free jobs, by what it performs. -/
inductive ListStep (s : State Thread) (free : List Job) (thread : Thread) (s' : State Thread) :
    List (ListAction Thread) → List Job → Prop where
  | still {pc : Pc} (pcs : s'.pc = Function.update s.pc thread pc)
      (phase : listPhase pc = listPhase (s.pc thread)) (held : s'.held = s.held)
      (head : free ≠ [] → pc ≠ .popNext none) : ListStep s free thread s' [] free
  | popped {job : Job} {rest : List Job} (pcs : s'.pc = Function.update s.pc thread .idle)
      (phase : listPhase (s.pc thread) = .popping) (listed : free = job :: rest)
      (held : s'.held = Function.update s.held thread (job :: s.held thread)) :
      ListStep s free thread s' [.pop thread job] rest
  | pushed {job : Job} (pcs : s'.pc = Function.update s.pc thread .idle)
      (phase : listPhase (s.pc thread) = .pushing job) (held : s'.held = s.held) :
      ListStep s free thread s' [.push thread job] (job :: free)

/-- A thread that has not linked a job goes on. -/
theorem Linked.goto {pc : Pc} (linked : Linked s free) (unlinked : ∀ job oldHead, pc ≠ .pushExchange job oldHead) :
    Linked (s.goto thread pc) free := by
  refine ⟨linked.chain, fun other job oldHead there => ?_⟩
  by_cases same : other = thread
  · rw [same, goto_pc_self] at there
    exact absurd there (unlinked job oldHead)
  · rw [goto_pc_ne same] at there
    exact linked.linked other job oldHead there

/-- The next access of a thread, when nobody else has the job that it pushes. -/
theorem Linked.advance (linked : Linked s free) (unchanged : HeadUnchanged s (.step thread))
    (mine : ∀ job ∈ (s.pc thread).pushing, job ∉ free ∧
      ∀ other, other ≠ thread → (s.pc other).pushing ≠ some job)
    (moved : ThreadPoolFreeList.advance s thread (s.pc thread) = some s') :
    ∃ free', Linked s' free' ∧
      ListStep s free thread s' (listOperation thread s.freeJobs (s.pc thread)) free' := by
  cases pc : s.pc thread with
  | idle =>
    rw [pc] at moved
    cases moved
  | popLoad =>
    rw [pc] at moved
    cases moved
    refine ⟨free, linked.goto (by simp), .still rfl (by rw [pc]; rfl) rfl fun some none => ?_⟩
    have chain := linked.chain
    rw [show s.freeJobs = .none from Pc.popNext.inj none] at chain
    cases free with
    | nil => exact some rfl
    | cons job rest => cases chain.1
  | popNext oldHead =>
    rw [pc] at moved
    cases oldHead with
    | none => cases moved
    | some oldHead =>
      cases moved
      exact ⟨free, linked.goto (by simp), .still rfl (by rw [pc]; rfl) rfl (by simp)⟩
  | popExchange oldHead newHead =>
    simp only [pc, ThreadPoolFreeList.advance] at moved
    split at moved <;> rename_i same <;> cases moved
    · have read : s.next oldHead = newHead := unchanged (oldHead, newHead) (by rw [pc]; rfl) same
      have chain := linked.chain
      rw [same] at chain
      obtain ⟨rest, rfl, tail⟩ := chain.of_some
      rw [listOperation, if_pos same]
      refine ⟨rest, ⟨?_, (linked.goto (by simp)).linked⟩, .popped rfl (by rw [pc]; rfl) rfl rfl⟩
      rw [← read]
      exact tail
    · rw [listOperation, if_neg same]
      exact ⟨free, linked.goto (by simp), .still rfl (by rw [pc]; rfl) rfl (by simp)⟩
  | pushLoad job =>
    rw [pc] at moved
    cases moved
    exact ⟨free, linked.goto (by simp), .still rfl (by rw [pc]; rfl) rfl (by simp)⟩
  | pushStore job oldHead =>
    rw [pc] at moved
    cases moved
    obtain ⟨unlisted, alone⟩ := mine job (by rw [pc]; rfl)
    refine ⟨free, ⟨linked.chain.update unlisted oldHead, fun other job' oldHead' there => ?_⟩,
      .still rfl (by rw [pc]; rfl) rfl (by simp)⟩
    by_cases same : other = thread
    · rw [same] at there
      cases (goto_pc_self).symm.trans there
      exact Function.update_self ..
    · have before := (goto_pc_ne same).symm.trans there
      refine (Function.update_of_ne ?_ ..).trans (linked.linked other job' oldHead' before)
      rintro rfl
      exact alone other same (by rw [before]; rfl)
  | pushExchange job oldHead =>
    simp only [pc, ThreadPoolFreeList.advance] at moved
    split at moved <;> rename_i same <;> cases moved
    · rw [listOperation, if_pos same]
      refine ⟨job :: free, ⟨⟨rfl, ?_⟩, (linked.goto (by simp)).linked⟩, .pushed rfl (by rw [pc]; rfl) rfl⟩
      show Chain s.next (s.next job) free
      rw [linked.linked thread job oldHead pc, ← same]
      exact linked.chain
    · rw [listOperation, if_neg same]
      exact ⟨free, linked.goto (by simp), .still rfl (by rw [pc]; rfl) rfl (by simp)⟩

variable {t : Lists Thread}

/-- The list of pointers holds the free jobs, and the threads own what they own. -/
structure ListRefines (s : State Thread) (t : Lists Thread) : Prop where
  valid : Valid s
  chain : Chain s.next s.freeJobs t.free
  owned : ∀ thread, t.owned thread = s.owned thread

omit [DecidableEq Thread] in
/-- No job of the list has an owner, and none has two. -/
theorem ListRefines.separate (refines : ListRefines s t) : Separate (s.places t.free) := by
  obtain ⟨free, chain, separate⟩ := refines.valid.places
  rwa [refines.chain.unique chain]

omit [DecidableEq Thread] in
/-- Whoever pushes a job is its only owner. -/
theorem ListRefines.pushing (refines : ListRefines s t) {job : Job}
    (pushing : job ∈ (s.pc thread).pushing) : job ∉ t.free ∧
      ∀ other, other ≠ thread → (s.pc other).pushing ≠ some job := by
  have owned : ∀ {other}, (s.pc other).pushing = some job → job ∈ s.places t.free (some other) := by
    intro other theirs
    simp [State.places, State.owned, theirs]
  refine ⟨fun listed => ?_, fun other different theirs => different ?_⟩
  · cases refines.separate.one none (some thread) job listed (owned pushing)
  · exact Option.some.inj (refines.separate.one _ _ job (owned theirs) (owned pushing))

/-- A step of a call moves no job, or it pops or pushes one. -/
theorem ListRefines.step (refines : ListRefines s t) (unchanged : HeadUnchanged s (.step thread))
    (moved : advance s thread (s.pc thread) = some s') :
    ∃ t', (lists Thread).replay t (listOperations s (.step thread)) = some t' ∧ ListRefines s' t' := by
  have valid := refines.valid.advance unchanged moved
  obtain ⟨free, linked, step⟩ := Linked.advance ⟨refines.chain, refines.valid.linked⟩ unchanged
    (fun job => refines.pushing) moved
  rw [listOperations]
  generalize listOperation thread s.freeJobs (s.pc thread) = operations at step
  have others : ∀ {pc : Pc} {other}, s'.pc = Function.update s.pc thread pc → other ≠ thread →
      s'.held other = s.held other → s'.owned other = s.owned other := by
    intro pc other pcs different held
    rw [State.owned, State.owned, pcs, Function.update_of_ne different, held]
  cases step with
  | @still pc pcs phase held _ =>
    refine ⟨t, rfl, valid, linked.chain, fun other => (refines.owned other).trans ?_⟩
    by_cases here : other = thread
    · rw [here, State.owned, State.owned, pcs, Function.update_self, pushing_eq pc, phase,
        ← pushing_eq, held]
    · rw [others pcs here (congrFun held other)]
  | @popped job rest pcs phase listed held =>
    refine ⟨⟨free, Function.update t.owned thread (job ::ₘ t.owned thread)⟩, ?_, valid, linked.chain,
      fun other => ?_⟩
    · rw [replay_singleton]
      simp only [lists, listed, if_true]
    · by_cases here : other = thread
      · have empty : (s.pc thread).pushing = none := by
          rw [pushing_eq, phase]
          rfl
        simp [here, State.owned, refines.owned, pcs, held, empty]
      · refine (Function.update_of_ne here ..).trans ?_
        rw [refines.owned, others pcs here (by rw [held, Function.update_of_ne here])]
  | @pushed job pcs phase held =>
    have pushing : (s.pc thread).pushing = some job := by
      rw [pushing_eq, phase]
      rfl
    have mine : job ∈ t.owned thread := by simp [State.owned, refines.owned, pushing]
    refine ⟨⟨job :: t.free, Function.update t.owned thread ((t.owned thread).erase job)⟩, ?_, valid,
      linked.chain, fun other => ?_⟩
    · rw [replay_singleton]
      exact if_pos mine
    · by_cases here : other = thread
      · simp [here, State.owned, refines.owned, pcs, held, pushing]
      · refine (Function.update_of_ne here ..).trans ?_
        rw [refines.owned, others pcs here (congrFun held other)]

/-- A call moves no job. -/
theorem ListRefines.still {pc : Pc} (refines : ListRefines s t)
    (pushing : pc.pushing = (s.pc thread).pushing) (valid : Valid (s.goto thread pc)) :
    ListRefines (s.goto thread pc) t := by
  refine ⟨valid, refines.chain, fun other => (refines.owned other).trans ?_⟩
  by_cases same : other = thread
  · rw [State.owned, State.owned, same, goto_pc_self, pushing]
    rfl
  · rw [State.owned, State.owned, goto_pc_ne same]
    rfl

theorem ListRefines.next {action : Action Thread} (refines : ListRefines s t)
    (unchanged : HeadUnchanged s action) (moved : (freeLists Thread).next s action = some s') :
    ∃ t', (lists Thread).replay t (listOperations s action) = some t' ∧ ListRefines s' t' := by
  have valid := refines.valid.next unchanged moved
  cases action with
  | pop thread =>
    simp only [freeLists] at moved
    split at moved
    · rename_i idle
      cases moved
      exact ⟨t, rfl, refines.still (by rw [idle]; rfl) valid⟩
    · cases moved
  | push thread job =>
    simp only [freeLists] at moved
    split at moved
    · rename_i called
      cases moved
      refine ⟨t, rfl, valid, refines.chain, fun other => ?_⟩
      by_cases here : other = thread
      · simp only [here, State.owned, refines.owned, called.1, State.goto, Function.update_self,
          pushing_idle, pushing_pushLoad, Option.toList_none, Option.toList_some, List.nil_append,
          List.singleton_append]
        exact Multiset.coe_eq_coe.mpr (List.perm_cons_erase called.2)
      · simp [State.owned, refines.owned, State.goto, Function.update_of_ne here]
    · cases moved
  | hand giver receiver job =>
    simp only [freeLists] at moved
    split at moved
    · rename_i called
      cases moved
      obtain ⟨idle, held, apart⟩ := called
      have mine : job ∈ t.owned giver := by simp [State.owned, refines.owned, held]
      refine ⟨⟨t.free, Function.update (Function.update t.owned giver ((t.owned giver).erase job))
        receiver (job ::ₘ t.owned receiver)⟩, ?_, valid, refines.chain, fun other => ?_⟩
      · rw [listOperations, replay_singleton]
        exact if_pos ⟨mine, apart⟩
      by_cases gets : other = receiver
      · simp [gets, State.owned, refines.owned]
        exact List.perm_middle.symm
      by_cases gives : other = giver
      · simp [gives, State.owned, refines.owned, apart, idle]
      · simp [State.owned, refines.owned, Function.update_of_ne gets, Function.update_of_ne gives]
    · cases moved
  | step thread => exact refines.step unchanged moved

theorem ListRefines.start (begins : (freeLists Thread).initial s) :
    ∃ t, (lists Thread).initial t ∧ ListRefines s t := by
  have valid := Valid.start begins
  obtain ⟨maxJobs, positive, next, head, idle, held⟩ := begins
  refine ⟨⟨List.range maxJobs, fun _ => 0⟩, ⟨maxJobs, positive, rfl, fun _ => rfl⟩, valid, ?_,
    fun thread => ?_⟩
  · rw [next, head, List.range_eq_range', ← Nat.sub_add_cancel positive]
    exact initNext_chain (by omega)
  · simp [State.owned, idle, held]

/-- In every run in which each successful pop still finds the link it has read, the list of
pointers is a stack whose operations take effect at once: what the run has performed can be
performed on the stack, where a pop takes the first job and a push puts one in front, and ends in
the same list and the same owners. -/
theorem free_list_is_a_stack {performed : List (ListAction Thread)}
    (reached : (((freeLists Thread).restrict HeadUnchanged).recording listOperations).Reachable
      (s, performed)) :
    ∃ t₀ t, (lists Thread).initial t₀ ∧ (lists Thread).replay t₀ performed = some t ∧
      Chain s.next s.freeJobs t.free ∧ ∀ thread, t.owned thread = s.owned thread := by
  obtain ⟨t₀, t, initial, replayed, refines⟩ := reached.replays (fun _ => ListRefines.start)
    fun s action s' t refines moved => by
      obtain ⟨unchanged, moved⟩ := restrict_next.mp moved
      exact refines.next unchanged moved
  exact ⟨t₀, t, initial, replayed, refines.chain, refines.owned⟩

/-- Two pops, a job that goes to another thread, and a push. -/
theorem free_list_is_a_stack_run : ∃ s, (((freeLists (Fin 3)).restrict HeadUnchanged).recording
      listOperations).Reachable (s, [.pop 0 0, .pop 1 1, .hand 1 0 1, .push 0 1]) ∧
    s.freeJobs = some 1 ∧ ∃ t₀ t, (lists (Fin 3)).initial t₀ ∧
      (lists (Fin 3)).replay t₀ [.pop 0 0, .pop 1 1, .hand 1 0 1, .push 0 1] = some t ∧
      Chain s.next s.freeJobs t.free := by
  have begun : (((freeLists (Fin 3)).restrict HeadUnchanged).recording listOperations).Reachable
      (threeJobs, []) := .start ⟨threeJobs_initial, rfl⟩
  obtain ⟨⟨s, performed⟩, reached, checked⟩ := begun.replay_check
    (popSteps 0 ++ popSteps 1 ++ [.hand 1 0 1] ++ pushSteps 0 1)
    (fun s => s.1.freeJobs = some 1 && s.2 = [.pop 0 0, .pop 1 1, .hand 1 0 1, .push 0 1]) (by decide)
  simp only [Bool.and_eq_true, decide_eq_true_eq] at checked
  obtain ⟨head, rfl⟩ := checked
  obtain ⟨t₀, t, initial, replayed, chain, -⟩ := free_list_is_a_stack reached
  exact ⟨s, reached, head, t₀, t, initial, replayed, chain⟩

end FreeList

section Queue

open ThreadPoolQueue

/-- The items in the queue, and the semaphore. -/
structure Line where
  items : List Item
  pending : Nat

/-- An operation, with the item that a pop returns. -/
inductive LineAction (Thread : Type) where
  | push (thread : Thread) (src : Item)
  | signal (thread : Thread)
  | wait (thread : Thread)
  | pop (thread : Thread) (dst : Item)
  deriving DecidableEq

/-- A queue of items and a semaphore. -/
def lines (Thread : Type) : System Line (LineAction Thread) where
  initial t := t = ⟨[], 0⟩
  next t action :=
    match action with
    | .push _ src => some { t with items := t.items ++ [src] }
    | .signal _ => some { t with pending := t.pending + 1 }
    | .wait _ => if 0 < t.pending then some { t with pending := t.pending - 1 } else none
    | .pop _ dst =>
      match t.items with
      | [] => none
      | first :: items => if first = dst then some { t with items } else none

/-- What the next access of a call performs. -/
def lineOperation {Thread : Type} (thread : Thread) (q : Queue) : Pc → List (LineAction Thread)
  | .exchangeTemp src oldTemp _ => if q.temp = oldTemp then [.push thread src] else []
  | .signal => [.signal thread]
  | .wait => [.wait thread]
  | .exchangeHead oldHead _ dst _ => if q.head = oldHead then [.pop thread dst] else []
  | _ => []

/-- What a step of the ring performs. -/
def lineOperations {Thread : Type} (s : State Thread) : Action Thread → List (LineAction Thread)
  | .step thread _ => lineOperation thread s.queue (s.pc thread)
  | .push _ _ | .pop _ => []

/-- What a call is about. A push that has claimed its slot copies its item and moves `tail`, and
then it signals. -/
inductive RingPhase where
  | idle
  | claiming (src : Item)
  | filling
  | signaling
  | waiting
  | popping

def ringPhase : Pc → RingPhase
  | .idle => .idle
  | .loadTemp src | .exchangeTemp src _ _ => .claiming src
  | .copyIn _ _ _ | .loadTail | .exchangeTail _ _ => .filling
  | .signal => .signaling
  | .wait => .waiting
  | .loadHead | .copyOut _ _ | .exchangeHead _ _ _ _ => .popping

/-- The item of a push that has not claimed its slot. -/
def RingPhase.unclaimed : RingPhase → Multiset Item
  | .claiming src => {src}
  | _ => 0

theorem unclaimed_eq (pc : Pc) : pc.unclaimed = (ringPhase pc).unclaimed := by
  cases pc <;> rfl

/-- What the next access of a thread performs, by what its call is about before and after. -/
inductive RingStep {Thread : Type} (thread : Thread) :
    List (LineAction Thread) → RingPhase → RingPhase → Prop where
  | still (phase : RingPhase) : RingStep thread [] phase phase
  | filled : RingStep thread [] .filling .signaling
  | pushed (src : Item) : RingStep thread [.push thread src] (.claiming src) .filling
  | signaled : RingStep thread [.signal thread] .signaling .idle
  | waited : RingStep thread [.wait thread] .waiting .popping
  | popped (dst : Item) : RingStep thread [.pop thread dst] .popping .idle

theorem advance_ringStep {Thread : Type} {spurious : Bool} {q q' : Queue} {pending pending' : Nat}
    {h h' : History} {pc pc' : Pc} (thread : Thread)
    (step : Advances spurious q pending h pc q' pending' pc' h') :
    RingStep thread (lineOperation thread q pc) (ringPhase pc) (ringPhase pc') ∧
      q'.size = q.size ∧ q'.cell = q.cell := by
  cases step with
  | readTemp there _ | copied there _ | readTail there | missedTail there _ | readHead there _
  | read there _ _ =>
    rw [there]
    exact ⟨.still _, rfl, rfl⟩
  | @claimed src _ _ there same =>
    rw [there, lineOperation, if_pos same]
    exact ⟨.pushed src, rfl, rfl⟩
  | missedTemp there changed | missedHead there changed =>
    rw [there, lineOperation, if_neg changed]
    exact ⟨.still _, rfl, rfl⟩
  | movedTail there =>
    rw [there]
    exact ⟨.filled, rfl, rfl⟩
  | signaled there =>
    rw [there]
    exact ⟨.signaled, rfl, rfl⟩
  | waited there _ =>
    rw [there]
    exact ⟨.waited, rfl, rfl⟩
  | @popped _ _ dst _ there same =>
    rw [there, lineOperation, if_pos same]
    exact ⟨.popped dst, rfl, rfl⟩

/-- The queue holds the items that were claimed and not popped. -/
structure Holds (h : History) (pending : Nat) (t : Line) : Prop where
  items : h.claimed = h.popped.map Prod.fst ++ t.items
  pending : t.pending = pending

variable {Thread : Type}

/-- A step of a call, where a pop returns the first item in the queue. -/
theorem Holds.advance {t : Line} {spurious : Bool} {q q' : Queue} {pending pending' : Nat}
    {h h' : History} {pc pc' : Pc} (holds : Holds h pending t) (thread : Thread)
    (step : Advances spurious q pending h pc q' pending' pc' h')
    (first : ∀ dst copied, h'.popped = h.popped ++ [(dst, copied)] → h'.claimed = h.claimed →
      t.items.head? = some dst) :
    ∃ t', (lines Thread).replay t (lineOperation thread q pc) = some t' ∧ Holds h' pending' t' := by
  obtain ⟨items, semaphore⟩ := holds
  cases step with
  | readTemp there _ | copied there _ | readTail there | movedTail there | missedTail there _
  | readHead there _ | read there _ _ =>
    rw [there]
    exact ⟨t, rfl, items, semaphore⟩
  | @claimed src _ _ there same =>
    rw [there, lineOperation, if_pos same]
    refine ⟨{ t with items := t.items ++ [src] }, rfl, ?_, semaphore⟩
    rw [items, List.append_assoc]
  | missedTemp there changed | missedHead there changed =>
    rw [there, lineOperation, if_neg changed]
    exact ⟨t, rfl, items, semaphore⟩
  | signaled there =>
    rw [there]
    exact ⟨{ t with pending := t.pending + 1 }, rfl, items, congrArg (· + 1) semaphore⟩
  | waited there positive =>
    refine ⟨{ t with pending := t.pending - 1 }, ?_, items, congrArg (· - 1) semaphore⟩
    rw [there, lineOperation, replay_singleton]
    exact if_pos (semaphore ▸ positive)
  | @popped _ _ dst copied there same =>
    obtain ⟨rest, queued⟩ := List.head?_eq_some_iff.mp (first dst copied rfl rfl)
    rw [there, lineOperation, if_pos same, replay_singleton]
    refine ⟨{ t with items := rest }, ?_, ?_, semaphore⟩
    · simp only [lines, queued, if_true]
    · rw [items, queued, List.map_append, List.append_assoc]
      rfl

variable [Fintype Thread] {s s' : State Thread} {t : Line}

/-- The ring holds what the queue holds. -/
structure LineRefines (s : State Thread) (t : Line) : Prop extends Holds s.history s.pending t where
  valid : Valid s

/-- What a pop returns is the first item in the queue. -/
theorem LineRefines.first {dst : Item} {copied : Option Nat} (refines : LineRefines s t)
    (valid : Valid s') (claimed : s'.history.claimed = s.history.claimed)
    (popped : s'.history.popped = s.history.popped ++ [(dst, copied)]) : t.items.head? = some dst := by
  have read := (valid.delivers.popped s.history.popped.length dst copied (by
    rw [popped]
    exact List.getElem?_concat_length)).2
  rw [claimed, refines.items, List.getElem?_append_right (by rw [List.length_map]), List.length_map,
    Nat.sub_self] at read
  rw [List.head?_eq_getElem?]
  exact read

/-- The ring never holds more items than its size. -/
theorem LineRefines.room (refines : LineRefines s t) : t.items.length ≤ s.queue.size := by
  have room := refines.valid.shared.room
  have order := refines.valid.counted.order
  have length := congrArg List.length refines.items
  rw [List.length_append, List.length_map] at length
  omega

variable [DecidableEq Thread]

theorem LineRefines.next {action : Action Thread} (refines : LineRefines s t)
    (timely : Timely s action) (moved : (queues Thread).next s action = some s') :
    ∃ t', (lines Thread).replay t (lineOperations s action) = some t' ∧ LineRefines s' t' := by
  have valid := refines.valid.next timely moved
  cases action with
  | push thread src =>
    simp only [queues] at moved
    split at moved <;> cases moved
    exact ⟨t, rfl, ⟨refines.items, refines.pending⟩, valid⟩
  | pop thread =>
    simp only [queues] at moved
    split at moved <;> cases moved
    exact ⟨t, rfl, ⟨refines.items, refines.pending⟩, valid⟩
  | step thread spurious =>
    obtain ⟨queue, pending, pc, history, step, rfl⟩ := step_advances moved
    obtain ⟨t', replayed, holds⟩ := refines.toHolds.advance thread step
      fun dst copied popped claimed => refines.first valid claimed popped
    exact ⟨t', replayed, holds, valid⟩

/-- A step of a call, with what it is about. -/
theorem LineRefines.step {thread : Thread} {spurious : Bool} (refines : LineRefines s t)
    (timely : Timely s (.step thread spurious))
    (moved : (queues Thread).next s (.step thread spurious) = some s') :
    ∃ t' pc, (lines Thread).replay t (lineOperations s (.step thread spurious)) = some t' ∧
      LineRefines s' t' ∧ s'.pc = Function.update s.pc thread pc ∧
      s'.queue.size = s.queue.size ∧ s'.queue.cell = s.queue.cell ∧
      RingStep thread (lineOperations s (.step thread spurious)) (ringPhase (s.pc thread))
        (ringPhase pc) := by
  obtain ⟨t', replayed, refines'⟩ := refines.next timely moved
  obtain ⟨queue, pending, pc, history, advances, rfl⟩ := step_advances moved
  obtain ⟨step, size, cell⟩ := advance_ringStep thread advances
  exact ⟨t', pc, replayed, refines', rfl, size, cell, step⟩

theorem LineRefines.start (begins : (queues Thread).initial s) : LineRefines s ⟨[], 0⟩ := by
  have valid := Valid.start begins
  obtain ⟨-, pending, -, history⟩ := begins
  exact ⟨⟨by rw [history]; rfl, pending.symm⟩, valid⟩

/-- A call goes on, unless it waits for the semaphore. -/
theorem LineRefines.goes_on (refines : LineRefines s t) (positive : 0 < s.queue.size)
    {thread : Thread} (busy : s.pc thread ≠ .idle) (pending : s.pc thread = .wait → 0 < s.pending)
    (spurious : Bool) : ∃ s', (queues Thread).next s (.step thread spurious) = some s' := by
  have known := refines.valid.threads thread
  have whole := refines.valid.shared.whole
  suffices ∃ result, ThreadPoolQueue.advance spurious s.queue s.pending s.history (s.pc thread) =
      some result by
    obtain ⟨⟨queue, pending, pc, history⟩, ran⟩ := this
    exact ⟨_, Option.bind_eq_some_iff.mpr ⟨_, ran, rfl⟩⟩
  have next : ∀ index, following s.queue index = some ((index + 1) % s.queue.size) :=
    fun index => if_neg (Nat.ne_of_gt positive)
  have inside : ∀ index, RingSlots.slot s.queue.cell s.queue.size index + s.queue.cell ≤
      s.queue.base.length := fun index => whole ▸ RingSlots.slot_inside positive index
  cases there : s.pc thread with
  | idle => exact absurd there busy
  | loadTemp src => exact ⟨_, Option.bind_eq_some_iff.mpr ⟨_, next _, rfl⟩⟩
  | loadTail => exact ⟨_, Option.bind_eq_some_iff.mpr ⟨_, next _, rfl⟩⟩
  | loadHead => exact ⟨_, Option.bind_eq_some_iff.mpr ⟨_, next _, rfl⟩⟩
  | exchangeTemp src oldTemp newTemp =>
    simp only [ThreadPoolQueue.advance]
    split <;> exact ⟨_, rfl⟩
  | exchangeTail oldTail newTail =>
    simp only [ThreadPoolQueue.advance]
    split <;> exact ⟨_, rfl⟩
  | exchangeHead oldHead newHead dst copied =>
    simp only [ThreadPoolQueue.advance]
    split <;> exact ⟨_, rfl⟩
  | signal => exact ⟨_, rfl⟩
  | wait => exact ⟨_, if_pos (pending there)⟩
  | copyIn src index turn =>
    rw [there] at known
    obtain ⟨length, rfl, -⟩ := known
    refine ⟨_, Option.bind_eq_some_iff.mpr ⟨_, itemAddr_eq positive turn,
      Option.bind_eq_some_iff.mpr ⟨_, Memory.store_eq ?_, rfl⟩⟩⟩
    rw [length]
    exact inside turn
  | copyOut oldHead newHead =>
    rw [there] at known
    have address := itemAddr_eq positive oldHead
    rw [Nat.mod_eq_of_lt known.1] at address
    exact ⟨_, Option.bind_eq_some_iff.mpr ⟨_, address,
      Option.bind_eq_some_iff.mpr ⟨_, Memory.load_eq (inside oldHead), rfl⟩⟩⟩

/-- In every run in which the signals and the pops are timely, the ring is a queue whose operations
take effect at once: what the run has performed can be performed on the queue, where a push appends
its item and a pop takes the first one. It never holds more items than its size. -/
theorem ring_is_a_queue {performed : List (LineAction Thread)}
    (reached : (((queues Thread).restrict Timely).recording lineOperations).Reachable
      (s, performed)) :
    ∃ t, (lines Thread).replay ⟨[], 0⟩ performed = some t ∧
      s.history.claimed = s.history.popped.map Prod.fst ++ t.items ∧ t.pending = s.pending ∧
      t.items.length ≤ s.queue.size := by
  obtain ⟨-, t, rfl, replayed, refines⟩ := reached.replays (R := LineRefines)
    (fun _ begins => ⟨⟨[], 0⟩, rfl, LineRefines.start begins⟩) fun s action s' t refines moved => by
      obtain ⟨timely, moved⟩ := restrict_next.mp moved
      exact refines.next timely moved
  exact ⟨t, replayed, refines.items, refines.pending, refines.room⟩

/-- Two pushes and a pop. -/
theorem ring_is_a_queue_run : ∃ s,
    (((queues (Fin 3)).restrict Timely).recording lineOperations).Reachable
      (s, [.push 0 [7], .signal 0, .push 1 [8], .signal 1, .wait 2, .pop 2 [7]]) ∧
    ∃ t, (lines (Fin 3)).replay ⟨[], 0⟩
        [.push 0 [7], .signal 0, .push 1 [8], .signal 1, .wait 2, .pop 2 [7]] = some t ∧
      s.history.claimed = s.history.popped.map Prod.fst ++ t.items := by
  have begun : (((queues (Fin 3)).restrict Timely).recording lineOperations).Reachable
      (twoBytes, []) := .start ⟨twoBytes_initial, rfl⟩
  obtain ⟨⟨s, performed⟩, reached, checked⟩ := begun.replay_check
    (pushSteps 0 7 ++ pushSteps 1 8 ++ popSteps 2)
    (fun s => s.2 = [.push 0 [7], .signal 0, .push 1 [8], .signal 1, .wait 2, .pop 2 [7]]) (by decide)
  obtain rfl := of_decide_eq_true checked
  obtain ⟨t, replayed, items, -⟩ := ring_is_a_queue reached
  exact ⟨s, reached, t, replayed, items⟩

end Queue

end Mysnips.ThreadPoolAtomic

import Mathlib.Data.Fintype.Basic
import Mysnips.LogFaults
import Mysnips.LogThreadsBuffers

/-! What is in the files. As long as no flush is overtaken, the bytes of a thread are in the files
in the order in which the thread has logged them, without a gap; and if nobody logs any more when
`log_quit` is called, all of them are there when the flush thread has terminated. -/
namespace Mysnips.LogThreads
open SinglyLinked SpscQueue Transition System
open Log (Writer Flusher)

variable {Thread File : Type} {n : Nat} {s s' : State Thread File} {action : Action Thread File}
  {thread : Thread}

/-- The flush thread makes its last walk, or has made it. -/
def Routine.final : Routine Thread → Bool
  | .open last => last
  | .visit last _ _ => last
  | .terminated => true
  | _ => false

theorem Routine.woken_final (routine : Routine Thread) : routine.woken.final = routine.final := by
  cases routine <;> rfl

/-- The buffers behind the flush thread in its last walk are empty. -/
def State.Drained (s : State Thread File) : Prop :=
  match s.routine with
  | .visit true cursor flusher =>
    ∃ before rest, Chain s.next s.globalList (before ++ cursor :: rest) ∧
      (∀ thread ∈ before, ∀ b ∈ s.buffers thread, b.queue.head = b.queue.tail) ∧
      ∀ b ∈ s.buffers cursor, Log.Draining b.queue flusher
  | .terminated => ∀ thread, ∀ b ∈ s.buffers thread, b.queue.head = b.queue.tail
  | _ => True

/-- What is known when `log_quit` is called, and later. -/
structure Quitting (s : State Thread File) : Prop where
  told : s.routine.final = true → s.canTerminate = true
  quiet : s.canTerminate = true → ∀ thread, s.quiet thread
  drained : s.Drained

/-- Before the last walk, nothing has to be empty. -/
theorem State.drained_of_unfinished (unfinished : s.routine.final = false) : s.Drained := by
  rw [State.Drained]
  split
  · rename_i last cursor flusher there
    rw [there] at unfinished
    cases unfinished
  · rename_i there
    rw [there] at unfinished
    cases unfinished
  · trivial

/-- As long as somebody logs, the last walk has not begun. -/
theorem Quitting.of_busy (unfinished : s.routine.final = false) (told : s.canTerminate = false) :
    Quitting s :=
  ⟨by simp [unfinished], by simp [told], s.drained_of_unfinished unfinished⟩

theorem Quitting.unfinished (quitting : Quitting s) (told : s.canTerminate = false) :
    s.routine.final = false := by
  by_contra final
  have told' := quitting.told (Bool.not_eq_false _ ▸ final)
  rw [told] at told'
  cases told'

/-- A step of a thread in a call of `log_write2`. -/
theorem Quitting.of_step (quitting : Quitting s) (busy : ¬ s.quiet thread)
    (final : s'.routine.final = s.routine.final) (told : s'.canTerminate = s.canTerminate) :
    Quitting s' := by
  have before : s.canTerminate = false := by
    by_contra told
    exact busy (quitting.quiet (Bool.not_eq_false _ ▸ told) thread)
  exact .of_busy (by rw [final, quitting.unfinished before]) (by rw [told, before])

/-- A signal does not come to the flush thread in its last walk. -/
theorem State.Drained.woken (drained : s.Drained)
    (same : s'.next = s.next ∧ s'.globalList = s.globalList ∧ s'.buffers = s.buffers)
    (woken : s'.routine = s.routine ∨ s'.routine = s.routine.woken) : s'.Drained := by
  obtain ⟨next, globalList, buffers⟩ := same
  have either : s'.routine = s.routine ∨ s'.routine = .reconfigure := by
    rcases woken with same | woke
    · exact .inl same
    · cases routine : s.routine <;> simp [woke, routine, Routine.woken]
  rcases either with routine | routine
  · rw [State.Drained, routine, next, globalList, buffers]
    exact drained
  · exact s'.drained_of_unfinished (by rw [routine]; rfl)

variable [DecidableEq Thread]

/-- The flush thread is about to make the second peek of a flush that is overtaken. -/
def State.overtaken (s : State Thread File) : Bool :=
  match s.routine with
  | .visit _ cursor flusher => (s.buffers cursor).any fun b => Log.Overtaken b.queue flusher
  | _ => false

theorem Quitting.start (begins : (logs Thread File n).initial s) : Quitting s := by
  obtain ⟨-, -, -, -, -, told, -, routine, -⟩ := begins
  exact .of_busy (by rw [routine]; rfl) told

omit [DecidableEq Thread] in
/-- The last walk comes to the first buffer. -/
theorem Linked.drained_first (linked : Linked n s) :
    ({ s with routine := .follow true s.globalList } : State Thread File).Drained := by
  obtain ⟨list, chain, -, members⟩ := linked.list
  simp only [State.Drained]
  cases head : s.globalList with
  | none =>
    rw [head] at chain
    cases list with
    | nil =>
      intro thread b has
      have listed := (members thread).mpr (by rw [has]; rfl)
      cases listed
    | cons first rest => cases chain.1
  | some cursor =>
    rw [head] at chain
    obtain ⟨rest, rfl, -⟩ := chain.of_some
    exact ⟨[], rest, chain, by simp, fun b _ => trivial⟩

/-- The steps of the flush thread between its flushes. -/
theorem Quitting.walk (linked : Linked n s) (quitting : Quitting s) (moved : flush s = some s')
    (outside : ∀ last cursor flusher, s.routine ≠ .visit last cursor flusher) : Quitting s' := by
  obtain ⟨told, quiet, drained⟩ := quitting
  rw [flush] at moved
  cases routine : s.routine with
  | start | wait =>
    simp only [routine] at moved
    cases moved
    exact ⟨by simp [Routine.final], quiet, trivial⟩
  | test =>
    simp only [routine] at moved
    cases moved
    refine ⟨?_, quiet, ?_⟩
    · simp only
      split
      · rename_i told
        exact fun _ => told
      · simp [Routine.final]
    · cases canTerminate : s.canTerminate <;> trivial
  | asleep =>
    simp only [routine] at moved
    obtain ⟨-, same⟩ := Option.ite_none_right_eq_some.mp moved
    cases same
    exact ⟨by simp [Routine.final], quiet, trivial⟩
  | reconfigure =>
    simp only [routine] at moved
    split at moved <;> cases moved <;> exact ⟨by simp [Routine.final], quiet, trivial⟩
  | «open» last =>
    rw [routine] at told
    simp only [routine] at moved
    cases moved
    cases last with
    | false =>
      have unfinished : (Routine.follow false s.globalList).final = false := by
        cases s.globalList <;> rfl
      exact ⟨by simp [unfinished], quiet, State.drained_of_unfinished unfinished⟩
    | true => exact ⟨fun _ => told rfl, quiet, linked.drained_first⟩
  | visit last cursor flusher => exact absurd routine (outside last cursor flusher)
  | terminated =>
    simp only [routine] at moved
    cases moved

/-! ### A step of the flush thread in a buffer -/

section Visit

variable {last : Bool} {cursor : Thread} {flusher : Flusher} {b : Buffer} {logger : Log.State}

/-- No thread notices it. -/
theorem State.quiet.visited {other : Thread} (quiet : s.quiet other) (has : s.buffers cursor = some b)
    (writer : logger.writer = b.writer) : (s.visited last cursor logger).quiet other := by
  refine ⟨quiet.1, fun b' has' => ?_⟩
  simp only [State.visited] at has'
  by_cases same : other = cursor
  · subst same
    rw [Function.update_self] at has'
    cases has'
    exact writer.trans (quiet.2 b has)
  · rw [Function.update_of_ne same] at has'
    exact quiet.2 b' has'

/-- A flush of all that is there goes on so, and leaves nothing. -/
theorem draining_visited (small : n ≤ 30) (reached : (logs Thread File n).Reachable s)
    (there : s.routine = .visit last cursor flusher) (has : s.buffers cursor = some b)
    (moved : Log.flush (b.log flusher []) = some logger) (draining : Log.Draining b.queue flusher) :
    Log.Draining logger.queue logger.flusher ∧
      (logger.flusher = .peek0 → logger.queue.head = logger.queue.tail) := by
  obtain ⟨-, -, bytes, -, framed⟩ := flush_frame moved
  obtain ⟨content, reserved, popped, accounted⟩ :=
    Log.reachable_accounted small (reachable_alone reached has)
  have here : s.flusherOf cursor = flusher := by
    rw [State.flusherOf, there]
    exact if_pos rfl
  have own : Log.flush (s.project cursor b) =
      some { logger with file := s.fileOf cursor ++ bytes } := by
    rw [State.project, here]
    exact framed (s.fileOf cursor)
  have start : Log.Draining (s.project cursor b).queue (s.project cursor b).flusher := by
    rw [State.project, here]
    exact draining
  obtain ⟨further, ended⟩ := start.flush accounted own
  exact ⟨further, ended⟩

/-- The last walk goes on, in the buffer or to the one behind it. -/
theorem drained_visited (small : n ≤ 30) (reached : (logs Thread File n).Reachable s)
    (drained : s.Drained) (there : s.routine = .visit true cursor flusher)
    (has : s.buffers cursor = some b) (moved : Log.flush (b.log flusher []) = some logger) :
    (s.visited true cursor logger).Drained := by
  simp only [State.Drained, there] at drained
  obtain ⟨before, rest, chain, empty, draining⟩ := drained
  obtain ⟨further, ended⟩ := draining_visited small reached there has moved (draining b has)
  obtain ⟨others, others_chain, nodup, members⟩ := (reachable_linked reached).list
  rw [← chain.unique others_chain] at nodup members
  have fresh : cursor ∉ before := by
    intro member
    exact (List.nodup_append.mp nodup).2.2 cursor member cursor List.mem_cons_self rfl
  have own : (s.visited true cursor logger).buffers cursor =
      some ⟨logger.queue, logger.sem, logger.writer, logger.logged⟩ := Function.update_self ..
  have kept : ∀ thread ∈ before, ∀ b ∈ (s.visited true cursor logger).buffers thread,
      b.queue.head = b.queue.tail := by
    intro thread member b' has'
    have apart : thread ≠ cursor := fun same => fresh (same ▸ member)
    simp only [State.visited, Function.update_of_ne apart] at has'
    exact empty thread member b' has'
  have routine : (s.visited true cursor logger).routine = if logger.flusher = .peek0
      then .follow true (s.next cursor) else .visit true cursor logger.flusher := rfl
  rw [State.Drained, routine]
  by_cases leaves : logger.flusher = .peek0
  · rw [if_pos leaves]
    have drained : ∀ thread ∈ before ++ [cursor],
        ∀ b ∈ (s.visited true cursor logger).buffers thread, b.queue.head = b.queue.tail := by
      intro thread member b' has'
      rcases List.mem_append.mp member with earlier | now
      · exact kept thread earlier b' has'
      · cases List.mem_singleton.mp now
        cases own.symm.trans has'
        exact ended leaves
    have behind := chain.behind
    cases rest with
    | nil =>
      rw [chain_nil] at behind
      rw [behind]
      intro thread b' has'
      refine drained thread ((members thread).mpr ?_) b' has'
      rw [← isSome_update has _ thread]
      exact Option.isSome_of_mem has'
    | cons following rest =>
      obtain ⟨link, -⟩ := behind
      rw [link]
      refine ⟨before ++ [cursor], rest, ?_, drained, fun _ _ => trivial⟩
      rw [List.append_assoc]
      exact chain
  · rw [if_neg leaves]
    refine ⟨before, rest, chain, kept, ?_⟩
    intro b' has'
    cases own.symm.trans has'
    exact further

theorem Quitting.visit (small : n ≤ 30) (reached : (logs Thread File n).Reachable s)
    (quitting : Quitting s) (there : s.routine = .visit last cursor flusher)
    (has : s.buffers cursor = some b) (moved : Log.flush (b.log flusher []) = some logger) :
    Quitting (s.visited last cursor logger) := by
  obtain ⟨told, quiet, drained⟩ := quitting
  have still : (s.visited last cursor logger).canTerminate = true →
      ∀ thread, (s.visited last cursor logger).quiet thread :=
    fun told thread => (quiet told thread).visited has (flush_frame moved).1
  rw [there] at told
  cases last with
  | false =>
    have unfinished : (s.visited false cursor logger).routine.final = false := by
      simp only [State.visited]
      split
      · cases s.next cursor <;> rfl
      · rfl
    exact ⟨by simp [unfinished], still, State.drained_of_unfinished unfinished⟩
  | true => exact ⟨fun _ => told rfl, still, drained_visited small reached drained there has moved⟩

end Visit

/-! ### Steady runs -/

/-- No flush is overtaken, and the program has stopped to log when it calls `log_quit`. -/
def State.proper [Fintype Thread] (s : State Thread File) : Action Thread File → Bool
  | .flush => !s.overtaken
  | .logWrite2 _ _ _ => !s.canTerminate
  | .quit => ∀ thread, s.quiet thread
  | _ => true

def steadyLogs (Thread File : Type) [DecidableEq Thread] [Fintype Thread] (logBufferLog2 : Nat) :
    System (State Thread File) (Action Thread File) :=
  (logs Thread File logBufferLog2).restrict fun s action => s.proper action = true


variable [Fintype Thread]

theorem reachable_quitting (small : n ≤ 30) (reached : (steadyLogs Thread File n).Reachable s) :
    Quitting s := by
  apply reached.invariant (P := Quitting) (fun _ begins => .start (n := n) begins)
  intro s action s' before quitting allowed
  obtain ⟨proper, stepped⟩ := restrict_next.mp allowed
  have before := before.of_restrict
  cases next_change stepped with
  | call thread data memory caller quiet ready after =>
    subst after
    have told : s.canTerminate = false := by simpa [State.proper] using proper
    exact .of_busy (quitting.unfinished told) told
  | load thread spurious data memory there after =>
    subst after
    exact quitting.of_step (by simp [State.quiet, there] : ¬ s.quiet thread) rfl rfl
  | link thread spurious data memory there after =>
    subst after
    exact quitting.of_step (by simp [State.quiet, there] : ¬ s.quiet thread) rfl rfl
  | retry thread spurious data memory oldHead there after =>
    subst after
    exact quitting.of_step (by simp [State.quiet, there] : ¬ s.quiet thread) rfl rfl
  | ask thread spurious data b there has full after =>
    subst after
    exact quitting.of_step (by simp [State.quiet, there] : ¬ s.quiet thread) rfl rfl
  | enter thread spurious data b routine there has woken after =>
    subst after
    have busy : ¬ s.quiet thread := by
      rcases there with there | there <;> simp [State.quiet, there]
    have final : routine.final = s.routine.final := by
      rcases woken with rfl | rfl
      · rfl
      · exact s.routine.woken_final
    exact quitting.of_step busy final rfl
  | write thread spurious b logger idle has moved after =>
    subst after
    refine quitting.of_step (?_ : ¬ s.quiet thread) rfl rfl
    rintro ⟨-, rest⟩
    have none : b.writer = .idle := rest b has
    simp [Log.write, Buffer.log, none] at moved
  | walk routine destFile timeoutMs configChanged outside first moved after =>
    exact quitting.walk (reachable_linked before) moved outside
  | visit last cursor flusher b logger there has moved after =>
    exact after ▸ quitting.visit small before there has moved
  | adjust action routine quitter canTerminate configChanged configTimeoutMs configDestFile woken told
      after =>
    have drained : s'.Drained := quitting.drained.woken (by rw [after]; exact ⟨rfl, rfl, rfl⟩)
      (by rw [after]; exact woken)
    subst after
    have final : routine.final = s.routine.final := by
      rcases woken with rfl | rfl
      · rfl
      · exact s.routine.woken_final
    rcases told with rfl | ⟨rfl, rfl⟩
    · exact ⟨fun last => quitting.told (final ▸ last), quitting.quiet, drained⟩
    · have quiet : ∀ thread, s.quiet thread := by simpa [State.proper] using proper
      exact ⟨fun _ => rfl, fun _ => quiet, drained⟩

/-- In a steady run, the buffer of each thread is one of a run in which no flush is overtaken. -/
theorem steady_alone (reached : (steadyLogs Thread File n).Reachable s) {b : Buffer}
    (has : s.buffers thread = some b) : (Log.steadyLogs n).Reachable (s.project thread b) := by
  suffices alone : ∀ thread b, s.buffers thread = some b →
      (Log.steadyLogs n).Reachable (s.project thread b) from alone thread b has
  apply reached.invariant (P := fun s => ∀ thread b, s.buffers thread = some b →
    (Log.steadyLogs n).Reachable (s.project thread b))
  · intro s begins thread b has
    rw [begins.2.1] at has
    cases has
  · intro s action s' before alone allowed thread b' has
    obtain ⟨proper, stepped⟩ := restrict_next.mp allowed
    cases (reachable_linked before.of_restrict).effect (next_change stepped) has with
    | same b had same =>
      rw [same]
      exact alone thread b had
    | created new begins => exact .start begins
    | moved b own had moved flushes =>
      refine (alone thread b had).step (a := own) (restrict_next.mpr ⟨?_, moved⟩)
      intro flush
      obtain ⟨rfl, last, there⟩ := flushes flush
      have apart : ¬ Log.Overtaken b.queue (s.flusherOf thread) := by
        simpa [State.proper, State.overtaken, there, had] using proper
      exact apart

end Mysnips.LogThreads

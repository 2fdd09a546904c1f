import Mysnips.LogRuns
import Mysnips.LogThreadsSteps

/-! Each buffer of the logger for itself. What a thread and the flush thread do with a buffer is a
run of the logger of one thread, whatever the other threads do. -/
namespace Mysnips.LogThreads
open SpscQueue Transition
open Log (Writer Flusher)

variable {Thread File : Type} [DecidableEq Thread] {n : Nat} {s s' : State Thread File}
  {action : Action Thread File} {thread : Thread}

/-- The bytes of a thread in the files, in the order in which they were written. -/
def State.fileOf (s : State Thread File) (thread : Thread) : List UInt8 :=
  s.written.filterMap fun entry => if entry.2.1 = thread then some entry.2.2 else none

/-- Where the flush thread is in the buffer of a thread. -/
def State.flusherOf (s : State Thread File) (thread : Thread) : Flusher :=
  match s.routine with
  | .visit _ cursor flusher => if cursor = thread then flusher else .peek0
  | _ => .peek0

/-- The part of the state that is about the buffer of a thread. -/
def State.project (s : State Thread File) (thread : Thread) (b : Buffer) : Log.State :=
  b.log (s.flusherOf thread) (s.fileOf thread)

theorem State.project_eq {b b' : Buffer} (same : b' = b)
    (flusher : s'.flusherOf thread = s.flusherOf thread) (file : s'.fileOf thread = s.fileOf thread) :
    s'.project thread b' = s.project thread b := by
  rw [State.project, State.project, same, flusher, file]

theorem State.fileOf_eq (written : s'.written = s.written) : s'.fileOf thread = s.fileOf thread := by
  rw [State.fileOf, State.fileOf, written]

theorem State.flusherOf_eq (routine : s'.routine = s.routine ∨ s'.routine = s.routine.woken) :
    s'.flusherOf thread = s.flusherOf thread := by
  rw [State.flusherOf, State.flusherOf]
  rcases routine with routine | routine
  · rw [routine]
  · rw [routine]
    cases s.routine <;> rfl

/-- Outside of the buffers. -/
theorem State.flusherOf_outside (outside : ∀ last flusher, s.routine ≠ .visit last thread flusher) :
    s.flusherOf thread = .peek0 := by
  rw [State.flusherOf]
  split
  · rename_i last cursor flusher visits
    rw [if_neg]
    rintro rfl
    exact outside last flusher visits
  · rfl

/-- The flush thread is before the first peek of the buffer to which it comes. -/
theorem State.flusherOf_follow {last : Bool} {here : Option Thread}
    (follows : s.routine = .follow last here) : s.flusherOf thread = .peek0 := by
  rw [State.flusherOf, follows]
  cases here with
  | none => cases last <;> rfl
  | some cursor =>
    simp only [Routine.follow]
    split <;> rfl

/-- Where the flush thread is behind a step in a buffer. -/
theorem State.flusherOf_visit {last : Bool} {cursor : Thread} {flusher : Flusher}
    (routine : s'.routine =
      if flusher = .peek0 then .follow last (s.next cursor) else .visit last cursor flusher) :
    s'.flusherOf thread = if cursor = thread then flusher else .peek0 := by
  by_cases left : flusher = .peek0
  · rw [if_pos left] at routine
    rw [State.flusherOf_follow routine, left, ite_self]
  · rw [if_neg left] at routine
    rw [State.flusherOf, routine]

/-- The bytes written from a buffer are those of its thread. -/
theorem State.fileOf_append {cursor : Thread} {file : File} {bytes : List UInt8}
    (written : s'.written = s.written ++ bytes.map fun byte => (file, cursor, byte)) :
    s'.fileOf thread = if cursor = thread then s.fileOf thread ++ bytes else s.fileOf thread := by
  rw [State.fileOf, State.fileOf, written, List.filterMap_append, List.filterMap_map]
  by_cases same : cursor = thread
  · simp [same]
  · simp [same]

/-! ### The steps of the other threads -/

/-- What a step does to a buffer: nothing, or a step of the logger of one thread, or it is new. -/
inductive Effect (n : Nat) (s s' : State Thread File) (action : Action Thread File) (thread : Thread)
    (b' : Buffer) : Prop where
  | same (b : Buffer) (before : s.buffers thread = some b)
      (same : s'.project thread b' = s.project thread b)
  | created (before : s.buffers thread = none)
      (begins : (Log.logs n).initial (s'.project thread b'))
  | moved (b : Buffer) (own : Log.Action) (before : s.buffers thread = some b)
      (moved : (Log.logs n).next (s.project thread b) own = some (s'.project thread b'))
      (flushes : own = .flush → action = .flush ∧
        ∃ last, s.routine = .visit last thread (s.flusherOf thread))

theorem Effect.of_eq {b' : Buffer} (has : s'.buffers thread = some b') (buffers : s'.buffers = s.buffers)
    (flusher : s'.flusherOf thread = s.flusherOf thread) (written : s'.written = s.written) :
    Effect n s s' action thread b' :=
  .same b' (by rw [← buffers]; exact has) (State.project_eq rfl flusher (State.fileOf_eq written))

/-- A step that changes the buffer of another thread. -/
theorem Effect.of_other {b' changed : Buffer} {other : Thread} (has : s'.buffers thread = some b')
    (apart : thread ≠ other) (buffers : s'.buffers = Function.update s.buffers other (some changed))
    (flusher : s'.flusherOf thread = s.flusherOf thread) (file : s'.fileOf thread = s.fileOf thread) :
    Effect n s s' action thread b' := by
  rw [buffers, Function.update_of_ne apart] at has
  exact .same b' has (State.project_eq rfl flusher file)

/-- The buffer that a thread puts into the list has not been flushed. -/
theorem Linked.new_effect (linked : Linked n s) {memory : List UInt8} {caller : Thread} {b' : Buffer}
    (new : s.buffers caller = none) (size : memory.length = 2 ^ n)
    (buffers : s'.buffers = Function.update s.buffers caller (some (.create n memory)))
    (routine : s'.routine = s.routine) (written : s'.written = s.written)
    (has : s'.buffers thread = some b') : Effect n s s' action thread b' := by
  by_cases same : thread = caller
  · subst same
    rw [buffers, Function.update_self] at has
    cases has
    have before : s.flusherOf thread = .peek0 := by
      refine State.flusherOf_outside fun last flusher visits => ?_
      have listed := linked.visiting last thread flusher visits
      rw [new] at listed
      cases listed
    have file : s.fileOf thread = [] := by
      rw [State.fileOf, List.filterMap_eq_nil_iff]
      intro entry member
      have listed := linked.strangers entry member
      rw [if_neg]
      rintro rfl
      rw [new] at listed
      cases listed
    refine .created new ⟨memory, size, ?_⟩
    rw [State.project, (State.flusherOf_eq (.inl routine)).trans before,
      (State.fileOf_eq written).trans file, Buffer.create, Buffer.log]
  · exact .of_other has same buffers (State.flusherOf_eq (.inl routine)) (State.fileOf_eq written)

/-- A call comes to its wait. -/
theorem Linked.enter_effect (linked : Linked n s) {data : List UInt8} {b b' : Buffer} {caller : Thread}
    {routine : Routine Thread}
    (there : s.callers caller = .measure data ∨ s.callers caller = .wakeup data)
    (had : s.buffers caller = some b) (woken : routine = s.routine ∨ routine = s.routine.woken)
    (has : (s.enter caller b data routine).buffers thread = some b') :
    Effect n s (s.enter caller b data routine) action thread b' := by
  have flusher : (s.enter caller b data routine).flusherOf thread = s.flusherOf thread :=
    State.flusherOf_eq woken
  by_cases same : thread = caller
  · subst same
    simp only [State.enter, Function.update_self, Option.some.injEq] at has
    subst has
    obtain ⟨b', same, idle, short⟩ : ∃ b', s.buffers thread = some b' ∧ b'.writer = .idle ∧
        data.length ≤ 2 ^ n := by
      have ready := linked.callers thread
      rcases there with there | there
      all_goals
        rw [there] at ready
        exact ready
    cases had.symm.trans same
    refine .moved b (.logWrite2 data) had ?_ (by simp)
    have idle : (s.project thread b).writer = .idle := idle
    rw [State.project.eq_1 (s.enter thread b data routine), flusher]
    simp only [Log.logs, idle, true_and, if_pos (Nat.not_lt.mpr short)]
    rfl
  · exact .of_other has same rfl flusher (State.fileOf_eq rfl)

/-- A step of the flush thread in a buffer. -/
theorem visit_effect {last : Bool} {cursor : Thread} {flusher : Flusher} {b b' : Buffer}
    {logger : Log.State} (there : s.routine = .visit last cursor flusher)
    (had : s.buffers cursor = some b) (moved : Log.flush (b.log flusher []) = some logger)
    (has : (s.visited last cursor logger).buffers thread = some b') :
    Effect n s (s.visited last cursor logger) .flush thread b' := by
  obtain ⟨-, -, bytes, wrote, framed⟩ := flush_frame moved
  have wrote : logger.file = bytes := wrote
  have goes : (s.visited last cursor logger).flusherOf thread =
      if cursor = thread then logger.flusher else .peek0 := State.flusherOf_visit (s := s) rfl
  have written : (s.visited last cursor logger).fileOf thread =
      if cursor = thread then s.fileOf thread ++ logger.file else s.fileOf thread :=
    State.fileOf_append rfl
  by_cases same : cursor = thread
  · subst same
    rw [if_pos rfl] at goes written
    have here : s.flusherOf cursor = flusher := by
      rw [State.flusherOf, there]
      exact if_pos rfl
    refine .moved b .flush had ?_ fun _ => ⟨rfl, last, here ▸ there⟩
    rw [State.project, State.project, goes, written, here]
    simp only [State.visited, Function.update_self, Option.some.injEq] at has
    subst has
    rw [wrote]
    exact framed (s.fileOf cursor)
  · rw [if_neg same] at goes written
    have here : s.flusherOf thread = .peek0 := by
      rw [State.flusherOf, there]
      exact if_neg same
    exact .of_other has (Ne.symm same) rfl (goes.trans here.symm) written

theorem Linked.effect (linked : Linked n s) (change : Change n s s' action) {b' : Buffer}
    (has : s'.buffers thread = some b') : Effect n s s' action thread b' := by
  cases change with
  | call caller data memory next quiet ready after =>
    subst after
    exact .of_eq has rfl rfl rfl
  | load caller spurious data memory there after =>
    subst after
    exact .of_eq has rfl rfl rfl
  | link caller spurious data memory there after =>
    have ready := linked.callers caller
    rw [there] at ready
    obtain ⟨new, -, size, -⟩ := ready
    subst after
    exact linked.new_effect new size rfl rfl rfl has
  | retry caller spurious data memory oldHead there after =>
    subst after
    exact .of_eq has rfl rfl rfl
  | ask caller spurious data b there had full after =>
    subst after
    exact .of_eq has rfl rfl rfl
  | enter caller spurious data b routine there had woken after =>
    subst after
    exact linked.enter_effect there had woken has
  | write caller spurious b logger idle had moved after =>
    by_cases same : thread = caller
    · subst same after
      simp only [Function.update_self, Option.some.injEq] at has
      subst has
      exact .moved b .write had (write_frame (s.flusherOf thread) (s.fileOf thread) moved) (by simp)
    · subst after
      exact .of_other has same rfl rfl rfl
  | walk routine destFile timeoutMs configChanged outside first moved after =>
    subst after
    refine .of_eq has rfl ?_ rfl
    rw [State.flusherOf_outside fun last flusher => outside last thread flusher, State.flusherOf]
    split
    · rename_i last cursor flusher visits
      rw [(first last cursor flusher visits).1, ite_self]
    · rfl
  | visit last cursor flusher b logger there had moved after =>
    subst after
    exact visit_effect there had moved has
  | adjust action routine quitter canTerminate configChanged configTimeoutMs configDestFile woken told
      after =>
    subst after
    exact .of_eq has rfl (State.flusherOf_eq woken) rfl

/-! ### Every run -/

theorem reachable_linked (reached : (logs Thread File n).Reachable s) : Linked n s :=
  reached.invariant (fun _ => .start) fun _ _ _ _ linked moved => linked.change (next_change moved)

/-- Every buffer is one of a run of the logger of one thread. -/
theorem reachable_alone (reached : (logs Thread File n).Reachable s) {b : Buffer}
    (has : s.buffers thread = some b) : (Log.logs n).Reachable (s.project thread b) := by
  revert thread b
  apply reached.invariant (P := fun s => ∀ thread b, s.buffers thread = some b →
    (Log.logs n).Reachable (s.project thread b))
  · intro s begins thread b has
    rw [begins.2.1] at has
    cases has
  · intro s action s' before alone moved thread b' has
    cases (reachable_linked before).effect (next_change moved) has with
    | same b had same =>
      rw [same]
      exact alone thread b had
    | created new begins => exact .start begins
    | moved b own had stepped flushes => exact (alone thread b had).step stepped

/-- In every run, the list has each buffer exactly once, and a thread and the flush thread do with
the buffer of the thread what they do in a run of the logger of one thread. -/
theorem each_thread_logs_alone (reached : (logs Thread File n).Reachable s) :
    (∃ list, SinglyLinked.Chain s.next s.globalList list ∧ list.Nodup ∧
      ∀ thread, thread ∈ list ↔ (s.buffers thread).isSome) ∧
    ∀ thread b, s.buffers thread = some b → (Log.logs n).Reachable (s.project thread b) :=
  ⟨(reachable_linked reached).list, fun _ _ has => reachable_alone reached has⟩

/-- Before anybody logs. -/
def fresh {File : Type} (file : File) : State Bool File where
  next _ := none
  globalList := none
  buffers _ := none
  callers _ := .idle
  configChanged := false
  configTimeoutMs := 1000
  configDestFile := file
  canTerminate := false
  quitter := .idle
  routine := .start
  timeoutMs := 0
  destFile := file
  written := []

theorem fresh_initial {File : Type} (file : File) : (logs Bool File n).initial (fresh file) :=
  ⟨rfl, fun _ => rfl, fun _ => rfl, rfl, rfl, rfl, rfl, rfl, rfl⟩

/-- Two threads start at the same time, and one of them has to link its buffer again; the flush
thread has written what the other one has logged. -/
theorem each_thread_logs_alone_linked : ∃ s, (logs Bool Unit 0).Reachable s ∧
    s.fileOf true = [97] ∧ s.globalList = some false ∧ s.next false = some true ∧
    ∀ b, s.buffers true = some b → (Log.logs 0).Reachable (s.project true b) := by
  have begun : (logs Bool Unit 0).Reachable (fresh ()) := .start (fresh_initial ())
  obtain ⟨s, reached, checked⟩ := begun.replay_check
    ([.logWrite2 true [97] [0], .logWrite2 false [98] [0], .step true false, .step false false,
      .step true false, .step false false, .step false false, .step false false] ++
      List.replicate 6 (.step true false) ++ List.replicate 14 .flush)
    (fun s => s.fileOf true = [97] && s.globalList = some false && s.next false = some true)
    (by decide +kernel)
  simp only [Bool.and_eq_true, decide_eq_true_eq] at checked
  obtain ⟨⟨file, globalList⟩, link⟩ := checked
  exact ⟨s, reached, file, globalList, link, fun b => (each_thread_logs_alone reached).2 true b⟩

end Mysnips.LogThreads

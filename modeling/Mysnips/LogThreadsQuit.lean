import Mysnips.LogFaults
import Mysnips.LogThreadsBuffers

/-! The end of the logger. No thread fails, whatever the others do; only a text without a byte
fails the assertion of `semaphore_wait`. Once the flush thread has been told to, it comes to the
end of the list a last time, also while other threads log, unless it is about to sleep, or sleeps,
without a timeout: then it needs a signal, and `log_quit` has only one. -/
namespace Mysnips.LogThreads
open SinglyLinked SpscQueue Transition System
open Log (Writer Flusher)

variable {Thread File : Type} {n : Nat} {list before rest : List Thread} {next : Thread → Option Thread}

/-- The most steps until the flush thread terminates, where it has been told to. -/
def Routine.left [DecidableEq Thread] (list : List Thread) : Routine Thread → Nat
  | .start => 8 * list.length + 3
  | .test => 8 * list.length + 2
  | .wait => 16 * list.length + 6
  | .asleep => 16 * list.length + 5
  | .reconfigure => 16 * list.length + 4
  | .open last => 8 * list.length + 1 + if last then 0 else 8 * list.length + 2
  | .visit last cursor flusher =>
    flusher.steps + 8 * (list.length - list.idxOf cursor - 1) + if last then 0 else 8 * list.length + 2
  | .terminated => 0

/-- The flush thread is behind the test of its loop, and sleeps until a signal comes. -/
def State.Dormant (s : State Thread File) : Prop :=
  (s.routine = .wait ∨ s.routine = .asleep) ∧ s.timeoutMs < 0

variable [DecidableEq Thread] {s s' : State Thread File}

instance (s : State Thread File) : Decidable s.Dormant := inferInstanceAs (Decidable (_ ∧ _))

theorem idxOf_middle {cursor : Thread} (nodup : (before ++ cursor :: rest).Nodup) :
    (before ++ cursor :: rest).idxOf cursor = before.length := by
  have fresh : cursor ∉ before := by
    intro member
    exact (List.nodup_append.mp nodup).2.2 cursor member cursor List.mem_cons_self rfl
  rw [List.idxOf_append_of_notMem fresh, List.idxOf_cons_self, Nat.add_zero]

/-- What is left where the flush thread follows a pointer of the list. -/
theorem Routine.follow_left (before : List Thread) (last : Bool) {here : Option Thread}
    (nodup : (before ++ rest).Nodup) (chain : Chain next here rest) :
    (Routine.follow last here).left (before ++ rest) ≤
      8 * rest.length + if last then 0 else 8 * (before ++ rest).length + 2 := by
  cases rest with
  | nil =>
    cases chain
    cases last <;> simp [Routine.follow, Routine.left]
  | cons cursor rest =>
    obtain ⟨rfl, -⟩ := chain
    simp only [Routine.follow, Routine.left, idxOf_middle nodup, Flusher.steps, List.length_append,
      List.length_cons]
    omega

/-! ### The steps that are there -/

/-- The flush thread goes on until it terminates, where it does not sleep without a timeout. -/
theorem flush_goes_on (small : n ≤ 30) (reached : (logs Thread File n).Reachable s)
    (runs : s.routine ≠ .terminated) (awake : s.routine = .asleep → 0 ≤ s.timeoutMs) :
    ∃ s', flush s = some s' := by
  rw [flush]
  cases routine : s.routine with
  | visit last cursor flusher =>
    obtain ⟨b, has⟩ := Option.isSome_iff_exists.mp
      ((reachable_linked reached).visiting last cursor flusher routine)
    have alone := reachable_alone reached has
    obtain ⟨logger, moved⟩ := Log.flush_enabled small alone
    obtain ⟨-, -, bytes, -, framed⟩ := flush_frame moved
    have here : s.flusherOf cursor = flusher := by
      rw [State.flusherOf, routine]
      exact if_pos rfl
    have stepped := framed []
    simp only [State.project, Buffer.log, here] at stepped
    simp only [has, Buffer.log, stepped, Option.bind_eq_bind, Option.bind_some]
    exact ⟨_, rfl⟩
  | asleep => exact ⟨_, if_pos (awake routine)⟩
  | reconfigure =>
    simp only
    split <;> exact ⟨_, rfl⟩
  | terminated => exact absurd routine runs
  | _ => exact ⟨_, rfl⟩

/-- The first steps of a call of `log_write2` are always there. -/
theorem caller_goes_on (reached : (logs Thread File n).Reachable s) {thread : Thread} (spurious : Bool)
    (busy : s.callers thread ≠ .idle) : ∃ s', step n s thread spurious = some s' := by
  have ready := (reachable_linked reached).callers thread
  rw [step]
  cases caller : s.callers thread with
  | idle => exact absurd caller busy
  | loadHead data memory => exact ⟨_, rfl⟩
  | exchange data memory oldHead =>
    simp only
    split <;> exact ⟨_, rfl⟩
  | measure data =>
    rw [caller] at ready
    obtain ⟨b, has, -⟩ := ready
    by_cases full : b.free < data.length
    · exact ⟨_, Option.bind_eq_some_iff.mpr ⟨b, has, if_pos full⟩⟩
    · exact ⟨_, Option.bind_eq_some_iff.mpr ⟨b, has, if_neg full⟩⟩
  | wakeup data =>
    rw [caller] at ready
    obtain ⟨b, has, -⟩ := ready
    simp only [has, Option.bind_eq_bind, Option.bind_some]
    exact ⟨_, rfl⟩

/-- The semaphore lets through what is not empty, where it has as many permits. -/
theorem writer_goes_on_iff (small : n ≤ 30) (reached : (logs Thread File n).Reachable s)
    {thread : Thread} (spurious : Bool) {b : Buffer} (idle : s.callers thread = .idle)
    (has : s.buffers thread = some b) (busy : b.writer ≠ .idle)
    (fits : b.queue.tail + 2 ^ n < 2 ^ 64 - 1) :
    (∃ s', step n s thread spurious = some s') ↔
      ∀ data, b.writer = .wait data → 0 < data.length ∧ data.length ≤ b.sem := by
  have alone := reachable_alone reached has
  constructor
  · rintro ⟨s', moved⟩ data waits
    simp only [step, idle, has, Option.bind_eq_bind, Option.bind_some, Option.bind_eq_some_iff] at moved
    obtain ⟨logger, moved, -⟩ := moved
    exact Log.write_waited small alone waits (write_frame (s.flusherOf thread) (s.fileOf thread) moved)
  · intro free
    obtain ⟨logger, moved⟩ := Log.write_enabled small alone fits busy free
    have stepped := write_frame .peek0 [] moved
    simp only [State.project, Buffer.log] at stepped
    simp only [step, idle, has, Buffer.log, stepped, Option.bind_eq_bind, Option.bind_some]
    exact ⟨_, rfl⟩

/-- Each step of the flush thread in a buffer brings it nearer to the end. -/
theorem visit_nearer (small : n ≤ 30) (reached : (logs Thread File n).Reachable s)
    (chain : Chain s.next s.globalList list) (nodup : list.Nodup) {last : Bool} {cursor : Thread}
    {flusher : Flusher} {b : Buffer} {logger : Log.State}
    (there : s.routine = .visit last cursor flusher) (has : s.buffers cursor = some b)
    (moved : Log.flush (b.log flusher []) = some logger) :
    (s.visited last cursor logger).routine.left list <
      (Routine.visit last cursor flusher : Routine Thread).left list := by
  have alone := reachable_alone reached has
  obtain ⟨others, others_chain, _, members⟩ := (reachable_linked reached).list
  have here : s.flusherOf cursor = flusher := by
    rw [State.flusherOf, there]
    exact if_pos rfl
  obtain ⟨-, -, bytes, -, framed⟩ := flush_frame moved
  have own : Log.flush (s.project cursor b) =
      some { logger with file := s.fileOf cursor ++ bytes } := by
    rw [State.project, here]
    exact framed (s.fileOf cursor)
  have nearer := Log.flush_nearer small alone own
  rw [State.project, here] at nearer
  simp only [State.visited]
  split
  · rename_i leaves
    have listed : cursor ∈ list := by
      rw [chain.unique others_chain]
      exact (members cursor).mpr (by rw [has]; rfl)
    obtain ⟨before, rest, rfl⟩ := List.append_of_mem listed
    have some := flusher.steps_pos
    have split : before ++ cursor :: rest = (before ++ [cursor]) ++ rest := by simp
    have left := Routine.follow_left (before ++ [cursor]) last (split ▸ nodup) chain.behind
    rw [← split] at left
    have here : (Routine.visit last cursor flusher).left (before ++ cursor :: rest) =
        flusher.steps + 8 * (before.length + (rest.length + 1) - before.length - 1) +
          if last then 0 else 8 * (before ++ cursor :: rest).length + 2 := by
      rw [Routine.left, idxOf_middle nodup, List.length_append, List.length_cons]
    omega
  · rename_i stays
    have fewer : logger.flusher.steps < flusher.steps := nearer.resolve_left stays
    simp only [Routine.left]
    omega

/-- Each step of the flush thread brings it nearer to the end. -/
theorem flush_nearer (small : n ≤ 30) (reached : (logs Thread File n).Reachable s)
    (told : s.canTerminate = true) (chain : Chain s.next s.globalList list) (nodup : list.Nodup)
    (moved : flush s = some s') : s'.routine.left list < s.routine.left list := by
  rw [flush] at moved
  cases routine : s.routine with
  | start | wait =>
    simp only [routine] at moved
    cases moved
    simp [Routine.left]
  | test =>
    simp only [routine] at moved
    cases moved
    simp [Routine.left, told]
  | asleep =>
    simp only [routine] at moved
    obtain ⟨-, same⟩ := Option.ite_none_right_eq_some.mp moved
    cases same
    simp [Routine.left]
  | reconfigure =>
    simp only [routine] at moved
    split at moved <;> cases moved <;> (simp only [Routine.left, Bool.false_eq_true, if_false]; omega)
  | «open» last =>
    simp only [routine] at moved
    cases moved
    have left : (Routine.follow last s.globalList).left list ≤
        8 * list.length + if last then 0 else 8 * list.length + 2 :=
      Routine.follow_left [] last nodup chain
    have here : (Routine.open last : Routine Thread).left list =
      8 * list.length + 1 + if last then 0 else 8 * list.length + 2 := rfl
    simp only
    omega
  | visit last cursor flusher =>
    simp only [routine, Option.bind_eq_bind, Option.bind_eq_some_iff] at moved
    obtain ⟨b, has, logger, stepped, same⟩ := moved
    cases same
    exact visit_nearer small reached chain nodup routine has stepped
  | terminated =>
    simp only [routine] at moved
    cases moved

/-- Who has been told to terminate does not go to sleep any more. -/
theorem flush_awake (told : s.canTerminate = true) (awake : ¬ s.Dormant) (moved : flush s = some s') :
    ¬ s'.Dormant := by
  rintro ⟨asleep, endless⟩
  rw [flush] at moved
  cases routine : s.routine with
  | wait =>
    simp only [routine] at moved
    cases moved
    exact awake ⟨.inl routine, endless⟩
  | test =>
    simp only [routine, told, if_true] at moved
    cases moved
    simp at asleep
  | asleep =>
    simp only [routine] at moved
    obtain ⟨-, same⟩ := Option.ite_none_right_eq_some.mp moved
    cases same
    simp at asleep
  | start =>
    simp only [routine] at moved
    cases moved
    simp at asleep
  | reconfigure =>
    simp only [routine] at moved
    split at moved <;> cases moved <;> simp at asleep
  | «open» last =>
    simp only [routine] at moved
    cases moved
    cases head : s.globalList <;> cases last <;> simp [Routine.follow, head] at asleep
  | visit last cursor flusher =>
    simp only [routine, Option.bind_eq_bind, Option.bind_eq_some_iff] at moved
    obtain ⟨b, has, logger, stepped, same⟩ := moved
    cases same
    simp only [State.visited] at asleep
    split at asleep
    · cases link : s.next cursor <;> cases last <;> simp [Routine.follow, link] at asleep
    · simp at asleep
  | terminated =>
    simp only [routine] at moved
    cases moved

/-- Who sleeps without a timeout does not wake up by itself. -/
theorem flush_dormant (dormant : s.Dormant) (moved : flush s = some s') : s'.Dormant := by
  obtain ⟨asleep | asleep, endless⟩ := dormant
  · rw [flush, asleep] at moved
    cases moved
    exact ⟨.inr rfl, endless⟩
  · rw [flush, asleep] at moved
    exact absurd (Option.ite_none_right_eq_some.mp moved).1 (by omega)

/-- Once `log_quit` has told it to, the steps of the flush thread alone bring it to where it
terminates, so that the join of `log_quit` returns, exactly where it is not about to sleep, or
sleeps, without a timeout. -/
theorem log_quit_returns_iff (small : n ≤ 30) (reached : (logs Thread File n).Reachable s)
    (told : s.canTerminate = true) :
    (∃ actions s', (logs Thread File n).replay s actions = some s' ∧
      (∀ action ∈ actions, action = .flush) ∧ s'.routine = .terminated) ↔ ¬ s.Dormant := by
  constructor
  · rintro ⟨actions, s', replayed, flushes, terminated⟩ dormant
    have stays : s'.Dormant := by
      refine replay_invariant (fun s action member s' dormant moved => ?_) dormant replayed
      rw [flushes action member] at moved
      exact flush_dormant dormant moved
    rcases stays.1 with asleep | asleep <;> cases asleep.symm.trans terminated
  intro awake
  obtain ⟨list, chain, nodup, -⟩ := (reachable_linked reached).list
  have nearer : ∀ s : State Thread File,
      (logs Thread File n).Reachable s ∧ s.canTerminate = true ∧ ¬ s.Dormant ∧
        Chain s.next s.globalList list →
      ¬ s.routine = .terminated → ∃ action s', action = .flush ∧
        (logs Thread File n).next s action = some s' ∧
        ((logs Thread File n).Reachable s' ∧ s'.canTerminate = true ∧ ¬ s'.Dormant ∧
          Chain s'.next s'.globalList list) ∧ s'.routine.left list < s.routine.left list := by
    rintro s ⟨reached, told, awake, chain⟩ runs
    obtain ⟨s', moved⟩ := flush_goes_on small reached runs fun asleep =>
      Int.not_lt.mp fun endless => awake ⟨.inr asleep, endless⟩
    refine ⟨.flush, s', rfl, moved, ⟨reached.step (a := .flush) moved, ?_⟩,
      flush_nearer small reached told chain nodup moved⟩
    have awake' := flush_awake told awake moved
    -- the flush thread does not change the list
    cases flush_change (n := n) moved with
    | walk routine destFile timeoutMs configChanged outside first moved after =>
      subst after
      exact ⟨told, awake', chain⟩
    | visit last cursor flusher b logger there has moved after =>
      subst after
      exact ⟨told, awake', chain⟩
    | adjust action routine quitter canTerminate configChanged configTimeoutMs configDestFile woken
        told' after =>
      subst after
      rcases told' with rfl | ⟨other, -⟩
      · exact ⟨told, awake', chain⟩
      · cases other
  obtain ⟨actions, s', replayed, flushes, -, terminated⟩ :=
    replay_progress _ _ _ nearer ⟨reached, told, awake, chain⟩
  exact ⟨actions, s', replayed, flushes, terminated⟩

/-- `log_quit` comes while a thread has written half of what it logs, and the flush thread sleeps
its second. -/
theorem log_quit_returns_early : ∃ s actions s', (logs Bool Unit 1).Reachable s ∧
    s.canTerminate = true ∧ s.routine = .asleep ∧
    (logs Bool Unit 1).replay s actions = some s' ∧ (∀ action ∈ actions, action = .flush) ∧
    s'.routine = .terminated := by
  have begun : (logs Bool Unit 1).Reachable (fresh ()) := .start (fresh_initial ())
  obtain ⟨s, reached, checked⟩ := begun.replay_check
    ([.logWrite2 true [97, 98] [0, 0]] ++ List.replicate 7 (.step true false) ++
      [.flush, .flush, .flush, .quit])
    (fun s => s.canTerminate && s.routine = .asleep && ¬ s.Dormant) (by decide +kernel)
  simp only [Bool.and_eq_true, decide_eq_true_eq] at checked
  obtain ⟨⟨told, asleep⟩, awake⟩ := checked
  obtain ⟨actions, s', finished⟩ := (log_quit_returns_iff (by decide) reached told).mpr awake
  exact ⟨s, actions, s', reached, told, asleep, finished⟩

/-- Behind the signal of `log_quit`, the flush thread terminates by itself unless it has been
between its test and its sleep, without a timeout: it has missed the signal. -/
theorem signal_missed_iff (small : n ≤ 30) (reached : (logs Thread File n).Reachable s)
    (told : s.canTerminate = true) (moved : (logs Thread File n).next s .signal = some s') :
    (∃ actions s'', (logs Thread File n).replay s' actions = some s'' ∧
      (∀ action ∈ actions, action = .flush) ∧ s''.routine = .terminated) ↔
      ¬ (s.routine = .wait ∧ s.timeoutMs < 0) := by
  have after := reached.step moved
  obtain ⟨-, same⟩ := Option.ite_none_right_eq_some.mp moved
  cases same
  rw [log_quit_returns_iff small after told, State.Dormant]
  cases routine : s.routine <;> simp [Routine.woken]

/-- A program that logs nothing sets a timeout of -1 and quits. The signal comes while the flush
thread is about to sleep, and then `log_quit` waits for it. -/
theorem log_quit_waits_forever : ∃ s, (logs Bool Unit 1).Reachable s ∧ s.quitter = .join ∧
    (∀ thread, s.quiet thread) ∧
    ¬ ∃ actions s', (logs Bool Unit 1).replay s actions = some s' ∧
      (∀ action ∈ actions, action = .flush) ∧ s'.routine = .terminated := by
  have begun : (logs Bool Unit 1).Reachable (fresh ()) := .start (fresh_initial ())
  obtain ⟨s, reached, checked⟩ := begun.replay_check
    [.setFlushTimeout (-1), .flush, .flush, .quit, .signal]
    (fun s => s.quitter = .join && (s.quiet true && s.quiet false) && s.canTerminate && s.Dormant)
    (by decide +kernel)
  simp only [Bool.and_eq_true, decide_eq_true_eq] at checked
  obtain ⟨⟨⟨joins, quiet⟩, told⟩, dormant⟩ := checked
  refine ⟨s, reached, joins, Bool.forall_bool.mpr ⟨quiet.2, quiet.1⟩, fun ends => ?_⟩
  exact (log_quit_returns_iff (by decide) reached told).mp ends dormant

end Mysnips.LogThreads

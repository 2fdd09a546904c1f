import Mysnips.LogThreads
import Mysnips.SinglyLinked

/-! The steps of the logger with all its threads, and its list. The list only grows at its head,
and each buffer is in it once. -/
namespace Mysnips.LogThreads
open SinglyLinked SpscQueue Transition
open Log (Writer Flusher)

variable {Thread File : Type}

/-! ### The steps of one buffer -/

theorem Routine.follow_visit {last last' : Bool} {here : Option Thread} {cursor : Thread}
    {flusher : Flusher} (visits : Routine.follow last here = .visit last' cursor flusher) :
    last = last' ∧ flusher = .peek0 ∧ here = some cursor := by
  cases here with
  | none => cases last <;> cases visits
  | some other =>
    cases visits
    exact ⟨rfl, rfl, rfl⟩

/-- What is in the file already does not matter to the flush thread, which does not touch what
the thread does and has logged. -/
theorem flush_frame {s s' : Log.State} (moved : Log.flush s = some s') :
    s'.writer = s.writer ∧ s'.logged = s.logged ∧
      ∃ bytes, s'.file = s.file ++ bytes ∧
        ∀ file, Log.flush { s with file } = some { s' with file := file ++ bytes } := by
  rw [Log.flush] at moved
  cases flusher : s.flusher with
  | peek0 =>
    simp only [flusher] at moved
    cases moved
    refine ⟨rfl, rfl, [], (List.append_nil _).symm, fun file => ?_⟩
    simp [Log.flush]
  | peek1 ptr1 num1 =>
    simp only [flusher] at moved
    split at moved
    · rename_i positive
      cases moved
      refine ⟨rfl, rfl, [], (List.append_nil _).symm, fun file => ?_⟩
      simp [Log.flush, if_pos positive]
    · rename_i nothing
      cases moved
      refine ⟨rfl, rfl, [], (List.append_nil _).symm, fun file => ?_⟩
      simp [Log.flush, if_neg nothing]
  | write1 ptr1 num1 ptr2 num2 =>
    simp only [flusher, Option.bind_eq_bind, Option.bind_eq_some_iff] at moved
    obtain ⟨bytes, wrote, same⟩ := moved
    cases same
    refine ⟨rfl, rfl, bytes, rfl, fun file => ?_⟩
    simp [Log.flush, wrote]
  | write2 num1 ptr2 num2 =>
    simp only [flusher, Option.bind_eq_bind, Option.bind_eq_some_iff] at moved
    obtain ⟨bytes, wrote, same⟩ := moved
    split at same
    · rename_i positive
      cases same
      refine ⟨rfl, rfl, bytes, rfl, fun file => ?_⟩
      simp [Log.flush, wrote, if_pos positive]
    · cases same
  | pop consumer total =>
    simp only [flusher, Option.bind_eq_bind, Option.bind_eq_some_iff] at moved
    obtain ⟨result, popped, same⟩ := moved
    cases same
    refine ⟨rfl, rfl, [], (List.append_nil _).symm, fun file => ?_⟩
    simp [Log.flush, popped]
  | signal total =>
    simp only [flusher, Option.bind_eq_bind, Option.bind_eq_some_iff] at moved
    obtain ⟨sem, signaled, same⟩ := moved
    cases same
    refine ⟨rfl, rfl, [], (List.append_nil _).symm, fun file => ?_⟩
    simp [Log.flush, signaled]

/-- Where the flush thread is, and what is in the file, does not matter to the thread. -/
theorem write_frame {s s' : Log.State} (flusher : Flusher) (file : List UInt8)
    (moved : Log.write s = some s') :
    Log.write { s with flusher, file } = some { s' with flusher, file } := by
  rw [Log.write] at moved
  cases writer : s.writer with
  | idle =>
    simp only [writer] at moved
    cases moved
  | wait data =>
    simp only [writer, Option.bind_eq_bind, Option.bind_eq_some_iff] at moved
    obtain ⟨sem, waited, same⟩ := moved
    cases same
    simp [Log.write, waited]
  | push producer =>
    simp only [writer, Option.bind_eq_bind, Option.bind_eq_some_iff] at moved
    obtain ⟨result, pushed, same⟩ := moved
    cases same
    simp [Log.write, pushed]

/-- What is known of a thread in a call of `log_write2`, from its buffer and its `next`. Until it
has a buffer in the list, it has linked its new one before the head that it saw. -/
def Caller.Ready (n : Nat) (buffer : Option Buffer) (next : Option Thread) : Caller Thread → Prop
  | .idle => True
  | .loadHead data memory => buffer = none ∧ data.length ≤ 2 ^ n ∧ memory.length = 2 ^ n
  | .exchange data memory oldHead =>
    buffer = none ∧ data.length ≤ 2 ^ n ∧ memory.length = 2 ^ n ∧ next = oldHead
  | .measure data | .wakeup data => ∃ b, buffer = some b ∧ b.writer = .idle ∧ data.length ≤ 2 ^ n

/-- The buffers are those in the list, and only they are flushed. -/
structure Linked (n : Nat) (s : State Thread File) : Prop where
  list : ∃ list, Chain s.next s.globalList list ∧ list.Nodup ∧
    ∀ thread, thread ∈ list ↔ (s.buffers thread).isSome
  callers : ∀ thread, (s.callers thread).Ready n (s.buffers thread) (s.next thread)
  visiting : ∀ last cursor flusher, s.routine = .visit last cursor flusher →
    (s.buffers cursor).isSome
  strangers : ∀ entry ∈ s.written, (s.buffers entry.2.1).isSome

variable {n : Nat} {s s' : State Thread File} {action : Action Thread File} {thread : Thread}

/-- The list stays as it is while no thread comes to it. -/
theorem Linked.frame (linked : Linked n s) (next : s'.next = s.next)
    (globalList : s'.globalList = s.globalList)
    (same : ∀ thread, (s'.buffers thread).isSome = (s.buffers thread).isSome)
    (callers : ∀ thread, (s'.callers thread).Ready n (s'.buffers thread) (s'.next thread))
    (visiting : ∀ last cursor flusher, s'.routine = .visit last cursor flusher →
      (s.buffers cursor).isSome)
    (strangers : ∀ entry ∈ s'.written, (s.buffers entry.2.1).isSome) : Linked n s' := by
  obtain ⟨list, chain, nodup, members⟩ := linked.list
  refine ⟨⟨list, ?_, nodup, ?_⟩, callers, ?_, ?_⟩
  · rw [next, globalList]
    exact chain
  · intro thread
    rw [members, same]
  · intro last cursor flusher visits
    rw [same]
    exact visiting last cursor flusher visits
  · intro entry member
    rw [same]
    exact strangers entry member

theorem Routine.woken_visit {routine : Routine Thread} {last : Bool} {cursor : Thread}
    {flusher : Flusher} : routine.woken = .visit last cursor flusher ↔
      routine = .visit last cursor flusher := by
  cases routine <;> simp [Routine.woken]

variable [DecidableEq Thread]

/-! ### The steps of all threads -/

/-- What an action does. -/
inductive Change (n : Nat) (s s' : State Thread File) : Action Thread File → Prop where
  | call (thread : Thread) (data memory : List UInt8) (caller : Caller Thread) (quiet : s.quiet thread)
      (ready : caller.Ready n (s.buffers thread) (s.next thread))
      (after : s' = { s with callers := Function.update s.callers thread caller }) :
      Change n s s' (.logWrite2 thread data memory)
  | load (thread : Thread) (spurious : Bool) (data memory : List UInt8)
      (there : s.callers thread = .loadHead data memory)
      (after : s' = { s with
        next := Function.update s.next thread s.globalList
        callers := Function.update s.callers thread (.exchange data memory s.globalList) }) :
      Change n s s' (.step thread spurious)
  | link (thread : Thread) (spurious : Bool) (data memory : List UInt8)
      (there : s.callers thread = .exchange data memory s.globalList)
      (after : s' = { s with
        globalList := some thread
        buffers := Function.update s.buffers thread (some (.create n memory))
        callers := Function.update s.callers thread (.measure data) }) :
      Change n s s' (.step thread spurious)
  | retry (thread : Thread) (spurious : Bool) (data memory : List UInt8) (oldHead : Option Thread)
      (there : s.callers thread = .exchange data memory oldHead)
      (after : s' = { s with
        callers := Function.update s.callers thread (.loadHead data memory) }) :
      Change n s s' (.step thread spurious)
  | ask (thread : Thread) (spurious : Bool) (data : List UInt8) (b : Buffer)
      (there : s.callers thread = .measure data) (has : s.buffers thread = some b)
      (full : b.free < data.length)
      (after : s' = { s with callers := Function.update s.callers thread (.wakeup data) }) :
      Change n s s' (.step thread spurious)
  | enter (thread : Thread) (spurious : Bool) (data : List UInt8) (b : Buffer)
      (routine : Routine Thread) (there : s.callers thread = .measure data ∨
        s.callers thread = .wakeup data) (has : s.buffers thread = some b)
      (woken : routine = s.routine ∨ routine = s.routine.woken)
      (after : s' = s.enter thread b data routine) : Change n s s' (.step thread spurious)
  | write (thread : Thread) (spurious : Bool) (b : Buffer) (logger : Log.State)
      (idle : s.callers thread = .idle) (has : s.buffers thread = some b)
      (moved : Log.write (b.log .peek0 []) = some logger)
      (after : s' = { s with
        buffers := Function.update s.buffers thread
          (some ⟨logger.queue, logger.sem, logger.writer, logger.logged⟩) }) :
      Change n s s' (.step thread spurious)
  | walk (routine : Routine Thread) (destFile : File) (timeoutMs : Int) (configChanged : Bool)
      (outside : ∀ last cursor flusher, s.routine ≠ .visit last cursor flusher)
      (first : ∀ last cursor flusher, routine = .visit last cursor flusher →
        flusher = .peek0 ∧ s.globalList = some cursor)
      (moved : flush s = some s')
      (after : s' = { s with routine, destFile, timeoutMs, configChanged }) : Change n s s' .flush
  | visit (last : Bool) (cursor : Thread) (flusher : Flusher) (b : Buffer) (logger : Log.State)
      (there : s.routine = .visit last cursor flusher) (has : s.buffers cursor = some b)
      (moved : Log.flush (b.log flusher []) = some logger)
      (after : s' = s.visited last cursor logger) : Change n s s' .flush
  | adjust (action : Action Thread File) (routine : Routine Thread) (quitter : Quitter)
      (canTerminate configChanged : Bool) (configTimeoutMs : Int) (configDestFile : File)
      (woken : routine = s.routine ∨ routine = s.routine.woken)
      (told : canTerminate = s.canTerminate ∨ action = .quit ∧ canTerminate = true)
      (after : s' = { s with
        routine, quitter, canTerminate, configChanged, configTimeoutMs, configDestFile }) :
      Change n s s' action

theorem flush_change (moved : flush s = some s') : Change n s s' .flush := by
  have whole := moved
  rw [flush] at moved
  cases routine : s.routine with
  | visit last cursor flusher =>
    simp only [routine, Option.bind_eq_bind, Option.bind_eq_some_iff] at moved
    obtain ⟨b, has, logger, stepped, same⟩ := moved
    exact .visit last cursor flusher b logger routine has stepped (Option.some.inj same).symm
  | start =>
    simp only [routine] at moved
    refine .walk .test s.configDestFile s.configTimeoutMs s.configChanged ?_ ?_ whole
      (Option.some.inj moved).symm
    · simp [routine]
    · simp
  | test =>
    simp only [routine] at moved
    refine .walk (if s.canTerminate then .open true else .wait) s.destFile s.timeoutMs
      s.configChanged ?_ ?_ whole (Option.some.inj moved).symm
    · simp [routine]
    · intro last cursor flusher visits
      split at visits <;> cases visits
  | wait =>
    simp only [routine] at moved
    refine .walk .asleep s.destFile s.timeoutMs s.configChanged ?_ ?_ whole
      (Option.some.inj moved).symm
    · simp [routine]
    · simp
  | asleep =>
    simp only [routine] at moved
    obtain ⟨-, moved⟩ := Option.ite_none_right_eq_some.mp moved
    refine .walk .reconfigure s.destFile s.timeoutMs s.configChanged ?_ ?_ whole
      (Option.some.inj moved).symm
    · simp [routine]
    · simp
  | reconfigure =>
    simp only [routine] at moved
    split at moved
    · refine .walk (.open false) s.configDestFile s.configTimeoutMs false ?_ ?_ whole
        (Option.some.inj moved).symm
      · simp [routine]
      · simp
    · refine .walk (.open false) s.destFile s.timeoutMs s.configChanged ?_ ?_ whole
        (Option.some.inj moved).symm
      · simp [routine]
      · simp
  | «open» last =>
    simp only [routine] at moved
    refine .walk (.follow last s.globalList) s.destFile s.timeoutMs s.configChanged ?_ ?_ whole
      (Option.some.inj moved).symm
    · simp [routine]
    · intro last' cursor flusher visits
      exact (Routine.follow_visit visits).2
  | terminated =>
    simp only [routine] at moved
    cases moved

theorem step_change {spurious : Bool} (moved : step n s thread spurious = some s') :
    Change n s s' (.step thread spurious) := by
  rw [step] at moved
  cases there : s.callers thread with
  | idle =>
    simp only [there, Option.bind_eq_bind, Option.bind_eq_some_iff] at moved
    obtain ⟨b, has, logger, stepped, same⟩ := moved
    exact .write thread spurious b logger there has stepped (Option.some.inj same).symm
  | loadHead data memory =>
    simp only [there] at moved
    exact .load thread spurious data memory there (Option.some.inj moved).symm
  | exchange data memory oldHead =>
    simp only [there] at moved
    split at moved
    · rename_i taken
      rw [← taken.1] at there
      exact .link thread spurious data memory there (Option.some.inj moved).symm
    · exact .retry thread spurious data memory oldHead there (Option.some.inj moved).symm
  | measure data =>
    simp only [there, Option.bind_eq_bind, Option.bind_eq_some_iff] at moved
    obtain ⟨b, has, moved⟩ := moved
    split at moved
    · rename_i full
      exact .ask thread spurious data b there has full (Option.some.inj moved).symm
    · exact .enter thread spurious data b _ (.inl there) has (.inl rfl) (Option.some.inj moved).symm
  | wakeup data =>
    simp only [there, Option.bind_eq_bind, Option.bind_eq_some_iff] at moved
    obtain ⟨b, has, moved⟩ := moved
    exact .enter thread spurious data b _ (.inr there) has (.inr rfl) (Option.some.inj moved).symm

theorem next_change (moved : (logs Thread File n).next s action = some s') : Change n s s' action := by
  cases action with
  | logWrite2 thread data memory =>
    simp only [logs] at moved
    split at moved
    · rename_i called
      obtain ⟨quiet, short, size⟩ := called
      have short := Nat.not_lt.mp short
      cases buffer : s.buffers thread with
      | none =>
        simp only [buffer] at moved
        exact .call thread data memory (.loadHead data memory) quiet ⟨buffer, short, size⟩
          (Option.some.inj moved).symm
      | some b =>
        simp only [buffer] at moved
        exact .call thread data memory (.measure data) quiet ⟨b, buffer, quiet.2 b buffer, short⟩
          (Option.some.inj moved).symm
    · cases moved
  | step thread spurious => exact step_change moved
  | flush => exact flush_change moved
  | stir =>
    obtain ⟨asleep, moved⟩ := Option.ite_none_right_eq_some.mp moved
    exact .adjust _ .reconfigure _ _ _ _ _ (.inr (by rw [asleep]; rfl)) (.inl rfl)
      (Option.some.inj moved).symm
  | setFlushTimeout timeoutMs =>
    exact .adjust _ _ _ _ _ _ _ (.inl rfl) (.inl rfl) (Option.some.inj moved).symm
  | setDestFile file =>
    exact .adjust _ _ _ _ _ _ _ (.inl rfl) (.inl rfl) (Option.some.inj moved).symm
  | quit =>
    obtain ⟨-, moved⟩ := Option.ite_none_right_eq_some.mp moved
    exact .adjust _ _ _ _ _ _ _ (.inl rfl) (.inr ⟨rfl, rfl⟩) (Option.some.inj moved).symm
  | signal =>
    obtain ⟨-, moved⟩ := Option.ite_none_right_eq_some.mp moved
    exact .adjust _ _ _ _ _ _ _ (.inr rfl) (.inl rfl) (Option.some.inj moved).symm

/-! ### The list -/

theorem Linked.start (begins : (logs Thread File n).initial s) : Linked n s := by
  obtain ⟨globalList, buffers, callers, -, -, -, -, routine, written⟩ := begins
  refine ⟨⟨[], globalList, List.nodup_nil, ?_⟩, ?_, ?_, ?_⟩
  · simp [buffers]
  · intro thread
    rw [callers]
    trivial
  · simp [routine]
  · simp [written]

/-- A buffer that changes is still there. -/
theorem isSome_update {buffers : Thread → Option Buffer} {b : Buffer} (has : buffers thread = some b)
    (b' : Buffer) (other : Thread) :
    (Function.update buffers thread (some b') other).isSome = (buffers other).isSome := by
  by_cases same : other = thread
  · rw [same, Function.update_self, has]
    rfl
  · rw [Function.update_of_ne same]

/-- The other threads do not notice what a thread does. -/
theorem Linked.ready (linked : Linked n s) (thread : Thread)
    (own : (s'.callers thread).Ready n (s'.buffers thread) (s'.next thread))
    (others : ∀ other, other ≠ thread → s'.callers other = s.callers other ∧
      s'.buffers other = s.buffers other ∧ s'.next other = s.next other) (other : Thread) :
    (s'.callers other).Ready n (s'.buffers other) (s'.next other) := by
  by_cases same : other = thread
  · rw [same]
    exact own
  · obtain ⟨callers, buffers, next⟩ := others other same
    rw [callers, buffers, next]
    exact linked.callers other

/-- A thread goes on in its call. -/
theorem Linked.recall (linked : Linked n s) {caller : Caller Thread}
    (ready : caller.Ready n (s.buffers thread) (s.next thread)) :
    Linked n { s with callers := Function.update s.callers thread caller } := by
  refine { linked with callers := linked.ready thread ?_ fun other different => ?_ }
  · simp only [Function.update_self]
    exact ready
  · simp only [Function.update_of_ne different, and_self]

/-- A thread links its buffer before the head that it sees. -/
theorem Linked.load (linked : Linked n s) {data memory : List UInt8}
    (there : s.callers thread = .loadHead data memory) :
    Linked n { s with
      next := Function.update s.next thread s.globalList
      callers := Function.update s.callers thread (.exchange data memory s.globalList) } := by
  have ready := linked.callers thread
  rw [there] at ready
  obtain ⟨new, short, size⟩ := ready
  obtain ⟨list, chain, nodup, members⟩ := linked.list
  have outside : thread ∉ list := by
    rw [members, new]
    simp
  refine { linked with
    list := ⟨list, chain.update outside _, nodup, members⟩
    callers := linked.ready thread ?_ fun other different => ?_ }
  · simp only [Function.update_self]
    exact ⟨new, short, size, rfl⟩
  · simp only [Function.update_of_ne different, and_self]

/-- A buffer comes to the head of the list. -/
theorem Linked.link (linked : Linked n s) {data memory : List UInt8}
    (there : s.callers thread = .exchange data memory s.globalList) :
    Linked n { s with
      globalList := some thread
      buffers := Function.update s.buffers thread (some (.create n memory))
      callers := Function.update s.callers thread (.measure data) } := by
  have ready := linked.callers thread
  rw [there] at ready
  obtain ⟨new, short, size, next⟩ := ready
  obtain ⟨list, chain, nodup, members⟩ := linked.list
  have outside : thread ∉ list := by
    rw [members, new]
    simp
  have kept : ∀ other, (s.buffers other).isSome →
      (Function.update s.buffers thread (some (Buffer.create n memory)) other).isSome := by
    intro other has
    by_cases same : other = thread
    · rw [same, Function.update_self]
      rfl
    · rw [Function.update_of_ne same]
      exact has
  refine ⟨⟨thread :: list, ⟨rfl, by rw [next]; exact chain⟩, List.nodup_cons.mpr ⟨outside, nodup⟩, ?_⟩,
    linked.ready thread ?_ fun other different => ?_, ?_, ?_⟩
  · intro other
    by_cases same : other = thread
    · simp [same]
    · simp [same, members]
  · simp only [Function.update_self]
    exact ⟨_, rfl, rfl, short⟩
  · simp only [Function.update_of_ne different, and_self]
  · intro last cursor flusher visits
    exact kept cursor (linked.visiting last cursor flusher visits)
  · intro entry member
    exact kept _ (linked.strangers entry member)

theorem Linked.enter (linked : Linked n s) {data : List UInt8} {b : Buffer} {routine : Routine Thread}
    (has : s.buffers thread = some b) (woken : routine = s.routine ∨ routine = s.routine.woken) :
    Linked n (s.enter thread b data routine) := by
  refine linked.frame rfl rfl (isSome_update has _)
    (linked.ready thread ?_ fun other different => ?_) ?_ linked.strangers
  · simp only [State.enter, Function.update_self]
    trivial
  · simp only [State.enter, Function.update_of_ne different, and_self]
  · intro last cursor flusher visits
    rcases woken with rfl | rfl
    · exact linked.visiting last cursor flusher visits
    · exact linked.visiting last cursor flusher (Routine.woken_visit.mp visits)

theorem Linked.write (linked : Linked n s) {b b' : Buffer} (idle : s.callers thread = .idle)
    (has : s.buffers thread = some b) :
    Linked n { s with buffers := Function.update s.buffers thread (some b') } := by
  refine linked.frame rfl rfl (isSome_update has _)
    (linked.ready thread ?_ fun other different => ?_) linked.visiting linked.strangers
  · simp only [idle]
    trivial
  · simp only [Function.update_of_ne different, and_self]

/-- A step of the flush thread in a buffer does not change what its thread knows. -/
theorem Linked.visit (linked : Linked n s) {last : Bool} {cursor : Thread} {flusher : Flusher}
    {b : Buffer} {logger : Log.State} (there : s.routine = .visit last cursor flusher)
    (has : s.buffers cursor = some b) (moved : Log.flush (b.log flusher []) = some logger) :
    Linked n (s.visited last cursor logger) := by
  obtain ⟨list, chain, nodup, members⟩ := linked.list
  have here := linked.visiting last cursor flusher there
  refine linked.frame rfl rfl (isSome_update has _)
    (linked.ready cursor ?_ fun other different => ?_) ?_ ?_
  · have ready := linked.callers cursor
    have writer : logger.writer = b.writer := (flush_frame moved).1
    simp only [State.visited, Function.update_self]
    rw [has] at ready
    cases caller : s.callers cursor with
    | idle => trivial
    | loadHead | exchange =>
      rw [caller] at ready
      cases ready.1
    | measure | wakeup =>
      rw [caller] at ready
      obtain ⟨_, same, idle, short⟩ := ready
      cases same
      exact ⟨_, rfl, writer.trans idle, short⟩
  · simp only [State.visited, Function.update_of_ne different, and_self]
  · intro last' cursor' flusher' visits
    simp only [State.visited] at visits
    split at visits
    · obtain ⟨-, -, link⟩ := Routine.follow_visit visits
      exact (members cursor').mp (chain.link_mem ((members cursor).mpr here) link)
    · cases visits
      exact here
  · intro entry member
    rcases List.mem_append.mp member with before | new
    · exact linked.strangers entry before
    · obtain ⟨byte, -, rfl⟩ := List.mem_map.mp new
      exact here

theorem Linked.change (linked : Linked n s) (change : Change n s s' action) : Linked n s' := by
  cases change with
  | call thread data memory caller quiet ready after => exact after ▸ linked.recall ready
  | load thread spurious data memory there after => exact after ▸ linked.load there
  | link thread spurious data memory there after => exact after ▸ linked.link there
  | retry thread spurious data memory oldHead there after =>
    have ready := linked.callers thread
    rw [there] at ready
    obtain ⟨new, short, size, -⟩ := ready
    exact after ▸ linked.recall ⟨new, short, size⟩
  | ask thread spurious data b there has full after =>
    have ready := linked.callers thread
    rw [there] at ready
    exact after ▸ linked.recall ready
  | enter thread spurious data b routine there has woken after => exact after ▸ linked.enter has woken
  | write thread spurious b logger idle has moved after => exact after ▸ linked.write idle has
  | walk routine destFile timeoutMs configChanged outside first moved after =>
    subst after
    obtain ⟨list, chain, nodup, members⟩ := linked.list
    refine linked.frame rfl rfl (fun _ => rfl) linked.callers ?_ linked.strangers
    intro last cursor flusher visits
    obtain ⟨-, head⟩ := first last cursor flusher visits
    rw [head] at chain
    obtain ⟨rest, rfl, -⟩ := chain.of_some
    exact (members cursor).mp List.mem_cons_self
  | visit last cursor flusher b logger there has moved after =>
    exact after ▸ linked.visit there has moved
  | adjust action routine quitter canTerminate configChanged configTimeoutMs configDestFile woken told
      after =>
    subst after
    refine linked.frame rfl rfl (fun _ => rfl) linked.callers ?_ linked.strangers
    intro last cursor flusher visits
    rcases woken with rfl | rfl
    · exact linked.visiting last cursor flusher visits
    · exact linked.visiting last cursor flusher (Routine.woken_visit.mp visits)

end Mysnips.LogThreads

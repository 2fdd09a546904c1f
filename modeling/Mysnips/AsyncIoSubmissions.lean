import Mysnips.AsyncIoBookkeeping

/-! Submissions that fail, on Linux. `start_uring_op` publishes an entry before it asks the
kernel to take it. Where the kernel does not, the call returns false and the entry stays in
the ring: a later call passes it on. Before that, `start_uring_op` asks whether the ring is
full. It adds to one of two counters that run freely, so that the answer is wrong once that
sum has wrapped around and the tail has not. -/
namespace Mysnips.AsyncIo
open Machine RingSlots Transition

/-- The handle that a call of `io_recv`, `io_send` or `io_accept` is given, and whether
`io_uring_enter` succeeds. -/
def Action.submits : Action → Option (UInt32 × Bool)
  | .recv _ handle entered | .send _ handle entered | .accept _ handle entered _ =>
    some (handle, entered)
  | _ => none

/-- What a call of `io_recv`, `io_send` or `io_accept` returns. -/
def Action.returns (config : Config) (s : State) : Action → Option Bool
  | .recv user handle entered => some (ioRecv config s user handle entered).2
  | .send user handle entered => some (ioSend config s user handle entered).2
  | .accept user handle entered accepted => some (ioAccept config s user handle entered accepted).2
  | _ => none

/-- The ring and the tables are as they were. -/
structure LeavesNoTrace (s s' : State) : Prop where
  tail : s'.submissions.tail = s.submissions.tail
  res : s'.res = s.res
  ops : s'.ops = s.ops

/-- One of the checks refuses the call: of the handle, for an unused structure, and for room in
the ring. -/
def Refused (config : Config) (s : State) (handle : UInt32) : Prop :=
  resFromHandle config s handle = none ∨ findUnusedOp config s = none ∨
    s.submissions.tail ≥ add32 s.submissions.head config.limit

instance (config : Config) (s : State) (handle : UInt32) : Decidable (Refused config s handle) :=
  inferInstanceAs (Decidable (_ ∨ _ ∨ _))

/-- The kernel takes an entry, or none was stored. -/
def EntersUnlessRefused (config : Config) (s : State) (action : Action) : Prop :=
  ∀ submission ∈ action.submits, submission.2 = false → Refused config s submission.1

instance (config : Config) (s : State) (action : Action) :
    Decidable (EntersUnlessRefused config s action) :=
  @Option.decidableForallMem (UInt32 × Bool)
    (fun submission => submission.2 = false → Refused config s submission.1)
    (fun _ => inferInstance) action.submits

section Failed

variable {config : Config} {s s' : State} {sqe : Entry}

theorem startUringOp_full (full : s.submissions.tail ≥ add32 s.submissions.head config.limit)
    (entered : Bool) : startUringOp config s sqe entered = (s, false) := if_pos full

/-- An entry that the kernel does not take is stored all the same. -/
theorem startUringOp_left (room : ¬ s.submissions.tail ≥ add32 s.submissions.head config.limit) :
    startUringOp config s sqe false =
      ({ s with submissions := storeEntry config s.submissions sqe }, false) := if_neg room

theorem startUringOp_entered
    (room : ¬ s.submissions.tail ≥ add32 s.submissions.head config.limit) :
    (startUringOp config s sqe true).2 = true := by
  unfold startUringOp
  simp only [if_neg room, if_true]

/-- A call on Linux that returns false was refused and changes nothing, or leaves its entry in
the ring. -/
theorem ioStart_failed {start : State → Nat → Nat → Call → State × Bool} {type : OpType}
    {user : Nat} {handle : UInt32} {entered : Bool} {accepted : Int}
    (uring : ∀ r o call, ∃ opcode fd,
      start s r o call = startUringOp config s ⟨opcode, fd, o, call⟩ call.returned)
    (failed : (ioStart config start type s user handle entered accepted).2 = false) :
    (Refused config s handle ∧ (ioStart config start type s user handle entered accepted).1 = s) ∨
    (¬ Refused config s handle ∧ entered = false ∧
      ∃ sqe, (ioStart config start type s user handle entered accepted).1 =
        { s with submissions := storeEntry config s.submissions sqe }) := by
  unfold ioStart at failed ⊢
  split at failed
  · rename_i unknown
    exact .inl ⟨.inl unknown, rfl⟩
  rename_i r found
  split at failed
  · rename_i none
    exact .inl ⟨.inr (.inl none), rfl⟩
  rename_i o unused
  obtain ⟨opcode, fd, begins⟩ :=
    uring r o ⟨type, handle, user, r, (s.res r).turn, entered, accepted⟩
  simp only [begins] at failed ⊢
  by_cases full : s.submissions.tail ≥ add32 s.submissions.head config.limit
  · rw [startUringOp_full full]
    exact .inl ⟨.inr (.inr full), rfl⟩
  have accepted' : ¬ Refused config s handle := by simp [Refused, found, unused, full]
  cases entered with
  | false =>
    rw [startUringOp_left full]
    exact .inr ⟨accepted', rfl, _, rfl⟩
  | true =>
    have taken := @startUringOp_entered config s
      ⟨opcode, fd, o, ⟨type, handle, user, r, (s.res r).turn, true, accepted⟩⟩ full
    split at failed
    · rename_i started
      rw [started] at taken
      cases taken
    · cases failed

/-- The stored entry has moved the tail. -/
theorem storeEntry_tail_ne (ring : Submissions) :
    (storeEntry config ring sqe).tail ≠ ring.tail := by
  intro same
  have moved : (ring.tail + 1) % 2 ^ 32 = ring.tail := same
  omega

/-- A failed call leaves no trace where a check refused it. -/
theorem failed_trace {start : State → Nat → Nat → Call → State × Bool} {type : OpType}
    {user : Nat} {handle : UInt32} {entered : Bool} {accepted : Int}
    (uring : ∀ r o call, ∃ opcode fd,
      start s r o call = startUringOp config s ⟨opcode, fd, o, call⟩ call.returned)
    (failed : (ioStart config start type s user handle entered accepted).2 = false) :
    LeavesNoTrace s (ioStart config start type s user handle entered accepted).1 ↔
      Refused config s handle := by
  rcases ioStart_failed uring failed with ⟨refused, same⟩ | ⟨checked, -, sqe, stored⟩
  · rw [same]
    exact ⟨fun _ => refused, fun _ => ⟨rfl, rfl, rfl⟩⟩
  · rw [stored]
    exact ⟨fun clean => absurd clean.tail (storeEntry_tail_ne _),
      fun refused => absurd refused checked⟩

/-! ## Every run -/

/-- The calls of all operations that have not been reported returned true, and so did those of
the operations that have been. -/
structure Answered (config : Config) (s : State) : Prop where
  outstanding : ∃ queue, Queued config s.submissions queue ∧
    ∀ ticket ∈ outstanding queue s, ticket.2.returned = true
  reported : ∀ call turn event, .reported call turn event ∈ s.log → call.returned = true

/-- A step that submits nothing and reports nothing. -/
theorem Answered.keep (answered : Answered config s) (submissions : s'.submissions = s.submissions)
    (flying : s'.flying = s.flying) (arrived : s'.arrived = s.arrived)
    (log : ∀ call turn event, .reported call turn event ∈ s'.log →
      .reported call turn event ∈ s.log) : Answered config s' := by
  obtain ⟨queue, queued, returned⟩ := answered.outstanding
  refine ⟨⟨queue, submissions ▸ queued, ?_⟩,
    fun call turn event member => answered.reported call turn event (log call turn event member)⟩
  unfold AsyncIo.outstanding at returned ⊢
  rwa [flying, arrived]

theorem Answered.opened (answered : Answered config s) (opens : Opens config s s') :
    Answered config s' := by
  cases opens with
  | refused => exact answered
  | undone osHandle => exact answered.keep rfl rfl rfl (by simp)
  | claimed r type osHandle handle => exact answered.keep rfl rfl rfl (by simp)

/-- A call that is refused changes nothing, and one that is not returns true. -/
theorem Answered.start {start : State → Nat → Nat → Call → State × Bool} {type : OpType}
    {user : Nat} {handle : UInt32} {entered : Bool} {accepted : Int}
    (answered : Answered config s)
    (uring : ∀ r o call, ∃ opcode fd,
      start s r o call = startUringOp config s ⟨opcode, fd, o, call⟩ call.returned)
    (enters : entered = false → Refused config s handle) :
    Answered config (ioStart config start type s user handle entered accepted).1 := by
  obtain ⟨queue, queued, returned⟩ := answered.outstanding
  cases result : (ioStart config start type s user handle entered accepted).2 with
  | false =>
    rcases ioStart_failed uring result with ⟨-, same⟩ | ⟨checked, failed, -⟩
    · rw [same]
      exact answered
    · exact absurd (enters failed) checked
  | true =>
    rcases @ioStart_cases config s start type user handle entered accepted with
      same | ⟨r, o, s₁, -, -, started⟩
    · rw [same] at result
      cases result
    obtain ⟨opcode, fd, begins⟩ :=
      uring r o ⟨type, handle, user, r, (s.res r).turn, entered, accepted⟩
    rw [begins] at started
    rcases started with ⟨-, whole⟩ | ⟨started, whole⟩
    · rw [whole] at result
      cases result
    rw [whole]
    rcases @startUringOp_spec config queue
        ⟨opcode, fd, o, ⟨type, handle, user, r, (s.res r).turn, entered, accepted⟩⟩ s entered
        queued with refused | ⟨-, _, -, stored⟩ | ⟨taken, ring, entry, rest, order, queued', done⟩
    · cases refused.symm.trans started
    · cases stored.symm.trans started
    · cases done.symm.trans started
      refine ⟨⟨rest, queued', fun ticket member => ?_⟩, answered.reported⟩
      rcases List.mem_cons.mp ((outstanding_taken ring order).mem_iff.mp member) with rfl | earlier
      · exact taken
      · exact returned ticket earlier

/-- A completion that is reported was outstanding. -/
theorem Answered.taken {broken : Bool} {event : Event} (answered : Answered config s)
    (linux : config.platform = .linux) (ran : ioWait config s broken = .ok (s', event)) :
    Answered config s' := by
  rcases ioWait_cases ran with ⟨rfl, -⟩ | ⟨completion, rest, s₁, arrived, completed, rfl⟩
  · exact answered
  obtain ⟨r, s₂, -, -, -, -, -, unchanged, -, rfl⟩ := (completeOperation_spec completed).parts
  cases unchanged linux
  obtain ⟨queue, queued, returned⟩ := answered.outstanding
  unfold AsyncIo.outstanding at returned
  rw [arrived, List.map_cons, List.forall_mem_append, List.forall_mem_append,
    List.forall_mem_cons] at returned
  obtain ⟨ring, flying, first, others⟩ := returned
  refine ⟨⟨queue, queued, ?_⟩, fun call turn event member => ?_⟩
  · unfold AsyncIo.outstanding
    exact List.forall_mem_append.mpr ⟨ring, List.forall_mem_append.mpr ⟨flying, others⟩⟩
  · rcases List.mem_append.mp member with earlier | last
    · exact answered.reported call turn event earlier
    · cases List.mem_singleton.mp last
      exact first

theorem Answered.completed (answered : Answered config s) (index : Nat) (result : Option Nat) :
    Answered config (complete s index result) := by
  unfold complete
  split
  · exact answered
  rename_i entry found
  obtain ⟨queue, queued, returned⟩ := answered.outstanding
  unfold AsyncIo.outstanding at returned
  rw [List.forall_mem_append, List.forall_mem_append] at returned
  obtain ⟨ring, flying, arrived⟩ := returned
  refine ⟨⟨queue, queued, ?_⟩, answered.reported⟩
  unfold AsyncIo.outstanding
  rw [List.forall_mem_append, List.forall_mem_append]
  refine ⟨ring, fun ticket member => ?_, ?_⟩
  · obtain ⟨other, left, rfl⟩ := List.mem_map.mp member
    exact flying _ (List.mem_map_of_mem (List.mem_of_mem_eraseIdx left))
  · rw [List.map_append, List.forall_mem_append]
    refine ⟨arrived, List.forall_mem_singleton.mpr ?_⟩
    exact flying entry.ticket (List.mem_map_of_mem (List.mem_of_getElem? found))

theorem Answered.next {action : Action} (answered : Answered config s)
    (linux : config.platform = .linux) (enters : EntersUnlessRefused config s action)
    (ran : perform config s action = .ok s') : Answered config s' := by
  cases action with
  | openFile osHandle =>
    obtain ⟨⟨s₁, handle⟩, opened, rest⟩ := bind_ok ran
    cases rest
    exact answered.opened (ioFile_opens opened)
  | createFile osHandle =>
    obtain ⟨⟨s₁, handle⟩, opened, rest⟩ := bind_ok ran
    cases rest
    exact answered.opened (ioFile_opens opened)
  | startServer port parsed fd listening =>
    obtain ⟨⟨s₁, handle⟩, opened, rest⟩ := bind_ok ran
    cases rest
    exact answered.opened (ioStartServer_opens opened)
  | recv user handle entered =>
    cases ran
    exact answered.start (starts_linux linux (by simp) _) (enters (handle, entered) rfl)
  | send user handle entered =>
    cases ran
    exact answered.start (starts_linux linux (by simp) _) (enters (handle, entered) rfl)
  | accept user handle entered accepted =>
    cases ran
    exact answered.start (starts_linux linux (by simp) _) (enters (handle, entered) rfl)
  | close handle =>
    simp only [perform, ioClose] at ran
    split at ran
    · cases ran
      exact answered
    · rename_i r found
      rw [closeInternal_eq] at ran
      cases marked : markUnused r (s.res r).pending config.maxOps 0 0 s.ops with
      | error fault => simp [marked, Except.map] at ran
      | ok ops =>
        rw [marked] at ran
        cases ran
        exact answered.keep rfl rfl rfl (by simp [closedState])
  | wait broken =>
    obtain ⟨⟨s₁, event⟩, waited, rest⟩ := bind_ok ran
    cases rest
    exact answered.taken linux waited
  | complete index result =>
    cases ran
    exact answered.completed index result

end Failed

theorem entering_answered {config : Config} {s : State} (linux : config.platform = .linux)
    (reached : ((system config).restrict (EntersUnlessRefused config)).Reachable s) :
    Answered config s := by
  refine reached.invariant (fun s begins => ?_) fun s action s' _ answered moved => ?_
  · obtain ⟨-, -, head, tail, flying, arrived, log⟩ := begins
    refine ⟨⟨[], .empty head tail, ?_⟩, ?_⟩
    · simp [outstanding, flying, arrived]
    · simp [log]
  · obtain ⟨enters, moved⟩ := System.restrict_next.mp moved
    exact answered.next linux enters (toOption_ok moved)

/-- On Linux a call that returns false leaves the ring and the tables as they were if and only if
one of the checks refuses it. In a run where `io_uring_enter` fails for no other call, all that
is in the ring, under way or reported are operations whose calls returned true. -/
theorem failed_submission_leaves_no_trace_iff_refused {config : Config}
    (linux : config.platform = .linux) :
    (∀ s, (system config).Reachable s → ∀ action handle entered,
      action.submits = some (handle, entered) → action.returns config s = some false →
      ∃ s', perform config s action = .ok s' ∧ (LeavesNoTrace s s' ↔ Refused config s handle)) ∧
    ∀ s, ((system config).restrict (EntersUnlessRefused config)).Reachable s →
      Answered config s := by
  refine ⟨fun s _ action handle entered submits failed => ?_,
    fun s reached => entering_answered linux reached⟩
  cases action with
  | recv user handle entered =>
    cases submits
    exact ⟨_, rfl, failed_trace (starts_linux linux (by simp) _) (Option.some.inj failed)⟩
  | send user handle entered =>
    cases submits
    exact ⟨_, rfl, failed_trace (starts_linux linux (by simp) _) (Option.some.inj failed)⟩
  | accept user handle entered accepted =>
    cases submits
    exact ⟨_, rfl, failed_trace (starts_linux linux (by simp) _) (Option.some.inj failed)⟩
  | openFile osHandle => cases submits
  | createFile osHandle => cases submits
  | startServer port parsed fd listening => cases submits
  | close handle => cases submits
  | wait broken => cases submits
  | complete index result => cases submits

/-- A handle that was never given out is refused, and the operation of a file is reported. -/
theorem failed_submission_leaves_no_trace_iff_refused_applies :
    (∃ s s', (system (twoOfEach .linux)).Reachable s ∧
      perform (twoOfEach .linux) s (.recv 11 5 false) = .ok s' ∧ LeavesNoTrace s s') ∧
    ∃ s, Answered (twoOfEach .linux) s ∧
      .reported ⟨.recv, 0, 11, 0, 0, true, -1⟩ 0 ⟨.complete, .recv, 0, 11, some 5⟩ ∈ s.log := by
  obtain ⟨leaves, answered⟩ :=
    @failed_submission_leaves_no_trace_iff_refused (twoOfEach .linux) rfl
  constructor
  · obtain ⟨s, reached, checked⟩ := (begun_reached (twoOfEach .linux)).replay_check [.openFile 3]
      (fun s => decide ((Action.recv 11 5 false).returns (twoOfEach .linux) s = some false) &&
        decide (Refused (twoOfEach .linux) s 5)) (by decide +kernel)
    simp only [Bool.and_eq_true, decide_eq_true_eq] at checked
    obtain ⟨s', ran, exactly⟩ := leaves s reached _ _ _ rfl checked.1
    exact ⟨s, s', reached, ran, exactly.mpr checked.2⟩
  · have begins : ((system (twoOfEach .linux)).restrict
        (EntersUnlessRefused (twoOfEach .linux))).Reachable begun :=
      .start ⟨fun _ => rfl, fun _ => rfl, rfl, rfl, rfl, rfl, rfl⟩
    obtain ⟨s, reached, checked⟩ := begins.replay_check
      [.openFile 3, .recv 9 5 false, .recv 11 0 true, .complete 0 (some 5), .wait false]
      (fun s => decide (.reported ⟨.recv, 0, 11, 0, 0, true, -1⟩ 0
        ⟨.complete, .recv, 0, 11, some 5⟩ ∈ s.log)) (by decide +kernel)
    exact ⟨s, answered s reached, of_decide_eq_true checked⟩

/-- `io_uring_enter` fails for a read, which returns false. The next read passes its entry on,
and the completion is reported as that of the second read. -/
theorem failed_submission_is_delivered : ∃ s s' later s'',
    (system (twoOfEach .linux)).Reachable s ∧
    (Action.recv 11 0 false).returns (twoOfEach .linux) s = some false ∧
    perform (twoOfEach .linux) s (.recv 11 0 false) = .ok s' ∧ ¬ LeavesNoTrace s s' ∧
    (system (twoOfEach .linux)).replay s' later = some s'' ∧
    .reported ⟨.recv, 0, 11, 0, 0, false, -1⟩ 0 ⟨.complete, .recv, 0, 22, some 5⟩ ∈ s''.log := by
  obtain ⟨s, reached, checked⟩ := (begun_reached (twoOfEach .linux)).replay_check [.openFile 3]
    (fun s => decide ((Action.recv 11 0 false).returns (twoOfEach .linux) s = some false) &&
      decide ((ioRecv (twoOfEach .linux) s 11 0 false).1.submissions.tail ≠ s.submissions.tail) &&
      ((system (twoOfEach .linux)).replay (ioRecv (twoOfEach .linux) s 11 0 false).1
        [.recv 22 0 true, .complete 0 (some 5), .wait false]).any fun later : State =>
          decide (Record.reported ⟨.recv, 0, 11, 0, 0, false, -1⟩ 0
            ⟨.complete, .recv, 0, 22, some 5⟩ ∈ later.log)) (by decide +kernel)
  simp only [Bool.and_eq_true, decide_eq_true_eq] at checked
  obtain ⟨⟨failed, moved⟩, later⟩ := checked
  cases replayed : (system (twoOfEach .linux)).replay (ioRecv (twoOfEach .linux) s 11 0 false).1
      [.recv 22 0 true, .complete 0 (some 5), .wait false] with
  | none => simp [replayed] at later
  | some s'' =>
    rw [replayed] at later
    exact ⟨s, _, _, s'', reached, failed, rfl, fun clean => moved clean.tail, replayed,
      of_decide_eq_true later⟩

/-! ## Room in the ring -/

/-- The slot of a counter. -/
def slotOf (config : Config) (counter : Nat) : Nat := counter &&& (config.limit - 1)

/-- The number of pending entries. -/
def Submissions.pending (ring : Submissions) : Nat := sub32 ring.tail ring.head

/-- `start_uring_op` refuses an entry where the ring is full and only there. Else it stores it
where none of the pending entries is. -/
structure RefusesWhenFull (config : Config) (s : State) : Prop where
  full : ∀ sqe entered,
    startUringOp config s sqe entered = (s, false) ↔ s.submissions.pending = config.limit
  stored : s.submissions.pending ≠ config.limit → ∀ sqe entered,
    let ring := (startUringOp config s sqe entered).1.submissions
    ring.tail = add32 s.submissions.tail 1 ∧
      ring.entries (slotOf config s.submissions.tail) = sqe ∧
      ring.array (slotOf config s.submissions.tail) = slotOf config s.submissions.tail
  apart : s.submissions.pending ≠ config.limit → ∀ sqe entered, ∀ i < s.submissions.pending,
    let ring := (startUringOp config s sqe entered).1.submissions
    let slot := slotOf config (add32 s.submissions.head i)
    slot ≠ slotOf config s.submissions.tail ∧
      ring.entries slot = s.submissions.entries slot ∧ ring.array slot = s.submissions.array slot

section Room

variable {config : Config} {s : State}

theorem slotOf_eq (counter : Nat) : slotOf config counter = counter % config.limit :=
  Nat.and_two_pow_sub_one_eq_mod ..

theorem limit_dvd (config : Config) : config.limit ∣ 2 ^ 32 :=
  Nat.pow_dvd_pow 2 (Nat.le_of_lt config.smallRing)

/-- An entry that is not refused is stored, whether the kernel takes one or not. -/
theorem startUringOp_stored
    (room : ¬ s.submissions.tail ≥ add32 s.submissions.head config.limit) (sqe : Entry)
    (entered : Bool) :
    (startUringOp config s sqe entered).1.submissions.tail = add32 s.submissions.tail 1 ∧
      (startUringOp config s sqe entered).1.submissions.entries =
        (storeEntry config s.submissions sqe).entries ∧
      (startUringOp config s sqe entered).1.submissions.array =
        (storeEntry config s.submissions sqe).array := by
  unfold startUringOp
  simp only [if_neg room]
  cases entered with
  | false => exact ⟨rfl, rfl, rfl⟩
  | true => exact ⟨rfl, rfl, rfl⟩

theorem startUringOp_refuses_iff (sqe : Entry) (entered : Bool) :
    startUringOp config s sqe entered = (s, false) ↔
      s.submissions.tail ≥ add32 s.submissions.head config.limit := by
  refine ⟨fun refused => ?_, fun full => startUringOp_full full entered⟩
  by_contra room
  have moved := (startUringOp_stored room sqe entered).1
  rw [refused] at moved
  have differs : (storeEntry config s.submissions sqe).tail ≠ s.submissions.tail :=
    storeEntry_tail_ne s.submissions
  exact differs moved.symm

/-- The tail is the head and the number of pending entries, which may have wrapped around. -/
theorem tail_eq (tail : s.submissions.tail < 2 ^ 32) :
    s.submissions.tail = (s.submissions.head + s.submissions.pending) % 2 ^ 32 := by
  unfold Submissions.pending sub32
  omega

/-- Where the ring is not full, a pending entry is not in the slot of the tail. -/
theorem pending_apart (tail : s.submissions.tail < 2 ^ 32)
    (few : s.submissions.pending < config.limit) {i : Nat} (inside : i < s.submissions.pending) :
    slotOf config (add32 s.submissions.head i) ≠ slotOf config s.submissions.tail := by
  rw [slotOf_eq, slotOf_eq, tail_eq tail, add32, Nat.mod_mod_of_dvd _ (limit_dvd config),
    Nat.mod_mod_of_dvd _ (limit_dvd config)]
  exact mod_ne_of_window s.submissions.head (by omega) (by omega) (by omega) (by omega) (by omega)

/-- The test says that the ring is full where it is, if the sum has not wrapped around or the
tail has done so as well. -/
theorem test_eq_full_iff (head : s.submissions.head < 2 ^ 32)
    (tail : s.submissions.tail < 2 ^ 32) (few : s.submissions.pending ≤ config.limit) :
    (s.submissions.tail ≥ add32 s.submissions.head config.limit ↔
        s.submissions.pending = config.limit) ↔
      s.submissions.head + config.limit < 2 ^ 32 ∨ s.submissions.tail < s.submissions.head := by
  have small : config.limit ≤ 2 ^ 31 :=
    Nat.pow_le_pow_right (by decide) (Nat.le_of_lt_succ config.smallRing)
  have positive : 0 < config.limit := Nat.two_pow_pos _
  have behind := tail_eq tail
  generalize s.submissions.pending = pending at behind few
  simp only [add32]
  omega

end Room

/-- For all counters, `start_uring_op` refuses an entry if and only if the ring is full, and else
leaves the pending ones alone, exactly where the limit of the ring is no counter that has wrapped
around, or the tail has wrapped around as well. -/
theorem refuses_when_full_iff_unwrapped {config : Config} {s : State}
    (head : s.submissions.head < 2 ^ 32) (tail : s.submissions.tail < 2 ^ 32)
    (few : s.submissions.pending ≤ config.limit) :
    RefusesWhenFull config s ↔
      s.submissions.head + config.limit < 2 ^ 32 ∨ s.submissions.tail < s.submissions.head := by
  rw [← test_eq_full_iff head tail few]
  constructor
  · intro correct
    rw [← correct.full ⟨.void, -1, 0, ⟨.void, 0, 0, 0, 0, false, -1⟩⟩ false,
      startUringOp_refuses_iff]
  · intro exactly
    refine ⟨fun sqe entered => (startUringOp_refuses_iff sqe entered).trans exactly,
      fun open_ sqe entered => ?_, fun open_ sqe entered i inside => ?_⟩
    · obtain ⟨moved, entries, array⟩ :=
        startUringOp_stored (fun full => open_ (exactly.mp full)) sqe entered
      refine ⟨moved, ?_, ?_⟩
      · rw [entries]
        exact Function.update_self ..
      · rw [array]
        exact Function.update_self ..
    · obtain ⟨-, entries, array⟩ :=
        startUringOp_stored (fun full => open_ (exactly.mp full)) sqe entered
      have apart := pending_apart tail (Nat.lt_of_le_of_ne few open_) inside
      refine ⟨apart, ?_, ?_⟩
      · rw [entries]
        exact Function.update_of_ne apart ..
      · rw [array]
        exact Function.update_of_ne apart ..

/-- The ring after that many operations, of which the kernel has taken all. -/
def drained (counter : Nat) : State :=
  { begun with submissions := { begun.submissions with head := counter, tail := counter } }

/-- A ring without an entry, and one whose tail has wrapped around. -/
theorem refuses_when_full_iff_unwrapped_applies :
    RefusesWhenFull (twoOfEach .linux) (drained 5) ∧
    RefusesWhenFull (twoOfEach .linux) { begun with
      submissions := { begun.submissions with head := 2 ^ 32 - 1, tail := 3 } } :=
  ⟨(refuses_when_full_iff_unwrapped (by decide) (by decide) (by decide)).mpr (.inl (by decide)),
    (refuses_when_full_iff_unwrapped (by decide) (by decide) (by decide)).mpr (.inr (by decide))⟩

/-- After `2 ^ 32 - 32` operations the ring of 32 entries is empty, and refuses every entry. -/
theorem empty_ring_reports_full :
    (drained (2 ^ 32 - 32)).submissions.pending = 0 ∧ (twoOfEach .linux).limit = 32 ∧
    (∀ sqe entered, startUringOp (twoOfEach .linux) (drained (2 ^ 32 - 32)) sqe entered =
      (drained (2 ^ 32 - 32), false)) ∧
    ¬ RefusesWhenFull (twoOfEach .linux) (drained (2 ^ 32 - 32)) := by
  have refuses : ∀ sqe entered, startUringOp (twoOfEach .linux) (drained (2 ^ 32 - 32)) sqe entered =
      (drained (2 ^ 32 - 32), false) :=
    fun sqe entered => startUringOp_full (by decide) entered
  refine ⟨rfl, rfl, refuses, fun correct => ?_⟩
  have full := (correct.full ⟨.void, -1, 0, ⟨.void, 0, 0, 0, 0, false, -1⟩⟩ false).mp (refuses _ _)
  exact absurd full (by decide)

end Mysnips.AsyncIo

import Mysnips.AsyncIoSteps

/-! Handles of resources. A handle packs the slot of a resource with its generation, and a
generation counts how often the slot was closed. It is set to zero before it would have all
bits set, so that no handle is `IO_INVALID`. -/
namespace Mysnips.AsyncIo
open Machine Transition

/-- How often a slot was closed in a part of the log. -/
def closes (r : Nat) (log : List Record) : Nat := log.count (.closed r)

/-! ## Generations -/

/-- What is known of a handle that was issued, after the part of the log since. -/
def Issued (config : Config) (s : State) (r : Nat) (handle : UInt32) (since : List Record) : Prop :=
  r < config.maxRes ∧ ∃ turn, handle = pack r (turn % uint16Max) ∧
    (s.res r).turn = turn + closes r since ∧ (closes r since = 0 → (s.res r).type ≠ .void)

/-- The generations count the closes, and the handles have the generations of their time. -/
structure Generations (config : Config) (s : State) : Prop where
  gen : ∀ r, (s.res r).gen = (s.res r).turn % uint16Max
  issued : ∀ before since r handle, s.log = before ++ .issued r handle :: since →
    Issued config s r handle since

theorem Generations.small {config : Config} {s : State} (generations : Generations config s)
    (r : Nat) : (s.res r).gen < uint16Max := by
  rw [generations.gen]
  exact Nat.mod_lt _ (by decide)

theorem closes_append (r : Nat) (log new : List Record) :
    closes r (log ++ new) = closes r log + closes r new := List.count_append

/-- A resource of which neither the generation changed nor that it is open. -/
def Resource.Kept (before after : Resource) : Prop :=
  after.gen = before.gen ∧ after.turn = before.turn ∧ (before.type ≠ .void → after.type ≠ .void)

/-- An entry of the log that is about no handle. -/
def Record.Neutral : Record → Prop
  | .osClosed _ | .reported _ _ _ => True
  | .issued _ _ | .closed _ => False

theorem closes_neutral {r : Nat} {new : List Record} (neutral : ∀ entry ∈ new, entry.Neutral) :
    closes r new = 0 :=
  List.count_eq_zero.mpr fun member => neutral _ member

/-- What keeps the generations and issues no handle. -/
theorem Generations.kept {config : Config} {s s' : State} {new : List Record}
    (generations : Generations config s) (res : ∀ r, (s.res r).Kept (s'.res r))
    (log : s'.log = s.log ++ new) (neutral : ∀ entry ∈ new, entry.Neutral) :
    Generations config s' := by
  refine ⟨fun r => ?_, fun before since r handle split => ?_⟩
  · rw [(res r).1, (res r).2.1]
    exact generations.gen r
  · rw [log] at split
    rcases append_eq_append_cons split with ⟨rest, old, rfl⟩ | ⟨middle, -, later⟩
    · obtain ⟨inside, turn, packed, turns, used⟩ := generations.issued before rest r handle old
      rw [Issued, closes_append, closes_neutral neutral, Nat.add_zero, (res r).2.1]
      exact ⟨inside, turn, packed, turns, fun none => (res r).2.2 (used none)⟩
    · exact (neutral (.issued r handle) (by simp [later])).elim

theorem Resource.Kept.refl {res : Resource} : res.Kept res := ⟨rfl, rfl, id⟩

theorem kept_setRes {s : State} {r : Nat} {res : Resource} (kept : (s.res r).Kept res) (other : Nat) :
    (s.res other).Kept ((s.setRes r res).res other) := by
  by_cases here : other = r
  · rw [here, setRes_self]
    exact kept
  · rw [setRes_ne here]
    exact .refl

/-- A handle that is issued for an open resource. -/
theorem Generations.issue {config : Config} {s : State} {r : Nat} (generations : Generations config s)
    (inside : r < config.maxRes) (open_ : (s.res r).type ≠ .void) :
    Generations config (s.record (.issued r (pack r (s.res r).gen))) := by
  refine ⟨generations.gen, fun before since r' handle split => ?_⟩
  rcases append_eq_append_cons split with ⟨rest, old, rfl⟩ | ⟨middle, -, later⟩
  · obtain ⟨inside', turn, packed, turns, used⟩ := generations.issued before rest r' handle old
    rw [Issued, closes_append]
    exact ⟨inside', turn, packed, turns, used⟩
  · obtain ⟨rfl, rfl⟩ : middle = [] ∧ since = [] := by
      cases middle with
      | nil => exact ⟨rfl, (List.cons.inj later).2.symm⟩
      | cons => simp at later
    cases (List.cons.inj later).1
    refine ⟨inside, (s.res r).turn, ?_, rfl, fun _ => open_⟩
    rw [generations.gen]

theorem Generations.opens {config : Config} {s s' : State} (generations : Generations config s)
    (opens : Opens config s s') : Generations config s' := by
  cases opens with
  | refused => exact generations
  | undone osHandle => exact generations.kept (fun _ => .refl) rfl (by simp [Record.Neutral])
  | claimed r type osHandle handle open_ unused packed =>
    have kept : Generations config
        (s.setRes r { s.res r with type, pending := 0, osHandle }) :=
      generations.kept (kept_setRes ⟨rfl, rfl, fun _ => open_⟩) (List.append_nil _).symm (List.forall_mem_nil _)
    have same : handle = pack r ((s.setRes r { s.res r with type, pending := 0, osHandle }).res r).gen := by
      rw [packed, setRes_self]
    rw [same]
    refine kept.issue (findUnusedRes_spec unused).1 ?_
    rw [setRes_self]
    exact open_

theorem neutral_of_osClosed {new : List Record}
    (closing : ∀ entry ∈ new, ∃ osHandle, entry = Record.osClosed osHandle) :
    ∀ entry ∈ new, entry.Neutral := by
  intro entry member
  obtain ⟨osHandle, rfl⟩ := closing entry member
  trivial

theorem Generations.start {config : Config} {s : State}
    {start : State → Nat → Nat → Call → State × Bool} {type : OpType} {user : Nat} {handle : UInt32}
    {returned : Bool} {accepted : Int} (generations : Generations config s)
    (begins : ∀ r o call, Begun s (start s r o call).1 o) :
    Generations config (ioStart config start type s user handle returned accepted).1 := by
  rcases @ioStart_cases config s start type user handle returned accepted with
    same | ⟨r, o, s₁, -, -, started⟩
  · rw [same]
    exact generations
  have begun := begins r o ⟨type, handle, user, r, (s.res r).turn, returned, accepted⟩
  have kept : Begun s s₁ o → Generations config s₁ := by
    intro begun
    obtain ⟨new, log, closing⟩ := begun.log
    refine generations.kept (fun r => ?_) log (neutral_of_osClosed closing)
    rw [begun.res]
    exact .refl
  rcases started with ⟨failed, result⟩ | ⟨done, result⟩
  · rw [result]
    rw [failed] at begun
    exact kept begun
  · rw [result]
    rw [done] at begun
    exact (kept begun).kept (kept_setRes ⟨rfl, rfl, id⟩) (List.append_nil _).symm (List.forall_mem_nil _)

theorem Generations.closed {config : Config} {s : State} {r : Nat} {ops : Nat → Operation}
    (generations : Generations config s) : Generations config (closedState s r ops) := by
  have turns : ∀ other, ((closedState s r ops).res other).turn =
      (s.res other).turn + closes other [.osClosed (s.res r).osHandle, .closed r] := by
    intro other
    by_cases here : other = r
    · simp [closedState, here, closes]
    · have none : closes other [.osClosed (s.res r).osHandle, .closed r] = 0 := by
        simp [closes, Ne.symm here]
      rw [none, closedState, record_res, record_res, setRes_ne here]
      rfl
  refine ⟨fun other => ?_, fun before since other handle split => ?_⟩
  · by_cases here : other = r
    · rw [here, closedState, record_res, record_res, setRes_self]
      simp only
      rw [generations.gen r, wrapping_succ (Nat.mod_lt _ (by decide)), Nat.mod_add_mod]
    · rw [closedState, record_res, record_res, setRes_ne here]
      exact generations.gen other
  · have log : (closedState s r ops).log =
        s.log ++ [.osClosed (s.res r).osHandle, .closed r] := List.append_assoc ..
    rw [log] at split
    rcases append_eq_append_cons split with ⟨rest, old, rfl⟩ | ⟨middle, -, later⟩
    · obtain ⟨inside, turn, packed, counted, used⟩ := generations.issued before rest other handle old
      refine ⟨inside, turn, packed, ?_, fun none => ?_⟩
      · rw [turns, counted, closes_append, Nat.add_assoc]
      · rw [closes_append, Nat.add_eq_zero_iff] at none
        have elsewhere : other ≠ r := by
          rintro rfl
          simp [closes] at none
        rw [closedState, record_res, record_res, setRes_ne elsewhere]
        exact used none.1
    · have member : Record.issued other handle ∈
          [Record.osClosed (s.res r).osHandle, .closed r] := by simp [later]
      simp at member

theorem Generations.finished {config : Config} {s : State} {r o : Nat}
    (generations : Generations config s) : Generations config (finished s r o) :=
  generations.kept (kept_setRes ⟨rfl, rfl, id⟩) (List.append_nil _).symm (List.forall_mem_nil _)

theorem Generations.next {config : Config} {s s' : State} {action : Action}
    (generations : Generations config s) (moved : perform config s action = .ok s') :
    Generations config s' := by
  cases action with
  | openFile osHandle =>
    obtain ⟨⟨s₁, handle⟩, ran, rest⟩ := bind_ok moved
    cases rest
    exact generations.opens (ioFile_opens ran)
  | createFile osHandle =>
    obtain ⟨⟨s₁, handle⟩, ran, rest⟩ := bind_ok moved
    cases rest
    exact generations.opens (ioFile_opens ran)
  | startServer port parsed fd listening =>
    obtain ⟨⟨s₁, handle⟩, ran, rest⟩ := bind_ok moved
    cases rest
    exact generations.opens (ioStartServer_opens ran)
  | recv user handle returned =>
    cases moved
    exact generations.start startRecv_begun
  | send user handle returned =>
    cases moved
    exact generations.start startSend_begun
  | accept user handle returned accepted =>
    cases moved
    exact generations.start startAccept_begun
  | close handle =>
    simp only [perform, ioClose] at moved
    split at moved
    · cases moved
      exact generations
    · rename_i r found
      rw [closeInternal_eq] at moved
      cases marks : markUnused r (s.res r).pending config.maxOps 0 0 s.ops with
      | error fault =>
        rw [marks] at moved
        cases moved
      | ok ops =>
        rw [marks] at moved
        cases moved
        exact generations.closed
  | wait broken =>
    obtain ⟨⟨s₁, event⟩, ran, rest⟩ := bind_ok moved
    cases rest
    rcases ioWait_cases ran with ⟨rfl, -⟩ | ⟨completion, rest, s₁, -, completed, rfl⟩
    · exact generations
    · obtain ⟨r, s₂, -, -, -, -, opens, -, -, rfl⟩ := (completeOperation_spec completed).parts
      have taken : Generations config { s with arrived := rest } :=
        generations.kept (fun _ => .refl) (List.append_nil _).symm (List.forall_mem_nil _)
      exact (taken.opens opens).finished.kept (fun _ => .refl) rfl (by simp [Record.Neutral])
  | complete index result =>
    cases moved
    unfold complete
    split
    · exact generations
    · exact generations.kept (fun _ => .refl) (List.append_nil _).symm (List.forall_mem_nil _)

theorem reachable_generations {config : Config} {s : State}
    (reached : (system config).Reachable s) : Generations config s := by
  refine reached.invariant (fun s begins => ?_) fun s action s' _ generations moved =>
    generations.next (toOption_ok moved)
  obtain ⟨res, -, -, -, -, -, log⟩ := begins
  refine ⟨fun r => ?_, fun before since r handle split => ?_⟩
  · rw [res]
    rfl
  · simp [log] at split

/-! ## Handles -/

/-- What a program relies on. -/
structure HandlesSound (config : Config) (s : State) : Prop where
  /-- Every resource has a handle, which leads to it. -/
  made : ∀ r < config.maxRes, ∃ handle, handleFromRes config s r = .ok handle ∧
    handle ≠ ioInvalid ∧ resFromHandle config s handle = some r
  distinct : ∀ r < config.maxRes, ∀ r' < config.maxRes, r ≠ r' →
    handleFromRes config s r ≠ handleFromRes config s r'
  /-- A handle that was issued leads to its resource until that is closed, and then nowhere. -/
  issued : ∀ before since r handle, s.log = before ++ .issued r handle :: since →
    (closes r since = 0 → (s.res r).type ≠ .void ∧ resFromHandle config s handle = some r) ∧
    (0 < closes r since → closes r since < 65535 → resFromHandle config s handle = none)
  /-- Calls with a handle that leads nowhere change nothing. -/
  stale : ∀ handle, resFromHandle config s handle = none →
    ioClose config s handle = .ok s ∧
    (∀ user returned, ioRecv config s user handle returned = (s, false)) ∧
    (∀ user returned, ioSend config s user handle returned = (s, false)) ∧
    (∀ user returned accepted, ioAccept config s user handle returned accepted = (s, false))

/-- In every reachable state the handles are sound. -/
theorem handles_are_sound {config : Config} {s : State} (reached : (system config).Reachable s) :
    HandlesSound config s := by
  have generations := reachable_generations reached
  have made : ∀ r < config.maxRes, handleFromRes config s r = .ok (pack r (s.res r).gen) ∧
      pack r (s.res r).gen ≠ ioInvalid ∧
      resFromHandle config s (pack r (s.res r).gen) = some r := by
    intro r inside
    refine ⟨handleFromRes_eq inside (generations.small r), ?_, ?_⟩
    · exact pack_ne_invalid (Nat.lt_trans inside config.fewRes) (generations.small r)
    · rw [resFromHandle_pack inside (generations.small r), if_pos rfl]
  refine ⟨fun r inside => ⟨_, made r inside⟩, fun r inside r' inside' different same => ?_,
    fun before since r handle split => ?_, fun handle none => ?_⟩
  · rw [(made r inside).1, (made r' inside').1] at same
    have handles := Except.ok.inj same
    have found := (made r inside).2.2
    rw [handles, (made r' inside').2.2] at found
    exact different (Option.some.inj found).symm
  · obtain ⟨inside, turn, packed, turns, used⟩ := generations.issued before since r handle split
    have lookup : resFromHandle config s handle =
        if (s.res r).gen = turn % uint16Max then some r else none := by
      rw [packed]
      exact resFromHandle_pack inside (Nat.mod_lt _ (by decide))
    rw [generations.gen, turns] at lookup
    refine ⟨fun none => ⟨used none, ?_⟩, fun some few => ?_⟩
    · rw [lookup, none, Nat.add_zero, if_pos rfl]
    · rw [lookup, if_neg]
      simp only [uint16Max]
      omega
  · refine ⟨?_, fun _ _ => ?_, fun _ _ => ?_, fun _ _ _ => ?_⟩
    · simp [ioClose, none]
    · simp [ioRecv, ioStart, none]
    · simp [ioSend, ioStart, none]
    · simp [ioAccept, ioStart, none]

/-- Two resources and two operations. -/
def twoOfEach (platform : Platform) : Config :=
  ⟨platform, 2, 2, 5, by decide, by decide, by decide⟩

/-- What `io_init` leaves. -/
def begun : State :=
  ⟨fun _ => ⟨.void, -1, 0, 0, 0⟩, fun _ => ⟨.void, none, 0, -1⟩,
    ⟨0, 0, fun _ => 0, fun _ => ⟨.void, -1, 0, ⟨.void, 0, 0, 0, 0, false, -1⟩⟩⟩, [], [], []⟩

theorem begun_reached (config : Config) : (system config).Reachable begun :=
  .start ⟨fun _ => rfl, fun _ => rfl, rfl, rfl, rfl, rfl, rfl⟩

/-- A file is opened, closed and opened again: the old handle leads nowhere, and the new one to
the same slot. -/
theorem handles_are_sound_after_reopening : ∃ s, (system (twoOfEach .linux)).Reachable s ∧
    HandlesSound (twoOfEach .linux) s ∧ resFromHandle (twoOfEach .linux) s 0 = none ∧
    resFromHandle (twoOfEach .linux) s 0x10000 = some 0 := by
  obtain ⟨s, reached, checked⟩ := (begun_reached (twoOfEach .linux)).replay_check
    [.openFile 3, .close 0, .openFile 4]
    (fun s => s.log = [.issued 0 0, .osClosed 3, .closed 0, .issued 0 0x10000]) (by decide)
  simp only [decide_eq_true_eq] at checked
  have sound := handles_are_sound reached
  refine ⟨s, reached, sound, ?_, ?_⟩
  · exact (sound.issued [] _ 0 0 checked).2 (by decide) (by decide)
  · exact ((sound.issued [.issued 0 0, .osClosed 3, .closed 0] [] 0 0x10000 checked).1 rfl).2

end Mysnips.AsyncIo

import Mysnips.AsyncIo

/-! What the calls of the asynchronous input and output do to the tables: the fields that
an update leaves, the packing of handles, and one lemma for each function that says all it
can do. -/
namespace Mysnips.AsyncIo
open Machine Transition

section Fields

variable {s : State} {r other o : Nat} {res : Resource} {op : Operation} {entry : Record}

@[simp] theorem setRes_self : (s.setRes r res).res r = res := Function.update_self ..

theorem setRes_ne (different : other ≠ r) : (s.setRes r res).res other = s.res other :=
  Function.update_of_ne different ..

@[simp] theorem setRes_ops : (s.setRes r res).ops = s.ops := rfl

@[simp] theorem setRes_submissions : (s.setRes r res).submissions = s.submissions := rfl

@[simp] theorem setRes_flying : (s.setRes r res).flying = s.flying := rfl

@[simp] theorem setRes_arrived : (s.setRes r res).arrived = s.arrived := rfl

@[simp] theorem setRes_log : (s.setRes r res).log = s.log := rfl

@[simp] theorem setOp_self : (s.setOp o op).ops o = op := Function.update_self ..

theorem setOp_ne (different : other ≠ o) : (s.setOp o op).ops other = s.ops other :=
  Function.update_of_ne different ..

@[simp] theorem setOp_res : (s.setOp o op).res = s.res := rfl

@[simp] theorem setOp_submissions : (s.setOp o op).submissions = s.submissions := rfl

@[simp] theorem setOp_flying : (s.setOp o op).flying = s.flying := rfl

@[simp] theorem setOp_arrived : (s.setOp o op).arrived = s.arrived := rfl

@[simp] theorem setOp_log : (s.setOp o op).log = s.log := rfl

@[simp] theorem record_res : (s.record entry).res = s.res := rfl

@[simp] theorem record_ops : (s.record entry).ops = s.ops := rfl

@[simp] theorem record_submissions : (s.record entry).submissions = s.submissions := rfl

@[simp] theorem record_flying : (s.record entry).flying = s.flying := rfl

@[simp] theorem record_arrived : (s.record entry).arrived = s.arrived := rfl

@[simp] theorem record_log : (s.record entry).log = s.log ++ [entry] := rfl

end Fields

/-- The handle of a slot and a generation. -/
def pack (r gen : Nat) : UInt32 := UInt32.ofNat r ||| (UInt32.ofNat gen <<< 16)

/-! ## Packing -/

theorem pack_toNat {r gen : Nat} (slot : r < 2 ^ 16) (small : gen < 2 ^ 16) :
    (pack r gen).toNat = gen * 2 ^ 16 + r := by
  have low : (UInt32.ofNat r).toNat = r := UInt32.toNat_ofNat_of_lt' (Nat.lt_trans slot (by decide))
  have high : (UInt32.ofNat gen).toNat = gen :=
    UInt32.toNat_ofNat_of_lt' (Nat.lt_trans small (by decide))
  have shifted : gen <<< 16 % 2 ^ 32 = gen <<< 16 := by
    rw [Nat.shiftLeft_eq]
    omega
  rw [pack, UInt32.toNat_or, UInt32.toNat_shiftLeft, low, high]
  simp only [UInt32.reduceToNat, Nat.reduceMod]
  rw [shifted, Nat.or_comm, ← Nat.shiftLeft_add_eq_or_of_lt slot, Nat.shiftLeft_eq]

/-- The fields that are read from a handle. -/
theorem fields_toNat (handle : UInt32) :
    (handle &&& 0xFFFF).toNat = handle.toNat % 2 ^ 16 ∧
      (handle >>> 16).toNat = handle.toNat / 2 ^ 16 := by
  have mask : (0xFFFF : UInt32).toNat = 2 ^ 16 - 1 := rfl
  constructor
  · rw [UInt32.toNat_and, mask, Nat.and_two_pow_sub_one_eq_mod]
  · simp [Nat.shiftRight_eq_div_pow]

theorem pack_ne_invalid {r gen : Nat} (slot : r < 2 ^ 16) (small : gen < uint16Max) :
    pack r gen ≠ ioInvalid := by
  intro reserved
  have value := pack_toNat slot (Nat.lt_trans small (by decide))
  have all : ioInvalid.toNat = 2 ^ 32 - 1 := rfl
  rw [reserved, all] at value
  simp only [uint16Max] at small
  omega

section Lookup

variable {config : Config} {s : State} {r gen : Nat} {handle : UInt32}

/-- A packed handle leads to its slot while the slot has the packed generation. -/
theorem resFromHandle_pack (inside : r < config.maxRes) (small : gen < uint16Max) :
    resFromHandle config s (pack r gen) = if (s.res r).gen = gen then some r else none := by
  have slot := Nat.lt_trans inside config.fewRes
  have value := pack_toNat slot (Nat.lt_trans small (by decide))
  obtain ⟨idx, high⟩ := fields_toNat (pack r gen)
  simp only [uint16Max] at small
  have low : (pack r gen).toNat % 2 ^ 16 = r := by omega
  have gens : (pack r gen).toNat / 2 ^ 16 = gen := by omega
  rw [resFromHandle, if_neg (pack_ne_invalid slot small)]
  simp only [idx, high, low, gens, ge_iff_le, if_neg (Nat.not_le.mpr inside), ne_eq]
  by_cases same : (s.res r).gen = gen
  · simp [same]
  · simp [same]

/-- A handle that leads to a slot is packed from it and its generation. -/
theorem resFromHandle_some (found : resFromHandle config s handle = some r) :
    r < config.maxRes ∧ handle = pack r (s.res r).gen := by
  unfold resFromHandle at found
  obtain ⟨idx, high⟩ := fields_toNat handle
  simp only [idx, high] at found
  split at found
  · cases found
  split at found
  · cases found
  split at found
  · cases found
  · rename_i inside same
    cases found
    have inside := Nat.not_le.mp inside
    have size := handle.toNat_lt
    rw [not_not] at same
    refine ⟨inside, UInt32.toNat_inj.mp ?_⟩
    rw [same, pack_toNat (Nat.mod_lt _ (by decide)) (by omega)]
    omega

theorem handleFromRes_eq (inside : r < config.maxRes) (small : (s.res r).gen < uint16Max) :
    handleFromRes config s r = .ok (pack r (s.res r).gen) := by
  have slot := Nat.lt_trans inside config.fewRes
  rw [handleFromRes, if_neg (Nat.not_le.mpr inside)]
  refine if_pos ⟨?_, pack_ne_invalid slot small⟩
  intro reserved
  have same := congrArg UInt32.toNat reserved
  rw [UInt32.toNat_ofNat_of_lt' (Nat.lt_trans small (by decide))] at same
  exact absurd same (Nat.ne_of_lt small)

theorem handleFromRes_ok (made : handleFromRes config s r = .ok handle) :
    r < config.maxRes ∧ handle = pack r (s.res r).gen ∧ handle ≠ ioInvalid := by
  unfold handleFromRes at made
  split at made
  · cases made
  · rename_i inside
    simp only at made
    split at made
    · rename_i asserted
      cases made
      exact ⟨Nat.not_le.mp inside, rfl, asserted.2⟩
    · cases made

end Lookup

/-! ## The calls -/

section Calls

variable {config : Config} {s s' : State}

/-- What starting an operation leaves, before it is booked. -/
structure Begun (s s' : State) (o : Nat) : Prop where
  res : s'.res = s.res
  others : ∀ other, other ≠ o → s'.ops other = s.ops other
  type : (s'.ops o).type = (s.ops o).type
  arrived : s'.arrived = s.arrived
  log : ∃ new, s'.log = s.log ++ new ∧ ∀ entry ∈ new, ∃ osHandle, entry = .osClosed osHandle

theorem Begun.quiet {o : Nat} (res : s'.res = s.res) (ops : s'.ops = s.ops)
    (arrived : s'.arrived = s.arrived) (log : s'.log = s.log) : Begun s s' o := by
  refine ⟨res, fun other _ => by rw [ops], by rw [ops], arrived, [], ?_, List.forall_mem_nil _⟩
  rw [log, List.append_nil]

theorem startUringOp_begun (sqe : Entry) (entered : Bool) (o : Nat) :
    Begun s (startUringOp config s sqe entered).1 o := by
  unfold startUringOp
  simp only
  split
  · exact .quiet rfl rfl rfl rfl
  split
  · exact .quiet rfl rfl rfl rfl
  · exact .quiet rfl rfl rfl rfl

theorem startOverlapped_begun (entry : Entry) (started : Bool) (o : Nat) :
    Begun s (startOverlapped s entry started).1 o := by
  unfold startOverlapped
  split
  · exact .quiet rfl rfl rfl rfl
  · exact .quiet rfl rfl rfl rfl

theorem startRecv_begun (r o : Nat) (call : Call) : Begun s (startRecv config s r o call).1 o := by
  unfold startRecv
  split
  · exact startUringOp_begun ..
  · exact startOverlapped_begun ..

theorem startSend_begun (r o : Nat) (call : Call) : Begun s (startSend config s r o call).1 o := by
  unfold startSend
  split
  · exact startUringOp_begun ..
  · exact startOverlapped_begun ..

theorem startAccept_begun (r o : Nat) (call : Call) :
    Begun s (startAccept config s r o call).1 o := by
  unfold startAccept
  split
  · exact startUringOp_begun ..
  unfold ioAcceptWindows
  split
  · exact .quiet rfl rfl rfl rfl
  split
  · rename_i s₁ started
    have begun := startOverlapped_begun (s := s) ⟨.accept, (s.res r).osHandle, o, call⟩ call.returned o
    rw [started] at begun
    obtain ⟨new, log, closing⟩ := begun.log
    refine ⟨begun.res, begun.others, begun.type, begun.arrived, new ++ [.osClosed call.accepted], ?_, ?_⟩
    · rw [record_log, log, List.append_assoc]
    · intro entry member
      rcases List.mem_append.mp member with earlier | last
      · exact closing entry earlier
      · exact ⟨_, List.mem_singleton.mp last⟩
  · rename_i s₁ started
    have begun := startOverlapped_begun (s := s) ⟨.accept, (s.res r).osHandle, o, call⟩ call.returned o
    rw [started] at begun
    refine ⟨begun.res, fun other different => ?_, ?_, begun.arrived, begun.log⟩
    · rw [setOp_ne different]
      exact begun.others other different
    · rw [setOp_self]
      exact begun.type

/-- A call that starts an operation changes nothing, or it finds a resource and an unused
structure, and books the operation if it could be started. -/
theorem ioStart_cases {start : State → Nat → Nat → Call → State × Bool} {type : OpType} {user : Nat}
    {handle : UInt32} {returned : Bool} {accepted : Int} :
    ioStart config start type s user handle returned accepted = (s, false) ∨
    ∃ r o s₁, resFromHandle config s handle = some r ∧ findUnusedOp config s = some o ∧
      ((start s r o ⟨type, handle, user, r, (s.res r).turn, returned, accepted⟩ = (s₁, false) ∧
        ioStart config start type s user handle returned accepted = (s₁, false)) ∨
      (start s r o ⟨type, handle, user, r, (s.res r).turn, returned, accepted⟩ = (s₁, true) ∧
        ioStart config start type s user handle returned accepted =
          (book s₁ r o type user, true))) := by
  unfold ioStart
  split
  · exact .inl rfl
  rename_i r found
  split
  · exact .inl rfl
  rename_i o unused
  split
  · rename_i s₁ started
    exact .inr ⟨r, o, s₁, found, unused, .inl ⟨started, rfl⟩⟩
  · rename_i s₁ started
    exact .inr ⟨r, o, s₁, found, unused, .inr ⟨started, rfl⟩⟩

/-- What `close_internal` leaves, with the marked operation structures. -/
def closedState (s : State) (r : Nat) (ops : Nat → Operation) : State :=
  ((({ s with ops } : State).setRes r { clearRes (s.res r) with
    gen := if (s.res r).gen + 1 = uint16Max then 0 else (s.res r).gen + 1
    turn := (s.res r).turn + 1 }).record (.osClosed (s.res r).osHandle)).record (.closed r)

theorem closeInternal_eq (config : Config) (s : State) (r : Nat) :
    closeInternal config s r =
      (markUnused r (s.res r).pending config.maxOps 0 0 s.ops).map (closedState s r) := by
  unfold closeInternal
  simp only
  cases markUnused r (s.res r).pending config.maxOps 0 0 s.ops with
  | error fault => rfl
  | ok ops => rfl

/-- What claiming a resource leaves. -/
theorem claimRes_spec {r : Nat} {type : ResType} {osHandle : Int} {handle : UInt32}
    (ran : claimRes config s r type osHandle = .ok (s', handle)) :
    r < config.maxRes ∧ handle = pack r (s.res r).gen ∧ handle ≠ ioInvalid ∧
      s' = (s.setRes r { s.res r with type, pending := 0, osHandle }).record (.issued r handle) := by
  unfold claimRes at ran
  obtain ⟨word, made, rest⟩ := bind_ok ran
  cases rest
  obtain ⟨inside, packed, valid⟩ := handleFromRes_ok made
  rw [setRes_self] at packed
  exact ⟨inside, packed, valid, rfl⟩

theorem findUnusedRes_spec {r : Nat} (found : findUnusedRes config s = some r) :
    r < config.maxRes ∧ (s.res r).type = .void :=
  ⟨List.mem_range.mp (List.mem_of_find?_eq_some found), by simpa using List.find?_some found⟩

theorem findUnusedOp_spec {o : Nat} (found : findUnusedOp config s = some o) :
    o < config.maxOps ∧ (s.ops o).type = .void :=
  ⟨List.mem_range.mp (List.mem_of_find?_eq_some found), by simpa using List.find?_some found⟩

/-- A call that opens a resource claims an unused one, or it changes nothing but that a
descriptor is closed. -/
inductive Opens (config : Config) (s : State) : State → Prop where
  | refused : Opens config s s
  | undone (osHandle : Int) : Opens config s (s.record (.osClosed osHandle))
  | claimed (r : Nat) (type : ResType) (osHandle : Int) (handle : UInt32)
      (open_ : type ≠ .void) (unused : findUnusedRes config s = some r)
      (packed : handle = pack r (s.res r).gen) : Opens config s
        ((s.setRes r { s.res r with type, pending := 0, osHandle }).record (.issued r handle))

theorem ioFile_opens {osHandle : Int} {handle : UInt32}
    (ran : ioFile config s osHandle = .ok (s', handle)) : Opens config s s' := by
  unfold ioFile at ran
  split at ran
  · cases ran
    exact .refused
  rename_i r unused
  split at ran
  · cases ran
    exact .refused
  · obtain ⟨-, packed, -, rfl⟩ := claimRes_spec ran
    exact .claimed r .file osHandle handle (by decide) unused packed

theorem ioStartServer_opens {port fd : Int} {parsed listening : Bool} {handle : UInt32}
    (ran : ioStartServer config s port parsed fd listening = .ok (s', handle)) :
    Opens config s s' := by
  unfold ioStartServer at ran
  split at ran
  · cases ran
    exact .refused
  split at ran
  · cases ran
    exact .refused
  split at ran
  · cases ran
    exact .refused
  rename_i r unused
  split at ran
  · cases ran
    exact .refused
  split at ran
  · cases ran
    exact .undone fd
  · obtain ⟨-, packed, -, rfl⟩ := claimRes_spec ran
    exact .claimed r .socket fd handle (by decide) unused packed

/-! ## Waiting -/

/-- What an operation leaves whose event has been made. -/
def finished (s : State) (r o : Nat) : State :=
  (s.setRes r { s.res r with pending := (s.res r).pending - 1 }).setOp o { s.ops o with type := .void }

/-- What the operation of a completion leaves of a resource. -/
theorem finished_res {r o other : Nat} :
    ((finished s r o).res other).type = (s.res other).type ∧
      ((finished s r o).res other).osHandle = (s.res other).osHandle ∧
      ((finished s r o).res other).gen = (s.res other).gen := by
  rw [finished, setOp_res]
  by_cases here : other = r
  · rw [here, setRes_self]
    exact ⟨rfl, rfl, rfl⟩
  · rw [setRes_ne here]
    exact ⟨rfl, rfl, rfl⟩

theorem finish_spec {r o : Nat} (ran : finish s r o = .ok s') :
    0 < (s.res r).pending ∧ s' = finished s r o := by
  unfold finish at ran
  split at ran
  · rename_i positive
    cases ran
    exact ⟨positive, rfl⟩
  · cases ran

theorem resOf_spec {r o : Nat} (ran : resOf config s o = .ok r) :
    (s.ops o).res = some r ∧ r < config.maxRes := by
  unfold resOf at ran
  split at ran
  · cases ran
  rename_i r' res
  split at ran
  · rename_i inside
    cases ran
    exact ⟨res, inside⟩
  · cases ran

/-- What a completion does before its operation is finished: it opens a resource or closes a
descriptor at most. -/
structure Completes (config : Config) (s : State) (completion : Completion) (s' : State)
    (event : Event) : Prop where
  parts : ∃ r s₁, (s.ops completion.userData).res = some r ∧ r < config.maxRes ∧
    event.handle = pack r (s.res r).gen ∧ event.handle ≠ ioInvalid ∧ Opens config s s₁ ∧
    (config.platform = .linux → s₁ = s) ∧ 0 < (s₁.res r).pending ∧
    s' = finished s₁ r completion.userData
  user : event.user = (s.ops completion.userData).user
  optype : event.optype = (s.ops completion.userData).type

theorem completeLinux_spec {completion : Completion} {event : Event}
    (ran : completeLinux config s completion = .ok (s', event)) :
    Completes config s completion s' event := by
  unfold completeLinux at ran
  obtain ⟨r, followed, ran⟩ := bind_ok ran
  obtain ⟨handle, made, ran⟩ := bind_ok ran
  obtain ⟨s₁, done, ran⟩ := bind_ok ran
  obtain ⟨res, inside⟩ := resOf_spec followed
  obtain ⟨-, packed, valid⟩ := handleFromRes_ok made
  obtain ⟨positive, rfl⟩ := finish_spec done
  cases ran
  cases completion.result with
  | none =>
    exact ⟨⟨r, s, res, inside, packed, valid, .refused, fun _ => rfl, positive, rfl⟩, rfl, rfl⟩
  | some value =>
    exact ⟨⟨r, s, res, inside, packed, valid, .refused, fun _ => rfl, positive, rfl⟩, rfl, rfl⟩

theorem acceptWindows_spec {o : Nat} {event event' : Event}
    (ran : acceptWindows config s o event = .ok (s', event')) :
    Opens config s s' ∧ event'.handle = event.handle ∧ event'.user = event.user ∧
      event'.optype = event.optype := by
  unfold acceptWindows at ran
  simp only at ran
  split at ran
  · cases ran
    exact ⟨.undone _, rfl, rfl, rfl⟩
  · rename_i r₂ unused
    obtain ⟨⟨s₁, accepted⟩, claimed, rest⟩ := bind_ok ran
    obtain ⟨-, packed, -, rfl⟩ := claimRes_spec claimed
    cases rest
    exact ⟨.claimed r₂ .socket _ accepted (by decide) unused packed, rfl, rfl, rfl⟩

theorem resultWindows_spec {o value : Nat} {event event' : Event}
    (ran : resultWindows config s o value event = .ok (s', event')) :
    Opens config s s' ∧ event'.handle = event.handle ∧ event'.user = event.user ∧
      event'.optype = event.optype := by
  unfold resultWindows at ran
  split at ran
  · cases ran
    exact ⟨.refused, rfl, rfl, rfl⟩
  · cases ran
    exact ⟨.refused, rfl, rfl, rfl⟩
  · exact acceptWindows_spec ran
  · cases ran
    exact ⟨.refused, rfl, rfl, rfl⟩

theorem completeWindows_spec {completion : Completion} {event : Event}
    (windows : config.platform = .windows)
    (ran : completeWindows config s completion = .ok (s', event)) :
    Completes config s completion s' event := by
  unfold completeWindows at ran
  obtain ⟨r, followed, ran⟩ := bind_ok ran
  obtain ⟨handle, made, ran⟩ := bind_ok ran
  obtain ⟨res, inside⟩ := resOf_spec followed
  obtain ⟨-, packed, valid⟩ := handleFromRes_ok made
  have other : config.platform ≠ .linux := by
    rw [windows]
    nofun
  split at ran
  · obtain ⟨s₁, done, ran⟩ := bind_ok ran
    obtain ⟨positive, rfl⟩ := finish_spec done
    cases ran
    refine ⟨⟨r, _, res, inside, packed, valid, ?_, fun linux => absurd linux other, positive, rfl⟩, rfl,
      rfl⟩
    split
    · exact .undone _
    · exact .refused
  · obtain ⟨⟨s₁, event₁⟩, happened, ran⟩ := bind_ok ran
    obtain ⟨s₂, done, ran⟩ := bind_ok ran
    obtain ⟨positive, rfl⟩ := finish_spec done
    cases ran
    obtain ⟨opens, same, user, optype⟩ := resultWindows_spec happened
    exact ⟨⟨r, s₁, res, inside, same.trans packed, same ▸ valid, opens, fun linux => absurd linux other,
      positive, rfl⟩, user, optype⟩

/-- A general failure is returned as it is. -/
theorem report_failure {event : Event} (ran : report config s s generalFailure = .ok (s', event)) :
    s' = s ∧ event = generalFailure := by
  simp only [report, generalFailure, if_true] at ran
  cases ran
  exact ⟨rfl, rfl⟩

theorem report_spec {completion : Completion} {rest : List Completion} {s₁ : State}
    {event₁ event : Event} (arrived : s.arrived = completion :: rest)
    (valid : event₁.handle ≠ ioInvalid) (ran : report config s s₁ event₁ = .ok (s', event)) :
    event = event₁ ∧
      s' = s₁.record (.reported completion.call (s.res completion.call.res).turn event) := by
  unfold report at ran
  rw [if_neg valid, arrived] at ran
  split at ran
  · rename_i same
    cases same
    cases ran
    exact ⟨rfl, rfl⟩
  · cases ran

theorem completeOperation_spec {completion : Completion} {event : Event}
    (ran : completeOperation config s completion = .ok (s', event)) :
    Completes config s completion s' event := by
  unfold completeOperation at ran
  split at ran
  · exact completeLinux_spec ran
  · rename_i windows
    exact completeWindows_spec windows ran

/-- A round of `io_wait` fails as a whole, or takes the first completion and reports it. -/
theorem ioWait_cases {broken : Bool} {event : Event}
    (ran : ioWait config s broken = .ok (s', event)) :
    (s' = s ∧ event = generalFailure) ∨
    ∃ completion rest s₁, s.arrived = completion :: rest ∧
      completeOperation config { s with arrived := rest } completion = .ok (s₁, event) ∧
      s' = s₁.record (.reported completion.call (s.res completion.call.res).turn event) := by
  unfold ioWait at ran
  obtain ⟨⟨s₁, event₁⟩, internal, ran⟩ := bind_ok ran
  unfold ioWaitInternal at internal
  split at internal
  · cases internal
    exact .inl (report_failure ran)
  rename_i completion rest arrived
  split at internal
  · cases internal
    exact .inl (report_failure ran)
  · obtain ⟨_, _, _, _, _, valid, -⟩ := (completeOperation_spec internal).parts
    obtain ⟨rfl, logged⟩ := report_spec arrived valid ran
    exact .inr ⟨completion, rest, s₁, arrived, internal, logged⟩

end Calls

end Mysnips.AsyncIo

import Mysnips.AsyncIoHandles

/-! Accepted connections. On Windows a completed `io_accept` claims a resource for the new
socket and reports its handle. On Linux it reports the descriptor itself where the handle
belongs, and claims nothing. -/
namespace Mysnips.AsyncIo
open Transition

/-- What a completed accept of a descriptor reports. -/
structure AcceptContract (config : Config) (s s' : State) (event : Event) (descriptor : Int) :
    Prop where
  usable : event.evtype = .complete → ∃ handle r, event.value = some handle ∧
    resFromHandle config s' handle = some r ∧ (s.res r).type = .void ∧
    (s'.res r).type = .socket ∧ (s'.res r).osHandle = descriptor
  full : findUnusedRes config s = none → event.evtype = .abort ∧
    ∃ new, s'.log = s.log ++ new ∧ .osClosed descriptor ∈ new

/-- The descriptor that a completed accept is about: on Linux the result, on Windows the socket
that the call gave to `AcceptEx`. -/
def Completion.descriptor (platform : Platform) (completion : Completion) : Int :=
  match platform with
  | .linux => completion.result.getD 0
  | .windows => completion.call.accepted

section Accept

variable {config : Config} {s s' : State} {completion : Completion} {rest : List Completion}
  {event : Event} {value : Nat} {broken : Bool}

/-- On Linux the event says that the accept is complete, and no resource is claimed. -/
private theorem linux_breaks (succeeded : completion.result = some value)
    (ran : completeLinux config s completion = .ok (s', event)) :
    event.evtype = .complete ∧ ∀ r, (s.res r).type = .void → (s'.res r).type ≠ .socket := by
  unfold completeLinux at ran
  obtain ⟨r, -, ran⟩ := bind_ok ran
  obtain ⟨handle, -, ran⟩ := bind_ok ran
  obtain ⟨s₁, done, ran⟩ := bind_ok ran
  cases ran
  obtain ⟨-, rfl⟩ := finish_spec done
  refine ⟨by simp [succeeded], fun other unused => ?_⟩
  rw [finished_res.1, unused]
  nofun

/-- On Windows the accepted socket gets a resource, or is closed. -/
private theorem windows_accepts (accept : (s.ops completion.userData).type = .accept)
    (succeeded : completion.result = some value)
    (ran : completeWindows config s completion = .ok (s', event)) :
    (findUnusedRes config s = none ∧ event.evtype = .abort ∧
      s'.log = s.log ++ [.osClosed (s.ops completion.userData).accepted]) ∨
    ∃ r handle, findUnusedRes config s = some r ∧ event.evtype = .complete ∧
      event.value = some handle ∧ handle = pack r (s.res r).gen ∧
      (s'.res r).gen = (s.res r).gen ∧ (s'.res r).type = .socket ∧
      (s'.res r).osHandle = (s.ops completion.userData).accepted := by
  unfold completeWindows at ran
  obtain ⟨r, -, ran⟩ := bind_ok ran
  obtain ⟨handle, -, ran⟩ := bind_ok ran
  rw [succeeded] at ran
  obtain ⟨⟨s₁, event₁⟩, result, ran⟩ := bind_ok ran
  obtain ⟨s₂, done, ran⟩ := bind_ok ran
  obtain ⟨-, rfl⟩ := finish_spec done
  cases ran
  unfold resultWindows at result
  rw [accept] at result
  unfold acceptWindows at result
  simp only at result
  split at result
  · rename_i none
    cases result
    exact .inl ⟨none, rfl, rfl⟩
  · rename_i r₂ unused
    obtain ⟨⟨s₂, accepted⟩, claimed, rest⟩ := bind_ok result
    obtain ⟨-, packed, -, rfl⟩ := claimRes_spec claimed
    cases rest
    refine .inr ⟨r₂, accepted, unused, rfl, rfl, packed, ?_, ?_, ?_⟩
    · rw [finished_res.2.2, record_res, setRes_self]
    · rw [finished_res.1, record_res, setRes_self]
    · rw [finished_res.2.1, record_res, setRes_self]

/-- What is reported of a completed accept is as it should be exactly on Windows, where the
operation structure still has the socket of the call. -/
theorem accept_contract_iff_windows (reached : (system config).Reachable s)
    (arrived : s.arrived = completion :: rest) (succeeded : completion.result = some value)
    (ran : ioWait config s broken = .ok (s', event)) (accept : event.optype = .accept) :
    AcceptContract config s s' event (completion.descriptor config.platform) ↔
      config.platform = .windows ∧
        (s.ops completion.userData).accepted = completion.call.accepted := by
  have generations := reachable_generations reached
  rcases ioWait_cases ran with ⟨-, rfl⟩ | ⟨completion', rest', s₁, arrived', completed, rfl⟩
  · cases accept
  obtain ⟨rfl, rfl⟩ := List.cons.inj (arrived.symm.trans arrived')
  have type := (completeOperation_spec completed).optype.symm.trans accept
  unfold completeOperation at completed
  cases platform : config.platform with
  | linux =>
    rw [platform] at completed
    obtain ⟨complete, unclaimed⟩ := linux_breaks succeeded completed
    constructor
    · intro contract
      obtain ⟨_, r, -, -, unused, socket, -⟩ := contract.usable complete
      exact absurd socket (unclaimed r unused)
    · rintro ⟨windows, -⟩
      cases windows
  | windows =>
    rw [platform] at completed
    simp only [true_and]
    rcases windows_accepts type succeeded completed with
      ⟨none, abort, log⟩ | ⟨r, handle, unused, complete, reported, packed, gen, socket, osHandle⟩
    · have entries : (s₁.record (.reported completion.call (s.res completion.call.res).turn event)).log =
          s.log ++ [.osClosed (s.ops completion.userData).accepted,
            .reported completion.call (s.res completion.call.res).turn event] := by
        rw [record_log, log, List.append_assoc]
        rfl
      constructor
      · intro contract
        obtain ⟨-, new, same, member⟩ := contract.full none
        rw [entries] at same
        rw [← List.append_cancel_left same] at member
        simp only [List.mem_cons, Record.osClosed.injEq, reduceCtorEq, List.not_mem_nil, or_false]
          at member
        exact member.symm
      · intro same
        refine ⟨fun complete => ?_, fun _ => ⟨abort, _, entries, ?_⟩⟩
        · cases abort.symm.trans complete
        · rw [same]
          exact List.mem_cons_self ..
    · obtain ⟨inside, void⟩ := findUnusedRes_spec unused
      have found : resFromHandle config s₁ handle = some r := by
        rw [packed, resFromHandle_pack inside (generations.small r), if_pos gen]
      constructor
      · intro contract
        obtain ⟨handle', r', same, found', -, -, descriptor⟩ := contract.usable complete
        cases reported.symm.trans same
        cases found.symm.trans found'
        exact osHandle.symm.trans descriptor
      · intro same
        refine ⟨fun _ => ⟨handle, r, reported, found, void, socket, osHandle.trans same⟩, fun none => ?_⟩
        cases unused.symm.trans none

end Accept

/-- A connection is accepted on Windows: it gets the second resource. -/
theorem accept_contract_iff_windows_applies : ∃ s s' event,
    (system (twoOfEach .windows)).Reachable s ∧
    ioWait (twoOfEach .windows) s false = .ok (s', event) ∧ event.optype = .accept ∧
    event.value = some 1 ∧ AcceptContract (twoOfEach .windows) s s' event 7 := by
  obtain ⟨s, reached, checked⟩ := (begun_reached (twoOfEach .windows)).replay_check
    [.startServer 80 true 3 true, .accept 9 0 true 7, .complete 0 (some 0)]
    (fun s => s.arrived = [⟨0, some 0, ⟨.accept, 0, 9, 0, 0, true, 7⟩⟩] &&
      (s.ops 0).accepted = 7 &&
      (ioWait (twoOfEach .windows) s false).toOption.any fun result =>
        result.2.optype = .accept && result.2.value = some 1) (by decide)
  simp only [Bool.and_eq_true, decide_eq_true_eq] at checked
  obtain ⟨⟨arrived, accepted⟩, after⟩ := checked
  obtain ⟨⟨s', event⟩, ran, shown⟩ := (Option.any_eq_true _ _).mp after
  simp only [Bool.and_eq_true, decide_eq_true_eq] at shown
  refine ⟨s, s', event, reached, toOption_ok ran, shown.1, shown.2, ?_⟩
  exact (accept_contract_iff_windows reached arrived rfl (toOption_ok ran) shown.1).mpr ⟨rfl, accepted⟩

/-- A connection is accepted on Linux: its descriptor is reported in place of a handle, it leads
nowhere, and the second resource stays unused. -/
theorem linux_reports_descriptor : ∃ s s' event,
    (system (twoOfEach .linux)).Reachable s ∧
    ioWait (twoOfEach .linux) s false = .ok (s', event) ∧ event.evtype = .complete ∧
    event.optype = .accept ∧ event.value = some 7 ∧ resFromHandle (twoOfEach .linux) s' 7 = none ∧
    (s'.res 1).type = .void ∧ ¬ AcceptContract (twoOfEach .linux) s s' event 7 := by
  obtain ⟨s, reached, checked⟩ := (begun_reached (twoOfEach .linux)).replay_check
    [.startServer 80 true 3 true, .accept 9 0 true (-1), .complete 0 (some 7)]
    (fun s => (ioWait (twoOfEach .linux) s false).toOption.any fun result =>
      result.2.evtype = .complete && result.2.optype = .accept && result.2.value = some 7 &&
        resFromHandle (twoOfEach .linux) result.1 7 = none && (result.1.res 1).type = .void)
    (by decide)
  obtain ⟨⟨s', event⟩, ran, shown⟩ := (Option.any_eq_true _ _).mp checked
  simp only [Bool.and_eq_true, decide_eq_true_eq] at shown
  obtain ⟨⟨⟨⟨complete, accept⟩, value⟩, lookup⟩, unused⟩ := shown
  refine ⟨s, s', event, reached, toOption_ok ran, complete, accept, value, lookup, unused, ?_⟩
  intro contract
  obtain ⟨handle, r, reported, found, -⟩ := contract.usable complete
  cases value.symm.trans reported
  cases lookup.symm.trans found

end Mysnips.AsyncIo

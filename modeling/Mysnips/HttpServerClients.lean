import Mysnips.HttpServerSteps

/-! The server seen from one slot. What a step leaves in a slot and in its part of
the log is one step of a client, so that a property of one client is proved by its
steps alone and then holds in every slot of every run. -/
namespace Mysnips.HttpServer
open HttpParse
open Memory (ascii)

/-! ## Accepting and closing -/

/-- What `close_client` leaves behind. -/
structure Closing (max ci pi : Nat) (s s' : Server) : Prop where
  entry : (s.cs ci).pitem = some pi
  positive : 0 < s.ncs
  ncs : s'.ncs = s.ncs - 1
  pis : s'.pis = Function.update s.pis (pi - 1) (s.pis (s.ncs - 1))
  ps : s'.ps = Function.update s.ps pi (s.ps s.ncs)
  free : s'.free = Function.update s.free (max - s.ncs) ci
  state : ∀ cj, (s'.cs cj).state = if cj = ci then .free else (s.cs cj).state
  pitem : ∀ cj, (s'.cs cj).pitem =
    if cj = s.pis (s.ncs - 1) then some pi else if cj = ci then none else (s.cs cj).pitem
  others : ∀ cj, cj ≠ ci → s'.cs cj = { s.cs cj with pitem := (s'.cs cj).pitem }
  gen : (s'.cs ci).gen = invalidateHandles (s.cs ci).gen
  input : (s'.cs ci).input = {}
  output : (s'.cs ci).output = {}
  ring : SameRing s s'
  log : s'.log = s.log ++ [.closed ci (s.ps pi).fd (s.cs ci).state]

/-- The clients after one is replaced and one, maybe the same, gets another poll entry. -/
private theorem relinked (cs : Nat → Client) (ci moved pi : Nat) (c : Client) (cj : Nat) :
    Function.update (Function.update cs ci c) moved
      { Function.update cs ci c moved with pitem := some pi } cj =
    { Function.update cs ci c cj with
      pitem := if cj = moved then some pi else (Function.update cs ci c cj).pitem } := by
  by_cases same : cj = moved
  · subst same
    rw [Function.update_self, if_pos rfl]
  · rw [Function.update_of_ne same, if_neg same]

theorem closeClient_closing {max ci : Nat} {s s' : Server}
    (done : closeClient max s ci = .ok s') : ∃ pi, Closing max ci pi s s' := by
  unfold closeClient at done
  split at done
  · cases done
  · rename_i pi entry
    split at done
    · cases done
    · rename_i positive
      have last : max - (s.ncs - 1 + 1) = max - s.ncs := by
        rw [Nat.sub_add_cancel (Nat.pos_of_ne_zero positive)]
      simp only [Server.setClient, Server.record, Function.update_self, last] at done
      cases done
      refine ⟨pi, entry, Nat.pos_of_ne_zero positive, rfl, rfl, rfl, rfl, ?_, ?_, ?_, ?_, ?_, ?_,
        ⟨rfl, rfl, rfl⟩, rfl⟩
      · intro cj
        simp only [relinked]
        by_cases same : cj = ci
        · simp [same]
        · simp [same]
      · intro cj
        simp only [relinked]
        by_cases same : cj = ci
        · simp [same]
        · simp [same]
      · intro cj other
        simp only [relinked, Function.update_of_ne other]
      all_goals simp only [relinked, Function.update_self]

/-- What `process_io` does for an accepted connection. -/
structure Accepting (max fd ci : Nat) (s s' : Server) : Prop where
  top : s.free (max - (s.ncs + 1)) = ci
  bound : ci < max
  free : (s.cs ci).state = .free
  ncs : s'.ncs = s.ncs + 1
  pis : s'.pis = Function.update s.pis s.ncs ci
  ps : s'.ps = Function.update s.ps (s.ncs + 1) ⟨fd, ⟨true, false⟩, ⟨false, false⟩⟩
  stack : s'.free = s.free
  others : ∀ cj, cj ≠ ci → s'.cs cj = s.cs cj
  client : s'.cs ci =
    { s.cs ci with
      state := .idle, input := {}, output := {}, pitem := some (s.ncs + 1), numServed := 0 }
  ring : SameRing s s'
  log : s'.log = s.log ++ [.accepted ci fd]

theorem acceptClient_accepting {max fd : Nat} {s s' : Server}
    (done : acceptClient max s fd = .ok s') :
    Accepting max fd (s.free (max - (s.ncs + 1))) s s' := by
  unfold acceptClient at done
  simp only at done
  split at done
  · cases done
  · rename_i bound
    split at done
    · cases done
    · rename_i free
      cases done
      exact ⟨rfl, not_not.mp bound, not_not.mp free, rfl, rfl, rfl, rfl,
        fun cj other => Function.update_of_ne other .., Function.update_self ..,
        ⟨rfl, rfl, rfl⟩, rfl⟩

/-! ## Histories -/

theorem history_append (ci : Nat) (log events : List Event) :
    history ci (log ++ events) = history ci log ++ history ci events :=
  List.filter_append ..

theorem history_own {ci : Nat} {events : List Event} (own : ∀ e ∈ events, e.client = ci) :
    history ci events = events :=
  List.filter_eq_self.mpr (fun e member => by simpa using own e member)

theorem history_other {ci cj : Nat} {events : List Event} (own : ∀ e ∈ events, e.client = ci)
    (other : cj ≠ ci) : history cj events = [] := by
  refine List.filter_eq_nil_iff.mpr (fun e member => ?_)
  rw [own e member]
  simpa using Ne.symm other

theorem mem_history {ci : Nat} {log : List Event} {e : Event} :
    e ∈ history ci log ↔ e ∈ log ∧ e.client = ci := by
  simp [history]

/-- What a step leaves in a slot: nothing new, or one step of the client. -/
inductive SlotStep (ci : Nat) (s s' : Server) : Prop where
  | same (client : s'.cs ci = s.cs ci) (log : history ci s'.log = history ci s.log)
  | step (events : List Event) (client : ClientStep ci (s.cs ci) events (s'.cs ci))
      (log : history ci s'.log = history ci s.log ++ events)

/-- A change of one client, seen from each slot. -/
theorem Touch.slot {ci : Nat} {events : List Event} {s s' : Server} (touch : Touch ci events s s')
    (step : ClientStep ci (s.cs ci) events (s'.cs ci)) (cj : Nat) : SlotStep cj s s' := by
  by_cases same : cj = ci
  · subst same
    refine .step events step ?_
    rw [touch.log, history_append, history_own touch.own]
  · refine .same (touch.others cj same) ?_
    rw [touch.log, history_append, history_other touch.own same, List.append_nil]

/-- A close after some changes of the client, seen from each slot. -/
private theorem Closing.slot {max ci pi : Nat} {events : List Event} {s s₁ s' : Server}
    (touch : Touch ci events s s₁) (closing : Closing max ci pi s₁ s')
    (step : ClientStep ci (s.cs ci) (events ++ [.closed ci (s₁.ps pi).fd (s₁.cs ci).state])
      (s'.cs ci)) (cj : Nat) : SlotStep cj s s' := by
  have own : ∀ e ∈ events ++ [.closed ci (s₁.ps pi).fd (s₁.cs ci).state], e.client = ci := by
    intro e member
    rcases List.mem_append.mp member with before | last
    · exact touch.own e before
    · rw [List.mem_singleton.mp last]
      rfl
  have log : s'.log = s.log ++ (events ++ [.closed ci (s₁.ps pi).fd (s₁.cs ci).state]) := by
    rw [closing.log, touch.log, List.append_assoc]
  by_cases same : cj = ci
  · subst same
    refine .step _ step ?_
    rw [log, history_append, history_own own]
  · have moved := closing.others cj same
    rw [touch.others cj same] at moved
    refine .step [] ?_ ?_
    · rw [moved]
      exact .moved (s.cs cj) _
    · rw [log, history_append, history_other own same]

/-- Every step of the server is a step of each client, or leaves it alone. -/
theorem Micro.slot {max : Nat} {s s' : Server} (step : Micro max s s') (cj : Nat) :
    SlotStep cj s s' := by
  cases step with
  | polled ps fds => exact .same rfl rfl
  | @accepted _ fd room done =>
    have accepting := acceptClient_accepting done
    have own : ∀ e ∈ [Event.accepted (s.free (max - (s.ncs + 1))) fd],
        e.client = s.free (max - (s.ncs + 1)) := by simp [Event.client]
    by_cases same : cj = s.free (max - (s.ncs + 1))
    · subst same
      refine .step [.accepted (s.free (max - (s.ncs + 1))) fd] ?_ ?_
      · rw [accepting.client]
        exact .accepted _ _ _ accepting.free
      · rw [accepting.log, history_append, history_own own]
    · refine .same (accepting.others cj same) ?_
      rw [accepting.log, history_append, history_other own same, List.append_nil]
  | changed slot touch ring free queued step => exact touch.slot step cj
  | pushed slot touch ring connected outside inside step => exact touch.slot step cj
  | popped touch ring connected outside step => exact touch.slot step cj
  | closed slot lost done =>
    obtain ⟨pi, closing⟩ := closeClient_closing done
    refine closing.slot lost.touch ?_ cj
    rw [lost.state]
    refine .freed _ _ _ _ lost.loss ?_ (by rw [closing.gen, lost.gen]) closing.input
      closing.output
    rw [closing.state, if_pos rfl]
  | poppedClosed touch ring gen state done =>
    obtain ⟨pi, closing⟩ := closeClient_closing done
    refine closing.slot touch ?_ cj
    rw [state]
    refine .poppedFreed _ _ _ ?_ (by rw [closing.gen, gen]) closing.input closing.output
    rw [closing.state, if_pos rfl]

/-! ## Runs -/

/-- Steps only add to the log. -/
theorem Micro.log {max : Nat} {s s' : Server} (step : Micro max s s') :
    ∃ events, s'.log = s.log ++ events := by
  cases step with
  | polled ps fds => exact ⟨[], (List.append_nil _).symm⟩
  | accepted room done => exact ⟨_, (acceptClient_accepting done).log⟩
  | changed slot touch ring free queued step => exact ⟨_, touch.log⟩
  | pushed slot touch ring connected outside inside step => exact ⟨_, touch.log⟩
  | popped touch ring connected outside step => exact ⟨_, touch.log⟩
  | closed slot lost done =>
    obtain ⟨pi, closing⟩ := closeClient_closing done
    exact ⟨_, by rw [closing.log, lost.touch.log, List.append_assoc]⟩
  | poppedClosed touch ring gen state done =>
    obtain ⟨pi, closing⟩ := closeClient_closing done
    exact ⟨_, by rw [closing.log, touch.log, List.append_assoc]⟩

theorem Path.log {max : Nat} {s s' : Server} (path : Path max s s') :
    ∃ events, s'.log = s.log ++ events := by
  induction path with
  | refl => exact ⟨[], (List.append_nil _).symm⟩
  | tail before step ih =>
    obtain ⟨events, first⟩ := ih
    obtain ⟨events', second⟩ := step.log
    exact ⟨events ++ events', by rw [second, first, List.append_assoc]⟩

/-- A property that the steps keep, as long as the log holds only `good` events, holds
in every run with such a log. -/
theorem reachable_invariant {config : Config} {P : Server → Prop} (good : Event → Prop)
    (begins : ∀ st, Initial config.maxClients st → P st.server)
    (kept : ∀ s s', (∀ e ∈ s'.log, good e) → P s → Micro config.maxClients s s' → P s')
    {st : State} (reached : (system config).Reachable st) (clean : ∀ e ∈ st.server.log, good e) :
    P st.server := by
  have run : (∀ e ∈ st.server.log, good e) → P st.server := by
    refine reached.invariant (P := fun st => (∀ e ∈ st.server.log, good e) → P st.server)
      (fun st begun _ => begins st begun) ?_
    intro st a st' _ before moved clean
    -- The log of every state on the way is an initial part of the last one.
    have along : ∀ {s'}, Path config.maxClients st.server s' → (∀ e ∈ s'.log, good e) → P s' := by
      intro s' path
      induction path with
      | refl => exact before
      | tail _ step ih =>
        intro clean
        obtain ⟨events, log⟩ := step.log
        refine kept _ _ clean (ih (fun e member => clean e ?_)) step
        rw [log]
        exact List.mem_append_left _ member
    exact along (next_path moved) clean
  exact run clean

/-- A property of one client and its history that its steps keep, as long as their
events are `good`, holds of its slot in every run in which the slot has only such
events. -/
theorem reachable_client {config : Config} {ci : Nat} {P : Client → List Event → Prop}
    (good : Event → Prop) (bound : ci < config.maxClients)
    (begins : ∀ c : Client, c.state = .free → c.gen = 0 → P c [])
    (kept : ∀ c past events c', (∀ e ∈ events, good e) → P c past → ClientStep ci c events c' →
      P c' (past ++ events))
    {st : State} (reached : (system config).Reachable st)
    (clean : ∀ e ∈ history ci st.server.log, good e) :
    P (st.server.cs ci) (history ci st.server.log) := by
  have run : (∀ e ∈ st.server.log, e.client = ci → good e) →
      P (st.server.cs ci) (history ci st.server.log) := by
    refine reachable_invariant (P := fun s => P (s.cs ci) (history ci s.log))
      (fun e => e.client = ci → good e) (fun st begun => ?_) ?_ reached
    · have client := begun.clients ci bound
      rw [begun.log]
      exact begins _ client.1 client.2
    · intro s s' clean before step
      rcases step.slot ci with ⟨client, log⟩ | ⟨events, client, log⟩
      · rw [client, log]
        exact before
      · rw [log]
        refine kept _ _ _ _ (fun e member => ?_) before client
        have logged : e ∈ history ci s'.log := by
          rw [log]
          exact List.mem_append_right _ member
        have ⟨event, own⟩ := mem_history.mp logged
        exact clean e event own
  exact run (fun e event own => clean e (mem_history.mpr ⟨event, own⟩))

/-! ## Bounds -/

/-- Every index the server works with is the index of a client. -/
structure Bounded (max : Nat) (s : Server) : Prop where
  ncs : s.ncs ≤ max
  listed : ∀ i < s.ncs, s.pis i < max
  qhead : s.qhead < max
  qused : s.qused ≤ max
  queued : ∀ k < s.qused, s.qdata ((s.qhead + k) % max) < max
  log : ∀ e ∈ s.log, e.client < max

theorem Bounded.slot {max ci : Nat} {s : Server} (bounded : Bounded max s) (slot : Slot s ci) :
    ci < max := by
  rcases slot with ⟨i, inside, rfl⟩ | inside
  · exact bounded.listed i inside
  · exact Nat.lt_of_lt_of_le inside bounded.ncs

/-- The first client of a queue that is not empty. -/
theorem Bounded.front {max : Nat} {s : Server} (bounded : Bounded max s) (nonempty : 0 < s.qused) :
    s.qdata s.qhead < max := by
  have first := bounded.queued 0 nonempty
  rwa [Nat.add_zero, Nat.mod_eq_of_lt bounded.qhead] at first

private theorem Bounded.touch {max ci : Nat} {events : List Event} {s s' : Server}
    (bounded : Bounded max s) (client : ci < max) (touch : Touch ci events s s') :
    s'.ncs ≤ max ∧ (∀ i < s'.ncs, s'.pis i < max) ∧ ∀ e ∈ s'.log, e.client < max := by
  refine ⟨touch.ncs ▸ bounded.ncs, ?_, ?_⟩
  · rw [touch.ncs, touch.pis]
    exact bounded.listed
  · intro e member
    rw [touch.log] at member
    rcases List.mem_append.mp member with before | event
    · exact bounded.log e before
    · rw [touch.own e event]
      exact client

private theorem Bounded.sameRing {max : Nat} {s s' : Server} (bounded : Bounded max s)
    (ring : SameRing s s') : s'.qhead < max ∧ s'.qused ≤ max ∧
      ∀ k < s'.qused, s'.qdata ((s'.qhead + k) % max) < max := by
  rw [ring.qhead, ring.qused, ring.qdata]
  exact ⟨bounded.qhead, bounded.qused, bounded.queued⟩

private theorem Bounded.poppedRing {max : Nat} {s s' : Server} (bounded : Bounded max s)
    (ring : PoppedRing max s s') : s'.qhead < max ∧ s'.qused ≤ max ∧
      ∀ k < s'.qused, s'.qdata ((s'.qhead + k) % max) < max := by
  rw [ring.qhead, ring.qused, ring.qdata]
  refine ⟨Nat.mod_lt _ (Nat.zero_lt_of_lt bounded.qhead), (Nat.sub_le ..).trans bounded.qused, ?_⟩
  intro k inside
  rw [Nat.mod_add_mod, Nat.add_assoc, Nat.add_comm 1 k]
  exact bounded.queued (k + 1) (by omega)

private theorem Bounded.pushedRing {max ci : Nat} {s s' : Server} (bounded : Bounded max s)
    (client : ci < max) (ring : PushedRing max ci s s') : s'.qhead < max ∧ s'.qused ≤ max ∧
      ∀ k < s'.qused, s'.qdata ((s'.qhead + k) % max) < max := by
  rw [ring.qhead, ring.qused, ring.qdata]
  refine ⟨bounded.qhead, ring.room, fun k inside => ?_⟩
  rw [Function.update_apply]
  split
  · exact client
  · rename_i other
    refine bounded.queued k (Nat.lt_of_le_of_ne (Nat.le_of_lt_succ inside) ?_)
    rintro rfl
    exact other rfl

private theorem Bounded.closing {max ci pi : Nat} {s s' : Server} (bounded : Bounded max s)
    (client : ci < max) (closing : Closing max ci pi s s') : Bounded max s' := by
  obtain ⟨qhead, qused, queued⟩ := bounded.sameRing closing.ring
  refine ⟨?_, ?_, qhead, qused, queued, ?_⟩
  · rw [closing.ncs]
    exact (Nat.sub_le ..).trans bounded.ncs
  · intro i inside
    rw [closing.ncs] at inside
    rw [closing.pis, Function.update_apply]
    split
    · exact bounded.listed _ (by omega)
    · exact bounded.listed _ (by omega)
  · intro e member
    rw [closing.log] at member
    rcases List.mem_append.mp member with before | last
    · exact bounded.log e before
    · rw [List.mem_singleton.mp last]
      exact client

theorem Bounded.micro {max : Nat} {s s' : Server} (bounded : Bounded max s)
    (step : Micro max s s') : Bounded max s' := by
  cases step with
  | polled ps fds =>
    exact ⟨bounded.ncs, bounded.listed, bounded.qhead, bounded.qused, bounded.queued, bounded.log⟩
  | accepted room done =>
    have accepting := acceptClient_accepting done
    obtain ⟨qhead, qused, queued⟩ := bounded.sameRing accepting.ring
    refine ⟨by rw [accepting.ncs]; exact room, ?_, qhead, qused, queued, ?_⟩
    · intro i inside
      rw [accepting.ncs] at inside
      rw [accepting.pis, Function.update_apply]
      split
      · exact accepting.bound
      · exact bounded.listed i (by omega)
    · intro e member
      rw [accepting.log] at member
      rcases List.mem_append.mp member with before | last
      · exact bounded.log e before
      · rw [List.mem_singleton.mp last]
        exact accepting.bound
  | changed slot touch ring free queued step =>
    obtain ⟨ncs, listed, log⟩ := bounded.touch (bounded.slot slot) touch
    obtain ⟨qhead, qused, queued⟩ := bounded.sameRing ring
    exact ⟨ncs, listed, qhead, qused, queued, log⟩
  | pushed slot touch ring connected outside inside step =>
    obtain ⟨ncs, listed, log⟩ := bounded.touch (bounded.slot slot) touch
    obtain ⟨qhead, qused, queued⟩ := bounded.pushedRing (bounded.slot slot) ring
    exact ⟨ncs, listed, qhead, qused, queued, log⟩
  | popped touch ring connected outside step =>
    obtain ⟨ncs, listed, log⟩ := bounded.touch (bounded.front ring.nonempty) touch
    obtain ⟨qhead, qused, queued⟩ := bounded.poppedRing ring
    exact ⟨ncs, listed, qhead, qused, queued, log⟩
  | closed slot lost done =>
    obtain ⟨ncs, listed, log⟩ := bounded.touch (bounded.slot slot) lost.touch
    obtain ⟨qhead, qused, queued⟩ := bounded.sameRing lost.ring
    obtain ⟨pi, closing⟩ := closeClient_closing done
    exact Bounded.closing ⟨ncs, listed, qhead, qused, queued, log⟩ (bounded.slot slot) closing
  | poppedClosed touch ring gen state done =>
    obtain ⟨ncs, listed, log⟩ := bounded.touch (bounded.front ring.nonempty) touch
    obtain ⟨qhead, qused, queued⟩ := bounded.poppedRing ring
    obtain ⟨pi, closing⟩ := closeClient_closing done
    exact Bounded.closing ⟨ncs, listed, qhead, qused, queued, log⟩
      (bounded.front ring.nonempty) closing

theorem Initial.bounded {config : Config} {st : State} (begun : Initial config.maxClients st) :
    Bounded config.maxClients st.server where
  ncs := by rw [begun.ncs]; exact Nat.zero_le _
  listed := by simp [begun.ncs]
  qhead := by rw [begun.qhead]; exact config.positive
  qused := by rw [begun.qused]; exact Nat.zero_le _
  queued := by simp [begun.qused]
  log := by simp [begun.log]

theorem reachable_bounded {config : Config} {st : State} (reached : (system config).Reachable st) :
    Bounded config.maxClients st.server :=
  reachable_invariant (fun _ => True) (fun _ begun => begun.bounded)
    (fun _ _ _ bounded step => bounded.micro step) reached (fun _ _ => trivial)

/-- What `http_server_init` makes of a zeroed server. -/
def start (max : Nat) : State where
  server := { ps := fun _ => ⟨0, ⟨true, false⟩, ⟨false, false⟩⟩, free := fun i => max - (i + 1) }
  waiting := false

theorem start_initial (max : Nat) : Initial max (start max) :=
  ⟨rfl, rfl, rfl, fun _ _ => ⟨rfl, rfl⟩, fun _ _ => rfl, rfl, rfl, rfl⟩

/-- A run from the start, with a check of the state in which it ends. -/
theorem start_reaches (config : Config) (actions : List Action) (check : State → Bool)
    (passed : ((system config).replay (start config.maxClients) actions).any check) :
    ∃ st, (system config).Reachable st ∧ check st := by
  have begun : (system config).Reachable (start config.maxClients) :=
    .start (start_initial config.maxClients)
  exact begun.replay_check actions check passed

/-- A server for at most four clients. -/
def fourClients : Config := ⟨4, by decide, by decide⟩

/-- `poll` reports input on one entry; what is then accepted or received. -/
def inputOn (entry : Nat) (accepts : List Accept) (recv : Recv) : Action :=
  .processIo
    { poll := some (fun i => ⟨i = entry, false⟩), accepts := accepts, recvs := fun _ => recv }

/-- A client connects, sends a request, and gets an answer that stays in its output. -/
def answered : List Action :=
  [.wait, inputOn 0 [.client 5] .again,
    inputOn 1 [] (.data (ascii "GET / HTTP/1.1\r\n\r\n") .again), .round (fun _ => true),
    .sendResponse 0 (fun _ => true)]

end Mysnips.HttpServer

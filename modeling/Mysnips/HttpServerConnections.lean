import Mysnips.HttpServerClients

/-! Connections. A slot is used by one connection after the other, and what is said
about received and sent bytes concerns one of them: from where it is accepted to
where it is closed. A property of connections is proved by the steps of a connected
client and by the ways in which a connection ends. -/
namespace Mysnips.HttpServer

/-- The connection that a slot has, or had last: whether it is open, and its events. -/
structure Connection where
  isOpen : Bool := false
  events : List Event := []

def Connection.step (k : Connection) : Event → Connection
  | .accepted _ _ => ⟨true, []⟩
  | .closed _ _ _ => ⟨false, k.events⟩
  | e => if k.isOpen then ⟨true, k.events ++ [e]⟩ else k

/-- The connection after the events of a slot. -/
def connection (past : List Event) : Connection := past.foldl Connection.step {}

/-- The events of the connection that a slot has, or had last. -/
def connectionEvents (st : State) (ci : Nat) : List Event :=
  (connection (history ci st.server.log)).events

/-- The events inside a connection. -/
def Event.within : Event → Bool
  | accepted _ _ => false
  | closed _ _ _ => false
  | _ => true

theorem connection_append (past events : List Event) :
    connection (past ++ events) = events.foldl Connection.step (connection past) :=
  List.foldl_append

private theorem step_within {k : Connection} {e : Event} (opened : k.isOpen = true)
    (inside : e.within) : k.step e = ⟨true, k.events ++ [e]⟩ := by
  cases e <;> simp_all [Connection.step, Event.within]

theorem connection_within {past events : List Event} (opened : (connection past).isOpen = true)
    (inside : ∀ e ∈ events, e.within) :
    connection (past ++ events) = ⟨true, (connection past).events ++ events⟩ := by
  rw [connection_append]
  generalize connection past = k at *
  induction events generalizing k with
  | nil =>
    rw [List.foldl_nil, List.append_nil, ← opened]
  | cons e rest ih =>
    rw [List.foldl_cons, step_within opened (inside e List.mem_cons_self),
      ih (fun e member => inside e (List.mem_cons_of_mem _ member)) ⟨true, k.events ++ [e]⟩ rfl,
      List.append_assoc, List.singleton_append]

theorem connection_closed {past last : List Event} {ci fd : Nat} {state : ClientState}
    (opened : (connection past).isOpen = true) (inside : ∀ e ∈ last, e.within) :
    connection (past ++ (last ++ [.closed ci fd state])) =
      ⟨false, (connection past).events ++ last⟩ := by
  rw [← List.append_assoc, connection_append, connection_within opened inside]
  rfl

theorem connection_unopened {past events : List Event} (unopened : (connection past).isOpen = false)
    (outside : ∀ ci fd, .accepted ci fd ∉ events) :
    connection (past ++ events) = connection past := by
  rw [connection_append]
  generalize connection past = k at *
  induction events with
  | nil => rfl
  | cons e rest ih =>
    have same : k.step e = k := by
      cases e with
      | accepted ci fd => exact absurd List.mem_cons_self (outside ci fd)
      | closed ci fd state => rw [Connection.step, ← unopened]
      | _ => simp [Connection.step, unopened]
    rw [List.foldl_cons, same]
    exact ih (fun ci fd member => outside ci fd (List.mem_cons_of_mem _ member))

/-! ## Steps -/

/-- How a connection ends: by what the client did last, or because a refusal finds no
memory. -/
def Ending (ci : Nat) (c : Client) (last : List Event) : Prop :=
  Loss ci c last ∨ last = [.popped ci c.state]

theorem Ending.within {ci : Nat} {c : Client} {last : List Event} (ending : Ending ci c last) :
    ∀ e ∈ last, e.within := by
  rcases ending with loss | rfl
  · cases loss <;> simp [Event.within]
  · simp [Event.within]

/-- A step of a connected client stays inside the connection or ends it. -/
theorem ClientStep.connected {ci : Nat} {c c' : Client} {events : List Event}
    (connected : c.state ≠ .free) (step : ClientStep ci c events c') :
    (c'.state ≠ .free ∧ ∀ e ∈ events, e.within) ∨
      (c'.state = .free ∧ ∃ last fd state, events = last ++ [.closed ci fd state] ∧
        Ending ci c last) := by
  cases step with
  | accepted fd pitem free => exact absurd free connected
  | freed _ drift fd loss state => exact .inr ⟨state, drift, fd, _, rfl, .inl loss⟩
  | poppedFreed _ fd state => exact .inr ⟨state, [.popped ci c.state], fd, _, rfl, .inr rfl⟩
  | completed input output state keepalive was short stored inside left afterwards =>
    refine .inl ⟨?_, by simp [Event.within]⟩
    cases afterwards <;> simp
  | serviced | moved | received | sent => exact .inl ⟨connected, by simp [Event.within]⟩
  | header _ _ was | noted _ was | content _ _ was =>
    exact .inl ⟨by simp [was], by simp [Event.within]⟩
  | _ => exact .inl ⟨by simp, by simp [Event.within]⟩

/-- The condition on a run: clients are popped in the state `C_QUEUED`. -/
def Event.popsQueued : Event → Prop
  | popped _ state => state = .queued
  | _ => True

/-- A step of a free slot accepts a connection or leaves the slot free. -/
theorem ClientStep.unconnected {ci : Nat} {c c' : Client} {events : List Event}
    (free : c.state = .free) (queued : ∀ e ∈ events, e.popsQueued)
    (step : ClientStep ci c events c') :
    (∃ fd pitem, events = [.accepted ci fd] ∧ c' =
      { c with state := .idle, input := {}, output := {}, pitem := pitem, numServed := 0 }) ∨
      (c'.state = .free ∧ ∀ cj fd, .accepted cj fd ∉ events) := by
  cases step with
  | accepted fd pitem => exact .inl ⟨fd, pitem, rfl, rfl⟩
  | freed _ drift fd loss state =>
    refine .inr ⟨state, fun cj fd member => ?_⟩
    rcases List.mem_append.mp member with transfer | last
    · exact absurd (loss.transfers _ transfer) (by simp [Event.isTransfer])
    · simp at last
  | poppedFreed _ fd state => exact .inr ⟨state, by simp⟩
  | serviced | moved | received | sent => exact .inr ⟨free, by simp⟩
  | refused | deferred | delivered =>
    have impossible : c.state = .queued := queued _ List.mem_cons_self
    rw [free] at impossible
    cases impossible
  | queued _ _ _ was | status _ _ was | header _ _ was | noted _ was | special _ _ was
  | content _ _ was | completed _ _ _ _ was =>
    rw [free] at was
    cases was

/-- What holds of a connected client and the events of its connection, and of every
connection, open or not. -/
structure Holds (Q : Client → List Event → Prop) (R : List Event → Prop) (c : Client)
    (past : List Event) : Prop where
  isOpen : (connection past).isOpen = true ↔ c.state ≠ .free
  connected : c.state ≠ .free → Q c (connection past).events
  always : R (connection past).events

/-- A property that accepting establishes, that the steps of a connected client keep and
that leads to another one where the connection ends, holds in every run in which the
slot has only `good` events. -/
theorem reachable_connection {config : Config} {ci : Nat} {Q : Client → List Event → Prop}
    {R : List Event → Prop} (good : Event → Prop) (bound : ci < config.maxClients) (empty : R [])
    (fresh : ∀ (c : Client) pitem,
      Q { c with state := .idle, input := {}, output := {}, pitem := pitem, numServed := 0 } [])
    (kept : ∀ c past events c', (∀ e ∈ events, good e ∧ e.popsQueued) → Q c past →
      ClientStep ci c events c' → c.state ≠ .free → c'.state ≠ .free → Q c' (past ++ events))
    (ended : ∀ c past last, (∀ e ∈ last, good e) → Q c past → Ending ci c last → R (past ++ last))
    {st : State} (reached : (system config).Reachable st)
    (clean : ∀ e ∈ history ci st.server.log, good e ∧ e.popsQueued) :
    Holds Q R (st.server.cs ci) (history ci st.server.log) := by
  have settled : ∀ {c past}, Q c past → R past := by
    intro c past holds
    have now := ended c past [] (by simp) holds (.inl .nothing)
    rwa [List.append_nil] at now
  refine reachable_client (fun e => good e ∧ e.popsQueued) bound ?_ ?_ reached clean
  · intro c free _
    exact ⟨by simp [connection, free], fun connected => absurd free connected, empty⟩
  · intro c past events c' good holds step
    by_cases free : c.state = .free
    · have unopened : (connection past).isOpen = false := by
        simpa [free] using holds.isOpen
      rcases step.unconnected free (fun e member => (good e member).2) with
        ⟨fd, pitem, rfl, rfl⟩ | ⟨free', outside⟩
      · have opened : connection (past ++ [.accepted ci fd]) = ⟨true, []⟩ := connection_append ..
        exact ⟨by simp [opened], fun _ => by rw [opened]; exact fresh c pitem, by
          rw [opened]; exact empty⟩
      · have same := connection_unopened unopened outside
        exact ⟨by simp [same, unopened, free'], fun connected => absurd free' connected, by
          rw [same]; exact holds.always⟩
    · have opened := holds.isOpen.mpr free
      have before := holds.connected free
      rcases step.connected free with ⟨connected, inside⟩ | ⟨free', last, fd, state, rfl, ending⟩
      · have after := kept c _ events c' good before step free connected
        have grown := connection_within opened inside
        exact ⟨by simp [grown, connected], fun _ => by rw [grown]; exact after, by
          rw [grown]; exact settled after⟩
      · have closed : connection (past ++ (last ++ [.closed ci fd state])) =
            ⟨false, (connection past).events ++ last⟩ := connection_closed opened ending.within
        refine ⟨by simp [closed, free'], fun connected => absurd free' connected, ?_⟩
        rw [closed]
        exact ended c _ last (fun e member => (good e (List.mem_append_left _ member)).1) before ending

end Mysnips.HttpServer

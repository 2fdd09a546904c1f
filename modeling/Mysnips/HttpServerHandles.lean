import Mysnips.HttpServerClients

/-! Handles of requests. A handle packs the slot of the client with the generation of
the slot, and the generation counts how often the slot was invalidated, up to the
wrap at 65535. The bound check of `client_from_handle` compares the slot with the
number of connections, and slots are not dense. -/
namespace Mysnips.HttpServer
open HttpParse
open Memory (ascii)

/-- The events that invalidate the handles of a slot. -/
def Event.invalidates : Event → Bool
  | completed _ => true
  | closed _ _ _ => true
  | _ => false

/-- How often handles were invalidated. -/
def invalidations (events : List Event) : Nat := events.countP (·.invalidates)

@[simp] theorem invalidations_append (past events : List Event) :
    invalidations (past ++ events) = invalidations past + invalidations events :=
  List.countP_append ..

private theorem invalidations_transfers {events : List Event}
    (transfers : ∀ e ∈ events, e.isTransfer) : invalidations events = 0 := by
  refine List.countP_eq_zero.mpr (fun e member => ?_)
  have transfer := transfers e member
  cases e <;> simp_all [Event.isTransfer, Event.invalidates]

/-- A step of a client invalidates its handles at most once. -/
theorem ClientStep.gen {ci : Nat} {c c' : Client} {events : List Event}
    (step : ClientStep ci c events c') :
    (invalidations events = 0 ∧ c'.gen = c.gen) ∨
      (invalidations events = 1 ∧ c'.gen = invalidateHandles c.gen) := by
  cases step with
  | freed _ drift fd loss state gen input output =>
    refine .inr ⟨?_, gen⟩
    rw [invalidations_append, invalidations_transfers loss.transfers]
    rfl
  | poppedFreed _ fd state gen input output => exact .inr ⟨rfl, gen⟩
  | completed => exact .inr ⟨rfl, rfl⟩
  | _ => exact .inl ⟨rfl, rfl⟩

/-- The handle that a step delivers has the generation before the step. -/
theorem ClientStep.handle {ci : Nat} {c c' : Client} {events before after : List Event}
    {cj handle : Nat} {head body : List UInt8} (step : ClientStep ci c events c')
    (issued : events = before ++ .delivered cj handle head body :: after) :
    handle = c.gen ||| (ci <<< 16) ∧ invalidations before = 0 := by
  have member : Event.delivered cj handle head body ∈ events := by simp [issued]
  cases step with
  | freed _ drift fd loss =>
    rcases List.mem_append.mp member with transfer | last
    · exact absurd (loss.transfers _ transfer) (by simp [Event.isTransfer])
    · simp at last
  | delivered r headLen total verdict small =>
    cases before with
    | nil => simp at issued
    | cons first rest =>
      cases rest with
      | nil =>
        simp only [List.cons_append, List.nil_append, List.cons.injEq, Event.delivered.injEq]
          at issued
        obtain ⟨rfl, ⟨-, rfl, -, -⟩, -⟩ := issued
        exact ⟨rfl, rfl⟩
      | cons second rest => simp at issued
  | _ => simp at member

theorem invalidateHandles_eq {gen : Nat} (small : gen < 65535) :
    invalidateHandles gen = (gen + 1) % 65535 := by
  unfold invalidateHandles
  simp only
  split <;> omega

/-- The generation of a slot, and the handles issued from it. -/
structure Generations (ci : Nat) (c : Client) (past : List Event) : Prop where
  current : c.gen = invalidations past % 65535
  issued : ∀ before cj handle head body after, past = before ++ .delivered cj handle head body :: after →
    handle = (invalidations before % 65535) ||| (ci <<< 16)

theorem Generations.step {ci : Nat} {c c' : Client} {past events : List Event}
    (generations : Generations ci c past) (step : ClientStep ci c events c') :
    Generations ci c' (past ++ events) where
  current := by
    rw [invalidations_append]
    rcases step.gen with ⟨none, same⟩ | ⟨one, next⟩
    · rw [none, same, generations.current, Nat.add_zero]
    · rw [one, next, generations.current, invalidateHandles_eq (Nat.mod_lt _ (by decide)),
        Nat.mod_add_mod]
  issued before cj handle head body after split := by
    rcases Transition.append_eq_append_cons split with ⟨rest, old, -⟩ | ⟨middle, rfl, later⟩
    · exact generations.issued before cj handle head body rest old
    · obtain ⟨packed, none⟩ := step.handle later
      rw [packed, generations.current, invalidations_append, none, Nat.add_zero]

theorem reachable_generations {config : Config} {st : State} {ci : Nat}
    (reached : (system config).Reachable st) (bound : ci < config.maxClients) :
    Generations ci (st.server.cs ci) (history ci st.server.log) :=
  reachable_client (fun _ => True) bound (fun _ _ gen => ⟨gen, by simp⟩)
    (fun _ _ _ _ _ generations step => generations.step step) reached (fun _ _ => trivial)

/-! ## Handles -/

/-- A packed handle leads to its slot while the slot is below the number of connections
and has the packed generation. -/
theorem clientFromHandle_packed (s : Server) {gen : Nat} (ci : Nat) (small : gen < 65535) :
    clientFromHandle s (gen ||| (ci <<< 16)) =
      if ci < s.ncs ∧ (s.cs ci).gen = gen then some ci else none := by
  have packed : gen ||| (ci <<< 16) = ci * 2 ^ 16 + gen := by
    rw [Nat.or_comm, Nat.shiftLeft_eq, Nat.mul_comm,
      ← Nat.two_pow_add_eq_or_of_lt (by omega : gen < 2 ^ 16)]
  have low : (gen ||| (ci <<< 16)) &&& 0xFFFF = gen := by
    rw [packed, show (0xFFFF : Nat) = 2 ^ 16 - 1 from rfl, Nat.and_two_pow_sub_one_eq_mod]
    omega
  have high : (gen ||| (ci <<< 16)) >>> 16 = ci := by
    rw [packed, Nat.shiftRight_eq_div_pow]
    omega
  unfold clientFromHandle
  simp only [low, high]
  by_cases inside : ci < s.ncs <;> by_cases same : (s.cs ci).gen = gen <;> simp [inside, same]

/-- What the program relies on, where `ci` is the slot of the request and its handles
were invalidated `k` times since: the handle leads to the client until then, and nowhere
before the generations come round. -/
def HandleLeads (s : Server) (ci handle k : Nat) : Prop :=
  (k = 0 → clientFromHandle s handle = some ci) ∧
  (0 < k → k < 65535 → clientFromHandle s handle = none)

/-- The generation a slot had `k` invalidations ago differs from the current one. -/
private theorem generation_moved {n k : Nat} (some : 0 < k) (few : k < 65535) :
    (n + k) % 65535 ≠ n % 65535 := by
  omega

/-- A handle that `http_server_wait_request` returned is good, until its request is
completed or its client closed, exactly while its slot is below the number of
connections. From then on it is refused until its slot was invalidated 65535 times. -/
theorem handle_leads_iff {config : Config} {st : State} (reached : (system config).Reachable st)
    {before after : List Event} {ci handle : Nat} {head body : List UInt8}
    (issued : st.server.log = before ++ .delivered ci handle head body :: after) :
    HandleLeads st.server ci handle (invalidations (history ci after)) ↔
      (invalidations (history ci after) = 0 → ci < st.server.ncs) := by
  have bound : ci < config.maxClients :=
    (reachable_bounded reached).log (.delivered ci handle head body) (by simp [issued])
  have generations := reachable_generations reached bound
  have split : history ci st.server.log =
      history ci before ++ .delivered ci handle head body :: history ci after := by
    rw [issued, history_append]
    simp [history, Event.client]
  have current := generations.current
  rw [split, invalidations_append] at current
  have counted : invalidations (.delivered ci handle head body :: history ci after) =
      invalidations (history ci after) := rfl
  rw [counted] at current
  have lookup : clientFromHandle st.server handle =
      if ci < st.server.ncs ∧ (st.server.cs ci).gen = invalidations (history ci before) % 65535
      then some ci else none := by
    rw [generations.issued _ ci handle head body _ split]
    exact clientFromHandle_packed st.server ci (Nat.mod_lt _ (by decide))
  generalize invalidations (history ci after) = k at *
  rw [HandleLeads, lookup, current]
  constructor
  · rintro ⟨pending, -⟩ none
    have found := pending none
    by_contra outside
    simp [outside] at found
  · intro inside
    refine ⟨fun none => ?_, fun positive few => ?_⟩
    · simp [none, inside none]
    · simp [generation_moved positive few]

/-- Two clients connect, and the second one sends a request. -/
def secondRequests : List Action :=
  [.wait, inputOn 0 [.client 5, .client 6] .again,
    inputOn 2 [] (.data (ascii "GET / HTTP/1.1\r\n\r\n") .again), .round (fun _ => true)]

/-- An event of the log, with what came before it and after it. -/
private theorem event_at {log : List Event} {n : Nat} {e : Event} (found : log[n]? = some e) :
    log = log.take n ++ e :: log.drop (n + 1) := by
  obtain ⟨inside, rfl⟩ := List.getElem?_eq_some_iff.mp found
  rw [← List.drop_eq_getElem_cons inside, List.take_append_drop]

/-- While both clients are connected, the handle of the second one is good. -/
theorem handle_leads_while_dense : ∃ st before head body after,
    (system fourClients).Reachable st ∧
    st.server.log = before ++ .delivered 1 (1 <<< 16) head body :: after ∧ 1 < st.server.ncs ∧
    HandleLeads st.server 1 (1 <<< 16) (invalidations (history 1 after)) := by
  obtain ⟨st, reached, passed⟩ := start_reaches fourClients secondRequests
    (fun st => st.server.ncs = 2 && st.server.log[8]? =
      some (.delivered 1 (1 <<< 16) (ascii "GET / HTTP/1.1\r\n\r\n") [])) (by decide +kernel)
  simp only [Bool.and_eq_true, decide_eq_true_eq] at passed
  obtain ⟨two, found⟩ := passed
  have inside : 1 < st.server.ncs := by rw [two]; decide
  exact ⟨st, _, _, _, _, reached, event_at found, inside,
    (handle_leads_iff reached (event_at found)).mpr (fun _ => inside)⟩

/-- When the first client disconnects, one connection is left, and the handle of the
second client is refused although its request still waits for an answer. -/
theorem handle_lost_by_disconnect : ∃ st before head body after,
    (system fourClients).Reachable st ∧
    st.server.log = before ++ .delivered 1 (1 <<< 16) head body :: after ∧
    invalidations (history 1 after) = 0 ∧ (st.server.cs 1).state = .status ∧
    clientFromHandle st.server (1 <<< 16) = none := by
  obtain ⟨st, reached, passed⟩ := start_reaches fourClients
    (secondRequests ++ [.wait, inputOn 1 [] .closed])
    (fun st => st.server.log[8]? =
        some (.delivered 1 (1 <<< 16) (ascii "GET / HTTP/1.1\r\n\r\n") []) &&
      invalidations (history 1 (st.server.log.drop 9)) = 0 &&
      (st.server.cs 1).state = .status && clientFromHandle st.server (1 <<< 16) = none)
    (by decide +kernel)
  simp only [Bool.and_eq_true, decide_eq_true_eq] at passed
  obtain ⟨⟨⟨found, pending⟩, waits⟩, refused⟩ := passed
  exact ⟨st, _, _, _, _, reached, event_at found, pending, waits, refused⟩

end Mysnips.HttpServer

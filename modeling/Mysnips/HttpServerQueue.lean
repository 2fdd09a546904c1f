import Mathlib.Data.List.Nodup
import Mathlib.Data.List.Perm.Subperm
import Mysnips.HttpServerClients
import Mysnips.RingSlots

/-! The queue of clients that have a request head. The ring and the states agree as
long as no client is closed while it is queued: `remove_queued_client` leaves the
closed client in the ring. -/
namespace Mysnips.HttpServer
open HttpParse
open Memory (ascii)

/-- The clients in the ring, first one first. -/
def ring (max : Nat) (s : Server) : List Nat :=
  (List.range s.qused).map (fun k => s.qdata ((s.qhead + k) % max))

@[simp] theorem ring_length (max : Nat) (s : Server) : (ring max s).length = s.qused :=
  RingSlots.queue_length ..

theorem SameRing.ring {max : Nat} {s s' : Server} (same : SameRing s s') :
    HttpServer.ring max s' = HttpServer.ring max s := by
  simp only [HttpServer.ring, same.qhead, same.qused, same.qdata]

theorem PoppedRing.ring {max : Nat} {s s' : Server} (popped : PoppedRing max s s')
    (inside : s.qhead < max) :
    HttpServer.ring max s = s.qdata s.qhead :: HttpServer.ring max s' := by
  simp only [HttpServer.ring, popped.qhead, popped.qused, popped.qdata]
  exact RingSlots.queue_pop inside popped.nonempty

theorem PushedRing.ring {max ci : Nat} {s s' : Server} (pushed : PushedRing max ci s s') :
    HttpServer.ring max s' = HttpServer.ring max s ++ [ci] := by
  simp only [HttpServer.ring, pushed.qhead, pushed.qused, pushed.qdata]
  exact RingSlots.queue_push pushed.room (Function.update_self ..)
    fun _ other => Function.update_of_ne other ..

/-- The ring holds a queued client once, and any other client not at all. -/
def Lined (max ci : Nat) (s : Server) : Prop :=
  (ring max s).count ci = if (s.cs ci).state = .queued then 1 else 0

theorem Lined.same {max ci : Nat} {s s' : Server} (lined : Lined max ci s) (ring : SameRing s s')
    (state : (s'.cs ci).state = .queued ↔ (s.cs ci).state = .queued) : Lined max ci s' := by
  rw [Lined, ring.ring, lined]
  simp only [state]

theorem Lined.pushed {max ci cj : Nat} {s s' : Server} (lined : Lined max ci s)
    (ring : PushedRing max cj s s') (outside : (s.cs cj).state ≠ .queued)
    (inside : (s'.cs cj).state = .queued) (others : ∀ ck, ck ≠ cj → s'.cs ck = s.cs ck) :
    Lined max ci s' := by
  rw [Lined, ring.ring, List.count_append, lined]
  by_cases same : ci = cj
  · subst same
    simp [outside, inside]
  · rw [others ci same, List.count_singleton]
    simp [Ne.symm same]

theorem Lined.popped {max ci : Nat} {s s' : Server} (lined : Lined max ci s) (head : s.qhead < max)
    (ring : PoppedRing max s s') (outside : (s'.cs (s.qdata s.qhead)).state ≠ .queued)
    (others : ∀ cj, cj ≠ s.qdata s.qhead →
      ((s'.cs cj).state = .queued ↔ (s.cs cj).state = .queued)) :
    Lined max ci s' := by
  rw [Lined, ring.ring head, List.count_cons] at lined
  rw [Lined]
  by_cases same : ci = s.qdata s.qhead
  · subst same
    simp only [beq_self_eq_true, if_true] at lined
    rw [if_neg outside]
    split at lined <;> omega
  · simp only [beq_iff_eq, Ne.symm same, if_false, Nat.add_zero] at lined
    rw [lined]
    simp only [others ci same]

/-- A client at the front of the ring is queued. -/
theorem Lined.front {max ci : Nat} {s : Server} (lined : Lined max ci s) (head : s.qhead < max)
    (nonempty : 0 < s.qused) (first : s.qdata s.qhead = ci) : (s.cs ci).state = .queued := by
  have member : ci ∈ ring max s := by
    refine List.mem_map.mpr ⟨0, List.mem_range.mpr nonempty, ?_⟩
    rw [Nat.add_zero, Nat.mod_eq_of_lt head, first]
  have counted := List.count_pos_iff.mpr member
  rw [lined] at counted
  by_contra outside
  rw [if_neg outside] at counted
  cases counted

theorem Lined.micro {max ci : Nat} {s s' : Server} (lined : Lined max ci s)
    (bounded : Bounded max s) (spared : ∀ fd, .closed ci fd .queued ∉ s'.log)
    (step : Micro max s s') : Lined max ci s' := by
  cases step with
  | polled ps fds => exact lined.same ⟨rfl, rfl, rfl⟩ Iff.rfl
  | accepted room done =>
    have accepting := acceptClient_accepting done
    refine lined.same accepting.ring ?_
    by_cases same : ci = s.free (max - (s.ncs + 1))
    · rw [same, accepting.client, accepting.free]
      simp
    · rw [accepting.others ci same]
  | @changed _ cj events slot touch ring free queued step =>
    refine lined.same ring ?_
    by_cases same : ci = cj
    · rw [same, queued]
    · rw [touch.others ci same]
  | pushed slot touch ring connected outside inside step =>
    exact lined.pushed ring outside inside touch.others
  | popped touch ring connected outside step =>
    exact lined.popped bounded.qhead ring outside (fun cj other => by rw [touch.others cj other])
  | @closed _ _ cj drift slot lost done =>
    obtain ⟨pi, closing⟩ := closeClient_closing done
    refine lined.same (lost.ring.trans closing.ring) ?_
    rw [closing.state]
    by_cases same : ci = cj
    · subst same
      rw [if_pos rfl, ← lost.state]
      refine iff_of_false (by simp) (fun queued => spared (s.ps pi).fd ?_)
      rw [closing.log, queued, lost.touch.fds]
      exact List.mem_append_right _ List.mem_cons_self
    · rw [if_neg same, lost.touch.others ci same]
  | poppedClosed touch ring gen state done =>
    obtain ⟨pi, closing⟩ := closeClient_closing done
    have ring' : PoppedRing max s s' := ⟨ring.nonempty, by rw [closing.ring.qhead, ring.qhead],
      by rw [closing.ring.qused, ring.qused], by rw [closing.ring.qdata, ring.qdata]⟩
    refine lined.popped bounded.qhead ring' ?_ (fun cj other => ?_)
    · rw [closing.state, if_pos rfl]
      simp
    · rw [closing.state, if_neg other, touch.others cj other]

/-! ## Runs -/

/-- A step that pops a client records the state in which it found it. -/
theorem ClientStep.popped_state {ci cj : Nat} {c c' : Client} {events : List Event}
    {state : ClientState} (step : ClientStep ci c events c') (event : .popped cj state ∈ events) :
    state = c.state := by
  cases step with
  | freed _ drift fd loss =>
    rcases List.mem_append.mp event with transfer | last
    · exact absurd (loss.transfers _ transfer) (by simp [Event.isTransfer])
    · simp at last
  | poppedFreed | refused | deferred | delivered =>
    simp only [List.mem_cons, Event.popped.injEq, reduceCtorEq, List.not_mem_nil, or_false] at event
    exact event.2
  | _ => simp at event

/-- When the client was popped, it was queued. -/
def Pops (ci : Nat) (log : List Event) : Prop := ∀ state, .popped ci state ∈ log → state = .queued

theorem Pops.micro {max ci : Nat} {s s' : Server} (pops : Pops ci s.log) (lined : Lined max ci s)
    (bounded : Bounded max s) (step : Micro max s s') : Pops ci s'.log := by
  have added : ∀ {events : List Event}, s'.log = s.log ++ events → Pops ci events →
      Pops ci s'.log := by
    intro events log new state event
    rw [log] at event
    exact (List.mem_append.mp event).elim (pops state) (new state)
  cases step with
  | polled ps fds => exact pops
  | accepted room done =>
    exact added (acceptClient_accepting done).log (by simp [Pops])
  | changed slot touch ring free queued step stays
  | pushed slot touch ring connected outside inside step stays =>
    exact added touch.log (fun state event => by simpa [Event.isPop] using stays _ event)
  | popped touch ring connected outside step =>
    refine added touch.log (fun state event => ?_)
    have own := touch.own _ event
    rw [step.popped_state event, ← own]
    exact lined.front bounded.qhead ring.nonempty own.symm
  | closed slot lost done =>
    obtain ⟨pi, closing⟩ := closeClient_closing done
    have log := closing.log
    rw [lost.touch.log, List.append_assoc] at log
    refine added log (fun state event => ?_)
    rcases List.mem_append.mp event with transfer | last
    · exact absurd (lost.loss.transfers _ transfer) (by simp [Event.isTransfer])
    · simp at last
  | poppedClosed touch ring gen state done =>
    obtain ⟨pi, closing⟩ := closeClient_closing done
    have log := closing.log
    rw [touch.log, List.append_assoc] at log
    refine added log (fun state event => ?_)
    simp only [List.cons_append, List.nil_append, List.mem_cons, Event.popped.injEq, reduceCtorEq,
      List.not_mem_nil, or_false] at event
    obtain ⟨own, rfl⟩ := event
    rw [← own]
    exact lined.front bounded.qhead ring.nonempty own.symm

/-- A client that is never closed while it is queued is in the ring exactly while it is
queued, and popped from there. -/
theorem reachable_lined {config : Config} {st : State} {ci : Nat}
    (reached : (system config).Reachable st) (bound : ci < config.maxClients)
    (spared : ∀ fd, .closed ci fd .queued ∉ st.server.log) :
    Lined config.maxClients ci st.server ∧ Pops ci st.server.log := by
  have run : Bounded config.maxClients st.server ∧ Lined config.maxClients ci st.server ∧
      Pops ci st.server.log := by
    refine reachable_invariant (P := fun s => Bounded config.maxClients s ∧
      Lined config.maxClients ci s ∧ Pops ci s.log) (fun e => ∀ fd, e ≠ .closed ci fd .queued)
      (fun st begun => ?_) ?_ reached (fun e event fd same => spared fd (same ▸ event))
    · refine ⟨begun.bounded, ?_, by simp [Pops, begun.log]⟩
      simp [Lined, ring, begun.qused, (begun.clients ci bound).1]
    · rintro s s' clean ⟨bounded, lined, pops⟩ step
      have spared : ∀ fd, .closed ci fd .queued ∉ s'.log := fun fd event => clean _ event fd rfl
      exact ⟨bounded.micro step, lined.micro bounded spared step, pops.micro lined bounded step⟩
  exact run.2

/-- A queued client has the head of a request. -/
theorem reachable_head {config : Config} {st : State} {ci : Nat}
    (reached : (system config).Reachable st) (bound : ci < config.maxClients)
    (queued : (st.server.cs ci).state = .queued) :
    (find (st.server.cs ci).input.bytes headEnd).isSome := by
  refine reachable_client
    (P := fun c _ => c.state = .queued → (find c.input.bytes headEnd).isSome) (fun _ => True) bound
    (fun c free _ queued => by simp [free] at queued) ?_ reached (fun _ _ => trivial) queued
  intro c past events c' _ head step queued
  cases step with
  | received input bytes grown waits =>
    obtain ⟨i, found⟩ := Option.isSome_iff_exists.mp (head queued)
    simp [grown, find_append bytes found]
  | queued input bytes grown idle found => exact found
  | completed input output state keepalive was short stored inside left afterwards =>
    cases afterwards with
    | queued keeps found => exact found
    | idle => cases queued
    | close => cases queued
  | freed _ drift fd loss state | poppedFreed _ fd state => simp [state] at queued
  | status _ _ was | header _ _ was | noted _ was | special _ _ was | content _ _ was =>
    simp_all
  | accepted | refused | deferred | delivered => cases queued
  | serviced | moved | sent => exact head queued

/-- Every client in the ring is in it once. -/
theorem ring_nodup {max : Nat} {s : Server} (bounded : Bounded max s)
    (lined : ∀ ci < max, Lined max ci s) : (ring max s).Nodup := by
  refine List.nodup_iff_count_le_one.mpr (fun ci => ?_)
  by_cases member : ci ∈ ring max s
  · obtain ⟨k, inside, rfl⟩ := List.mem_map.mp member
    rw [lined _ (bounded.queued k (List.mem_range.mp inside))]
    split <;> omega
  · rw [List.count_eq_zero_of_not_mem member]
    omega

theorem Lined.mem_ring {max ci : Nat} {s : Server} (lined : Lined max ci s) :
    ci ∈ ring max s ↔ (s.cs ci).state = .queued := by
  rw [← List.count_pos_iff, lined]
  by_cases queued : (s.cs ci).state = .queued <;> simp [queued]

/-- There is room for every client that is not queued yet. -/
theorem ring_room {max ci : Nat} {s : Server} (bounded : Bounded max s)
    (lined : ∀ ci < max, Lined max ci s) (bound : ci < max)
    (outside : (s.cs ci).state ≠ .queued) : s.qused < max := by
  have absent : ci ∉ ring max s := mt (lined ci bound).mem_ring.mp outside
  have members : ci :: ring max s ⊆ List.range max := by
    intro cj member
    rcases List.mem_cons.mp member with rfl | present
    · exact List.mem_range.mpr bound
    · obtain ⟨k, inside, rfl⟩ := List.mem_map.mp present
      exact List.mem_range.mpr (bounded.queued k (List.mem_range.mp inside))
  have distinct := List.nodup_cons.mpr ⟨absent, ring_nodup bounded lined⟩
  have fits := (List.Nodup.subperm distinct members).length_le
  rw [List.length_cons, ring_length, List.length_range] at fits
  exact fits

/-- In a run in which no client is closed while it is queued, the ring holds the queued
clients, each of them once. So a popped client is connected and has the head of a
request, and there is always room for one that is not in the ring. -/
theorem queue_exact_while_spared {config : Config} {st : State}
    (reached : (system config).Reachable st)
    (spared : ∀ ci fd, .closed ci fd .queued ∉ st.server.log) :
    (ring config.maxClients st.server).Nodup ∧
      (∀ ci < config.maxClients,
        ci ∈ ring config.maxClients st.server ↔ (st.server.cs ci).state = .queued) ∧
      st.server.qused ≤ config.maxClients ∧
      (∀ s ci, popClient config.maxClients st.server = .ok (s, ci) →
        ci < config.maxClients ∧ (st.server.cs ci).state = .queued) ∧
      (∀ alloc, waitRound config.maxClients alloc st.server ≠ .error .noHeadEnd) ∧
      ∀ ci < config.maxClients, (st.server.cs ci).state ≠ .queued →
        pushClient config.maxClients st.server ci ≠ .error .queueFull := by
  have bounded := reachable_bounded reached
  have lined : ∀ ci < config.maxClients, Lined config.maxClients ci st.server :=
    fun ci bound => (reachable_lined reached bound (spared ci)).1
  refine ⟨ring_nodup bounded lined, fun ci bound => (lined ci bound).mem_ring, bounded.qused,
    ?_, ?_, ?_⟩
  · intro s ci popped
    unfold popClient at popped
    split at popped
    · rename_i nonempty
      cases popped
      exact ⟨bounded.front nonempty,
        (lined _ (bounded.front nonempty)).front bounded.qhead nonempty rfl⟩
    · cases popped
  · intro alloc stopped
    obtain ⟨nonempty, missing⟩ := waitRound_noHeadEnd stopped
    have front := bounded.front nonempty
    have head := reachable_head reached front ((lined _ front).front bounded.qhead nonempty rfl)
    simp [missing] at head
  · intro ci bound outside full
    unfold pushClient at full
    rw [if_pos (ring_room bounded lined bound outside)] at full
    cases full

/-- A client that sent a request waits in the ring. -/
theorem queue_exact_at_request : ∃ st, (system fourClients).Reachable st ∧
    st.server.qused = 1 ∧ (st.server.cs 0).state = .queued ∧ 0 ∈ ring 4 st.server := by
  obtain ⟨st, reached, passed⟩ := start_reaches fourClients
    [.wait, inputOn 0 [.client 5] .again,
      inputOn 1 [] (.data (ascii "GET / HTTP/1.1\r\n\r\n") .again)]
    (fun st => st.server.qused = 1 && (st.server.cs 0).state = .queued &&
      st.server.log.all (fun | .closed _ _ .queued => false | _ => true)) (by decide +kernel)
  simp only [Bool.and_eq_true, decide_eq_true_eq, List.all_eq_true] at passed
  obtain ⟨⟨one, queued⟩, spared⟩ := passed
  obtain ⟨-, exact, -⟩ := queue_exact_while_spared reached
    (fun ci fd event => by simpa using spared _ event)
  exact ⟨st, reached, one, queued, (exact 0 (by decide)).mpr queued⟩

/-- A client whose answer is not yet sent receives its next request, is queued, and then
closed because sending fails: it stays in the ring, and the next round stops at its
assertion. -/
theorem closed_client_stays_queued : ∃ st, (system fourClients).Reachable st ∧
    ring 4 st.server = [0] ∧ (st.server.cs 0).state = .free ∧
    waitRound 4 (fun _ => true) st.server = .error .noHeadEnd := by
  obtain ⟨st, reached, passed⟩ := start_reaches fourClients
    (answered ++ [.wait, .processIo
      { poll := some (fun i => ⟨i = 1, i = 1⟩)
        recvs := fun _ => .data (ascii "GET / HTTP/1.1\r\n\r\n") .again
        sends := fun _ => .error }])
    (fun st => ring 4 st.server = [0] && (st.server.cs 0).state = .free &&
      match waitRound 4 (fun _ => true) st.server with
      | .error fault => fault = .noHeadEnd
      | .ok _ => false) (by decide +kernel)
  simp only [Bool.and_eq_true, decide_eq_true_eq] at passed
  obtain ⟨⟨stale, free⟩, stopped⟩ := passed
  refine ⟨st, reached, stale, free, ?_⟩
  split at stopped
  · rename_i fault stops
    rw [stops, of_decide_eq_true stopped]
  · cases stopped

end Mysnips.HttpServer

import Mathlib.Algebra.BigOperators.Group.Finset.Piecewise
import Mathlib.Algebra.Order.BigOperators.Group.Finset
import Mysnips.TcpSteps

/-! The number of clients of a server. `tcp_server_poll` adds one to `count` for every
connection, and nothing takes one off when a client is freed: `count` is the number of
the clients that are there and of those that were freed. -/
namespace Mysnips.Tcp
open Transition

/-- What a client structure adds to `count`: its present client, and those it had before. -/
def Client.served (client : Client) : Nat :=
  (if client.state = .free then 0 else 1) + client.turn

/-- The clients that the array of a server has served. -/
def served (s : State) (sdx : Nat) : Nat :=
  ∑ slot ∈ Finset.range (s.servers sdx).capacity, (s.clients ⟨some sdx, slot⟩).served

/-- The clients of a server that are not free. -/
def occupied (s : State) (sdx : Nat) : Nat :=
  ((Finset.range (s.servers sdx).capacity).filter
    fun slot => (s.clients ⟨some sdx, slot⟩).state ≠ .free).card

/-- No client of a server has been freed since the server was created. -/
def NoneFreed (s : State) (sdx : Nat) : Prop :=
  ∀ slot < (s.servers sdx).capacity, (s.clients ⟨some sdx, slot⟩).turn = 0

/-- The counts of the servers. -/
def Counted (s : State) : Prop :=
  ∀ sdx, (s.servers sdx).state = .used → (s.servers sdx).count = served s sdx

theorem served_eq {s s' : State} {sdx : Nat}
    (capacity : (s'.servers sdx).capacity = (s.servers sdx).capacity)
    (same : ∀ slot < (s.servers sdx).capacity,
      (s'.clients ⟨some sdx, slot⟩).served = (s.clients ⟨some sdx, slot⟩).served) :
    served s' sdx = served s sdx := by
  rw [served, served, capacity]
  exact Finset.sum_congr rfl fun slot member => same slot (Finset.mem_range.mp member)

/-- A client structure that has served as many clients as before. -/
theorem served_setClient {s : State} {ref : Ref} {client : Client} {sdx : Nat}
    (same : client.served = (s.clients ref).served) :
    served (s.setClient ref client) sdx = served s sdx := by
  refine served_eq rfl fun slot _ => ?_
  by_cases here : (⟨some sdx, slot⟩ : Ref) = ref
  · rw [here, setClient_self, same]
  · rw [setClient_ne here]

/-- A client structure of a server that serves one more. -/
theorem served_opened {s : State} {sdx slot : Nat} {client : Client}
    (inside : slot < (s.servers sdx).capacity)
    (more : client.served = (s.clients ⟨some sdx, slot⟩).served + 1) :
    served (s.setClient ⟨some sdx, slot⟩ client) sdx = served s sdx + 1 := by
  have member : slot ∈ Finset.range (s.servers sdx).capacity := Finset.mem_range.mpr inside
  have others : ∑ other ∈ (Finset.range (s.servers sdx).capacity).erase slot,
        ((s.setClient ⟨some sdx, slot⟩ client).clients ⟨some sdx, other⟩).served =
      ∑ other ∈ (Finset.range (s.servers sdx).capacity).erase slot,
        (s.clients ⟨some sdx, other⟩).served := by
    apply Finset.sum_congr rfl
    intro other listed
    rw [setClient_ne]
    rintro same
    cases same
    exact Finset.ne_of_mem_erase listed rfl
  rw [served, served, setClient_servers, ← Finset.add_sum_erase _ _ member, others, setClient_self,
    more, ← Finset.add_sum_erase _ _ member]
  omega

theorem served_other {s : State} {ref : Ref} {client : Client} {sdx : Nat}
    (other : ref.server ≠ some sdx) : served (s.setClient ref client) sdx = served s sdx := by
  refine served_eq rfl fun slot _ => ?_
  rw [setClient_ne]
  rintro rfl
  exact other rfl

/-- A server whose count and array are as they were. -/
theorem Counted.of_same {s s' : State} (counted : Counted s)
    (servers : ∀ sdx, (s'.servers sdx).state = .used → (s.servers sdx).state = .used ∧
      (s'.servers sdx).count = (s.servers sdx).count)
    (same : ∀ sdx, (s'.servers sdx).state = .used → served s' sdx = served s sdx) :
    Counted s' := by
  intro sdx used
  obtain ⟨before, count⟩ := servers sdx used
  rw [count, same sdx used]
  exact counted sdx before

/-- A connection that is accepted is counted. -/
private theorem Counted.accepted {s : State} {sdx slot : Nat} {client : Client} (counted : Counted s)
    (used : (s.servers sdx).state = .used) (inside : slot < (s.servers sdx).capacity)
    (free : (s.clients ⟨some sdx, slot⟩).state = .free) (state : client.state = .used)
    (turn : client.turn = (s.clients ⟨some sdx, slot⟩).turn) :
    Counted (((s.setClient ⟨some sdx, slot⟩ client).record (.opened ⟨some sdx, slot⟩)).setServer
      sdx { s.servers sdx with count := (s.servers sdx).count + 1 }) := by
  have more : client.served = (s.clients ⟨some sdx, slot⟩).served + 1 := by
    rw [Client.served, Client.served, state, free, turn]
    simp [Nat.add_comm]
  intro other otherUsed
  by_cases here : other = sdx
  · subst here
    rw [setServer_self]
    show (s.servers other).count + 1 = _
    have after : served (((s.setClient ⟨some other, slot⟩ client).record
        (.opened ⟨some other, slot⟩)).setServer other
        { s.servers other with count := (s.servers other).count + 1 }) other =
        served (s.setClient ⟨some other, slot⟩ client) other :=
      served_eq (by rw [setServer_self]; rfl) fun _ _ => rfl
    rw [after, served_opened inside more, counted other used]
  · rw [setServer_ne here] at otherUsed ⊢
    refine (counted other otherUsed).trans (served_eq ?_ fun slot' _ => ?_).symm
    · rw [setServer_ne here]
      rfl
    · rw [setServer_clients, record_clients, setClient_ne]
      rintro same
      cases same
      exact here rfl

/-- A new server counts nothing and has no clients. -/
private theorem Counted.created {s s' : State} {sdx : Nat} (counted : Counted s)
    (creates : Creates s s' sdx) : Counted s' := by
  intro other used
  by_cases here : other = sdx
  · rw [here, creates.count, served]
    symm
    apply Finset.sum_eq_zero
    intro slot _
    obtain ⟨state, -, turn⟩ := creates.fresh ⟨some sdx, slot⟩ rfl
    simp [Client.served, state, turn]
  · rw [creates.others other here] at used ⊢
    refine (counted other used).trans (served_eq ?_ fun slot _ => ?_).symm
    · rw [creates.others other here]
    · rw [creates.clients]
      intro same
      exact here (Option.some.inj same)

theorem Counted.micro {s s' : State} (counted : Counted s) (step : Micro s s') : Counted s' := by
  cases step with
  | touch ref client state gen turn =>
    refine counted.of_same (fun _ used => ⟨used, rfl⟩) fun sdx _ => served_setClient ?_
    rw [Client.served, Client.served, state, turn]
  | ring sdx server state count capacity life =>
    have servers : ∀ other, ((s.setServer sdx server).servers other).state =
        (s.servers other).state ∧ ((s.setServer sdx server).servers other).count =
        (s.servers other).count ∧ ((s.setServer sdx server).servers other).capacity =
        (s.servers other).capacity := by
      intro other
      by_cases here : other = sdx
      · rw [here, setServer_self]
        exact ⟨state, count, capacity⟩
      · rw [setServer_ne here]
        exact ⟨rfl, rfl, rfl⟩
    refine counted.of_same (fun other used => ?_) fun other _ => served_eq (servers other).2.2 fun _ _ => rfl
    exact ⟨(servers other).1.symm.trans used, (servers other).2.1⟩
  | issue ref handle inUse packed => exact counted
  | push ref type => exact counted
  | hangUp ref inUse =>
    refine counted.of_same (fun _ used => ⟨used, rfl⟩) fun sdx _ => served_setClient ?_
    simp [Client.served, inUse.used]
  | close ref inUse =>
    refine counted.of_same (fun _ used => ⟨used, rfl⟩) fun sdx _ => served_setClient ?_
    simp [Client.served, inUse.used]
  | free ref inUse =>
    refine counted.of_same (fun _ used => ⟨used, rfl⟩) fun sdx _ => served_setClient ?_
    simp [Client.served, inUse.used, Nat.add_comm]
  | accept sdx slot client used inside free state gen turn =>
    exact counted.accepted used inside free state turn
  | connect slot client inside free state gen turn =>
    exact counted.of_same (fun _ used => ⟨used, rfl⟩) fun sdx _ => served_other nofun
  | create fd maxClients _ handle ran =>
    obtain ⟨sdx, creates⟩ := serverCreate_spec ran
    exact counted.created creates
  | delete sdx =>
    intro other used
    by_cases here : other = sdx
    · simp [serverDelete, here] at used
    · have same : (serverDelete s sdx).servers other = s.servers other := setServer_ne here
      have after : served (serverDelete s sdx) other = served s other :=
        served_eq (by rw [same]) fun _ _ => rfl
      rw [same] at used ⊢
      rw [after]
      exact counted other used

theorem reachable_counted {s : State} (reached : calls.Reachable s) : Counted s := by
  refine reachable_micro reached (fun s begins sdx used => ?_) fun _ _ counted step => counted.micro step
  rw [begins.1 sdx] at used
  cases used

/-- The clients that are there, and those that were there. -/
theorem served_split (s : State) (sdx : Nat) : served s sdx = occupied s sdx +
    ∑ slot ∈ Finset.range (s.servers sdx).capacity, (s.clients ⟨some sdx, slot⟩).turn := by
  unfold served Client.served occupied
  rw [Finset.sum_add_distrib, Finset.card_filter]
  congr 1
  apply Finset.sum_congr rfl
  intro slot _
  by_cases free : (s.clients ⟨some sdx, slot⟩).state = .free
  · simp [free]
  · simp [free]

/-- Not all clients are there exactly when a slot is free. -/
theorem occupied_lt_iff (s : State) (sdx : Nat) :
    occupied s sdx < (s.servers sdx).capacity ↔ (freeSlot s sdx).isSome := by
  have all := Finset.card_filter_eq_iff (s := Finset.range (s.servers sdx).capacity)
    (p := fun slot => (s.clients ⟨some sdx, slot⟩).state ≠ .free)
  have bound := Finset.card_filter_le (Finset.range (s.servers sdx).capacity)
    fun slot => (s.clients ⟨some sdx, slot⟩).state ≠ .free
  rw [Finset.card_range] at all bound
  rw [occupied, Nat.lt_iff_le_and_ne, ne_eq, all, freeSlot, List.find?_isSome]
  simp [bound, Finset.mem_range]

/-- `count` is the number of the clients of a server exactly as long as none of them has been
freed; until then the server accepts connections whenever a slot is free. -/
theorem count_exact_iff_none_freed {s : State} {sdx : Nat} (reached : calls.Reachable s)
    (used : (s.servers sdx).state = .used) :
    ((s.servers sdx).count = occupied s sdx ↔ NoneFreed s sdx) ∧
      (NoneFreed s sdx →
        ((s.servers sdx).count < (s.servers sdx).capacity ↔ (freeSlot s sdx).isSome)) := by
  have count := (reachable_counted reached sdx used).trans (served_split s sdx)
  have exact_iff : (s.servers sdx).count = occupied s sdx ↔ NoneFreed s sdx := by
    rw [count, Nat.add_eq_left, Finset.sum_eq_zero_iff]
    simp [NoneFreed]
  refine ⟨exact_iff, fun none => ?_⟩
  rw [exact_iff.mpr none]
  exact occupied_lt_iff s sdx

/-- The arrays before the first call. -/
def zeroed : State :=
  ⟨fun _ => ⟨.free, 0, 0, 0, 0, 0, 0, [], 0⟩,
    fun _ => ⟨.free, false, false, 0, 0, ByteQueue.init, ByteQueue.init, 0⟩, []⟩

theorem zeroed_initial : calls.initial zeroed := ⟨fun _ => rfl, fun _ => rfl, rfl⟩

/-- A poll that finds one connection. -/
def oneConnection : Polled := ⟨true, [.accepted 5 true, .wouldBlock], fun _ => ⟨false, false, false, [], 0, []⟩⟩

/-- A server for two clients that has accepted one. -/
theorem count_exact_iff_none_freed_applies : ∃ s, calls.Reachable s ∧ NoneFreed s 0 ∧
    (s.servers 0).count = 1 ∧ (s.servers 0).count = occupied s 0 := by
  have begun : calls.Reachable zeroed := .start zeroed_initial
  obtain ⟨s, reached, checked⟩ := begun.replay_check
    [.serverCreate 3 2, .serverPoll 0x80000000 oneConnection]
    (fun s => (s.servers 0).state = .used && (s.servers 0).count = 1 && (s.servers 0).capacity = 2 &&
      (s.clients ⟨some 0, 0⟩).turn = 0 && (s.clients ⟨some 0, 1⟩).turn = 0) (by decide)
  simp only [Bool.and_eq_true, decide_eq_true_eq] at checked
  obtain ⟨⟨⟨⟨used, count⟩, capacity⟩, first⟩, second⟩ := checked
  have none : NoneFreed s 0 := by
    intro slot inside
    rw [capacity] at inside
    match slot, inside with
    | 0, _ => exact first
    | 1, _ => exact second
  exact ⟨s, reached, none, count, (count_exact_iff_none_freed reached used).1.mpr none⟩

/-- A server for one client accepts no other one after that client was closed and freed. -/
theorem closed_client_stays_counted : ∃ s, calls.Reachable s ∧ (s.servers 0).state = .used ∧
    (s.servers 0).capacity = 1 ∧ freeSlot s 0 = some 0 ∧ (s.servers 0).count = 1 ∧
    occupied s 0 = 0 ∧ ¬ (s.servers 0).count = occupied s 0 := by
  have begun : calls.Reachable zeroed := .start zeroed_initial
  obtain ⟨s, reached, checked⟩ := begun.replay_check
    [.serverCreate 3 1, .serverPoll 0x80000000 oneConnection, .clientClose 0x08000002]
    (fun s => (s.servers 0).state = .used && (s.servers 0).capacity = 1 && freeSlot s 0 = some 0 &&
      (s.servers 0).count = 1 && occupied s 0 = 0) (by decide)
  simp only [Bool.and_eq_true, decide_eq_true_eq] at checked
  obtain ⟨⟨⟨⟨used, capacity⟩, free⟩, count⟩, empty⟩ := checked
  refine ⟨s, reached, used, capacity, free, count, empty, ?_⟩
  rw [count, empty]
  decide

end Mysnips.Tcp

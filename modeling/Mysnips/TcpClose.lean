import Mysnips.ByteQueueFifo
import Mysnips.TcpOccupancy

/-! Closed clients. After `tcp_client_close` a client of a server that still has output is
flushed and then freed, and nothing should be heard of it. The input part of
`tcp_server_poll` skips only free clients, so that it reads from a closed one as well. -/
namespace Mysnips.Tcp
open Transition

/-- Whether a client has been closed and not freed since. -/
def closed (ref : Ref) (log : List Record) : Bool :=
  log.foldl (fun before entry =>
    match entry with
    | .closing other => before || decide (other = ref)
    | .freed other => before && decide (other ≠ ref)
    | .deleted sdx => before && decide (ref.server ≠ some sdx)
    | _ => before) false

/-- An entry that a closed client must not have. -/
def Record.Disturbs (ref : Ref) : Record → Prop
  | .pushed other _ => other = ref
  | .hungUp other => other = ref
  | _ => False

/-- A close is final: no event is pushed for a closed client, and it does not hang up; until
it is freed it is in the state `TCP_CLIENT_CLOSE`. -/
structure CloseFinal (s : State) : Prop where
  quiet : ∀ before entry after, s.log = before ++ entry :: after →
    ∀ ref, entry.Disturbs ref → closed ref before = false
  state : ∀ ref, closed ref s.log = true → (s.clients ref).state = .close

/-- Where a server is polled, nothing comes in at its closed clients. -/
def QuietPoll (s : State) : Action → Prop
  | .serverPoll handle polled => ∀ sdx ∈ resolveServer s handle,
    ∀ slot < (s.servers sdx).capacity, (s.clients ⟨some sdx, slot⟩).state = .close →
      Silent (s.clients ⟨some sdx, slot⟩) (polled.traffic slot)
  | _ => True

instance (client : Client) (traffic : Traffic) : Decidable (Silent client traffic) :=
  decidable_of_iff (traffic.pollin = true ∨ traffic.pollhup = true →
    (clientInput client traffic).any (fun came => came.2.1 = .ok ∧ came.2.2 = 0) = true) (by
    refine imp_congr_right fun _ => ?_
    simp [Option.any_eq_true])

instance (s : State) : (action : Action) → Decidable (QuietPoll s action)
  | .serverPoll handle polled => inferInstanceAs (Decidable (∀ sdx ∈ resolveServer s handle,
    ∀ slot < (s.servers sdx).capacity, (s.clients ⟨some sdx, slot⟩).state = .close →
      Silent (s.clients ⟨some sdx, slot⟩) (polled.traffic slot)))
  | .serverCreate _ _ | .serverDelete _ | .serverEvent _ | .clientCreate _ | .clientPoll _ _
  | .clientEvent _ | .clientClose _ | .clientRead _ _ | .clientWrite _ _ _ => isTrue trivial

/-! ## What the log says -/

section Log

variable {ref other : Ref} {log new : List Record} {entry : Record}

theorem closed_mild (mild : ∀ entry ∈ new, entry.Mild other) :
    closed ref (log ++ new) = closed ref log := by
  unfold closed
  rw [List.foldl_append]
  generalize List.foldl _ false log = before
  induction new generalizing before with
  | nil => rfl
  | cons entry rest ih =>
    obtain ⟨first, left⟩ := List.forall_mem_cons.mp mild
    rw [List.foldl_cons]
    cases entry with
    | opened | issued | pushed | hungUp => exact ih left before
    | closing | freed | deleted => cases first

theorem closed_closing : closed ref (log ++ [.closing other]) =
    (closed ref log || decide (other = ref)) := by simp [closed]

theorem closed_freed : closed ref (log ++ [.freed other]) =
    (closed ref log && decide (other ≠ ref)) := by simp [closed]

theorem closed_deleted {sdx : Nat} : closed ref (log ++ [.deleted sdx]) =
    (closed ref log && decide (ref.server ≠ some sdx)) := by simp [closed]

/-- A log in which no closed client is disturbed. -/
def Undisturbed (log : List Record) : Prop :=
  ∀ before entry after, log = before ++ entry :: after →
    ∀ ref, entry.Disturbs ref → closed ref before = false

theorem Undisturbed.shorter (undisturbed : Undisturbed (log ++ new)) : Undisturbed log := by
  intro before entry after split
  apply undisturbed before entry (after ++ new)
  rw [split, List.append_assoc, List.cons_append]

/-- Entries that disturb no closed client. -/
theorem Undisturbed.longer (undisturbed : Undisturbed log)
    (calm : ∀ before entry after, new = before ++ entry :: after →
      ∀ ref, entry.Disturbs ref → closed ref (log ++ before) = false) : Undisturbed (log ++ new) := by
  intro before entry after split ref disturbs
  rcases append_eq_append_cons split with ⟨rest, old, -⟩ | ⟨middle, rfl, later⟩
  · exact undisturbed before entry rest old ref disturbs
  · exact calm middle entry after later ref disturbs

/-- An entry about a closed client. -/
theorem Undisturbed.not_closed (undisturbed : Undisturbed (log ++ new))
    (mild : ∀ entry ∈ new, entry.Mild ref) (member : entry ∈ new) (disturbs : entry.Disturbs ref) :
    closed ref log = false := by
  obtain ⟨before, after, rfl⟩ := List.append_of_mem member
  have here := undisturbed (log ++ before) entry after (List.append_assoc ..).symm ref disturbs
  rwa [closed_mild fun entry earlier => mild entry (List.mem_append_left _ earlier)] at here

theorem Record.Mild.disturbed (mild : entry.Mild ref) (disturbs : entry.Disturbs other) :
    other = ref := by
  cases entry with
  | pushed => exact disturbs.symm.trans mild
  | hungUp => exact disturbs.symm.trans mild
  | opened | issued | closing | freed | deleted => cases disturbs

end Log

/-! ## The invariant -/

/-- The closed clients are those whose state says so, in the arrays of the servers. -/
structure Closings (s : State) : Prop where
  quiet : Undisturbed s.log
  state : ∀ ref, closed ref s.log = true → (s.clients ref).state = .close
  owned : ∀ ref, closed ref s.log = true →
    ∃ sdx, ref.server = some sdx ∧ (s.servers sdx).state = .used
  marked : ∀ ref sdx, ref.server = some sdx → (s.servers sdx).state = .used →
    (s.clients ref).state = .close → closed ref s.log = true

theorem Closings.final {s : State} (closings : Closings s) : CloseFinal s :=
  ⟨closings.quiet, closings.state⟩

/-- A stand-alone client can be serviced, and one of a server that is not closed. -/
theorem Closings.serviced {s s' : State} {ref : Ref} {new : List Record} (closings : Closings s)
    (serviced : Serviced s s' ref new)
    (notClosed : ∀ sdx, ref.server = some sdx → (s.clients ref).state ≠ .close) :
    Closings s' := by
  have false_ : closed ref s.log = false := by
    by_contra true_
    have marked : closed ref s.log = true := by simpa using true_
    obtain ⟨sdx, server, -⟩ := closings.owned ref marked
    exact notClosed sdx server (closings.state ref marked)
  have same : ∀ other, closed other s'.log = closed other s.log := fun other => by
    rw [serviced.log, closed_mild serviced.mild]
  refine ⟨?_, fun other marked => ?_, fun other marked => ?_, fun other sdx server used close => ?_⟩
  · rw [serviced.log]
    refine closings.quiet.longer fun before entry after split other disturbs => ?_
    have member : entry ∈ new := by simp [split]
    rw [(serviced.mild entry member).disturbed disturbs, closed_mild, false_]
    intro earlier listed
    exact serviced.mild earlier (by simp [split, listed])
  · rw [same] at marked
    rw [serviced.others other]
    · exact closings.state other marked
    · rintro rfl
      cases false_.symm.trans marked
  · rw [same] at marked
    obtain ⟨sdx, server, used⟩ := closings.owned other marked
    exact ⟨sdx, server, (serviced.servers sdx).1.trans used⟩
  · rw [same]
    by_cases here : other = ref
    · rw [here] at close server
      exact absurd close (serviced.unclosed (notClosed sdx server))
    · rw [serviced.others other here] at close
      exact closings.marked other sdx server ((serviced.servers sdx).1.symm.trans used) close

/-- A client that leaves no entry. -/
theorem Closings.calm {s s' : State} {ref : Ref} (closings : Closings s)
    (serviced : Serviced s s' ref []) : Closings s' := by
  have log : s'.log = s.log := by rw [serviced.log, List.append_nil]
  have states : ∀ other, (s'.clients other).state = (s.clients other).state := by
    intro other
    by_cases here : other = ref
    · rw [here, serviced.still rfl]
    · rw [serviced.others other here]
  refine ⟨log ▸ closings.quiet, fun other marked => ?_, fun other marked => ?_,
    fun other sdx server used close => ?_⟩
  · rw [states]
    exact closings.state other (log ▸ marked)
  · obtain ⟨sdx, server, used⟩ := closings.owned other (log ▸ marked)
    exact ⟨sdx, server, (serviced.servers sdx).1.trans used⟩
  · rw [log]
    rw [states] at close
    exact closings.marked other sdx server ((serviced.servers sdx).1.symm.trans used) close

/-- Entries that disturb nobody. -/
theorem Undisturbed.plain {log : List Record} {entry : Record} (undisturbed : Undisturbed log)
    (plain : ∀ ref, ¬ entry.Disturbs ref) : Undisturbed (log ++ [entry]) := by
  refine undisturbed.longer fun before other after split ref disturbs => ?_
  obtain ⟨rfl, rfl, -⟩ : before = [] ∧ entry = other ∧ [] = after := by
    cases before with
    | nil => exact ⟨rfl, (List.cons.inj split).1, (List.cons.inj split).2⟩
    | cons => simp at split
  exact absurd disturbs (plain ref)

theorem Closings.freed {s : State} {ref : Ref} (closings : Closings s) :
    Closings (freeClient s ref) := by
  refine ⟨closings.quiet.plain fun _ => id, fun other marked => ?_, fun other marked => ?_,
    fun other sdx server used close => ?_⟩
  · simp only [freeClient, record_log, setClient_log, closed_freed, Bool.and_eq_true,
      decide_eq_true_eq] at marked
    rw [freeClient, record_clients, setClient_ne marked.2.symm]
    exact closings.state other marked.1
  · simp only [freeClient, record_log, setClient_log, closed_freed, Bool.and_eq_true] at marked
    exact closings.owned other marked.1
  · simp only [freeClient, record_log, setClient_log, closed_freed, Bool.and_eq_true,
      decide_eq_true_eq]
    by_cases here : other = ref
    · simp [freeClient, here] at close
    · rw [freeClient, record_clients, setClient_ne here] at close
      exact ⟨closings.marked other sdx server used close, Ne.symm here⟩

theorem Closings.closing {s : State} {ref : Ref} {sdx : Nat} (closings : Closings s)
    (server : ref.server = some sdx) (used : (s.servers sdx).state = .used) :
    Closings ((s.setClient ref { s.clients ref with state := .close }).record (.closing ref)) := by
  refine ⟨closings.quiet.plain fun _ => id, fun other marked => ?_, fun other marked => ?_,
    fun other sdx' server' used' close => ?_⟩
  · simp only [record_log, setClient_log, closed_closing, Bool.or_eq_true,
      decide_eq_true_eq] at marked
    by_cases here : other = ref
    · rw [here, record_clients, setClient_self]
    · rw [record_clients, setClient_ne here]
      exact closings.state other (marked.resolve_right (Ne.symm here))
  · simp only [record_log, setClient_log, closed_closing, Bool.or_eq_true,
      decide_eq_true_eq] at marked
    rcases marked with before | rfl
    · exact closings.owned other before
    · exact ⟨sdx, server, used⟩
  · simp only [record_log, setClient_log, closed_closing, Bool.or_eq_true, decide_eq_true_eq]
    by_cases here : other = ref
    · exact .inr here.symm
    · rw [record_clients, setClient_ne here] at close
      exact .inl (closings.marked other sdx' server' used' close)

theorem Closings.deleted {s : State} {sdx : Nat} (closings : Closings s) :
    Closings (serverDelete s sdx) := by
  have servers : ∀ other, other ≠ sdx → (serverDelete s sdx).servers other = s.servers other :=
    fun other different => setServer_ne different
  refine ⟨closings.quiet.plain fun _ => id, fun ref marked => ?_, fun ref marked => ?_,
    fun ref sdx' server used close => ?_⟩
  · simp only [serverDelete, record_log, setServer_log, closed_deleted, Bool.and_eq_true] at marked
    exact closings.state ref marked.1
  · simp only [serverDelete, record_log, setServer_log, closed_deleted, Bool.and_eq_true,
      decide_eq_true_eq] at marked
    obtain ⟨sdx', server, used⟩ := closings.owned ref marked.1
    refine ⟨sdx', server, ?_⟩
    rw [servers sdx' fun same => marked.2 (same ▸ server)]
    exact used
  · have different : sdx' ≠ sdx := by
      rintro rfl
      simp [serverDelete] at used
    rw [servers sdx' different] at used
    simp only [serverDelete, record_log, setServer_log, closed_deleted, Bool.and_eq_true,
      decide_eq_true_eq]
    refine ⟨closings.marked ref sdx' server used close, fun same => different ?_⟩
    exact Option.some.inj (server.symm.trans same)

/-- The clients of a server that is created were not closed, and they are not closed now. -/
theorem Closings.created {s s' : State} {sdx : Nat} (closings : Closings s)
    (creates : Creates s s' sdx) : Closings s' := by
  have elsewhere : ∀ ref, closed ref s'.log = true → closed ref s.log = true ∧
      ref.server ≠ some sdx := by
    intro ref marked
    rw [creates.log] at marked
    refine ⟨marked, fun server => ?_⟩
    obtain ⟨sdx', server', used⟩ := closings.owned ref marked
    rw [Option.some.inj (server'.symm.trans server), creates.free] at used
    cases used
  refine ⟨?_, fun ref marked => ?_, fun ref marked => ?_, fun ref sdx' server used close => ?_⟩
  · rw [creates.log]
    exact closings.quiet
  · rw [creates.clients ref (elsewhere ref marked).2]
    exact closings.state ref (elsewhere ref marked).1
  · obtain ⟨sdx', server, used⟩ := closings.owned ref (elsewhere ref marked).1
    refine ⟨sdx', server, ?_⟩
    rw [creates.others sdx' fun same => (elsewhere ref marked).2 (same ▸ server)]
    exact used
  · have different : sdx' ≠ sdx := by
      rintro rfl
      rw [(creates.fresh ref server).1] at close
      cases close
    rw [creates.others sdx' different] at used
    rw [creates.clients ref fun same => different (Option.some.inj (server.symm.trans same))] at close
    rw [creates.log]
    exact closings.marked ref sdx' server used close

theorem Closings.initial {s : State} (begins : calls.initial s) : Closings s := by
  obtain ⟨servers, -, log⟩ := begins
  refine ⟨?_, fun ref marked => ?_, fun ref marked => ?_, fun ref sdx _ used _ => ?_⟩
  · intro before entry after split
    simp [log] at split
  · simp [log, closed] at marked
  · simp [log, closed] at marked
  · simp [servers sdx] at used

/-! ## A poll -/

/-- Nothing comes in at the closed clients among some slots of a server. -/
def QuietSlots (s : State) (sdx : Nat) (polled : Polled) (slots : List Nat) : Prop :=
  ∀ slot ∈ slots, (s.clients ⟨some sdx, slot⟩).state = .close →
    Silent (s.clients ⟨some sdx, slot⟩) (polled.traffic slot)

/-- The slots that are not polled have no closed client. -/
theorem quietSlots_polled {s : State} {sdx : Nat} {polled : Polled} :
    QuietSlots s sdx polled (polledSlots s sdx) ↔
      ∀ slot < (s.servers sdx).capacity, (s.clients ⟨some sdx, slot⟩).state = .close →
        Silent (s.clients ⟨some sdx, slot⟩) (polled.traffic slot) := by
  constructor
  · intro quiet slot inside close
    refine quiet slot ?_ close
    simp [polledSlots, inside, close]
  · intro quiet slot member close
    exact quiet slot (List.mem_range.mp (List.mem_of_mem_filter member)) close

/-- The accepted connections leave the clients that were there. -/
theorem pollAccept_closings {s s' : State} {sdx : Nat} {polled : Polled} (closings : Closings s)
    (used : (s.servers sdx).state = .used) (ran : pollAccept s sdx polled = some s') :
    Closings s' ∧ ∀ ref, (s.clients ref).state ≠ .free → s'.clients ref = s.clients ref := by
  refine pollAccept_rule (P := fun t => Closings t ∧
      ∀ ref, (s.clients ref).state ≠ .free → t.clients ref = s.clients ref)
    (fun t t' slot new before free serviced => ⟨?_, fun ref taken => ?_⟩) used
    ⟨closings, fun _ _ => rfl⟩ ran
  · refine before.1.serviced serviced fun _ _ close => ?_
    cases free.symm.trans close
  · rw [serviced.others ref, before.2 ref taken]
    rintro rfl
    rw [before.2 _ taken] at free
    exact taken free

/-- The input part, where the clients of the slots that are left are as they were when the poll
began. Either of the two, that the log is undisturbed after it and that nothing comes in at the
closed clients, gives the other one. -/
structure Taking (s : State) (sdx : Nat) (polled : Polled) (slots rest : List Nat) (t : State) :
    Prop where
  distinct : rest.Nodup
  owned : ∀ slot ∈ rest, Owned t sdx slot
  clients : ∀ slot ∈ rest, t.clients ⟨some sdx, slot⟩ = s.clients ⟨some sdx, slot⟩
  closings : Undisturbed t.log ∨ QuietSlots s sdx polled slots →
    Closings t ∧ ∀ slot ∈ slots, slot ∉ rest →
      (s.clients ⟨some sdx, slot⟩).state = .close →
        Silent (s.clients ⟨some sdx, slot⟩) (polled.traffic slot)

theorem Taking.step {s t t' : State} {sdx slot : Nat} {polled : Polled} {slots rest : List Nat}
    (taking : Taking s sdx polled slots (slot :: rest) t) (member : slot ∈ slots)
    (served : pollInput t sdx slot (polled.traffic slot) = some t') :
    Taking s sdx polled slots rest t' := by
  obtain ⟨fresh, distinct⟩ := List.nodup_cons.mp taking.distinct
  obtain ⟨here, owned⟩ := List.forall_mem_cons.mp taking.owned
  obtain ⟨same, clients⟩ := List.forall_mem_cons.mp taking.clients
  obtain ⟨new, serviced, calm, loud⟩ := pollInput_spec here served
  rw [same] at calm loud
  refine ⟨distinct, fun other left => serviced.servers.owned (owned other left),
    fun other left => ?_, fun either => ?_⟩
  · rw [serviced.others, clients other left]
    rintro equal
    cases equal
    exact fresh left
  have shorter : Undisturbed t.log ∨ QuietSlots s sdx polled slots := by
    refine either.imp_left fun undisturbed => ?_
    rw [serviced.log] at undisturbed
    exact undisturbed.shorter
  obtain ⟨closings, earlier⟩ := taking.closings shorter
  have silent : (s.clients ⟨some sdx, slot⟩).state = .close →
      Silent (s.clients ⟨some sdx, slot⟩) (polled.traffic slot) := by
    intro close
    rcases either with undisturbed | quiet
    · by_contra came
      obtain ⟨type, pushed⟩ := loud (by rw [close]; nofun) came
      rw [serviced.log] at undisturbed
      have notClosed := undisturbed.not_closed serviced.mild pushed rfl
      rw [closings.marked ⟨some sdx, slot⟩ sdx rfl here.1 (same ▸ close)] at notClosed
      cases notClosed
    · exact quiet slot member close
  refine ⟨?_, fun other listed gone => ?_⟩
  · by_cases close : (s.clients ⟨some sdx, slot⟩).state = .close
    · rw [calm (silent close)] at serviced
      exact closings.calm serviced
    · exact closings.serviced serviced fun _ _ => same ▸ close
  · by_cases equal : other = slot
    · rw [equal]
      exact silent
    · exact earlier other listed (by simp [equal, gone])

/-- The output part keeps the closed clients closed or frees them. -/
theorem pollOutput_closings {s s' : State} {sdx slot : Nat} {traffic : Traffic}
    (closings : Closings s) (owned : Owned s sdx slot)
    (ran : pollOutput s sdx slot traffic = some s') : Closings s' := by
  rcases pollOutput_spec owned ran with ⟨new, serviced, calm⟩ | ⟨s₁, serviced, -, rfl⟩
  · by_cases close : (s.clients ⟨some sdx, slot⟩).state = .close
    · rw [calm close] at serviced
      exact closings.calm serviced
    · exact closings.serviced serviced fun _ _ => close
  · exact (closings.calm serviced).freed

/-- A poll keeps the closings exactly when nothing comes in at the closed clients. -/
theorem serverPoll_closings {s s' : State} {sdx : Nat} {polled : Polled} (closings : Closings s)
    (used : (s.servers sdx).state = .used) (ran : serverPoll s sdx polled = some s') :
    (Undisturbed s'.log → QuietSlots s sdx polled (polledSlots s sdx)) ∧
      (QuietSlots s sdx polled (polledSlots s sdx) → Closings s') := by
  obtain ⟨s₁, s₂, accepted, reaches₁, taken, reaches₂, sent, -⟩ := serverPoll_parts used ran
  obtain ⟨closings₁, clients⟩ := pollAccept_closings closings used accepted
  have owned := polledSlots_owned used
  have begun : Taking s sdx polled (polledSlots s sdx) (polledSlots s sdx) s₁ := by
    refine ⟨List.nodup_range.filter _, fun slot member => reaches₁.2.owned (owned slot member),
      fun slot member => clients _ ?_, fun _ => ⟨closings₁, fun slot member gone => absurd member gone⟩⟩
    have state := List.of_mem_filter member
    simp only [decide_eq_true_eq] at state
    rcases state with state | state <;> rw [state] <;> nofun
  have done : (∀ slot ∈ ([] : List Nat), slot ∈ polledSlots s sdx) ∧
      Taking s sdx polled (polledSlots s sdx) [] s₂ := by
    refine slots_rule (P := fun rest t => (∀ slot ∈ rest, slot ∈ polledSlots s sdx) ∧
      Taking s sdx polled (polledSlots s sdx) rest t) (fun slot rest t t' before served => ?_)
      ⟨fun _ => id, begun⟩ taken
    obtain ⟨here, left⟩ := List.forall_mem_cons.mp before.1
    exact ⟨left, before.2.step here served⟩
  have flushed : (∀ slot ∈ ([] : List Nat), Owned s₂ sdx slot) ∧ Reaches s₂ s' ∧
      (Closings s₂ → Closings s') := by
    refine slots_rule (P := fun rest t => (∀ slot ∈ rest, Owned s₂ sdx slot) ∧ Reaches s₂ t ∧
      (Closings s₂ → Closings t)) (fun slot rest t t' before served => ?_)
      ⟨fun slot member => reaches₂.2.owned (owned slot member), .refl, id⟩ sent
    obtain ⟨here, left⟩ := List.forall_mem_cons.mp before.1
    have now := before.2.1.2.owned here
    exact ⟨left, before.2.1.trans (pollOutput_reaches now served),
      fun first => pollOutput_closings (before.2.2 first) now served⟩
  constructor
  · intro undisturbed
    obtain ⟨new, log⟩ := flushed.2.1.1.log
    rw [log] at undisturbed
    obtain ⟨-, quiet⟩ := done.2.closings (.inl undisturbed.shorter)
    exact fun slot member => quiet slot member nofun
  · intro quiet
    exact flushed.2.2 (done.2.closings (.inr quiet)).1

/-! ## Every call -/

theorem Closings.event {s : State} {sdx : Nat} (closings : Closings s) :
    Closings (serverEvent s sdx).1 := by
  have states : ∀ other, ((serverEvent s sdx).1.servers other).state = (s.servers other).state := by
    intro other
    unfold serverEvent
    simp only
    split
    · rfl
    · by_cases here : other = sdx
      · rw [here, setServer_self]
      · rw [setServer_ne here]
  have clients : (serverEvent s sdx).1.clients = s.clients := by
    unfold serverEvent
    simp only
    split <;> rfl
  have log : (serverEvent s sdx).1.log = s.log := by
    unfold serverEvent
    simp only
    split <;> rfl
  refine ⟨?_, ?_, ?_, ?_⟩
  · rw [log]
    exact closings.quiet
  · rw [log, clients]
    exact closings.state
  · simp only [log, states]
    exact closings.owned
  · simp only [log, states, clients]
    exact closings.marked

/-- A call keeps the closings exactly when it is a quiet one. -/
theorem next_closings {s s' : State} {action : Action} (closings : Closings s)
    (moved : calls.next s action = some s') :
    (Undisturbed s'.log → QuietPoll s action) ∧ (QuietPoll s action → Closings s') := by
  cases action with
  | serverPoll handle polled =>
    obtain ⟨sdx, resolved, ran⟩ := Option.bind_eq_some_iff.mp moved
    have condition : QuietPoll s (.serverPoll handle polled) ↔
        QuietSlots s sdx polled (polledSlots s sdx) := by
      rw [quietSlots_polled, QuietPoll, resolved]
      simp
    rw [condition]
    exact serverPoll_closings closings (resolveServer_used resolved) ran
  | serverCreate fd maxClients =>
    obtain ⟨⟨s₁, handle⟩, ran, rest⟩ := Option.bind_eq_some_iff.mp moved
    cases rest
    obtain ⟨sdx, creates⟩ := serverCreate_spec ran
    exact ⟨fun _ => trivial, fun _ => closings.created creates⟩
  | serverDelete handle =>
    obtain ⟨sdx, resolved, rest⟩ := Option.bind_eq_some_iff.mp moved
    cases rest
    exact ⟨fun _ => trivial, fun _ => closings.deleted⟩
  | serverEvent handle =>
    obtain ⟨sdx, resolved, rest⟩ := Option.bind_eq_some_iff.mp moved
    cases rest
    exact ⟨fun _ => trivial, fun _ => closings.event⟩
  | clientCreate fd =>
    obtain ⟨⟨s₁, handle⟩, ran, rest⟩ := Option.bind_eq_some_iff.mp moved
    cases rest
    obtain ⟨slot, new, serviced⟩ := clientCreate_serviced ran
    exact ⟨fun _ => trivial, fun _ => closings.serviced serviced nofun⟩
  | clientPoll handle traffic =>
    obtain ⟨ref, resolved, ran⟩ := Option.bind_eq_some_iff.mp moved
    obtain ⟨alone, new, serviced⟩ := clientPoll_serviced (resolve_inUse resolved) ran
    refine ⟨fun _ => trivial, fun _ => closings.serviced serviced fun sdx server => ?_⟩
    cases alone.symm.trans server
  | clientEvent handle =>
    obtain ⟨ref, resolved, ran⟩ := Option.bind_eq_some_iff.mp moved
    exact ⟨fun _ => trivial, fun _ => closings.calm (clientEvent_serviced ran)⟩
  | clientClose handle =>
    obtain ⟨ref, resolved, rest⟩ := Option.bind_eq_some_iff.mp moved
    cases rest
    refine ⟨fun _ => trivial, fun _ => ?_⟩
    rcases clientClose_cases s ref with freed | ⟨⟨sdx, server⟩, closing⟩
    · rw [freed]
      exact closings.freed
    · rw [closing]
      exact closings.closing server ((resolve_inUse resolved).owned sdx server).1
  | clientRead handle num =>
    obtain ⟨ref, resolved, ran⟩ := Option.bind_eq_some_iff.mp moved
    exact ⟨fun _ => trivial, fun _ => closings.calm (clientRead_serviced ran)⟩
  | clientWrite handle data malloc =>
    obtain ⟨ref, resolved, ran⟩ := Option.bind_eq_some_iff.mp moved
    exact ⟨fun _ => trivial, fun _ => closings.calm (clientWrite_serviced ran)⟩

theorem quiet_closings {s : State} (reached : (calls.restrict QuietPoll).Reachable s) :
    Closings s := by
  refine reached.invariant (fun s begins => Closings.initial begins) fun s action s' _ before moved => ?_
  obtain ⟨quiet, moved⟩ := System.restrict_next.mp moved
  exact (next_closings before moved).2 quiet

/-- In every run whose polls are quiet a close is final, and the first poll that is not quiet
breaks that: an event is pushed for a closed client. -/
theorem close_final_while_quiet {s : State} (reached : (calls.restrict QuietPoll).Reachable s) :
    CloseFinal s ∧ ∀ action s', calls.next s action = some s' →
      (CloseFinal s' ↔ QuietPoll s action) := by
  have closings := quiet_closings reached
  refine ⟨closings.final, fun action s' moved => ?_⟩
  obtain ⟨needed, enough⟩ := next_closings closings moved
  exact ⟨fun final => needed final.quiet, fun quiet => (enough quiet).final⟩

/-- A client is accepted, gets two bytes to send and is closed. -/
def closedWithOutput : List Action :=
  [.serverCreate 3 1, .serverPoll 0x80000000 oneConnection, .serverEvent 0x80000000,
    .clientWrite 0x08000002 [1, 2] ByteQueue.smallMalloc, .clientClose 0x08000002]

/-- A poll that can send and finds nothing else. -/
def flushing : Polled := ⟨false, [], fun _ => ⟨false, false, true, [], 0, [.sent 2]⟩⟩

/-- A poll that finds the connection of a client gone. -/
def hangingUp : Polled :=
  ⟨false, [], fun _ => ⟨false, true, false, [⟨ByteQueue.smallMalloc, .disconnected⟩], 0, []⟩⟩

/-- A closed client is flushed and freed. -/
theorem close_final_while_quiet_applies : ∃ s s', (calls.restrict QuietPoll).Reachable s ∧
    closed ⟨some 0, 0⟩ s.log = true ∧ calls.next s (.serverPoll 0x80000000 flushing) = some s' ∧
    QuietPoll s (.serverPoll 0x80000000 flushing) ∧ CloseFinal s' ∧
    (s'.clients ⟨some 0, 0⟩).state = .free := by
  have begun : (calls.restrict QuietPoll).Reachable zeroed := .start zeroed_initial
  obtain ⟨s, reached, checked⟩ := begun.replay_check closedWithOutput
    (fun s => closed ⟨some 0, 0⟩ s.log && decide (QuietPoll s (.serverPoll 0x80000000 flushing)) &&
      (calls.next s (.serverPoll 0x80000000 flushing)).any
        fun s' => (s'.clients ⟨some 0, 0⟩).state = .free) (by decide +kernel)
  simp only [Bool.and_eq_true, decide_eq_true_eq] at checked
  obtain ⟨⟨marked, quiet⟩, after⟩ := checked
  obtain ⟨s', moved, free⟩ := (Option.any_eq_true _ _).mp after
  refine ⟨s, s', reached, marked, moved, quiet, ?_, by simpa using free⟩
  exact ((close_final_while_quiet reached).2 _ s' moved).mpr quiet

/-- A client that was closed before its output was sent hangs up, and an event is pushed for
it. -/
theorem closed_client_hangs_up : ∃ s, calls.Reachable s ∧ closed ⟨some 0, 0⟩ s.log = true ∧
    (s.clients ⟨some 0, 0⟩).state = .hangup ∧ ¬ CloseFinal s := by
  have begun : calls.Reachable zeroed := .start zeroed_initial
  obtain ⟨s, reached, checked⟩ := begun.replay_check
    (closedWithOutput ++ [.serverPoll 0x80000000 hangingUp])
    (fun s => closed ⟨some 0, 0⟩ s.log && (s.clients ⟨some 0, 0⟩).state = .hangup)
    (by decide +kernel)
  simp only [Bool.and_eq_true, decide_eq_true_eq] at checked
  refine ⟨s, reached, checked.1, checked.2, fun final => ?_⟩
  have close := final.state _ checked.1
  rw [checked.2] at close
  cases close

end Mysnips.Tcp

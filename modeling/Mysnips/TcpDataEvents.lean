import Mysnips.TcpEvents

/-! Events about data. `move_bytes_from_socket_to_queue` reports through an out-parameter how many
bytes it appended, but leaves the parameter alone where it ends with an error, and its callers read
it all the same: behind an error it decides nothing but by chance. -/
namespace Mysnips.Tcp
open ByteQueue Memory Transition

/-! ## What the input loop sees -/

/-- What a round of the input loop meets: no memory, or a result of `recv`. -/
inductive Outcome where
  | noMemory
  | result (recv : Recv)

/-- The outcomes that the input loop sees, in order. -/
def outcomes : List RecvRound → Queue → List Outcome
  | [], _ => []
  | round :: rest, queue =>
    match ensureMinFreeSpace queue 256 round.malloc with
    | none => []
    | some (_, false) => [.noMemory]
    | some (queue, true) =>
      match round.result with
      | .received bytes =>
        match store queue.data (startWrite queue) bytes with
        | none => [.result (.received bytes)]
        | some data =>
          .result (.received bytes) :: outcomes rest (endWrite { queue with data } bytes.length)
      | last => [.result last]

/-- Some bytes came. -/
def Came (seen : List Outcome) : Prop := ∃ bytes, .result (.received bytes) ∈ seen

/-- The loop met an error. -/
def Erred (seen : List Outcome) : Prop := .noMemory ∈ seen ∨ .result .failed ∈ seen

/-- The queue grows where bytes came, and the loop ends with the error that it met. -/
structure Follows (seen : List Outcome) (queue queue' : Queue) (ending : Moved) : Prop where
  grows : queue.size ≤ queue'.size
  came : queue.size < queue'.size ↔ Came seen
  erred : ending = .error ↔ Erred seen

theorem recvLoop_follows {rounds : List RecvRound} {queue queue' : Queue} {ending : Moved}
    (inside : Inside queue) (ran : recvLoop rounds queue = some (queue', ending)) :
    Follows (outcomes rounds queue) queue queue' ending := by
  induction rounds generalizing queue with
  | nil => cases ran
  | cons round rest ih =>
    have small : 256 < 2 ^ 63 := by decide
    obtain ⟨q, ok, ensured, inside₁, size⟩ := ensure_inside round.malloc inside small
    unfold recvLoop at ran
    unfold outcomes
    simp only [ensured, Option.bind_eq_bind, Option.bind_some] at ran ⊢
    cases ok with
    | false =>
      rw [if_pos rfl] at ran
      cases ran
      exact ⟨size.ge, by simp [size, Came], by simp [Erred]⟩
    | true =>
      rw [if_neg (by decide)] at ran
      cases answer : round.result with
      | disconnected | wouldBlock | failed =>
        rw [answer] at ran
        cases ran
        exact ⟨size.ge, by simp [size, Came], by simp [Erred]⟩
      | received bytes =>
        rw [answer] at ran
        simp only at ran
        split at ran
        · next legal =>
          obtain ⟨data, stored, ran⟩ := Option.bind_eq_some_iff.mp ran
          obtain ⟨inside₂, grown⟩ := write_inside inside₁ stored
          have follows := ih inside₂ ran
          have some_ := List.length_pos_of_ne_nil legal.1
          have grows := follows.grows
          rw [grown] at grows
          simp only [stored]
          refine ⟨by omega, iff_of_true (by omega) ⟨bytes, List.mem_cons_self⟩, ?_⟩
          rw [follows.erred]
          simp [Erred]
        · cases ran

/-- What `moved` says, and what it should say. -/
theorem clientInput_moved {client : Client} {traffic : Traffic} {input : Queue} {ending : Moved}
    {moved : Nat} (inside : Inside client.input)
    (ran : clientInput client traffic = some (input, ending, moved)) :
    (usedSpace client.input < usedSpace input ↔ Came (outcomes traffic.recvs client.input)) ∧
      (¬ Erred (outcomes traffic.recvs client.input) →
        (0 < moved ↔ usedSpace client.input < usedSpace input)) ∧
      (Erred (outcomes traffic.recvs client.input) → moved = traffic.unset) := by
  have inside' := clientInput_inside inside ran
  unfold clientInput at ran
  obtain ⟨⟨input', ending'⟩, received, ran⟩ := Option.bind_eq_some_iff.mp ran
  cases ran
  have follows := recvLoop_follows inside received
  refine ⟨follows.came, fun fine => ?_, fun erred => ?_⟩
  · have object := inside'.object
    have range := inside'.range
    have grows := follows.grows
    rw [if_neg (fun error => fine (follows.erred.mp error))]
    unfold usedSpace
    rw [Machine.sub64_eq grows (by omega)]
    omega
  · rw [if_pos (follows.erred.mpr erred)]

/-- An event about data is raised exactly if bytes were appended to the input. -/
def Truthful (raised : Prop) (before after : Client) : Prop :=
  raised ↔ usedSpace before.input < usedSpace after.input

/-- The input loop is not entered, or it meets no error, or what is found in `moved` happens to be
positive exactly if bytes came. -/
def MovedKnown (client : Client) (traffic : Traffic) : Prop :=
  traffic.pollin = true ∨ traffic.pollhup = true →
    Erred (outcomes traffic.recvs client.input) →
      (0 < traffic.unset ↔ Came (outcomes traffic.recvs client.input))

/-- The event follows `moved`, so that it is right where `moved` is. -/
theorem truthful_iff {client : Client} {traffic : Traffic} {input : Queue} {ending : Moved}
    {moved : Nat} (inside : Inside client.input)
    (reported : traffic.pollin = true ∨ traffic.pollhup = true)
    (ran : clientInput client traffic = some (input, ending, moved)) :
    (0 < moved ↔ usedSpace client.input < usedSpace input) ↔ MovedKnown client traffic := by
  obtain ⟨came, fine, chance⟩ := clientInput_moved inside ran
  by_cases erred : Erred (outcomes traffic.recvs client.input)
  · rw [chance erred, came]
    exact ⟨fun same _ _ => same, fun known => known reported erred⟩
  · exact iff_of_true (fine erred) fun _ error => absurd error erred

/-! ## Polls of a server -/

/-- A part of a poll that leaves the input of a client and raises no event about data for it. -/
structure Spares (ref : Ref) (s s' : State) : Prop where
  input : (s'.clients ref).input = (s.clients ref).input
  log : ∃ more, s'.log = s.log ++ more ∧ .pushed ref .data ∉ more

theorem Spares.refl (ref : Ref) (s : State) : Spares ref s s :=
  ⟨rfl, [], (List.append_nil _).symm, List.not_mem_nil⟩

theorem Spares.trans {ref : Ref} {s s' s'' : State} (first : Spares ref s s')
    (second : Spares ref s' s'') : Spares ref s s'' := by
  obtain ⟨more, log, silent⟩ := first.log
  obtain ⟨more', log', silent'⟩ := second.log
  refine ⟨second.input.trans first.input, more ++ more', by rw [log', log, List.append_assoc], ?_⟩
  rw [List.mem_append]
  exact not_or.mpr ⟨silent, silent'⟩

theorem Serviced.spares {s s' : State} {ref other : Ref} {more : List Record}
    (serviced : Serviced s s' other more) (different : ref ≠ other) : Spares ref s s' where
  input := by rw [serviced.others ref different]
  log := ⟨more, serviced.log, fun member => different (serviced.mild _ member)⟩

theorem pushEvent_log {s s' : State} {sdx slot : Nat} {type : EventType}
    (ran : pushEvent s sdx slot type = some s') : s'.clients = s.clients ∧
      ∃ issued, s'.log = s.log ++ [issued, .pushed ⟨some sdx, slot⟩ type] ∧
        ∀ other kind, issued ≠ .pushed other kind := by
  obtain ⟨handle, -, -, rfl⟩ := pushEvent_iff.mp ran
  exact ⟨rfl, _, List.append_assoc .., nofun⟩

theorem hangUp_spares {s s' : State} {sdx slot : Nat} (ran : hangUp s sdx slot = some s') :
    Spares ⟨some sdx, slot⟩ s s' := by
  obtain ⟨clients, issued, log, other⟩ := pushEvent_log ran
  refine ⟨?_, [.hungUp ⟨some sdx, slot⟩, issued, .pushed ⟨some sdx, slot⟩ .disconnect], ?_, ?_⟩
  · rw [clients]
    simp
  · rw [log, record_log, setClient_log, List.append_assoc, List.singleton_append]
  · simpa using (other _ _).symm

theorem pushMoved_raises {s s' : State} {sdx slot moved : Nat}
    (ran : pushMoved s sdx slot moved = some s') : s'.clients = s.clients ∧
      ∃ more, s'.log = s.log ++ more ∧ (.pushed ⟨some sdx, slot⟩ .data ∈ more ↔ 0 < moved) := by
  unfold pushMoved at ran
  split at ran
  · next positive =>
    obtain ⟨clients, issued, log, -⟩ := pushEvent_log ran
    exact ⟨clients, _, log, iff_of_true (by simp) positive⟩
  · next none =>
    cases ran
    exact ⟨rfl, [], (List.append_nil _).symm, iff_of_false List.not_mem_nil none⟩

/-- A part of a poll that may raise an event about data for a client. -/
def Raises (ref : Ref) (traffic : Traffic) (before : Client) (s s' : State) : Prop :=
  ∃ more, s'.log = s.log ++ more ∧
    (Truthful (.pushed ref .data ∈ more) before (s'.clients ref) ↔ MovedKnown before traffic)

theorem Raises.spared {ref : Ref} {traffic : Traffic} {before : Client} {s s' s'' : State}
    (raises : Raises ref traffic before s s') (spares : Spares ref s' s'') :
    Raises ref traffic before s s'' := by
  obtain ⟨more, log, exact_⟩ := raises
  obtain ⟨more', log', silent⟩ := spares.log
  refine ⟨more ++ more', by rw [log', log, List.append_assoc], ?_⟩
  rw [Truthful, List.mem_append, or_iff_left silent, spares.input]
  exact exact_

theorem Spares.raises {ref : Ref} {traffic : Traffic} {before : Client} {s s' s'' : State}
    (spares : Spares ref s s') (raises : Raises ref traffic before s' s'') :
    Raises ref traffic before s s'' := by
  obtain ⟨more, log, silent⟩ := spares.log
  obtain ⟨more', log', exact_⟩ := raises
  refine ⟨more ++ more', by rw [log', log, List.append_assoc], ?_⟩
  rw [Truthful, List.mem_append, or_iff_right silent]
  exact exact_

/-- The input of the client itself. -/
theorem pollInput_raises {s s' : State} {sdx slot : Nat} {traffic : Traffic}
    (live : (s.clients ⟨some sdx, slot⟩).state ≠ .free)
    (inside : Inside (s.clients ⟨some sdx, slot⟩).input)
    (ran : pollInput s sdx slot traffic = some s') :
    Raises ⟨some sdx, slot⟩ traffic (s.clients ⟨some sdx, slot⟩) s s' := by
  unfold pollInput at ran
  simp only at ran
  rw [if_neg live] at ran
  split at ran
  · next reported =>
    obtain ⟨⟨input, ending, moved⟩, came, ran⟩ := Option.bind_eq_some_iff.mp ran
    obtain ⟨s₁, pushed, ran⟩ := Option.bind_eq_some_iff.mp ran
    obtain ⟨clients, more, log, positive⟩ := pushMoved_raises pushed
    have first : Raises ⟨some sdx, slot⟩ traffic (s.clients ⟨some sdx, slot⟩) s s₁ := by
      refine ⟨more, log, ?_⟩
      rw [Truthful, positive, clients, setClient_self]
      exact truthful_iff inside reported came
    split at ran
    · exact first.spared (hangUp_spares ran)
    · cases ran
      exact first
  · next unreported =>
    cases ran
    refine ⟨[], (List.append_nil _).symm, iff_of_true ?_ fun reported => absurd reported unreported⟩
    exact iff_of_false List.not_mem_nil (lt_irrefl _)

/-- The output of the client itself. -/
theorem pollOutput_spares {s s' : State} {sdx slot : Nat} {traffic : Traffic}
    (ran : pollOutput s sdx slot traffic = some s') : Spares ⟨some sdx, slot⟩ s s' := by
  unfold pollOutput at ran
  simp only at ran
  split at ran
  · cases ran
    exact .refl _ _
  split at ran
  · obtain ⟨⟨output, sent⟩, -, ran⟩ := Option.bind_eq_some_iff.mp ran
    have first : Spares ⟨some sdx, slot⟩ s
        (s.setClient ⟨some sdx, slot⟩ { s.clients ⟨some sdx, slot⟩ with output }) :=
      ⟨by simp, [], (List.append_nil _).symm, List.not_mem_nil⟩
    simp only at ran
    split at ran
    · split at ran
      · cases ran
        refine first.trans ⟨by simp [freeClient], [.freed ⟨some sdx, slot⟩], rfl, by simp⟩
      · cases ran
        exact first
    split at ran
    · exact first.trans (hangUp_spares ran)
    · cases ran
      exact first
  · cases ran
    exact .refl _ _

/-- The output of another client. -/
theorem pollOutput_spares_other {s s' : State} {sdx slot : Nat} {traffic : Traffic} {ref : Ref}
    (owned : Owned s sdx slot) (different : ref ≠ ⟨some sdx, slot⟩)
    (ran : pollOutput s sdx slot traffic = some s') : Spares ref s s' := by
  rcases pollOutput_spec owned ran with ⟨new, serviced, -⟩ | ⟨s₁, serviced, -, rfl⟩
  · exact serviced.spares different
  · refine (serviced.spares different).trans ⟨?_, [.freed ⟨some sdx, slot⟩], rfl, by simp⟩
    rw [freeClient, record_clients, setClient_ne different]

/-- The poll has not come to the client. -/
structure Ahead (ref : Ref) (s t : State) : Prop where
  client : t.clients ref = s.clients ref
  spares : Spares ref s t

theorem Ahead.step {s t t' : State} {ref other : Ref} {more : List Record} (ahead : Ahead ref s t)
    (serviced : Serviced t t' other more) (different : ref ≠ other) : Ahead ref s t' where
  client := (serviced.others ref different).trans ahead.client
  spares := ahead.spares.trans (serviced.spares different)

/-- A poll under way, with the clients that are left in the loop over the input. -/
structure Receiving (s : State) (sdx slot : Nat) (traffic : Traffic) (rest : List Nat) (t : State) :
    Prop where
  servers : SameServers s t
  owned : ∀ other ∈ rest, Owned s sdx other
  nodup : rest.Nodup
  ahead : slot ∈ rest → Ahead ⟨some sdx, slot⟩ s t
  raises : slot ∉ rest →
    Raises ⟨some sdx, slot⟩ traffic (s.clients ⟨some sdx, slot⟩) s t

theorem Receiving.step {s t t' : State} {sdx slot next : Nat} {polled : Polled} {rest : List Nat}
    (sound : Sound s) (live : (s.clients ⟨some sdx, slot⟩).state ≠ .free)
    (receiving : Receiving s sdx slot (polled.traffic slot) (next :: rest) t)
    (ran : pollInput t sdx next (polled.traffic next) = some t') :
    Receiving s sdx slot (polled.traffic slot) rest t' := by
  have ⟨here, owned⟩ := List.forall_mem_cons.mp receiving.owned
  have ⟨fresh, nodup⟩ := List.nodup_cons.mp receiving.nodup
  obtain ⟨more, serviced, -⟩ := pollInput_spec (receiving.servers.owned here) ran
  refine ⟨receiving.servers.trans serviced.servers, owned, nodup, fun left => ?_, fun done => ?_⟩
  · have different : slot ≠ next := by
      rintro rfl
      exact fresh left
    exact (receiving.ahead (List.mem_cons_of_mem _ left)).step serviced (slots_apart different)
  · by_cases same : slot = next
    · subst same
      have ahead := receiving.ahead List.mem_cons_self
      have raises := pollInput_raises (by rw [ahead.client]; exact live)
        (by rw [ahead.client]; exact (sound.clients _).input) ran
      rw [ahead.client] at raises
      exact ahead.spares.raises raises
    · refine (receiving.raises ?_).spared (serviced.spares (slots_apart same))
      exact fun listed => (List.mem_cons.mp listed).elim same done

/-- What a poll raises for a client that it polls. -/
theorem serverPoll_raises {s s' : State} {sdx slot : Nat} {polled : Polled} (sound : Sound s)
    (used : (s.servers sdx).state = .used) (member : slot ∈ polledSlots s sdx)
    (ran : serverPoll s sdx polled = some s') :
    Raises ⟨some sdx, slot⟩ (polled.traffic slot) (s.clients ⟨some sdx, slot⟩) s s' := by
  obtain ⟨s₁, s₂, accepted, reached₁, taken, reached₂, flushed, -⟩ := serverPoll_parts used ran
  have live : (s.clients ⟨some sdx, slot⟩).state ≠ .free := by
    rcases polled_live member with state | state <;> simp [state]
  have owned := polledSlots_owned used
  have ahead : Ahead ⟨some sdx, slot⟩ s s₁ := by
    refine pollAccept_rule (P := fun t => Ahead ⟨some sdx, slot⟩ s t) ?_ used ⟨rfl, .refl _ _⟩ accepted
    intro t t' other new ahead free serviced
    refine ahead.step serviced ?_
    intro same
    rw [← same, ahead.client] at free
    exact live free
  have received : Receiving s sdx slot (polled.traffic slot) [] s₂ := by
    refine slots_rule (P := fun rest t => Receiving s sdx slot (polled.traffic slot) rest t)
      (fun next rest t t' receiving ran => receiving.step sound live ran) ?_ taken
    exact ⟨reached₁.2, owned, List.nodup_range.filter _, fun _ => ahead,
      fun absent => absurd member absent⟩
  have flushing : (∀ other ∈ ([] : List Nat), Owned s sdx other) ∧ SameServers s s' ∧
      Raises ⟨some sdx, slot⟩ (polled.traffic slot) (s.clients ⟨some sdx, slot⟩) s s' := by
    refine slots_rule (P := fun rest t => (∀ other ∈ rest, Owned s sdx other) ∧ SameServers s t ∧
        Raises ⟨some sdx, slot⟩ (polled.traffic slot) (s.clients ⟨some sdx, slot⟩) s t)
      (fun next rest t t' before ran => ?_)
      ⟨owned, reached₂.2, received.raises List.not_mem_nil⟩ flushed
    obtain ⟨left, servers, raises⟩ := before
    have ⟨here, left⟩ := List.forall_mem_cons.mp left
    have there := servers.owned here
    refine ⟨left, servers.trans (pollOutput_reaches there ran).2, raises.spared ?_⟩
    by_cases same : slot = next
    · subst same
      exact pollOutput_spares ran
    · exact pollOutput_spares_other there (slots_apart same) ran
  exact flushing.2.2

/-! ## Polls of a stand-alone client -/

theorem aloneInput_raises {s s' : State} {ref : Ref} {traffic : Traffic}
    (inside : Inside (s.clients ref).input) (data : (s.clients ref).eventData = false)
    (ran : aloneInput s ref traffic = some s') :
    Truthful ((s'.clients ref).eventData = true) (s.clients ref) (s'.clients ref) ↔
      MovedKnown (s.clients ref) traffic := by
  rcases aloneInput_cases ran with ⟨unreported, rfl⟩ | ⟨reported, input, ending, moved, came, turned⟩
  · refine iff_of_true ?_ fun reported => absurd reported unreported
    exact iff_of_false (by simp [data]) (lt_irrefl _)
  · rw [← truthful_iff inside reported came, Truthful]
    cases turned <;> simp

theorem aloneOutput_spares {s s' : State} {ref : Ref} {traffic : Traffic}
    (ran : aloneOutput s ref traffic = some s') :
    (s'.clients ref).input = (s.clients ref).input ∧
      (s'.clients ref).eventData = (s.clients ref).eventData := by
  rcases aloneOutput_cases ran with ⟨-, rfl⟩ | ⟨-, -, output, sent, -, turned⟩
  · exact ⟨rfl, rfl⟩
  · cases turned <;> simp

/-- What a poll raises for a stand-alone client without events. -/
theorem clientPoll_raises {s s' : State} {ref : Ref} {traffic : Traffic}
    (inside : Inside (s.clients ref).input) (data : (s.clients ref).eventData = false)
    (disconnect : (s.clients ref).eventDisconnect = false)
    (ran : clientPoll s ref traffic = some s') :
    Truthful ((s'.clients ref).eventData = true) (s.clients ref) (s'.clients ref) ↔
      MovedKnown (s.clients ref) traffic := by
  unfold clientPoll at ran
  simp only [data, disconnect, Bool.false_eq_true, or_self, if_false] at ran
  split at ran
  · cases ran
  split at ran
  · cases ran
  · obtain ⟨s₁, taken, ran⟩ := Option.bind_eq_some_iff.mp ran
    obtain ⟨input, eventData⟩ := aloneOutput_spares ran
    rw [Truthful, input, eventData]
    exact aloneInput_raises inside data taken

/-- In every reachable state, an event about data of a client is right exactly if the loop over its
input meets no error, or the value that is found in `moved` behind an error happens to be right.
This holds for each client that a server polls, and for a stand-alone client without events. -/
theorem data_events_truthful_iff {s : State} (reached : calls.Reachable s) :
    (∀ sdx polled s' new, (s.servers sdx).state = .used → serverPoll s sdx polled = some s' →
      s'.log = s.log ++ new → ∀ slot ∈ polledSlots s sdx,
        (Truthful (.pushed ⟨some sdx, slot⟩ .data ∈ new) (s.clients ⟨some sdx, slot⟩)
            (s'.clients ⟨some sdx, slot⟩) ↔
          MovedKnown (s.clients ⟨some sdx, slot⟩) (polled.traffic slot))) ∧
    ∀ ref traffic s', clientPoll s ref traffic = some s' → (s.clients ref).eventData = false →
      (s.clients ref).eventDisconnect = false →
        (Truthful ((s'.clients ref).eventData = true) (s.clients ref) (s'.clients ref) ↔
          MovedKnown (s.clients ref) traffic) := by
  have sound := reachable_sound reached
  constructor
  · intro sdx polled s' new used ran log slot member
    obtain ⟨more, log', raises⟩ := serverPoll_raises sound used member ran
    rw [log, List.append_cancel_left_eq] at log'
    rw [log']
    exact raises
  · intro ref traffic s' ran data disconnect
    exact clientPoll_raises (sound.clients ref).input data disconnect ran

/-- A server for two clients polls one that sent two bytes and left. -/
theorem data_events_truthful_iff_applies : ∃ s s', calls.Reachable s ∧
    serverPoll s 0 lastBytes = some s' ∧
    Truthful (.pushed ⟨some 0, 0⟩ .data ∈ s'.log.drop s.log.length) (s.clients ⟨some 0, 0⟩)
      (s'.clients ⟨some 0, 0⟩) := by
  have begun : calls.Reachable zeroed := .start zeroed_initial
  obtain ⟨s, reached, checked⟩ := begun.replay_check
    [.serverCreate 3 2, .serverPoll 0x80000000 oneConnection, .serverEvent 0x80000000]
    (fun s => (s.servers 0).state = .used && 0 ∈ polledSlots s 0 &&
      ((serverPoll s 0 lastBytes).any fun s' => s'.log.take s.log.length = s.log) &&
      (outcomes (lastBytes.traffic 0).recvs (s.clients ⟨some 0, 0⟩).input).all fun
        | .noMemory | .result .failed => false
        | _ => true) (by decide +kernel)
  simp only [Bool.and_eq_true, decide_eq_true_eq, Option.any_eq_true, List.all_eq_true] at checked
  obtain ⟨⟨⟨used, member⟩, s', ran, kept⟩, fine⟩ := checked
  have log : s'.log = s.log ++ s'.log.drop s.log.length := by
    nth_rewrite 1 [← List.take_append_drop s.log.length s'.log]
    rw [kept]
  refine ⟨s, s', reached, ran, ?_⟩
  refine ((data_events_truthful_iff reached).1 0 lastBytes s' _ used ran log 0 member).mpr ?_
  rintro - (memory | failed)
  · simpa using fine _ memory
  · simpa using fine _ failed

/-- A poll in which two bytes come at each client and then the connection fails. `moved` holds zero
where it was never set. -/
def failingBytes : Polled :=
  ⟨false, [], fun _ => ⟨true, false, false,
    [⟨smallMalloc, .received [104, 105]⟩, ⟨smallMalloc, .failed⟩], 0, []⟩⟩

/-- Two bytes are appended before an error, and no event tells of them. -/
theorem bytes_before_error_unannounced : ∃ s s', calls.Reachable s ∧
    serverPoll s 0 failingBytes = some s' ∧ 0 ∈ polledSlots s 0 ∧
    usedSpace (s.clients ⟨some 0, 0⟩).input = 0 ∧ usedSpace (s'.clients ⟨some 0, 0⟩).input = 2 ∧
    ¬ Truthful (.pushed ⟨some 0, 0⟩ .data ∈ s'.log.drop s.log.length) (s.clients ⟨some 0, 0⟩)
      (s'.clients ⟨some 0, 0⟩) := by
  have begun : calls.Reachable zeroed := .start zeroed_initial
  obtain ⟨s, reached, checked⟩ := begun.replay_check
    [.serverCreate 3 2, .serverPoll 0x80000000 oneConnection, .serverEvent 0x80000000]
    (fun s => 0 ∈ polledSlots s 0 && usedSpace (s.clients ⟨some 0, 0⟩).input = 0 &&
      (serverPoll s 0 failingBytes).any fun s' => usedSpace (s'.clients ⟨some 0, 0⟩).input = 2 &&
        .pushed ⟨some 0, 0⟩ .data ∉ s'.log.drop s.log.length) (by decide +kernel)
  simp only [Bool.and_eq_true, decide_eq_true_eq, Option.any_eq_true] at checked
  obtain ⟨⟨member, empty⟩, s', ran, two, silent⟩ := checked
  refine ⟨s, s', reached, ran, member, empty, two, fun truthful => silent (truthful.mpr ?_)⟩
  rw [empty, two]
  decide

end Mysnips.Tcp

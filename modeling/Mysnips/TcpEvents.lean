import Mysnips.ByteQueueFifo
import Mysnips.TcpClientHandles
import Mysnips.TcpOccupancy
import Mysnips.TcpQueues

/-! The events of a server. A poll that begins with no events pushes at most one for every
connection it accepts and at most two for every client it polls, and a connection is accepted into
a slot that was free. So the ring of `MAX_EVENTS_PER_CLIENT` events for each client is never full
when an event is pushed, and `tcp_server_event` hands out the events in the order of their pushes. -/
namespace Mysnips.Tcp
open ByteQueue Transition TcpHandle

/-! ## What a poll pushes -/

/-- The events that were pushed in a part of the log, in order, with their clients. -/
def pushes (new : List Record) : List (Ref × EventType) :=
  new.filterMap fun
    | .pushed ref type => some (ref, type)
    | _ => none

/-- The events that were pushed for a client in a part of the log, in order. -/
def kinds (new : List Record) (ref : Ref) : List EventType :=
  ((pushes new).filter (·.1 = ref)).map (·.2)

/-- The event that tells of a push. -/
def notice (s : State) (push : Ref × EventType) : Event :=
  ⟨push.2, (handleForClient s push.1).getD tcpInvalid⟩

theorem pushes_append (new more : List Record) : pushes (new ++ more) = pushes new ++ pushes more :=
  List.filterMap_append

theorem kinds_append (new more : List Record) (ref : Ref) :
    kinds (new ++ more) ref = kinds new ref ++ kinds more ref := by
  simp [kinds, pushes_append]

/-- A part of the log that tells of one client only, and of these events. -/
structure Tells (ref : Ref) (types : List EventType) (more : List Record) : Prop where
  pushes : pushes more = types.map (ref, ·)
  unopened : ∀ other, .opened other ∉ more

theorem Tells.nothing (ref : Ref) : Tells ref [] [] := ⟨rfl, fun _ => List.not_mem_nil⟩

theorem Tells.append {ref : Ref} {types types' : List EventType} {more more' : List Record}
    (first : Tells ref types more) (second : Tells ref types' more') :
    Tells ref (types ++ types') (more ++ more') where
  pushes := by rw [pushes_append, first.pushes, second.pushes, List.map_append]
  unopened other := by
    rw [List.mem_append]
    exact not_or.mpr ⟨first.unopened other, second.unopened other⟩

theorem Tells.kinds {ref : Ref} {types : List EventType} {more : List Record}
    (tells : Tells ref types more) : kinds more ref = types := by
  simp [Tcp.kinds, tells.pushes, List.filter_map, Function.comp_def]

theorem Tells.kinds_other {ref other : Ref} {types : List EventType} {more : List Record}
    (tells : Tells ref types more) (different : other ≠ ref) : Tcp.kinds more other = [] := by
  simp [Tcp.kinds, tells.pushes, List.filter_map, Function.comp_def, different.symm]

/-- A handle can be made for every client of a server that can be polled. -/
theorem handle_made {s : State} {sdx slot : Nat} (issues : Issues s) (owned : Owned s sdx slot)
    (small : (s.servers sdx).capacity < maxPoll) :
    ∃ handle, handleForClient s ⟨some sdx, slot⟩ = some handle := by
  have gen := issues.generation ⟨some sdx, slot⟩ (fun _ same => by cases same; exact owned.1)
  have narrow : (s.clients ⟨some sdx, slot⟩).gen < 2 ^ 12 := by
    rw [gen]
    exact generation_lt ..
  have inside : slot < 128 := owned.2.trans small
  obtain rfl : sdx = 0 := Nat.lt_one_iff.mp (issues.bounded sdx owned.1).1
  have size : UInt32.size = 4294967296 := rfl
  obtain ⟨handle, packed, -⟩ := packHandle_value (f := ⟨.ofNat (1 + 0), .ofNat slot,
    .ofNat (s.clients ⟨some 0, slot⟩).gen, 0⟩) (by
      refine ⟨by simp, ?_, ?_, by simp⟩
      · rw [UInt32.toNat_ofNat_of_lt' (by omega)]
        omega
      · rw [UInt32.toNat_ofNat_of_lt' (by omega)]
        exact narrow)
  exact ⟨handle, packed⟩

/-- A server that is polled: it has no events left, and its descriptors fit into the array of
`poll`. The rest holds in every reachable state. -/
structure Pollable (s : State) (sdx : Nat) : Prop where
  used : (s.servers sdx).state = .used
  small : (s.servers sdx).capacity < maxPoll
  empty : (s.servers sdx).eventsCount = 0
  sound : Sound s
  issues : Issues s
  counted : Counted s

/-- A poll under way: the events are those that it pushed, in order. -/
structure Polling (s : State) (sdx : Nat) (t : State) (new : List Record) : Prop where
  reaches : Reaches s t
  log : t.log = s.log ++ new
  orderly : Orderly (t.servers sdx)
  ring : (t.servers sdx).queued = (pushes new).map (notice s)
  made : ∀ push ∈ pushes new, (handleForClient s push.1).isSome

theorem Polling.count {s t : State} {sdx : Nat} {new : List Record} (polling : Polling s sdx t new) :
    (t.servers sdx).eventsCount = (pushes new).length := by
  rw [← Server.queued_length, polling.ring, List.length_map]

theorem Polling.capacity {s t : State} {sdx : Nat} {new : List Record}
    (polling : Polling s sdx t new) : (t.servers sdx).capacity = (s.servers sdx).capacity :=
  (polling.reaches.2 sdx).2

theorem Polling.start {s : State} {sdx : Nat} (pollable : Pollable s sdx) :
    Polling s sdx s [] where
  reaches := .refl
  log := (List.append_nil _).symm
  orderly := pollable.sound.servers sdx
  ring := by simp [Server.queued, pollable.empty, pushes]
  made := List.forall_mem_nil _

theorem Polling.inUse {s t : State} {sdx slot : Nat} {new : List Record}
    (polling : Polling s sdx t new) (owned : Owned s sdx slot)
    (live : (t.clients ⟨some sdx, slot⟩).state ≠ .free) : InUse t ⟨some sdx, slot⟩ :=
  (polling.reaches.2.owned owned).inUse live

/-- A part of a poll that pushes nothing. -/
theorem Polling.step {s t t' : State} {sdx : Nat} {new more : List Record}
    (polling : Polling s sdx t new) (reaches : Reaches t t') (log : t'.log = t.log ++ more)
    (orderly : Orderly (t'.servers sdx)) (ring : (t'.servers sdx).queued = (t.servers sdx).queued)
    (silent : pushes more = []) : Polling s sdx t' (new ++ more) where
  reaches := polling.reaches.trans reaches
  log := by rw [log, polling.log, List.append_assoc]
  orderly := orderly
  ring := by rw [ring, polling.ring, pushes_append, silent, List.append_nil]
  made := by
    rw [pushes_append, silent, List.append_nil]
    exact polling.made

/-- A part of a poll about one client, with the events it pushed. -/
structure Told (s : State) (sdx : Nat) (ref : Ref) (t : State) (new : List Record) (t' : State)
    (types : List EventType) (more : List Record) : Prop where
  polling : Polling s sdx t' (new ++ more)
  tells : Tells ref types more
  clients : ∀ other, other ≠ ref → t'.clients other = t.clients other

theorem Told.nothing {s t : State} {sdx : Nat} {ref : Ref} {new : List Record}
    (polling : Polling s sdx t new) : Told s sdx ref t new t [] [] where
  polling := by
    rw [List.append_nil]
    exact polling
  tells := .nothing ref
  clients _ _ := rfl

theorem Told.trans {s t t' t'' : State} {sdx : Nat} {ref : Ref} {new more more' : List Record}
    {types types' : List EventType} (first : Told s sdx ref t new t' types more)
    (second : Told s sdx ref t' (new ++ more) t'' types' more') :
    Told s sdx ref t new t'' (types ++ types') (more ++ more') where
  polling := by
    rw [← List.append_assoc]
    exact second.polling
  tells := first.tells.append second.tells
  clients other different := (second.clients other different).trans (first.clients other different)

theorem Told.length {s t t' : State} {sdx : Nat} {ref : Ref} {new more : List Record}
    {types : List EventType} (told : Told s sdx ref t new t' types more) :
    (pushes (new ++ more)).length = (pushes new).length + types.length := by
  rw [pushes_append, told.tells.pushes, List.length_append, List.length_map]

/-- The event of a client whose generation is as it was when the poll began. -/
theorem Polling.push {s t : State} {sdx slot : Nat} {new : List Record} (type : EventType)
    (polling : Polling s sdx t new) (pollable : Pollable s sdx) (inUse : InUse t ⟨some sdx, slot⟩)
    (gen : (t.clients ⟨some sdx, slot⟩).gen = (s.clients ⟨some sdx, slot⟩).gen)
    (room : (pushes new).length < (s.servers sdx).places) :
    ∃ t' more, pushEvent t sdx slot type = some t' ∧
      Told s sdx ⟨some sdx, slot⟩ t new t' [type] more ∧ t'.clients = t.clients ∧
      (t'.servers sdx).count = (t.servers sdx).count := by
  have owned : Owned s sdx slot := by
    have there := inUse.owned sdx rfl
    rw [(polling.reaches.2 sdx).1, polling.capacity] at there
    exact there
  obtain ⟨handle, made⟩ := handle_made pollable.issues owned pollable.small
  have packed : handleForClient t ⟨some sdx, slot⟩ = some handle := by
    rw [← made]
    simp only [handleForClient, gen]
  have places : (t.servers sdx).places = (s.servers sdx).places := by
    rw [Server.places, Server.places, polling.capacity]
  have free : (t.servers sdx).eventsCount < (t.servers sdx).places := by
    rw [polling.count, places]
    exact room
  have ran : pushEvent t sdx slot type = some (afterPush t sdx slot type handle) :=
    pushEvent_iff.mpr ⟨handle, packed, free, rfl⟩
  obtain ⟨_, serviced, -⟩ := Serviced.pushed inUse ran
  have server : (afterPush t sdx slot type handle).servers sdx =
      (t.servers sdx).enqueue ⟨type, handle⟩ := setServer_self
  refine ⟨_, [.issued ⟨some sdx, slot⟩ (t.servers sdx).life (t.clients ⟨some sdx, slot⟩).turn handle,
    .pushed ⟨some sdx, slot⟩ type], ran, ⟨⟨?_, ?_, ?_, ?_, ?_⟩, ⟨rfl, by simp⟩, fun _ _ => rfl⟩, rfl,
    by rw [server]; rfl⟩
  · exact polling.reaches.trans serviced.reaches
  · rw [afterPush, record_log, record_log, setServer_log, polling.log, List.append_assoc,
      List.append_assoc, List.singleton_append]
  · rw [server]
    exact polling.orderly.enqueue _
  · rw [server, enqueue_queued _ polling.orderly free, polling.ring, pushes_append, List.map_append]
    simp [pushes, notice, made]
  · rw [pushes_append]
    refine List.forall_mem_append.mpr ⟨polling.made, ?_⟩
    simp [pushes, made]

/-! ## What happens to each client -/

/-- What a poll has done to a client so far: how it left the structure, what it pushed for it, and
how many connections it accepted into it. -/
def Story (t : State) (new : List Record) (ref : Ref)
    (A : Client → List EventType → Nat → Prop) : Prop :=
  A (t.clients ref) (kinds new ref) (new.count (.opened ref))

/-- A part of a poll that concerns one client. -/
structure Elsewhere (ref : Ref) (t t' : State) (more : List Record) : Prop where
  clients : ∀ other, other ≠ ref → t'.clients other = t.clients other
  kinds : ∀ other, other ≠ ref → kinds more other = []
  unopened : ∀ other, other ≠ ref → .opened other ∉ more

theorem Elsewhere.story {ref other : Ref} {t t' : State} {new more : List Record}
    {A : Client → List EventType → Nat → Prop} (elsewhere : Elsewhere ref t t' more)
    (different : other ≠ ref) (story : Story t new other A) : Story t' (new ++ more) other A := by
  unfold Story
  rw [elsewhere.clients other different, kinds_append, elsewhere.kinds other different,
    List.append_nil, List.count_append, List.count_eq_zero.mpr (elsewhere.unopened other different)]
  exact story

theorem Told.elsewhere {s t t' : State} {sdx : Nat} {ref : Ref} {new more : List Record}
    {types : List EventType} (told : Told s sdx ref t new t' types more) :
    Elsewhere ref t t' more where
  clients := told.clients
  kinds _ different := told.tells.kinds_other different
  unopened other _ := told.tells.unopened other

/-- The poll has not come to the client. -/
structure Untouched (client client' : Client) (types : List EventType) (openings : Nat) : Prop where
  client : client' = client
  types : types = []
  openings : openings = 0

/-- A connection was accepted into the structure. -/
structure Taken (client client' : Client) (types : List EventType) (openings : Nat) : Prop where
  free : client.state = .free
  used : client'.state = .used
  gen : client'.gen = client.gen
  types : types = [.connect]
  openings : openings = 1

/-- The poll is accepting connections. There is a slot for each of them beside those of the clients
that are polled. -/
structure Accepting (s : State) (sdx : Nat) (t : State) (new : List Record) : Prop where
  polling : Polling s sdx t new
  budget : (pushes new).length + (polledSlots s sdx).length ≤ (t.servers sdx).count
  stories : ∀ ref, Story t new ref (Untouched (s.clients ref)) ∨ Story t new ref (Taken (s.clients ref))

theorem Counted.path {s t : State} (counted : Counted s) (path : Path s t) : Counted t := by
  induction path with
  | refl => exact counted
  | tail _ step ih => exact ih.micro step

theorem Counted.freeSlot {s : State} {sdx : Nat} (counted : Counted s)
    (used : (s.servers sdx).state = .used)
    (room : (s.servers sdx).count < (s.servers sdx).capacity) :
    ∃ slot, freeSlot s sdx = some slot := by
  have count := (counted sdx used).trans (served_split s sdx)
  exact Option.isSome_iff_exists.mp ((occupied_lt_iff s sdx).mp (by omega))

/-- The clients that are polled are there. -/
theorem polledSlots_le (s : State) (sdx : Nat) : (polledSlots s sdx).length ≤ occupied s sdx := by
  have nodup : (polledSlots s sdx).Nodup := List.nodup_range.filter _
  rw [← List.toFinset_card_of_nodup nodup]
  refine Finset.card_le_card fun slot member => ?_
  have ⟨inside, polled⟩ := List.mem_filter.mp (List.mem_toFinset.mp member)
  refine Finset.mem_filter.mpr ⟨Finset.mem_range.mpr (List.mem_range.mp inside), fun free => ?_⟩
  simp [free] at polled

theorem Accepting.start {s : State} {sdx : Nat} (pollable : Pollable s sdx) :
    Accepting s sdx s [] where
  polling := .start pollable
  budget := by
    have count := (pollable.counted sdx pollable.used).trans (served_split s sdx)
    have few := polledSlots_le s sdx
    rw [pushes, List.filterMap_nil, List.length_nil]
    omega
  stories ref := .inl ⟨rfl, rfl, rfl⟩

/-- One more connection. -/
theorem Accepting.accept {s t : State} {sdx : Nat} {new : List Record} (fd : Nat)
    (accepting : Accepting s sdx t new) (pollable : Pollable s sdx)
    (room : (t.servers sdx).count < (t.servers sdx).capacity) :
    ∃ t' new', acceptClient t sdx fd = some t' ∧ Accepting s sdx t' new' ∧
      (t'.servers sdx).count = (t.servers sdx).count + 1 := by
  have polling := accepting.polling
  have usedNow : (t.servers sdx).state = .used := (polling.reaches.2 sdx).1.trans pollable.used
  obtain ⟨slot, found⟩ := (pollable.counted.path polling.reaches.1).freeSlot usedNow room
  have freeNow : (t.clients ⟨some sdx, slot⟩).state = .free := by simpa using List.find?_some found
  have owned : Owned t sdx slot := ⟨usedNow, List.mem_range.mp (List.mem_of_find?_eq_some found)⟩
  have before : Story t new ⟨some sdx, slot⟩ (Untouched (s.clients ⟨some sdx, slot⟩)) := by
    refine (accepting.stories ⟨some sdx, slot⟩).resolve_right fun taken => ?_
    rw [taken.used] at freeNow
    cases freeNow
  have opened : Serviced t (openSlot t sdx slot fd) ⟨some sdx, slot⟩ _ := .opened owned freeNow
  have opening : Polling s sdx (openSlot t sdx slot fd) (new ++ [.opened ⟨some sdx, slot⟩]) := by
    have server : (openSlot t sdx slot fd).servers sdx =
        { t.servers sdx with count := (t.servers sdx).count + 1 } := setServer_self
    refine polling.step opened.reaches opened.log ?_ ?_ rfl
    · rw [server]
      exact ⟨polling.orderly.whole, polling.orderly.head, room⟩
    · rw [server]
      rfl
  have taken : (openSlot t sdx slot fd).clients ⟨some sdx, slot⟩ =
      { t.clients ⟨some sdx, slot⟩ with state := .used, fd, input := init, output := init } := by
    simp [openSlot]
  have silent : pushes (new ++ [.opened ⟨some sdx, slot⟩]) = pushes new := by
    rw [pushes_append]
    exact List.append_nil _
  have budget := accepting.budget
  obtain ⟨t', more, ran, ⟨after, tells, -⟩, clients, count⟩ := opening.push .connect pollable
    ((opened.servers.owned owned).inUse (by simp [taken])) (by rw [taken, ← before.client]) (by
      rw [silent, Server.places_eq, ← polling.capacity]
      omega)
  have counted : (t'.servers sdx).count = (t.servers sdx).count + 1 := by
    rw [count]
    simp [openSlot]
  have elsewhere : Elsewhere ⟨some sdx, slot⟩ t t' ([.opened ⟨some sdx, slot⟩] ++ more) := by
    refine ⟨fun other different => ?_, fun other different => ?_, fun other different => ?_⟩
    · rw [clients]
      exact opened.others other different
    · rw [kinds_append, tells.kinds_other different]
      rfl
    · rw [List.mem_append, List.mem_singleton, Record.opened.injEq]
      exact not_or.mpr ⟨different, tells.unopened other⟩
  refine ⟨t', _, ?_, ⟨after, ?_, fun ref => ?_⟩, counted⟩
  · rw [acceptClient, found]
    exact ran
  · rw [pushes_append, silent, tells.pushes, List.length_append, counted]
    simp only [List.map_singleton, List.length_singleton]
    omega
  · rw [List.append_assoc]
    by_cases here : ref = ⟨some sdx, slot⟩
    · subst here
      have empty := before.types
      have unopened := before.openings
      refine .inr ⟨before.client ▸ freeNow, by rw [clients, taken], ?_, ?_, ?_⟩
      · rw [clients, taken, ← before.client]
      · rw [kinds_append, kinds_append, empty, tells.kinds]
        rfl
      · rw [List.count_append, List.count_append, unopened,
          List.count_eq_zero.mpr (tells.unopened _)]
        simp
    · exact (accepting.stories ref).imp (elsewhere.story here) (elsewhere.story here)

/-- The results of `accept` that bring a connection. -/
def Accept.connects : Accept → Bool
  | .accepted _ unblocked => unblocked
  | _ => false

/-- The results of `accept` last until it would block or the server is full. -/
def AcceptsEnough (t : State) (sdx : Nat) (results : List Accept) : Prop :=
  .wouldBlock ∈ results ∨
    (t.servers sdx).capacity ≤ (t.servers sdx).count + results.countP (·.connects)

theorem Accepting.loop {s t : State} {sdx : Nat} {new : List Record} {results : List Accept}
    (accepting : Accepting s sdx t new) (pollable : Pollable s sdx)
    (enough : AcceptsEnough t sdx results) :
    ∃ t' new', acceptLoop sdx results t = some t' ∧ Accepting s sdx t' new' := by
  induction results generalizing t new with
  | nil =>
    have full : ¬ (t.servers sdx).count < (t.servers sdx).capacity := by
      simpa [AcceptsEnough] using enough
    exact ⟨t, new, by rw [acceptLoop, if_neg full], accepting⟩
  | cons result rest ih =>
    unfold acceptLoop
    by_cases room : (t.servers sdx).count < (t.servers sdx).capacity
    · rw [if_pos room]
      have skipped : result ≠ .wouldBlock → result.connects = false → AcceptsEnough t sdx rest := by
        intro different none
        simpa [AcceptsEnough, different.symm, none] using enough
      cases result with
      | wouldBlock => exact ⟨t, new, rfl, accepting⟩
      | failed => exact ih accepting (skipped nofun rfl)
      | accepted fd unblocked =>
        cases unblocked with
        | false => exact ih accepting (skipped nofun rfl)
        | true =>
          obtain ⟨t₁, new₁, ran, accepting₁, count⟩ :=
            accepting.accept fd pollable room
          have enough₁ : AcceptsEnough t₁ sdx rest := by
            rw [AcceptsEnough, count, accepting₁.polling.capacity]
            rw [AcceptsEnough, accepting.polling.capacity] at enough
            refine enough.imp (fun member => ?_) fun many => ?_
            · simpa using member
            · rw [List.countP_cons_of_pos rfl] at many
              omega
          obtain ⟨t', new', rest', accepting'⟩ := ih accepting₁ enough₁
          refine ⟨t', new', ?_, accepting'⟩
          simp only [ran]
          exact rest'
    · rw [if_neg room]
      exact ⟨t, new, rfl, accepting⟩

/-! ## The input of the polled clients -/

/-- The input of a client ends with the loss of its connection. -/
def LostInInput (client : Client) (traffic : Traffic) : Prop :=
  (traffic.pollin = true ∨ traffic.pollhup = true) ∧
    ∃ input ending, recvLoop traffic.recvs client.input = some (input, ending) ∧ ending ≠ .ok

/-- The input of a client was processed: it has got its bytes, or it has hung up. -/
structure Read (traffic : Traffic) (client client' : Client) (types : List EventType)
    (openings : Nat) : Prop where
  gen : client'.gen = client.gen
  output : client'.output = client.output
  openings : openings = 0
  ending : (client'.state = client.state ∧ ¬ LostInInput client traffic ∧
      (types = [] ∨ types = [.data])) ∨
    (client'.state = .hangup ∧ LostInInput client traffic ∧
      (types = [.disconnect] ∨ types = [.data, .disconnect]))

/-- A client of the server that is not polled. -/
def Unpolled (s : State) (sdx : Nat) (ref : Ref) : Prop :=
  ∀ slot ∈ polledSlots s sdx, ref ≠ ⟨some sdx, slot⟩

/-- A loop of a poll over its clients, with these left: what holds of a client before its turn and
what holds after it. -/
structure Visiting (s : State) (sdx : Nat)
    (before after : Nat → Client → List EventType → Nat → Prop) (rest : List Nat) (t : State)
    (new : List Record) : Prop where
  polling : Polling s sdx t new
  nodup : rest.Nodup
  left : ∀ slot ∈ rest, slot ∈ polledSlots s sdx
  waiting : ∀ slot ∈ rest, Story t new ⟨some sdx, slot⟩ (before slot)
  served : ∀ slot ∈ polledSlots s sdx, slot ∉ rest → Story t new ⟨some sdx, slot⟩ (after slot)
  others : ∀ ref, Unpolled s sdx ref →
    Story t new ref (Untouched (s.clients ref)) ∨ Story t new ref (Taken (s.clients ref))

theorem slots_apart {sdx slot other : Nat} (different : other ≠ slot) :
    (⟨some sdx, other⟩ : Ref) ≠ ⟨some sdx, slot⟩ := by
  rintro same
  cases same
  exact different rfl

/-- One more client had its turn. -/
theorem Visiting.step {s t t' : State} {sdx slot : Nat}
    {before after : Nat → Client → List EventType → Nat → Prop} {rest : List Nat}
    {new more : List Record} {types : List EventType}
    (visiting : Visiting s sdx before after (slot :: rest) t new)
    (told : Told s sdx ⟨some sdx, slot⟩ t new t' types more)
    (here : Story t' (new ++ more) ⟨some sdx, slot⟩ (after slot)) :
    Visiting s sdx before after rest t' (new ++ more) where
  polling := told.polling
  nodup := (List.nodup_cons.mp visiting.nodup).2
  left other member := visiting.left other (List.mem_cons_of_mem _ member)
  waiting other member := by
    refine told.elsewhere.story (slots_apart ?_)
      (visiting.waiting other (List.mem_cons_of_mem _ member))
    rintro rfl
    exact (List.nodup_cons.mp visiting.nodup).1 member
  served other inside done := by
    by_cases same : other = slot
    · rw [same]
      exact here
    · refine told.elsewhere.story (slots_apart same) (visiting.served other inside ?_)
      exact fun listed => (List.mem_cons.mp listed).elim same done
  others ref unpolled := by
    have different := unpolled slot (visiting.left slot List.mem_cons_self)
    exact (visiting.others ref unpolled).imp (told.elsewhere.story different)
      (told.elsewhere.story different)

/-- The loop over the input. Each client that is left may push two events. -/
structure Reading (s : State) (sdx : Nat) (polled : Polled) (rest : List Nat) (t : State)
    (new : List Record) : Prop where
  visiting : Visiting s sdx (fun slot => Untouched (s.clients ⟨some sdx, slot⟩))
    (fun slot => Read (polled.traffic slot) (s.clients ⟨some sdx, slot⟩)) rest t new
  budget : (pushes new).length + 2 * rest.length ≤ 2 * (s.servers sdx).capacity

/-- A client that gets another queue. -/
theorem Polling.touch {s t : State} {sdx slot : Nat} {new : List Record} {client : Client}
    (polling : Polling s sdx t new) (state : client.state = (t.clients ⟨some sdx, slot⟩).state)
    (gen : client.gen = (t.clients ⟨some sdx, slot⟩).gen)
    (turn : client.turn = (t.clients ⟨some sdx, slot⟩).turn) :
    Told s sdx ⟨some sdx, slot⟩ t new (t.setClient ⟨some sdx, slot⟩ client) [] [] where
  polling := polling.step (Serviced.touched state gen turn).reaches (List.append_nil _).symm
    polling.orderly rfl rfl
  tells := .nothing _
  clients _ different := setClient_ne different

/-- A client that is freed. -/
theorem Polling.freed {s t : State} {sdx slot : Nat} {new : List Record}
    (polling : Polling s sdx t new) (inUse : InUse t ⟨some sdx, slot⟩) :
    Told s sdx ⟨some sdx, slot⟩ t new (freeClient t ⟨some sdx, slot⟩) []
      [.freed ⟨some sdx, slot⟩] where
  polling := polling.step ⟨.single (.free _ inUse), fun _ => ⟨rfl, rfl⟩⟩ rfl polling.orderly rfl rfl
  tells := ⟨rfl, by simp⟩
  clients _ different := setClient_ne different

/-- The event of bytes that were moved. -/
theorem Polling.moved {s t : State} {sdx slot : Nat} {new : List Record} (moved : Nat)
    (polling : Polling s sdx t new) (pollable : Pollable s sdx) (inUse : InUse t ⟨some sdx, slot⟩)
    (gen : (t.clients ⟨some sdx, slot⟩).gen = (s.clients ⟨some sdx, slot⟩).gen)
    (room : (pushes new).length < (s.servers sdx).places) :
    ∃ t' more types, pushMoved t sdx slot moved = some t' ∧
      Told s sdx ⟨some sdx, slot⟩ t new t' types more ∧ t'.clients = t.clients ∧
      (types = [] ∨ types = [.data]) := by
  unfold pushMoved
  split
  · obtain ⟨t', more, ran, told, clients, -⟩ := polling.push .data pollable inUse gen room
    exact ⟨t', more, [.data], ran, told, clients, .inr rfl⟩
  · exact ⟨t, [], [], rfl, .nothing polling, rfl, .inl rfl⟩

/-- A client hangs up, and the event of it. -/
theorem Polling.hungUp {s t : State} {sdx slot : Nat} {new : List Record}
    (polling : Polling s sdx t new) (pollable : Pollable s sdx) (inUse : InUse t ⟨some sdx, slot⟩)
    (gen : (t.clients ⟨some sdx, slot⟩).gen = (s.clients ⟨some sdx, slot⟩).gen)
    (room : (pushes new).length < (s.servers sdx).places) :
    ∃ t' more, hangUp t sdx slot = some t' ∧
      Told s sdx ⟨some sdx, slot⟩ t new t' [.disconnect] more ∧
      t'.clients ⟨some sdx, slot⟩ = { t.clients ⟨some sdx, slot⟩ with state := .hangup } := by
  have hung := Serviced.hungUp inUse
  have first : Told s sdx ⟨some sdx, slot⟩ t new ((t.setClient ⟨some sdx, slot⟩
      { t.clients ⟨some sdx, slot⟩ with state := .hangup }).record (.hungUp ⟨some sdx, slot⟩)) []
      [.hungUp ⟨some sdx, slot⟩] :=
    ⟨polling.step hung.reaches hung.log polling.orderly rfl rfl, ⟨rfl, by simp⟩, hung.others⟩
  have kept := (hung.servers.owned (inUse.owned sdx rfl)).inUse (hung.unfreed inUse.used)
  obtain ⟨t', more, ran, second, clients, -⟩ := first.polling.push .disconnect pollable kept
    (by simpa using gen) (by rw [first.length]; exact room)
  refine ⟨t', _, ran, first.trans second, ?_⟩
  rw [clients]
  simp

/-- What the input of one client pushes. -/
theorem Polling.input {s t : State} {sdx slot : Nat} {new : List Record} {traffic : Traffic}
    (polling : Polling s sdx t new) (pollable : Pollable s sdx) (owned : Owned s sdx slot)
    (live : (s.clients ⟨some sdx, slot⟩).state ≠ .free)
    (same : t.clients ⟨some sdx, slot⟩ = s.clients ⟨some sdx, slot⟩)
    (room : (pushes new).length + 2 ≤ (s.servers sdx).places)
    (complete : traffic.pollin = true ∨ traffic.pollhup = true →
      (recvLoop traffic.recvs (s.clients ⟨some sdx, slot⟩).input).isSome) :
    ∃ t' more types, pollInput t sdx slot traffic = some t' ∧
      Told s sdx ⟨some sdx, slot⟩ t new t' types more ∧
      Read traffic (s.clients ⟨some sdx, slot⟩) (t'.clients ⟨some sdx, slot⟩) types 0 := by
  have present : (t.clients ⟨some sdx, slot⟩).state ≠ .free := by
    rw [same]
    exact live
  unfold pollInput
  simp only
  rw [if_neg present]
  by_cases reported : traffic.pollin = true ∨ traffic.pollhup = true
  · rw [if_pos reported]
    obtain ⟨⟨input, ending⟩, received⟩ := Option.isSome_iff_exists.mp (complete reported)
    have came : clientInput (t.clients ⟨some sdx, slot⟩) traffic = some (input, ending,
        if ending = .error then traffic.unset
        else Machine.sub64 (usedSpace input) (usedSpace (t.clients ⟨some sdx, slot⟩).input)) := by
      rw [clientInput, same, received]
      rfl
    generalize (if ending = .error then traffic.unset
      else Machine.sub64 (usedSpace input) (usedSpace (t.clients ⟨some sdx, slot⟩).input)) = moved
      at came
    have first : Told s sdx ⟨some sdx, slot⟩ t new (t.setClient ⟨some sdx, slot⟩
        { t.clients ⟨some sdx, slot⟩ with input }) [] [] := polling.touch rfl rfl rfl
    obtain ⟨t₁, more, types, ran, second, clients, either⟩ :=
      first.polling.moved moved pollable
        (first.polling.inUse owned (by simpa using present)) (by simp [same])
        (by rw [first.length, List.length_nil]; omega)
    have both := first.trans second
    have client : t₁.clients ⟨some sdx, slot⟩ = { s.clients ⟨some sdx, slot⟩ with input } := by
      rw [clients, setClient_self, same]
    have few : types.length ≤ 1 := by
      rcases either with rfl | rfl <;> simp
    simp only [came, Option.bind_eq_bind, Option.bind_some, ran]
    by_cases ok : ending = .ok
    · have kept : ¬ LostInInput (s.clients ⟨some sdx, slot⟩) traffic := by
        rintro ⟨-, input', ending', received', lost⟩
        rw [received] at received'
        cases received'
        exact lost ok
      rw [if_neg (not_not.mpr ok)]
      exact ⟨t₁, _, types, rfl, both, by rw [client], by rw [client], rfl,
        .inl ⟨by rw [client], kept, either⟩⟩
    · rw [if_pos ok]
      have kept : InUse t₁ ⟨some sdx, slot⟩ := both.polling.inUse owned (by rw [client]; exact live)
      obtain ⟨t₂, more', hung, third, left⟩ := both.polling.hungUp pollable kept
        (by rw [client]) (by rw [both.length, List.nil_append]; omega)
      have lost : LostInInput (s.clients ⟨some sdx, slot⟩) traffic :=
        ⟨reported, input, ending, received, ok⟩
      refine ⟨t₂, _, _, hung, both.trans third, by rw [left, client], by rw [left, client], rfl,
        .inr ⟨by rw [left], lost, ?_⟩⟩
      rcases either with rfl | rfl
      · exact .inl rfl
      · exact .inr rfl
  · have kept : ¬ LostInInput (s.clients ⟨some sdx, slot⟩) traffic :=
      fun lost => reported lost.1
    rw [if_neg reported]
    exact ⟨t, [], [], rfl, .nothing polling, by rw [same], by rw [same], rfl,
      .inl ⟨by rw [same], kept, .inl rfl⟩⟩

/-- What the log says of a client, after a part of a poll about it. -/
theorem Told.here {s t t' : State} {sdx : Nat} {ref : Ref} {new more : List Record}
    {types : List EventType} {A : Client → List EventType → Nat → Prop}
    (told : Told s sdx ref t new t' types more)
    (story : A (t'.clients ref) (kinds new ref ++ types) (new.count (.opened ref))) :
    Story t' (new ++ more) ref A := by
  unfold Story
  rw [kinds_append, told.tells.kinds, List.count_append,
    List.count_eq_zero.mpr (told.tells.unopened ref)]
  exact story

theorem polled_live {s : State} {sdx slot : Nat} (member : slot ∈ polledSlots s sdx) :
    (s.clients ⟨some sdx, slot⟩).state = .used ∨ (s.clients ⟨some sdx, slot⟩).state = .close := by
  simpa using (List.mem_filter.mp member).2

theorem Read.length {traffic : Traffic} {client client' : Client} {types : List EventType}
    {openings : Nat} (read : Read traffic client client' types openings) : types.length ≤ 2 := by
  rcases read.ending with ⟨-, -, rfl | rfl⟩ | ⟨-, -, rfl | rfl⟩ <;> simp

/-- The input of one more client. -/
theorem Reading.step {s t : State} {sdx slot : Nat} {polled : Polled} {rest : List Nat}
    {new : List Record} (reading : Reading s sdx polled (slot :: rest) t new)
    (pollable : Pollable s sdx)
    (complete : (polled.traffic slot).pollin = true ∨ (polled.traffic slot).pollhup = true →
      (recvLoop (polled.traffic slot).recvs (s.clients ⟨some sdx, slot⟩).input).isSome) :
    ∃ t' new', pollInput t sdx slot (polled.traffic slot) = some t' ∧
      Reading s sdx polled rest t' new' := by
  have member := reading.visiting.left slot List.mem_cons_self
  have live : (s.clients ⟨some sdx, slot⟩).state ≠ .free := by
    rcases polled_live member with state | state <;> simp [state]
  have before := reading.visiting.waiting slot List.mem_cons_self
  have budget := reading.budget
  rw [List.length_cons] at budget
  obtain ⟨t', more, types, ran, told, read⟩ := reading.visiting.polling.input pollable
    (polledSlots_owned pollable.used slot member) live before.client
    (by rw [Server.places_eq]; omega) complete
  have here : Story t' (new ++ more) ⟨some sdx, slot⟩
      (Read (polled.traffic slot) (s.clients ⟨some sdx, slot⟩)) := by
    apply told.here
    rw [before.types, before.openings]
    exact read
  refine ⟨t', _, ran, reading.visiting.step told here, ?_⟩
  have few := read.length
  rw [told.length]
  omega

/-! ## The output of the polled clients -/

/-- The poll is done with a client: it pushed each of the two events at most once. -/
structure Done (types : List EventType) (openings : Nat) : Prop where
  openings : openings = 0
  types : types = [] ∨ types = [.data] ∨ types = [.disconnect] ∨ types = [.data, .disconnect]

/-- The loop over the output. Each client that is left may push one event. -/
structure Writing (s : State) (sdx : Nat) (polled : Polled) (rest : List Nat) (t : State)
    (new : List Record) : Prop where
  visiting : Visiting s sdx (fun slot => Read (polled.traffic slot) (s.clients ⟨some sdx, slot⟩))
    (fun _ _ => Done) rest t new
  budget : (pushes new).length + rest.length ≤ (s.servers sdx).places

/-- What the output of one client pushes. -/
theorem Polling.output {s t : State} {sdx slot : Nat} {new : List Record} {traffic : Traffic}
    (polling : Polling s sdx t new) (pollable : Pollable s sdx) (owned : Owned s sdx slot)
    (live : (s.clients ⟨some sdx, slot⟩).state = .used ∨ (s.clients ⟨some sdx, slot⟩).state = .close)
    {types : List EventType} (read : Read traffic (s.clients ⟨some sdx, slot⟩)
      (t.clients ⟨some sdx, slot⟩) types 0)
    (room : (pushes new).length < (s.servers sdx).places)
    (complete : traffic.pollout = true → LostInInput (s.clients ⟨some sdx, slot⟩) traffic ∨
      (sendLoop traffic.sends 0 (s.clients ⟨some sdx, slot⟩).output).isSome) :
    ∃ t' more types', pollOutput t sdx slot traffic = some t' ∧
      Told s sdx ⟨some sdx, slot⟩ t new t' types' more ∧ types'.length ≤ 1 ∧
      Done (types ++ types') 0 := by
  unfold pollOutput
  simp only
  rcases read.ending with ⟨state, kept, either⟩ | ⟨state, lost, either⟩
  · -- The client may write.
    have present : ¬ ((t.clients ⟨some sdx, slot⟩).state ≠ .used ∧
        (t.clients ⟨some sdx, slot⟩).state ≠ .close) := by
      rw [state]
      exact fun neither => live.elim neither.1 neither.2
    have inUse : InUse t ⟨some sdx, slot⟩ := by
      apply polling.inUse owned
      rw [state]
      rcases live with live | live <;> simp [live]
    have quiet : Done (types ++ []) 0 := by
      rw [List.append_nil]
      exact ⟨rfl, either.imp_right .inl⟩
    rw [if_neg present]
    by_cases reported : traffic.pollout = true
    · obtain ⟨⟨output, sent⟩, flushed⟩ :=
        Option.isSome_iff_exists.mp ((complete reported).resolve_left kept)
      have first : Told s sdx ⟨some sdx, slot⟩ t new (t.setClient ⟨some sdx, slot⟩
          { t.clients ⟨some sdx, slot⟩ with output }) [] [] := polling.touch rfl rfl rfl
      have inUse₁ := first.polling.inUse owned (by simpa using inUse.used)
      rw [if_pos reported, read.output]
      simp only [flushed, Option.bind_eq_bind, Option.bind_some]
      by_cases closing : (t.clients ⟨some sdx, slot⟩).state = .close
      · rw [if_pos closing]
        split
        · exact ⟨_, _, _, rfl, first.trans (first.polling.freed inUse₁), by simp, quiet⟩
        · exact ⟨_, _, _, rfl, first, by simp, quiet⟩
      · rw [if_neg closing]
        split
        · obtain ⟨t', more, hung, second, -⟩ := first.polling.hungUp pollable inUse₁
            (by simpa using read.gen) (by rw [first.length]; exact room)
          refine ⟨t', _, _, hung, first.trans second, by simp, rfl, ?_⟩
          rcases either with rfl | rfl
          · exact .inr (.inr (.inl rfl))
          · exact .inr (.inr (.inr rfl))
        · exact ⟨_, _, _, rfl, first, by simp, quiet⟩
    · rw [if_neg reported]
      exact ⟨t, [], [], rfl, .nothing polling, by simp, quiet⟩
  · -- The client has hung up, and is passed over.
    rw [if_pos (by rw [state]; exact ⟨nofun, nofun⟩)]
    refine ⟨t, [], [], rfl, .nothing polling, by simp, ?_⟩
    rw [List.append_nil]
    exact ⟨rfl, .inr (.inr either)⟩

/-- The output of one more client. -/
theorem Writing.step {s t : State} {sdx slot : Nat} {polled : Polled} {rest : List Nat}
    {new : List Record} (writing : Writing s sdx polled (slot :: rest) t new) (pollable : Pollable s sdx)
    (complete : (polled.traffic slot).pollout = true →
      LostInInput (s.clients ⟨some sdx, slot⟩) (polled.traffic slot) ∨
        (sendLoop (polled.traffic slot).sends 0 (s.clients ⟨some sdx, slot⟩).output).isSome) :
    ∃ t' new', pollOutput t sdx slot (polled.traffic slot) = some t' ∧
      Writing s sdx polled rest t' new' := by
  have member := writing.visiting.left slot List.mem_cons_self
  have before := writing.visiting.waiting slot List.mem_cons_self
  have budget := writing.budget
  rw [List.length_cons] at budget
  have unopened := before.openings
  rw [Story, unopened] at before
  obtain ⟨t', more, types, ran, told, few, done⟩ := writing.visiting.polling.output pollable
    (polledSlots_owned pollable.used slot member) (polled_live member) before (by omega) complete
  have here : Story t' (new ++ more) ⟨some sdx, slot⟩ fun _ => Done := by
    apply told.here
    rw [unopened]
    exact done
  refine ⟨t', _, ran, writing.visiting.step told here, ?_⟩
  rw [told.length]
  omega

/-! ## A whole poll -/

/-- Clients that are served one after the other, each from what holds with it and the others
left. -/
theorem slots_complete {P : List Nat → State → Prop} {serve : State → Nat → Option State}
    (step : ∀ slot rest s, P (slot :: rest) s → ∃ s', serve s slot = some s' ∧ P rest s')
    {slots : List Nat} {s : State} (before : P slots s) :
    ∃ s', slots.foldlM serve s = some s' ∧ P [] s' := by
  induction slots generalizing s with
  | nil => exact ⟨s, rfl, before⟩
  | cons slot rest ih =>
    obtain ⟨s₁, served, after⟩ := step slot rest s before
    obtain ⟨s', ran, last⟩ := ih after
    refine ⟨s', ?_, last⟩
    rw [List.foldlM_cons, served]
    exact ran

/-- What the calls of a poll return lasts until the loops that make them end. A client that is
lost in its input gets no output. -/
structure Complete (s : State) (sdx : Nat) (polled : Polled) : Prop where
  accepts : polled.pollin = true → AcceptsEnough s sdx polled.accepts
  input : ∀ slot ∈ polledSlots s sdx,
    (polled.traffic slot).pollin = true ∨ (polled.traffic slot).pollhup = true →
      (recvLoop (polled.traffic slot).recvs (s.clients ⟨some sdx, slot⟩).input).isSome
  output : ∀ slot ∈ polledSlots s sdx, (polled.traffic slot).pollout = true →
    LostInInput (s.clients ⟨some sdx, slot⟩) (polled.traffic slot) ∨
      (sendLoop (polled.traffic slot).sends 0 (s.clients ⟨some sdx, slot⟩).output).isSome

/-- The events of a poll: at most one about data and one about the end of the connection for a
client that is polled, and one about the connection for each one that is accepted. -/
structure FewEvents (s : State) (sdx : Nat) (new : List Record) : Prop where
  polled : ∀ slot ∈ polledSlots s sdx,
    Done (kinds new ⟨some sdx, slot⟩) (new.count (.opened ⟨some sdx, slot⟩))
  others : ∀ ref, Unpolled s sdx ref →
    (kinds new ref = [] ∧ new.count (.opened ref) = 0) ∨
      (kinds new ref = [.connect] ∧ new.count (.opened ref) = 1)

theorem polledSlots_capacity (s : State) (sdx : Nat) :
    (polledSlots s sdx).length ≤ (s.servers sdx).capacity := by
  have filtered := List.length_filter_le (fun slot => decide
    ((s.clients ⟨some sdx, slot⟩).state = .used ∨ (s.clients ⟨some sdx, slot⟩).state = .close))
    (List.range (s.servers sdx).capacity)
  rw [List.length_range] at filtered
  exact filtered

/-- Every connection that was accepted took a slot that is not polled. -/
theorem Accepting.reading {s t : State} {sdx : Nat} {new : List Record} (polled : Polled)
    (accepting : Accepting s sdx t new) : Reading s sdx polled (polledSlots s sdx) t new where
  visiting :=
    { polling := accepting.polling
      nodup := List.nodup_range.filter _
      left := fun _ member => member
      waiting := by
        intro slot member
        refine (accepting.stories ⟨some sdx, slot⟩).resolve_right fun taken => ?_
        rcases polled_live member with state | state <;> simp [taken.free] at state
      served := fun _ member absent => absurd member absent
      others := fun ref _ => accepting.stories ref }
  budget := by
    have few := accepting.budget.trans accepting.polling.orderly.count
    rw [accepting.polling.capacity] at few
    omega

theorem Reading.writing {s t : State} {sdx : Nat} {polled : Polled} {new : List Record}
    (reading : Reading s sdx polled [] t new) :
    Writing s sdx polled (polledSlots s sdx) t new where
  visiting :=
    { polling := reading.visiting.polling
      nodup := List.nodup_range.filter _
      left := fun _ member => member
      waiting := fun slot member => reading.visiting.served slot member List.not_mem_nil
      served := fun _ member absent => absurd member absent
      others := reading.visiting.others }
  budget := by
    have budget := reading.budget
    have few := polledSlots_capacity s sdx
    rw [List.length_nil] at budget
    rw [Server.places_eq]
    omega

theorem Writing.few {s t : State} {sdx : Nat} {polled : Polled} {new : List Record}
    (writing : Writing s sdx polled [] t new) : FewEvents s sdx new where
  polled slot member := writing.visiting.served slot member List.not_mem_nil
  others ref unpolled :=
    (writing.visiting.others ref unpolled).imp (fun still => ⟨still.types, still.openings⟩)
      fun taken => ⟨taken.types, taken.openings⟩

/-- The parts of a poll follow one another. -/
theorem poll_complete {s : State} {sdx : Nat} {polled : Polled} (pollable : Pollable s sdx)
    (complete : Complete s sdx polled) :
    ∃ s' new, serverPoll s sdx polled = some s' ∧ Writing s sdx polled [] s' new := by
  have accepting : ∃ t new, pollAccept s sdx polled = some t ∧ Accepting s sdx t new := by
    have start := Accepting.start pollable
    unfold pollAccept
    by_cases waiting : polled.pollin = true
    · rw [if_pos waiting]
      exact start.loop pollable (complete.accepts waiting)
    · rw [if_neg waiting]
      exact ⟨s, [], rfl, start⟩
  obtain ⟨t₁, new₁, accepted, accepting⟩ := accepting
  have taking : ∃ t, (polledSlots s sdx).foldlM
      (fun t slot => pollInput t sdx slot (polled.traffic slot)) t₁ = some t ∧
        ∃ new, Reading s sdx polled [] t new := by
    refine slots_complete (P := fun rest t => ∃ new, Reading s sdx polled rest t new) ?_
      ⟨new₁, accepting.reading polled⟩
    rintro slot rest t ⟨_, reading⟩
    obtain ⟨t', new', ran, after⟩ := reading.step pollable
      (complete.input slot (reading.visiting.left slot List.mem_cons_self))
    exact ⟨t', ran, new', after⟩
  obtain ⟨t₂, taken, new₂, reading⟩ := taking
  have flushing : ∃ t, (polledSlots s sdx).foldlM
      (fun t slot => pollOutput t sdx slot (polled.traffic slot)) t₂ = some t ∧
        ∃ new, Writing s sdx polled [] t new := by
    refine slots_complete (P := fun rest t => ∃ new, Writing s sdx polled rest t new) ?_
      ⟨new₂, reading.writing⟩
    rintro slot rest t ⟨_, writing⟩
    obtain ⟨t', new', ran, after⟩ := writing.step pollable
      (complete.output slot (writing.visiting.left slot List.mem_cons_self))
    exact ⟨t', ran, new', after⟩
  obtain ⟨t₃, flushed, new₃, writing⟩ := flushing
  refine ⟨t₃, new₃, ?_, writing⟩
  have room : (s.servers sdx).count < maxPoll := (pollable.sound.servers sdx).count.trans_lt pollable.small
  rw [serverPoll, if_pos ⟨pollable.empty, room⟩, accepted]
  simp only [Option.bind_eq_bind, Option.bind_some, taken]
  exact flushed

/-- In every reachable state a poll of a server without events runs through, so that no event finds
the ring full, whatever the calls of the poll return. It pushes few events for each client, and
successive calls of `tcp_server_event` hand them out in the order of their pushes, with the handles
of their clients, and then none. -/
theorem poll_events_fifo {s : State} {sdx : Nat} {polled : Polled} (reached : calls.Reachable s)
    (used : (s.servers sdx).state = .used) (small : (s.servers sdx).capacity < maxPoll)
    (none : (s.servers sdx).eventsCount = 0) (complete : Complete s sdx polled) :
    ∃ s' new, serverPoll s sdx polled = some s' ∧ s'.log = s.log ++ new ∧ FewEvents s sdx new ∧
      (∀ push ∈ pushes new, (handleForClient s push.1).isSome) ∧
      ∀ more, drain sdx ((pushes new).length + more) s' =
        (pushes new).map (notice s) ++ List.replicate more noEvent := by
  have pollable : Pollable s sdx := ⟨used, small, none, reachable_sound reached,
    reachable_issues reached, reachable_counted reached⟩
  obtain ⟨s', new, ran, writing⟩ := poll_complete pollable complete
  have polling := writing.visiting.polling
  have few : (s'.servers sdx).eventsCount ≤ (s'.servers sdx).places := by
    have budget := writing.budget
    rw [polling.count, Server.places, polling.capacity]
    exact budget
  refine ⟨s', new, ran, polling.log, writing.few, polling.made, fun more => ?_⟩
  rw [← polling.count, ← polling.ring]
  exact drain_queued polling.orderly few more

/-- A poll that finds some bytes at each client and then the end of its connection. -/
def lastBytes : Polled :=
  ⟨false, [], fun _ => ⟨true, false, false,
    [⟨smallMalloc, .received [104, 105]⟩, ⟨smallMalloc, .disconnected⟩], 0, []⟩⟩

/-- The two events of a client that sent something and left. -/
theorem poll_events_fifo_applies : ∃ s s' new, calls.Reachable s ∧
    serverPoll s 0 lastBytes = some s' ∧ FewEvents s 0 new ∧
    drain 0 3 s' = [⟨.data, 0x08000002⟩, ⟨.disconnect, 0x08000002⟩, noEvent] := by
  have begun : calls.Reachable zeroed := .start zeroed_initial
  obtain ⟨s, reached, checked⟩ := begun.replay_check
    [.serverCreate 3 2, .serverPoll 0x80000000 oneConnection, .serverEvent 0x80000000]
    (fun s => (s.servers 0).state = .used && (s.servers 0).capacity < maxPoll &&
      (s.servers 0).eventsCount = 0 && ((polledSlots s 0).all fun slot =>
        (recvLoop (lastBytes.traffic slot).recvs (s.clients ⟨some 0, slot⟩).input).isSome) &&
      ((serverPoll s 0 lastBytes).all fun s' =>
        drain 0 3 s' = [⟨.data, 0x08000002⟩, ⟨.disconnect, 0x08000002⟩, noEvent])) (by decide +kernel)
  simp only [Bool.and_eq_true, decide_eq_true_eq, List.all_eq_true] at checked
  obtain ⟨⟨⟨⟨used, small⟩, none⟩, received⟩, drained⟩ := checked
  have complete : Complete s 0 lastBytes := ⟨nofun, fun slot member _ => received slot member, nofun⟩
  obtain ⟨s', new, ran, -, few, -⟩ := poll_events_fifo reached used small none complete
  rw [ran] at drained
  exact ⟨s, s', new, reached, ran, few, by simpa using drained⟩

end Mysnips.Tcp

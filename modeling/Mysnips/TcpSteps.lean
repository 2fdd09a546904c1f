import Mathlib.Logic.Relation
import Mysnips.Tcp

/-! What the calls of the TCP module can do, in small steps. Every call is a path of
steps, and a step changes one client or one server and leaves at most one entry in the
log. -/
namespace Mysnips.Tcp
open ByteQueue Transition

section Fields

variable {s : State} {ref other : Ref} {client : Client} {sdx : Nat} {server : Server}
  {entry : Record}

@[simp] theorem setClient_servers : (s.setClient ref client).servers = s.servers := rfl

@[simp] theorem setClient_log : (s.setClient ref client).log = s.log := rfl

@[simp] theorem setClient_self : (s.setClient ref client).clients ref = client :=
  Function.update_self ..

theorem setClient_ne (different : other ≠ ref) :
    (s.setClient ref client).clients other = s.clients other :=
  Function.update_of_ne different ..

@[simp] theorem setServer_clients : (s.setServer sdx server).clients = s.clients := rfl

@[simp] theorem setServer_log : (s.setServer sdx server).log = s.log := rfl

@[simp] theorem setServer_self : (s.setServer sdx server).servers sdx = server :=
  Function.update_self ..

theorem setServer_ne {sdx' : Nat} (different : sdx' ≠ sdx) :
    (s.setServer sdx server).servers sdx' = s.servers sdx' := Function.update_of_ne different ..

@[simp] theorem record_servers : (s.record entry).servers = s.servers := rfl

@[simp] theorem record_clients : (s.record entry).clients = s.clients := rfl

@[simp] theorem record_log : (s.record entry).log = s.log ++ [entry] := rfl

end Fields

/-- The life of the array that a client is in. -/
def State.life (s : State) (ref : Ref) : Nat :=
  match ref.server with
  | some sdx => (s.servers sdx).life
  | none => 0

/-- A structure that is in use: one of the stand-alone ones, or one in the array of a server. -/
structure InUse (s : State) (ref : Ref) : Prop where
  alone : ref.server = none → ref.slot < maxClients
  owned : ∀ sdx, ref.server = some sdx →
    (s.servers sdx).state = .used ∧ ref.slot < (s.servers sdx).capacity
  used : (s.clients ref).state ≠ .free

/-- The smallest steps of the calls. -/
inductive Micro (s : State) : State → Prop where
  | touch (ref : Ref) (client : Client) (state : client.state = (s.clients ref).state)
      (gen : client.gen = (s.clients ref).gen) (turn : client.turn = (s.clients ref).turn) :
      Micro s (s.setClient ref client)
  | ring (sdx : Nat) (server : Server) (state : server.state = (s.servers sdx).state)
      (count : server.count = (s.servers sdx).count)
      (capacity : server.capacity = (s.servers sdx).capacity)
      (life : server.life = (s.servers sdx).life) : Micro s (s.setServer sdx server)
  | issue (ref : Ref) (handle : UInt32) (inUse : InUse s ref)
      (packed : handleForClient s ref = some handle) :
      Micro s (s.record (.issued ref (s.life ref) (s.clients ref).turn handle))
  | push (ref : Ref) (type : EventType) : Micro s (s.record (.pushed ref type))
  | hangUp (ref : Ref) (inUse : InUse s ref) :
      Micro s ((s.setClient ref { s.clients ref with state := .hangup }).record (.hungUp ref))
  | close (ref : Ref) (inUse : InUse s ref) :
      Micro s ((s.setClient ref { s.clients ref with state := .close }).record (.closing ref))
  | free (ref : Ref) (inUse : InUse s ref) : Micro s (freeClient s ref)
  | accept (sdx slot : Nat) (client : Client) (used : (s.servers sdx).state = .used)
      (inside : slot < (s.servers sdx).capacity)
      (free : (s.clients ⟨some sdx, slot⟩).state = .free) (state : client.state = .used)
      (gen : client.gen = (s.clients ⟨some sdx, slot⟩).gen)
      (turn : client.turn = (s.clients ⟨some sdx, slot⟩).turn) :
      Micro s (((s.setClient ⟨some sdx, slot⟩ client).record (.opened ⟨some sdx, slot⟩)).setServer
        sdx { s.servers sdx with count := (s.servers sdx).count + 1 })
  | connect (slot : Nat) (client : Client) (inside : slot < maxClients)
      (free : (s.clients ⟨none, slot⟩).state = .free) (state : client.state = .used)
      (gen : client.gen = (s.clients ⟨none, slot⟩).gen)
      (turn : client.turn = (s.clients ⟨none, slot⟩).turn) :
      Micro s ((s.setClient ⟨none, slot⟩ client).record (.opened ⟨none, slot⟩))
  | create (fd maxClients : Nat) (s' : State) (handle : UInt32)
      (ran : serverCreate s fd maxClients = some (s', handle)) : Micro s s'
  | delete (sdx : Nat) : Micro s (serverDelete s sdx)

/-- A sequence of small steps. -/
abbrev Path : State → State → Prop := Relation.ReflTransGen Micro

/-- A handle that leads to a client leads to one that is in use. -/
theorem resolve_inUse {s : State} {handle : UInt32} {ref : Ref}
    (resolved : resolve s handle = some ref) : InUse s ref := by
  have found : clientFromHandle s handle = some (some ref) := by
    rw [resolve] at resolved
    exact Option.join_eq_some_iff.mp resolved
  unfold clientFromHandle at found
  simp only at found
  split at found
  · cases found
  split at found
  · cases found
  split at found
  · split at found
    · cases found
    · split at found
      · rename_i inside used
        cases found
        exact ⟨fun _ => Nat.not_le.mp inside, nofun, used⟩
      · cases found
  · split at found
    · cases found
    split at found
    · cases found
    split at found
    · cases found
    split at found
    · cases found
    split at found
    · rename_i inside alive _ used
      cases found
      refine ⟨nofun, fun sdx same => ?_, used⟩
      cases same
      refine ⟨?_, Nat.not_le.mp inside⟩
      cases state : (s.servers ((TcpHandle.unpackHandle handle).sdx.toNat - 1)).state with
      | free => exact absurd state alive
      | used => rfl
    · cases found

/-- The servers differ in their counts and their events at most. -/
def SameServers (s s' : State) : Prop :=
  ∀ sdx, (s'.servers sdx).state = (s.servers sdx).state ∧
    (s'.servers sdx).capacity = (s.servers sdx).capacity

/-- A slot in the array of a server. -/
def Owned (s : State) (sdx slot : Nat) : Prop :=
  (s.servers sdx).state = .used ∧ slot < (s.servers sdx).capacity

theorem SameServers.owned {s s' : State} {sdx slot : Nat} (same : SameServers s s')
    (owned : Owned s sdx slot) : Owned s' sdx slot := by
  rw [Owned, (same sdx).1, (same sdx).2]
  exact owned

theorem SameServers.trans {s₁ s₂ s₃ : State} (first : SameServers s₁ s₂)
    (second : SameServers s₂ s₃) : SameServers s₁ s₃ := fun sdx =>
  ⟨(second sdx).1.trans (first sdx).1, (second sdx).2.trans (first sdx).2⟩

theorem sameServers_setServer {s : State} {sdx : Nat} {server : Server}
    (state : server.state = (s.servers sdx).state)
    (capacity : server.capacity = (s.servers sdx).capacity) :
    SameServers s (s.setServer sdx server) := by
  intro sdx'
  by_cases here : sdx' = sdx
  · rw [here, setServer_self]
    exact ⟨state, capacity⟩
  · rw [setServer_ne here]
    exact ⟨rfl, rfl⟩

theorem Owned.inUse {s : State} {sdx slot : Nat} (owned : Owned s sdx slot)
    (used : (s.clients ⟨some sdx, slot⟩).state ≠ .free) : InUse s ⟨some sdx, slot⟩ := by
  refine ⟨nofun, fun sdx' same => ?_, used⟩
  cases same
  exact owned

/-- An entry about a client that is not closed by it and stays allocated. -/
def Record.Mild (ref : Ref) : Record → Prop
  | .opened other => other = ref
  | .issued other _ _ _ => other = ref
  | .pushed other _ => other = ref
  | .hungUp other => other = ref
  | _ => False

/-- What happens to one client that is not closed and not freed. -/
structure Serviced (s s' : State) (ref : Ref) (new : List Record) : Prop where
  path : Path s s'
  servers : SameServers s s'
  others : ∀ other, other ≠ ref → s'.clients other = s.clients other
  log : s'.log = s.log ++ new
  mild : ∀ entry ∈ new, entry.Mild ref
  unclosed : (s.clients ref).state ≠ .close → (s'.clients ref).state ≠ .close
  unfreed : (s.clients ref).state ≠ .free → (s'.clients ref).state ≠ .free
  still : new = [] → (s'.clients ref).state = (s.clients ref).state

theorem Serviced.nothing {s : State} {ref : Ref} : Serviced s s ref [] :=
  ⟨.refl, fun _ => ⟨rfl, rfl⟩, fun _ _ => rfl, (List.append_nil _).symm, List.forall_mem_nil _, id, id, fun _ => rfl⟩

theorem Serviced.trans {s₁ s₂ s₃ : State} {ref : Ref} {new new' : List Record}
    (first : Serviced s₁ s₂ ref new) (second : Serviced s₂ s₃ ref new') :
    Serviced s₁ s₃ ref (new ++ new') where
  path := first.path.trans second.path
  servers := first.servers.trans second.servers
  others other different := (second.others other different).trans (first.others other different)
  log := by rw [second.log, first.log, List.append_assoc]
  mild entry member := by
    rcases List.mem_append.mp member with before | after
    · exact first.mild entry before
    · exact second.mild entry after
  unclosed := second.unclosed ∘ first.unclosed
  unfreed := second.unfreed ∘ first.unfreed
  still none := by
    obtain ⟨none₁, none₂⟩ := List.append_eq_nil_iff.mp none
    rw [second.still none₂, first.still none₁]

theorem Serviced.touched {s : State} {ref : Ref} {client : Client}
    (state : client.state = (s.clients ref).state) (gen : client.gen = (s.clients ref).gen)
    (turn : client.turn = (s.clients ref).turn) : Serviced s (s.setClient ref client) ref [] where
  path := .single (.touch ref client state gen turn)
  servers _ := ⟨rfl, rfl⟩
  others _ different := setClient_ne different
  log := (List.append_nil _).symm
  mild := List.forall_mem_nil _
  unclosed open_ := by
    rw [setClient_self, state]
    exact open_
  unfreed used := by
    rw [setClient_self, state]
    exact used
  still _ := by rw [setClient_self, state]

theorem Serviced.hungUp {s : State} {ref : Ref} (inUse : InUse s ref) :
    Serviced s ((s.setClient ref { s.clients ref with state := .hangup }).record (.hungUp ref)) ref
      [.hungUp ref] where
  path := .single (.hangUp ref inUse)
  servers _ := ⟨rfl, rfl⟩
  others _ different := setClient_ne different
  log := rfl
  mild entry member := by
    rw [List.mem_singleton.mp member]
    rfl
  unclosed _ := by simp
  unfreed _ := by simp
  still := nofun

/-- What `push_event` does. -/
theorem Serviced.pushed {s s' : State} {sdx slot : Nat} {type : EventType}
    (inUse : InUse s ⟨some sdx, slot⟩) (ran : pushEvent s sdx slot type = some s') :
    ∃ new, Serviced s s' ⟨some sdx, slot⟩ new ∧ s'.clients = s.clients ∧
      .pushed ⟨some sdx, slot⟩ type ∈ new := by
  unfold pushEvent at ran
  obtain ⟨handle, packed, ran⟩ := Option.bind_eq_some_iff.mp ran
  simp only at ran
  split at ran
  · cases ran
    have ring : Micro s (s.setServer sdx ((s.servers sdx).enqueue ⟨type, handle⟩)) :=
      .ring sdx _ rfl rfl rfl rfl
    have same : SameServers s (s.setServer sdx ((s.servers sdx).enqueue ⟨type, handle⟩)) :=
      sameServers_setServer rfl rfl
    have issue := Micro.issue ⟨some sdx, slot⟩ handle
      ((same.owned (inUse.owned sdx rfl)).inUse inUse.used) packed
    simp only [State.life, setServer_self, Server.enqueue] at issue
    refine ⟨[.issued _ _ _ _, .pushed _ _], ⟨?_, same, fun _ _ => rfl, List.append_assoc .., ?_, id,
      id, nofun⟩, rfl, by simp⟩
    · exact ((Relation.ReflTransGen.single ring).tail issue).tail (.push ..)
    · intro entry member
      simp only [List.mem_cons, List.not_mem_nil, or_false] at member
      rcases member with rfl | rfl <;> rfl
  · cases ran

/-- A client that hangs up, and the event about it. -/
theorem Serviced.disconnected {s s' : State} {sdx slot : Nat} (inUse : InUse s ⟨some sdx, slot⟩)
    (ran : hangUp s sdx slot = some s') :
    ∃ new, Serviced s s' ⟨some sdx, slot⟩ new ∧ .pushed ⟨some sdx, slot⟩ .disconnect ∈ new := by
  have first := Serviced.hungUp inUse
  have kept := (first.servers.owned (inUse.owned sdx rfl)).inUse (first.unfreed inUse.used)
  obtain ⟨new, second, -, member⟩ := Serviced.pushed kept ran
  exact ⟨_, first.trans second, List.mem_append_right _ member⟩

/-- The event about bytes that were moved. -/
theorem Serviced.moved {s s' : State} {sdx slot moved : Nat} (inUse : InUse s ⟨some sdx, slot⟩)
    (ran : pushMoved s sdx slot moved = some s') :
    ∃ new, Serviced s s' ⟨some sdx, slot⟩ new ∧ s'.clients = s.clients ∧ (moved = 0 → new = []) ∧
      (moved ≠ 0 → .pushed ⟨some sdx, slot⟩ .data ∈ new) := by
  unfold pushMoved at ran
  split at ran
  · rename_i some
    obtain ⟨new, serviced, clients, member⟩ := Serviced.pushed inUse ran
    exact ⟨new, serviced, clients, fun none => absurd none (by omega), fun _ => member⟩
  · rename_i none
    cases ran
    exact ⟨[], .nothing, rfl, fun _ => rfl, fun some => absurd some (by omega)⟩

/-- Nothing comes in at a polled client: no input is reported, or the input loop ends at once
with nothing to read. -/
def Silent (client : Client) (traffic : Traffic) : Prop :=
  traffic.pollin = true ∨ traffic.pollhup = true →
    ∃ input, clientInput client traffic = some (input, .ok, 0)

/-- The input of one client. A client at which nothing comes in only gets another queue. -/
theorem pollInput_spec {s s' : State} {sdx slot : Nat} {traffic : Traffic}
    (owned : Owned s sdx slot) (ran : pollInput s sdx slot traffic = some s') :
    ∃ new, Serviced s s' ⟨some sdx, slot⟩ new ∧
      (Silent (s.clients ⟨some sdx, slot⟩) traffic → new = []) ∧
      ((s.clients ⟨some sdx, slot⟩).state ≠ .free →
        ¬ Silent (s.clients ⟨some sdx, slot⟩) traffic →
          ∃ type, .pushed ⟨some sdx, slot⟩ type ∈ new) := by
  unfold pollInput at ran
  by_cases used : (s.clients ⟨some sdx, slot⟩).state = .free
  · simp only [if_pos used] at ran
    cases ran
    exact ⟨[], .nothing, fun _ => rfl, fun inUse => absurd used inUse⟩
  simp only [if_neg used] at ran
  by_cases reported : traffic.pollin = true ∨ traffic.pollhup = true
  · rw [if_pos reported] at ran
    obtain ⟨⟨input, ending, moved⟩, came, ran⟩ := Option.bind_eq_some_iff.mp ran
    have first : Serviced s (s.setClient ⟨some sdx, slot⟩
        { s.clients ⟨some sdx, slot⟩ with input }) ⟨some sdx, slot⟩ [] := .touched rfl rfl rfl
    obtain ⟨s₁, ran₁, ran⟩ := Option.bind_eq_some_iff.mp ran
    obtain ⟨new, second, clients, none, some⟩ :=
      Serviced.moved ((first.servers.owned owned).inUse (first.unfreed used)) ran₁
    have both := first.trans second
    by_cases ok : ending = .ok
    · simp only [ok, ne_eq, not_true_eq_false, if_false] at ran
      cases ran
      refine ⟨new, both, fun silent => ?_, fun _ loud => ?_⟩
      · obtain ⟨input', came'⟩ := silent reported
        cases came.symm.trans came'
        exact none rfl
      · refine ⟨.data, some fun (zero : moved = 0) => loud fun _ => ⟨input, ?_⟩⟩
        rw [came, ok, zero]
    · simp only [ne_eq, ok, not_false_eq_true, if_true] at ran
      obtain ⟨new', third, member⟩ :=
        Serviced.disconnected ((both.servers.owned owned).inUse (both.unfreed used)) ran
      refine ⟨new ++ new', both.trans third, fun silent => ?_, fun _ _ => ?_⟩
      · obtain ⟨input', came'⟩ := silent reported
        cases came.symm.trans came'
        exact absurd rfl ok
      · exact ⟨.disconnect, List.mem_append_right _ member⟩
  · rw [if_neg reported] at ran
    cases ran
    exact ⟨[], .nothing, fun _ => rfl,
      fun _ loud => absurd (fun report => absurd report reported) loud⟩

/-- The output of one client. A closed client stays closed, or is freed. -/
theorem pollOutput_spec {s s' : State} {sdx slot : Nat} {traffic : Traffic}
    (owned : Owned s sdx slot) (ran : pollOutput s sdx slot traffic = some s') :
    (∃ new, Serviced s s' ⟨some sdx, slot⟩ new ∧
      ((s.clients ⟨some sdx, slot⟩).state = .close → new = [])) ∨
    ∃ s₁, Serviced s s₁ ⟨some sdx, slot⟩ [] ∧ InUse s₁ ⟨some sdx, slot⟩ ∧
      s' = freeClient s₁ ⟨some sdx, slot⟩ := by
  unfold pollOutput at ran
  simp only at ran
  split at ran
  · rename_i neither
    cases ran
    exact .inl ⟨[], .nothing, fun close => absurd close neither.2⟩
  rename_i either
  have used : (s.clients ⟨some sdx, slot⟩).state ≠ .free := by
    intro free
    rw [free] at either
    exact either ⟨nofun, nofun⟩
  split at ran
  · obtain ⟨⟨output, sent⟩, moved, ran⟩ := Option.bind_eq_some_iff.mp ran
    have first : Serviced s (s.setClient ⟨some sdx, slot⟩
        { s.clients ⟨some sdx, slot⟩ with output }) ⟨some sdx, slot⟩ [] := .touched rfl rfl rfl
    have kept := (first.servers.owned owned).inUse (first.unfreed used)
    simp only at ran
    split at ran
    · split at ran
      · cases ran
        exact .inr ⟨_, first, kept, rfl⟩
      · cases ran
        exact .inl ⟨[], first, fun _ => rfl⟩
    · rename_i notClose
      split at ran
      · obtain ⟨new, second, -⟩ := Serviced.disconnected kept ran
        exact .inl ⟨_, first.trans second, fun close => absurd close notClose⟩
      · cases ran
        exact .inl ⟨[], first, fun close => absurd close notClose⟩
  · cases ran
    exact .inl ⟨[], .nothing, fun _ => rfl⟩

theorem Serviced.opened {s : State} {sdx slot fd : Nat} (owned : Owned s sdx slot)
    (free : (s.clients ⟨some sdx, slot⟩).state = .free) :
    Serviced s (openSlot s sdx slot fd) ⟨some sdx, slot⟩ [.opened ⟨some sdx, slot⟩] where
  path := .single (.accept sdx slot _ owned.1 owned.2 free rfl rfl rfl)
  servers := sameServers_setServer rfl rfl
  others _ different := setClient_ne different
  log := rfl
  mild := by simp [Record.Mild]
  unclosed := by simp [openSlot]
  unfreed := by simp [openSlot]
  still := nofun

/-- A connection that is accepted takes a free slot. -/
theorem acceptClient_spec {s s' : State} {sdx fd : Nat} (used : (s.servers sdx).state = .used)
    (ran : acceptClient s sdx fd = some s') :
    ∃ slot new, (s.clients ⟨some sdx, slot⟩).state = .free ∧
      Serviced s s' ⟨some sdx, slot⟩ new := by
  unfold acceptClient at ran
  obtain ⟨slot, found, ran⟩ := Option.bind_eq_some_iff.mp ran
  have free : (s.clients ⟨some sdx, slot⟩).state = .free := by
    simpa using List.find?_some found
  have owned : Owned s sdx slot :=
    ⟨used, List.mem_range.mp (List.mem_of_find?_eq_some found)⟩
  have first : Serviced s (openSlot s sdx slot fd) ⟨some sdx, slot⟩ _ := .opened owned free
  have taken : InUse (openSlot s sdx slot fd) ⟨some sdx, slot⟩ :=
    (first.servers.owned owned).inUse (by simp [openSlot])
  obtain ⟨new, second, -⟩ := Serviced.pushed taken ran
  exact ⟨slot, _, free, first.trans second⟩

/-! ## The loops of a poll -/

/-- What every accepted connection keeps, all of them keep. -/
theorem acceptLoop_rule {P : State → Prop} {sdx : Nat}
    (step : ∀ s s' slot new, P s → (s.clients ⟨some sdx, slot⟩).state = .free →
      Serviced s s' ⟨some sdx, slot⟩ new → P s')
    {results : List Accept} {s s' : State} (used : (s.servers sdx).state = .used) (before : P s)
    (ran : acceptLoop sdx results s = some s') : P s' := by
  induction results generalizing s with
  | nil =>
    unfold acceptLoop at ran
    split at ran
    · cases ran
    · cases ran
      exact before
  | cons result rest ih =>
    unfold acceptLoop at ran
    split at ran
    · split at ran
      · cases ran
      · cases ran
        exact before
      · rename_i same
        cases same
        exact ih used before ran
      · rename_i same
        cases same
        exact ih used before ran
      · rename_i same
        cases same
        obtain ⟨s₁, ran₁, ran⟩ := Option.bind_eq_some_iff.mp ran
        obtain ⟨slot, new, free, serviced⟩ := acceptClient_spec used ran₁
        exact ih ((serviced.servers sdx).1.trans used) (step s s₁ slot new before free serviced) ran
    · cases ran
      exact before

theorem pollAccept_rule {P : State → Prop} {sdx : Nat}
    (step : ∀ s s' slot new, P s → (s.clients ⟨some sdx, slot⟩).state = .free →
      Serviced s s' ⟨some sdx, slot⟩ new → P s')
    {polled : Polled} {s s' : State} (used : (s.servers sdx).state = .used) (before : P s)
    (ran : pollAccept s sdx polled = some s') : P s' := by
  unfold pollAccept at ran
  split at ran
  · exact acceptLoop_rule step used before ran
  · cases ran
    exact before

/-- What holds with the slots that are left holds at the end with none. -/
theorem slots_rule {P : List Nat → State → Prop} {serve : State → Nat → Option State}
    (step : ∀ slot rest s s', P (slot :: rest) s → serve s slot = some s' → P rest s')
    {slots : List Nat} {s s' : State} (before : P slots s)
    (ran : slots.foldlM serve s = some s') : P [] s' := by
  induction slots generalizing s with
  | nil =>
    simp only [List.foldlM_nil] at ran
    cases ran
    exact before
  | cons slot rest ih =>
    simp only [List.foldlM_cons] at ran
    obtain ⟨s₁, served, ran⟩ := Option.bind_eq_some_iff.mp ran
    exact ih (step slot rest s s₁ before served) ran

theorem polledSlots_owned {s : State} {sdx : Nat} (used : (s.servers sdx).state = .used) :
    ∀ slot ∈ polledSlots s sdx, Owned s sdx slot := by
  intro slot member
  exact ⟨used, List.mem_range.mp (List.mem_of_mem_filter member)⟩

/-- The servers after a part of a poll, and the path to it. -/
def Reaches (s s' : State) : Prop := Path s s' ∧ SameServers s s'

theorem Reaches.refl {s : State} : Reaches s s := ⟨.refl, fun _ => ⟨rfl, rfl⟩⟩

theorem Reaches.trans {s₁ s₂ s₃ : State} (first : Reaches s₁ s₂) (second : Reaches s₂ s₃) :
    Reaches s₁ s₃ := ⟨first.1.trans second.1, first.2.trans second.2⟩

theorem Serviced.reaches {s s' : State} {ref : Ref} {new : List Record}
    (serviced : Serviced s s' ref new) : Reaches s s' := ⟨serviced.path, serviced.servers⟩

theorem pollOutput_reaches {s s' : State} {sdx slot : Nat} {traffic : Traffic}
    (owned : Owned s sdx slot) (ran : pollOutput s sdx slot traffic = some s') : Reaches s s' := by
  rcases pollOutput_spec owned ran with ⟨new, serviced, -⟩ | ⟨s₁, serviced, inUse, rfl⟩
  · exact serviced.reaches
  · exact serviced.reaches.trans ⟨.single (.free _ inUse), fun _ => ⟨rfl, rfl⟩⟩

/-- The parts of a poll. -/
theorem serverPoll_parts {s s' : State} {sdx : Nat} {polled : Polled}
    (used : (s.servers sdx).state = .used) (ran : serverPoll s sdx polled = some s') :
    ∃ s₁ s₂, pollAccept s sdx polled = some s₁ ∧ Reaches s s₁ ∧
      (polledSlots s sdx).foldlM (fun s slot => pollInput s sdx slot (polled.traffic slot)) s₁ =
        some s₂ ∧ Reaches s s₂ ∧
      (polledSlots s sdx).foldlM (fun s slot => pollOutput s sdx slot (polled.traffic slot)) s₂ =
        some s' ∧ Reaches s s' := by
  unfold serverPoll at ran
  split at ran
  · obtain ⟨s₁, accepted, ran⟩ := Option.bind_eq_some_iff.mp ran
    obtain ⟨s₂, taken, ran⟩ := Option.bind_eq_some_iff.mp ran
    have owned := polledSlots_owned used
    have first : Reaches s s₁ :=
      pollAccept_rule (fun _ _ _ _ before _ serviced => before.trans serviced.reaches) used .refl
        accepted
    have second : (∀ slot ∈ ([] : List Nat), Owned s sdx slot) ∧ Reaches s s₂ := by
      refine slots_rule (P := fun rest t => (∀ slot ∈ rest, Owned s sdx slot) ∧ Reaches s t)
        (fun slot rest t t' before served => ?_) ⟨owned, first⟩ taken
      obtain ⟨here, left⟩ := List.forall_mem_cons.mp before.1
      obtain ⟨new, serviced, -⟩ := pollInput_spec (before.2.2.owned here) served
      exact ⟨left, before.2.trans serviced.reaches⟩
    have third : (∀ slot ∈ ([] : List Nat), Owned s sdx slot) ∧ Reaches s s' := by
      refine slots_rule (P := fun rest t => (∀ slot ∈ rest, Owned s sdx slot) ∧ Reaches s t)
        (fun slot rest t t' before served => ?_) ⟨owned, second.2⟩ ran
      obtain ⟨here, left⟩ := List.forall_mem_cons.mp before.1
      exact ⟨left, before.2.trans (pollOutput_reaches (before.2.2.owned here) served)⟩
    exact ⟨s₁, s₂, accepted, first, taken, second.2, ran, third.2⟩
  · cases ran

theorem resolveServer_used {s : State} {handle : UInt32} {sdx : Nat}
    (resolved : resolveServer s handle = some sdx) : (s.servers sdx).state = .used := by
  have found : serverFromHandle s handle = some (some sdx) := by
    rw [resolveServer] at resolved
    exact Option.join_eq_some_iff.mp resolved
  unfold serverFromHandle at found
  simp only at found
  split at found
  · cases found
  split at found
  · cases found
  split at found
  · cases found
  split at found
  · cases found
  split at found
  · rename_i used
    cases found
    exact used
  · cases found

/-! ## The other calls -/

/-- What `tcp_server_create` does. -/
structure Creates (s s' : State) (sdx : Nat) : Prop where
  inside : sdx < maxServers
  free : (s.servers sdx).state = .free
  capacity : (s'.servers sdx).capacity < 2 ^ 31
  count : (s'.servers sdx).count = 0
  life : (s'.servers sdx).life = (s.servers sdx).life + 1
  others : ∀ other, other ≠ sdx → s'.servers other = s.servers other
  fresh : ∀ ref, ref.server = some sdx →
    (s'.clients ref).state = .free ∧ (s'.clients ref).gen = 1 ∧ (s'.clients ref).turn = 0
  clients : ∀ ref, ref.server ≠ some sdx → s'.clients ref = s.clients ref
  log : s'.log = s.log

theorem serverCreate_spec {s s' : State} {fd maxClients : Nat} {handle : UInt32}
    (ran : serverCreate s fd maxClients = some (s', handle)) : ∃ sdx, Creates s s' sdx := by
  unfold serverCreate at ran
  obtain ⟨_, bounded, ran⟩ := Option.bind_eq_some_iff.mp ran
  obtain ⟨sdx, found, ran⟩ := Option.bind_eq_some_iff.mp ran
  have free : (s.servers sdx).state = .free := by simpa using List.find?_some found
  obtain ⟨_, -, ran⟩ := Option.bind_eq_some_iff.mp ran
  cases ran
  refine ⟨sdx, List.mem_range.mp (List.mem_of_find?_eq_some found), free, ?_, ?_, ?_,
    fun _ different => Function.update_of_ne different _ _, ?_, ?_, rfl⟩
  · simpa using bounded
  · simp
  · simp
  · intro ref owned
    simp [owned]
  · intro ref other
    simp [other]

/-- Nothing is taken from the log. -/
theorem Micro.log {s s' : State} (step : Micro s s') : ∃ new, s'.log = s.log ++ new := by
  cases step with
  | touch | ring => exact ⟨[], (List.append_nil _).symm⟩
  | issue | push | hangUp | close | free | accept | connect | delete => exact ⟨[_], rfl⟩
  | create fd maxClients _ handle ran =>
    obtain ⟨_, creates⟩ := serverCreate_spec ran
    exact ⟨[], creates.log.trans (List.append_nil _).symm⟩

theorem Path.log {s s' : State} (path : Path s s') : ∃ new, s'.log = s.log ++ new := by
  induction path with
  | refl => exact ⟨[], (List.append_nil _).symm⟩
  | tail _ step ih =>
    obtain ⟨new, earlier⟩ := ih
    obtain ⟨new', later⟩ := step.log
    exact ⟨new ++ new', by rw [later, earlier, List.append_assoc]⟩

/-- A close frees a client, or leaves one of a server to be flushed. -/
theorem clientClose_cases (s : State) (ref : Ref) :
    clientClose s ref = freeClient s ref ∨ (∃ sdx, ref.server = some sdx) ∧
      clientClose s ref =
        (s.setClient ref { s.clients ref with state := .close }).record (.closing ref) := by
  unfold clientClose
  simp only
  split
  · exact .inl rfl
  split
  · rename_i owned
    exact .inr ⟨Option.isSome_iff_exists.mp owned, rfl⟩
  · exact .inl rfl

theorem clientRead_serviced {s s' : State} {ref : Ref} {num : Nat}
    (ran : clientRead s ref num = some s') : Serviced s s' ref [] := by
  unfold clientRead at ran
  simp only at ran
  split at ran
  · cases ran
    exact .touched rfl rfl rfl
  · cases ran

theorem clientWrite_serviced {s s' : State} {ref : Ref} {data : List UInt8} {malloc : Malloc}
    (ran : clientWrite s ref data malloc = some s') : Serviced s s' ref [] := by
  unfold clientWrite at ran
  simp only at ran
  split at ran
  · cases ran
    exact .nothing
  · obtain ⟨⟨output, ensured⟩, -, ran⟩ := Option.bind_eq_some_iff.mp ran
    simp only at ran
    split at ran
    · cases ran
    · obtain ⟨region, -, ran⟩ := Option.bind_eq_some_iff.mp ran
      cases ran
      exact .touched rfl rfl rfl

theorem clientEvent_serviced {s s' : State} {ref : Ref} (ran : clientEvent s ref = some s') :
    Serviced s s' ref [] := by
  unfold clientEvent at ran
  simp only at ran
  split at ran
  · cases ran
  split at ran
  · cases ran
    exact .touched rfl rfl rfl
  split at ran
  · cases ran
    exact .touched rfl rfl rfl
  · cases ran
    exact .nothing

/-- A stand-alone client that hangs up, after its other fields were changed. -/
theorem Serviced.alone_hungUp {s : State} {ref : Ref} {client : Client} (inUse : InUse s ref)
    (gen : client.gen = (s.clients ref).gen) (turn : client.turn = (s.clients ref).turn)
    (state : client.state = .hangup) :
    Serviced s ((s.setClient ref client).record (.hungUp ref)) ref [.hungUp ref] := by
  have touched : Serviced s (s.setClient ref { client with state := (s.clients ref).state }) ref [] :=
    .touched rfl gen turn
  have kept : InUse (s.setClient ref { client with state := (s.clients ref).state }) ref :=
    ⟨inUse.alone, inUse.owned, touched.unfreed inUse.used⟩
  have hung := Serviced.hungUp kept
  rw [setClient_self] at hung
  simp only [State.setClient, Function.update_idem, ← state] at hung
  exact touched.trans hung

/-- What one direction of a poll does to a stand-alone client: it writes the client back, or it
hangs the client up besides. -/
inductive AloneTurn (s : State) (ref : Ref) (client : Client) : State → Prop where
  | kept : AloneTurn s ref client (s.setClient ref client)
  | hungUp : AloneTurn s ref client
      ((s.setClient ref { client with state := .hangup, eventDisconnect := true }).record (.hungUp ref))

theorem aloneInput_cases {s s' : State} {ref : Ref} {traffic : Traffic}
    (ran : aloneInput s ref traffic = some s') :
    (¬ (traffic.pollin ∨ traffic.pollhup) ∧ s' = s) ∨
      (traffic.pollin ∨ traffic.pollhup) ∧ ∃ input ending moved,
        clientInput (s.clients ref) traffic = some (input, ending, moved) ∧
        AloneTurn s ref { s.clients ref with input, eventData := decide (moved > 0) } s' := by
  unfold aloneInput at ran
  simp only at ran
  split at ran
  · next reported =>
    obtain ⟨⟨input, ending, moved⟩, came, ran⟩ := Option.bind_eq_some_iff.mp ran
    refine .inr ⟨reported, input, ending, moved, came, ?_⟩
    simp only at ran
    split at ran
    · cases ran
      exact .hungUp
    · cases ran
      exact .kept
  · next unreported =>
    cases ran
    exact .inl ⟨unreported, rfl⟩

theorem aloneOutput_cases {s s' : State} {ref : Ref} {traffic : Traffic}
    (ran : aloneOutput s ref traffic = some s') :
    (traffic.pollout = false ∧ s' = s) ∨
      traffic.pollout = true ∧ (s.clients ref).state = .used ∧ ∃ output sent,
        sendLoop traffic.sends 0 (s.clients ref).output = some (output, sent) ∧
        AloneTurn s ref { s.clients ref with output } s' := by
  unfold aloneOutput at ran
  simp only at ran
  split at ran
  · next reported =>
    obtain ⟨⟨output, sent⟩, flushed, ran⟩ := Option.bind_eq_some_iff.mp ran
    simp only at ran
    split at ran
    · cases ran
    next used =>
    refine .inr ⟨reported, not_not.mp used, output, sent, flushed, ?_⟩
    split at ran
    · cases ran
      exact .hungUp
    · cases ran
      exact .kept
  · next unreported =>
    cases ran
    exact .inl ⟨Bool.eq_false_iff.mpr unreported, rfl⟩

theorem AloneTurn.serviced {s s' : State} {ref : Ref} {client : Client} (inUse : InUse s ref)
    (turned : AloneTurn s ref client s') (state : client.state = (s.clients ref).state)
    (gen : client.gen = (s.clients ref).gen) (turn : client.turn = (s.clients ref).turn) :
    ∃ new, Serviced s s' ref new := by
  cases turned with
  | kept => exact ⟨_, .touched state gen turn⟩
  | hungUp => exact ⟨_, .alone_hungUp inUse gen turn rfl⟩

theorem clientPoll_serviced {s s' : State} {ref : Ref} {traffic : Traffic} (inUse : InUse s ref)
    (ran : clientPoll s ref traffic = some s') : ref.server = none ∧ ∃ new, Serviced s s' ref new := by
  unfold clientPoll at ran
  simp only at ran
  split at ran
  · cases ran
  rename_i alone
  have alone : ref.server = none := Option.not_isSome_iff_eq_none.mp alone
  split at ran
  · cases ran
  split at ran
  · cases ran
    exact ⟨alone, _, .nothing⟩
  · obtain ⟨s₁, taken, ran⟩ := Option.bind_eq_some_iff.mp ran
    obtain ⟨new, first⟩ : ∃ new, Serviced s s₁ ref new := by
      rcases aloneInput_cases taken with ⟨-, rfl⟩ | ⟨-, input, ending, moved, -, turned⟩
      · exact ⟨_, .nothing⟩
      · exact turned.serviced inUse rfl rfl rfl
    have kept : InUse s₁ ref :=
      ⟨inUse.alone, fun sdx owned => absurd (alone.symm.trans owned) nofun, first.unfreed inUse.used⟩
    obtain ⟨new', second⟩ : ∃ new, Serviced s₁ s' ref new := by
      rcases aloneOutput_cases ran with ⟨-, rfl⟩ | ⟨-, -, output, sent, -, turned⟩
      · exact ⟨_, .nothing⟩
      · exact turned.serviced kept rfl rfl rfl
    exact ⟨alone, _, first.trans second⟩

theorem clientCreate_serviced {s s' : State} {fd : Nat} {handle : UInt32}
    (ran : clientCreate s fd = some (s', handle)) : ∃ slot new, Serviced s s' ⟨none, slot⟩ new := by
  unfold clientCreate at ran
  obtain ⟨slot, found, ran⟩ := Option.bind_eq_some_iff.mp ran
  have free : (s.clients ⟨none, slot⟩).state = .free := by simpa using List.find?_some found
  have inside : slot < maxClients := List.mem_range.mp (List.mem_of_find?_eq_some found)
  obtain ⟨_, packed, ran⟩ := Option.bind_eq_some_iff.mp ran
  cases ran
  have connects : Micro s (connectSlot s slot fd) := .connect slot _ inside free rfl rfl rfl
  have inUse : InUse (connectSlot s slot fd) ⟨none, slot⟩ :=
    ⟨fun _ => inside, nofun, by simp [connectSlot]⟩
  refine ⟨slot, [.opened ⟨none, slot⟩, .issued ⟨none, slot⟩ 0 _ handle], ?_, fun _ => ⟨rfl, rfl⟩,
    fun _ different => setClient_ne different, List.append_assoc .., ?_, ?_, ?_, nofun⟩
  · exact (Relation.ReflTransGen.single connects).tail (.issue ⟨none, slot⟩ handle inUse packed)
  · simp [Record.Mild]
  · simp [connectSlot]
  · simp [connectSlot]

theorem clientClose_path {s : State} {ref : Ref} (inUse : InUse s ref) :
    Path s (clientClose s ref) := by
  rcases clientClose_cases s ref with freed | ⟨-, closing⟩
  · rw [freed]
    exact .single (.free ref inUse)
  · rw [closing]
    exact .single (.close ref inUse)

/-- Every call is a path of small steps. -/
theorem next_path {s s' : State} {action : Action} (moved : calls.next s action = some s') :
    Path s s' := by
  cases action with
  | serverCreate fd maxClients =>
    obtain ⟨⟨s₁, handle⟩, ran, rest⟩ := Option.bind_eq_some_iff.mp moved
    cases rest
    exact .single (.create fd maxClients s₁ handle ran)
  | serverDelete handle =>
    obtain ⟨sdx, resolved, rest⟩ := Option.bind_eq_some_iff.mp moved
    cases rest
    exact .single (.delete sdx)
  | serverPoll handle polled =>
    obtain ⟨sdx, resolved, ran⟩ := Option.bind_eq_some_iff.mp moved
    obtain ⟨_, _, _, _, _, _, _, reaches⟩ := serverPoll_parts (resolveServer_used resolved) ran
    exact reaches.1
  | serverEvent handle =>
    obtain ⟨sdx, resolved, rest⟩ := Option.bind_eq_some_iff.mp moved
    cases rest
    unfold serverEvent
    simp only
    split
    · exact .refl
    · exact .single (.ring sdx _ rfl rfl rfl rfl)
  | clientCreate fd =>
    obtain ⟨⟨s₁, handle⟩, ran, rest⟩ := Option.bind_eq_some_iff.mp moved
    cases rest
    obtain ⟨_, _, serviced⟩ := clientCreate_serviced ran
    exact serviced.path
  | clientPoll handle traffic =>
    obtain ⟨ref, resolved, ran⟩ := Option.bind_eq_some_iff.mp moved
    obtain ⟨-, _, serviced⟩ := clientPoll_serviced (resolve_inUse resolved) ran
    exact serviced.path
  | clientEvent handle =>
    obtain ⟨ref, resolved, ran⟩ := Option.bind_eq_some_iff.mp moved
    exact (clientEvent_serviced ran).path
  | clientClose handle =>
    obtain ⟨ref, resolved, rest⟩ := Option.bind_eq_some_iff.mp moved
    cases rest
    exact clientClose_path (resolve_inUse resolved)
  | clientRead handle num =>
    obtain ⟨ref, resolved, ran⟩ := Option.bind_eq_some_iff.mp moved
    exact (clientRead_serviced ran).path
  | clientWrite handle data malloc =>
    obtain ⟨ref, resolved, ran⟩ := Option.bind_eq_some_iff.mp moved
    exact (clientWrite_serviced ran).path

/-- What holds in the beginning and survives every small step holds in every reachable
state. -/
theorem reachable_micro {P : State → Prop} {s : State} (reached : calls.Reachable s)
    (begins : ∀ s, calls.initial s → P s) (step : ∀ s s', P s → Micro s s' → P s') : P s := by
  refine reached.invariant begins fun s action s' _ before moved => ?_
  have path := next_path moved
  clear moved
  induction path with
  | refl => exact before
  | tail _ last ih => exact step _ _ ih last

end Mysnips.Tcp

import Mysnips.TcpOccupancy

/-! Handles of TCP clients. `client_from_handle` compares the generation of a client of a
server with the one in the handle, but not that of a stand-alone client, and the slot and
the generation share a bit of the handle. A handle leads to the client it was made for, and
to nothing once that client is gone, as far as neither of the two shows. -/
namespace Mysnips.Tcp
open TcpHandle Transition

/-- The generation of a client structure that has been freed some number of times. Those of a
server start with one. -/
def generation (ref : Ref) (turn : Nat) : Nat :=
  (if ref.server = none then turn else 1 + turn) % generations

/-- How often a client structure was freed in a part of the log. -/
def advances (ref : Ref) (log : List Record) : Nat := log.count (.freed ref)

/-- The array that a client was in is still there. -/
def Lives (s : State) (ref : Ref) (life : Nat) : Prop :=
  ∀ sdx ∈ ref.server, (s.servers sdx).state = .used ∧ (s.servers sdx).life = life

/-- What a handle leads to, after the part of the log since it was made. -/
structure Faithful (s : State) (ref : Ref) (life : Nat) (since : List Record) (handle : UInt32) :
    Prop where
  there : Lives s ref life → advances ref since = 0 → clientFromHandle s handle = some (some ref)
  gone : ¬ (Lives s ref life ∧ advances ref since = 0) → advances ref since < generations →
    clientFromHandle s handle = some none

/-- The bit that the slot and the generation share is the same in both. -/
def Aligned (slot gen : Nat) : Prop := slot % 2 = gen / 2048

/-- The slot that is read from the handle of a slot and a generation. -/
def slotRead (slot gen : Nat) : Nat := slot / 2 * 2 + max (slot % 2) (gen / 2048)

/-- The generation that is read from the handle of a slot and a generation. -/
def genRead (slot gen : Nat) : Nat := max (slot % 2) (gen / 2048) * 2048 + gen % 2048

/-- No client of a server is in a slot with a generation: the slot is not there, or it has
another generation. -/
def Vacant (s : State) (sdx slot gen : Nat) : Prop :=
  slot ≥ (s.servers sdx).capacity ∨
    (s.servers sdx).state = .used ∧ (s.clients ⟨some sdx, slot⟩).gen ≠ gen

/-- The shared bit and the missing check do not show at a handle. -/
def Unambiguous (s : State) (ref : Ref) (life turn : Nat) (since : List Record) : Prop :=
  let gen := generation ref turn
  let count := advances ref since
  count < generations →
    match ref.server with
    | none =>
      -- The generation is not checked: while it is below 2048 the handle leads to whatever is
      -- there, and from 2048 on to a slot that is not there.
      count = 0 ↔ gen < 2048
    | some sdx =>
      (Lives s ref life → count = 0 → Aligned ref.slot gen) ∧
      (Lives s ref life → 0 < count → Aligned ref.slot gen ∨
        (ref.slot % 2 = 1 ∧ count ≠ 2048) ∨
        (ref.slot % 2 = 0 ∧ Vacant s sdx (ref.slot + 1) gen)) ∧
      (¬ Lives s ref life → Vacant s sdx (slotRead ref.slot gen) (genRead ref.slot gen))

/-! ## What is known of the handles that were made -/

/-- A handle that `handle_for_client` made in a turn of a client. -/
structure Made (ref : Ref) (turn : Nat) (handle : UInt32) : Prop where
  packed : packHandle ⟨.ofNat (match ref.server with | some sdx => 1 + sdx | none => 0),
    .ofNat ref.slot, .ofNat (generation ref turn), 0⟩ = some handle
  alone : ref.server = none → ref.slot < maxClients
  server : ∀ sdx, ref.server = some sdx → sdx < maxServers
  slot : ref.slot < 2 ^ 31

/-- What is known of an entry, after the part of the log since. -/
structure Known (s : State) (ref : Ref) (life turn : Nat) (handle : UInt32) (since : List Record) :
    Prop where
  made : Made ref turn handle
  earlier : life ≤ s.life ref
  inside : Lives s ref life → ∀ sdx, ref.server = some sdx → ref.slot < (s.servers sdx).capacity
  turns : Lives s ref life → (s.clients ref).turn = turn + advances ref since
  used : Lives s ref life → advances ref since = 0 → (s.clients ref).state ≠ .free

/-- The generations of the clients, and the handles that were made. -/
structure Issues (s : State) : Prop where
  bounded : ∀ sdx, (s.servers sdx).state = .used →
    sdx < maxServers ∧ (s.servers sdx).capacity < 2 ^ 31
  generation : ∀ ref, (∀ sdx, ref.server = some sdx → (s.servers sdx).state = .used) →
    (s.clients ref).gen = Tcp.generation ref (s.clients ref).turn
  known : ∀ before since ref life turn handle,
    s.log = before ++ .issued ref life turn handle :: since → Known s ref life turn handle since

/-- A client after it was freed, or not freed, once. -/
inductive Turned (client client' : Client) : Nat → Prop where
  | kept (turn : client'.turn = client.turn) (gen : client'.gen = client.gen)
      (used : client.state ≠ .free → client'.state ≠ .free) : Turned client client' 0
  | freed (turn : client'.turn = client.turn + 1)
      (gen : client'.gen = if client.gen + 1 = generations then 0 else client.gen + 1) :
      Turned client client' 1

theorem Turned.same {client : Client} : Turned client client 0 := .kept rfl rfl id

theorem Turned.turn {client client' : Client} {count : Nat} (turned : Turned client client' count) :
    client'.turn = client.turn + count := by
  cases turned with
  | kept turn => exact turn
  | freed turn => exact turn

theorem generation_lt (ref : Ref) (turn : Nat) : generation ref turn < generations :=
  Nat.mod_lt _ (by decide)

theorem Turned.generation {client client' : Client} {count : Nat} {ref : Ref}
    (turned : Turned client client' count) (gen : client.gen = Tcp.generation ref client.turn) :
    client'.gen = Tcp.generation ref client'.turn := by
  cases turned with
  | kept turn same => rw [same, gen, turn]
  | freed turn next =>
    rw [next, gen, turn, Machine.wrapping_succ (generation_lt ref _)]
    unfold Tcp.generation
    rw [Nat.mod_add_mod]
    split <;> rfl

/-- The arrays of the servers that are in use were there before. -/
def SameArrays (s s' : State) : Prop :=
  ∀ sdx, (s'.servers sdx).life = (s.servers sdx).life ∧ ((s'.servers sdx).state = .used →
    (s.servers sdx).state = .used ∧ (s'.servers sdx).capacity = (s.servers sdx).capacity)

theorem SameArrays.life {s s' : State} (arrays : SameArrays s s') (ref : Ref) :
    s'.life ref = s.life ref := by
  unfold State.life
  split
  · exact (arrays _).1
  · rfl

theorem SameArrays.lives {s s' : State} {ref : Ref} {life : Nat} (arrays : SameArrays s s')
    (lives : Lives s' ref life) : Lives s ref life := by
  intro sdx server
  obtain ⟨used, same⟩ := lives sdx server
  exact ⟨((arrays sdx).2 used).1, (arrays sdx).1.symm.trans same⟩

/-- What a step leaves, unless it creates a server. -/
structure Steps (s s' : State) (new : List Record) : Prop where
  log : s'.log = s.log ++ new
  arrays : SameArrays s s'
  clients : ∀ ref, Turned (s.clients ref) (s'.clients ref) (advances ref new)
  fresh : ∀ before since ref life turn handle,
    new = before ++ .issued ref life turn handle :: since → Known s' ref life turn handle since

theorem advances_append (ref : Ref) (log new : List Record) :
    advances ref (log ++ new) = advances ref log + advances ref new := List.count_append

theorem Known.steps {s s' : State} {ref : Ref} {life turn : Nat} {handle : UInt32}
    {since new : List Record} (known : Known s ref life turn handle since) (steps : Steps s s' new) :
    Known s' ref life turn handle (since ++ new) := by
  have turned := steps.clients ref
  refine ⟨known.made, ?_, fun lives sdx server => ?_, fun lives => ?_, fun lives none => ?_⟩
  · rw [steps.arrays.life]
    exact known.earlier
  · rw [((steps.arrays sdx).2 (lives sdx server).1).2]
    exact known.inside (steps.arrays.lives lives) sdx server
  · rw [turned.turn, known.turns (steps.arrays.lives lives), advances_append, Nat.add_assoc]
  · rw [advances_append, Nat.add_eq_zero_iff] at none
    rw [none.2] at turned
    cases turned with
    | kept turn gen used => exact used (known.used (steps.arrays.lives lives) none.1)

theorem Issues.steps {s s' : State} {new : List Record} (issues : Issues s)
    (steps : Steps s s' new) : Issues s' := by
  refine ⟨fun sdx used => ?_, fun ref there => ?_, fun before since ref life turn handle split => ?_⟩
  · obtain ⟨used', capacity⟩ := (steps.arrays sdx).2 used
    rw [capacity]
    exact issues.bounded sdx used'
  · refine (steps.clients ref).generation (issues.generation ref fun sdx server => ?_)
    exact ((steps.arrays sdx).2 (there sdx server)).1
  · rw [steps.log] at split
    rcases append_eq_append_cons split with ⟨rest, old, rfl⟩ | ⟨middle, -, later⟩
    · exact (issues.known before rest ref life turn handle old).steps steps
    · exact steps.fresh middle since ref life turn handle later

/-- The handles of a server that is created anew were made for an earlier array. -/
theorem Issues.created {s s' : State} {sdx : Nat} (issues : Issues s) (creates : Creates s s' sdx) :
    Issues s' := by
  have lives : ∀ ref life, life ≤ s.life ref → Lives s' ref life →
      ref.server ≠ some sdx ∧ Lives s ref life := by
    intro ref life earlier lives
    have elsewhere : ref.server ≠ some sdx := by
      intro server
      have same := (lives sdx server).2
      rw [creates.life] at same
      rw [State.life, server] at earlier
      simp only at earlier
      omega
    refine ⟨elsewhere, fun other server => ?_⟩
    have different : other ≠ sdx := by
      rintro rfl
      exact elsewhere server
    rw [← creates.others other different]
    exact lives other server
  refine ⟨fun other used => ?_, fun ref there => ?_, fun before since ref life turn handle split => ?_⟩
  · by_cases here : other = sdx
    · rw [here]
      exact ⟨creates.inside, creates.capacity⟩
    · rw [creates.others other here] at used ⊢
      exact issues.bounded other used
  · by_cases server : ref.server = some sdx
    · obtain ⟨-, gen, turn⟩ := creates.fresh ref server
      rw [gen, turn, Tcp.generation, server]
      rfl
    · rw [creates.clients ref server]
      refine issues.generation ref fun other owned => ?_
      rw [← creates.others other fun same => server (same ▸ owned)]
      exact there other owned
  · rw [creates.log] at split
    have known := issues.known before since ref life turn handle split
    refine ⟨known.made, ?_, fun lived other server => ?_, fun lived => ?_, fun lived => ?_⟩
    · refine Nat.le_trans known.earlier ?_
      unfold State.life
      split
      · rename_i other server
        by_cases here : other = sdx
        · rw [here, creates.life]
          exact Nat.le_succ _
        · rw [creates.others other here]
      · exact Nat.le_refl 0
    · obtain ⟨elsewhere, lived⟩ := lives ref life known.earlier lived
      rw [creates.others other fun same => elsewhere (same ▸ server)]
      exact known.inside lived other server
    · obtain ⟨elsewhere, lived⟩ := lives ref life known.earlier lived
      rw [creates.clients ref elsewhere]
      exact known.turns lived
    · obtain ⟨elsewhere, lived⟩ := lives ref life known.earlier lived
      rw [creates.clients ref elsewhere]
      exact known.used lived

/-- An entry of the log that is no handle. -/
def Record.NoHandle : Record → Prop
  | .issued _ _ _ _ => False
  | _ => True

theorem Steps.silent {s s' : State} {new : List Record} (log : s'.log = s.log ++ new)
    (arrays : SameArrays s s')
    (clients : ∀ ref, Turned (s.clients ref) (s'.clients ref) (advances ref new))
    (silent : ∀ entry ∈ new, entry.NoHandle) : Steps s s' new := by
  refine ⟨log, arrays, clients, fun before since ref life turn handle split => ?_⟩
  have member : .issued ref life turn handle ∈ new := by simp [split]
  exact (silent _ member).elim

theorem sameArrays_of_servers {s s' : State} (same : s'.servers = s.servers) : SameArrays s s' := by
  intro sdx
  rw [same]
  exact ⟨rfl, fun used => ⟨used, rfl⟩⟩

theorem sameArrays_setServer {s : State} {sdx : Nat} {server : Server}
    (state : server.state = .used → (s.servers sdx).state = .used)
    (capacity : server.capacity = (s.servers sdx).capacity)
    (life : server.life = (s.servers sdx).life) : SameArrays s (s.setServer sdx server) := by
  intro other
  by_cases here : other = sdx
  · rw [here, setServer_self]
    exact ⟨life, fun used => ⟨state used, capacity⟩⟩
  · rw [setServer_ne here]
    exact ⟨rfl, fun used => ⟨used, rfl⟩⟩

theorem turned_setClient {s : State} {ref : Ref} {client : Client}
    (turned : Turned (s.clients ref) client 0) (other : Ref) :
    Turned (s.clients other) ((s.setClient ref client).clients other) 0 := by
  by_cases here : other = ref
  · rw [here, setClient_self]
    exact turned
  · rw [setClient_ne here]
    exact .same

/-- Every small step creates a server, or leaves what is known. -/
theorem Issues.micro {s s' : State} (issues : Issues s) (step : Micro s s') : Issues s' := by
  cases step with
  | touch ref client state gen turn =>
    refine issues.steps (.silent (List.append_nil _).symm (sameArrays_of_servers rfl)
      (turned_setClient ?_) (List.forall_mem_nil _))
    exact .kept turn gen fun used => state ▸ used
  | ring sdx server state count capacity life =>
    exact issues.steps (.silent (List.append_nil _).symm
      (sameArrays_setServer (fun used => state ▸ used) capacity life) (fun _ => .same) (List.forall_mem_nil _))
  | issue ref handle inUse packed =>
    refine issues.steps ⟨rfl, sameArrays_of_servers rfl, fun _ => .same, ?_⟩
    intro before since other life turn handle' split
    obtain ⟨rfl, rfl⟩ : before = [] ∧ since = [] := by
      cases before with
      | nil => exact ⟨rfl, (List.cons.inj split).2.symm⟩
      | cons => simp at split
    cases (List.cons.inj split).1
    have gen := issues.generation ref fun sdx server => (inUse.owned sdx server).1
    refine ⟨⟨?_, inUse.alone, fun sdx server => ?_, ?_⟩, Nat.le_refl _, fun _ sdx server => ?_,
      fun _ => rfl, fun _ _ => inUse.used⟩
    · rw [← gen]
      exact packed
    · exact (issues.bounded sdx (inUse.owned sdx server).1).1
    · cases server : ref.server with
      | none => exact Nat.lt_of_lt_of_le (inUse.alone server) (by decide)
      | some sdx =>
        obtain ⟨used, inside⟩ := inUse.owned sdx server
        exact Nat.lt_trans inside (issues.bounded sdx used).2
    · exact (inUse.owned sdx server).2
  | push ref type =>
    exact issues.steps (.silent rfl (sameArrays_of_servers rfl) (fun _ => .same)
      (by simp [Record.NoHandle]))
  | hangUp ref inUse =>
    refine issues.steps (.silent rfl (sameArrays_of_servers rfl) (turned_setClient ?_)
      (by simp [Record.NoHandle]))
    exact .kept rfl rfl fun _ => nofun
  | close ref inUse =>
    refine issues.steps (.silent rfl (sameArrays_of_servers rfl) (turned_setClient ?_)
      (by simp [Record.NoHandle]))
    exact .kept rfl rfl fun _ => nofun
  | free ref inUse =>
    refine issues.steps (.silent rfl (sameArrays_of_servers rfl) (fun other => ?_)
      (by simp [Record.NoHandle]))
    rw [freeClient, record_clients]
    by_cases here : other = ref
    · rw [here, setClient_self, advances, List.count_singleton_self]
      exact .freed rfl rfl
    · have none : advances other [.freed ref] = 0 := by
        rw [advances, List.count_singleton, if_neg]
        intro same
        exact here (Record.freed.inj (beq_iff_eq.mp same)).symm
      rw [none, setClient_ne here]
      exact .same
  | accept sdx slot client used inside free state gen turn =>
    refine issues.steps (.silent rfl
      (sameArrays_setServer (fun _ => used) rfl rfl) (turned_setClient ?_) (by simp [Record.NoHandle]))
    exact .kept turn gen fun _ => by rw [state]; nofun
  | connect slot client inside free state gen turn =>
    refine issues.steps (.silent rfl (sameArrays_of_servers rfl) (turned_setClient ?_)
      (by simp [Record.NoHandle]))
    exact .kept turn gen fun _ => by rw [state]; nofun
  | create fd maxClients _ handle ran =>
    obtain ⟨sdx, creates⟩ := serverCreate_spec ran
    exact issues.created creates
  | delete sdx =>
    exact issues.steps (.silent rfl (sameArrays_setServer nofun rfl rfl) (fun _ => .same)
      (by simp [Record.NoHandle]))

theorem reachable_issues {s : State} (reached : calls.Reachable s) : Issues s := by
  refine reachable_micro reached (fun s begins => ?_) fun _ _ issues step => issues.micro step
  obtain ⟨servers, clients, log⟩ := begins
  refine ⟨fun sdx used => ?_, fun ref there => ?_, fun before since ref life turn handle split => ?_⟩
  · simp [servers sdx] at used
  · rw [clients ref, Tcp.generation]
    cases server : ref.server with
    | none => rfl
    | some sdx =>
      have used := there sdx server
      simp [servers sdx] at used
  · simp [log] at split

/-! ## Where a handle leads -/

section Lookup

variable {s : State} {ref : Ref} {life turn sdx : Nat} {handle : UInt32} {since : List Record}

/-- The fields of a handle that was made. -/
theorem Made.fields (made : Made ref turn handle) : handle ≠ tcpInvalid ∧
    (unpackHandle handle).typ = 0 ∧
    (unpackHandle handle).sdx.toNat = (match ref.server with | some sdx => 1 + sdx | none => 0) ∧
    (unpackHandle handle).idx.toNat = slotRead ref.slot (generation ref turn) ∧
    (unpackHandle handle).gen.toNat = genRead ref.slot (generation ref turn) := by
  have back := packHandle_readsBack made.packed
  have small := generation_lt ref turn
  have slot : (UInt32.ofNat ref.slot).toNat = ref.slot :=
    UInt32.toNat_ofNat_of_lt' (Nat.lt_trans made.slot (by decide))
  have gen : (UInt32.ofNat (generation ref turn)).toNat = generation ref turn :=
    UInt32.toNat_ofNat_of_lt' (Nat.lt_trans small (by decide))
  refine ⟨back.valid, UInt32.toNat_inj.mp back.typ, ?_, ?_, ?_⟩
  · rw [back.sdx]
    apply UInt32.toNat_ofNat_of_lt'
    split
    · rename_i sdx server
      rw [Nat.lt_one_iff.mp (made.server sdx server)]
      decide
    · decide
  · rw [back.idx, slot, gen, slotRead]
  · rw [back.gen, slot, gen, genRead]

/-- The handle of a stand-alone client. -/
theorem lookup_alone (made : Made ref turn handle) (alone : ref.server = none) :
    clientFromHandle s handle =
      if generation ref turn ≥ 2048 then some none
      else if (s.clients ref).state ≠ .free then some (some ref) else none := by
  obtain ⟨valid, typ, sdx, idx, -⟩ := made.fields
  have zero : (unpackHandle handle).sdx = 0 := by
    rw [alone] at sdx
    exact UInt32.toNat_inj.mp sdx
  have first : ref.slot = 0 := Nat.lt_one_iff.mp (made.alone alone)
  have small : generation ref turn < 4096 := generation_lt ref turn
  rw [first, slotRead, Nat.zero_div, Nat.zero_mul, Nat.zero_mod, Nat.zero_max, Nat.zero_add] at idx
  unfold clientFromHandle
  simp only [if_neg valid, typ, ne_eq, not_true_eq_false, if_false, zero, if_true, idx]
  by_cases old : generation ref turn ≥ 2048
  · have high : generation ref turn / 2048 = 1 := by omega
    rw [if_pos old, high]
    rfl
  · have low : generation ref turn / 2048 = 0 := by omega
    have same : (⟨none, 0⟩ : Ref) = ref := by rw [← alone, ← first]
    rw [if_neg old, low, same]
    rfl

/-- The handle of a client of a server. -/
theorem lookup_owned (made : Made ref turn handle) (owned : ref.server = some sdx) :
    clientFromHandle s handle =
      if slotRead ref.slot (generation ref turn) ≥ (s.servers sdx).capacity then some none
      else if (s.servers sdx).state = .free then none
      else if genRead ref.slot (generation ref turn) ≠
        (s.clients ⟨some sdx, slotRead ref.slot (generation ref turn)⟩).gen then some none
      else if (s.clients ⟨some sdx, slotRead ref.slot (generation ref turn)⟩).state ≠ .free then
        some (some ⟨some sdx, slotRead ref.slot (generation ref turn)⟩)
      else none := by
  obtain ⟨valid, typ, server, idx, gen⟩ := made.fields
  rw [owned] at server
  simp only at server
  have some_ : (unpackHandle handle).sdx ≠ 0 := by
    intro zero
    rw [zero, UInt32.toNat_zero] at server
    omega
  have inside := made.server sdx owned
  have back : (unpackHandle handle).sdx.toNat - 1 = sdx := by omega
  unfold clientFromHandle
  simp only [if_neg valid, typ, ne_eq, not_true_eq_false, if_false, if_neg some_, back,
    if_neg (Nat.not_le.mpr inside), ge_iff_le, idx, gen]

/-- A handle leads to no client exactly when there is none with what is read from it. -/
theorem lookup_none_iff (made : Made ref turn handle) (owned : ref.server = some sdx) :
    clientFromHandle s handle = some none ↔
      Vacant s sdx (slotRead ref.slot (generation ref turn))
        (genRead ref.slot (generation ref turn)) := by
  rw [lookup_owned made owned, Vacant]
  by_cases outside : slotRead ref.slot (generation ref turn) ≥ (s.servers sdx).capacity
  · simp [outside]
  rw [if_neg outside]
  cases state : (s.servers sdx).state with
  | free => simp [outside]
  | used =>
    simp only [reduceCtorEq, if_false, outside, false_or, true_and, ne_eq, eq_comm (a := genRead ..)]
    split
    · simp_all
    · split <;> simp_all

/-- A handle that leads to its client has its slot and its generation in it. -/
theorem lookup_some (made : Made ref turn handle) (owned : ref.server = some sdx)
    (found : clientFromHandle s handle = some (some ref)) :
    slotRead ref.slot (generation ref turn) = ref.slot ∧
      genRead ref.slot (generation ref turn) = (s.clients ref).gen := by
  rw [lookup_owned made owned] at found
  split at found
  · cases found
  split at found
  · cases found
  split at found
  · cases found
  rename_i same
  split at found
  · have here := Option.some.inj (Option.some.inj found)
    rw [here, not_not] at same
    exact ⟨congrArg Ref.slot here, same⟩
  · cases found

/-- A slot and a generation come back from their handle exactly when they are aligned. -/
theorem aligned_iff {slot gen : Nat} :
    Aligned slot gen ↔ slotRead slot gen = slot ∧ genRead slot gen = gen := by
  unfold Aligned slotRead genRead
  omega

theorem generation_moved {count : Nat} (some_ : 0 < count) (few : count < generations) :
    generation ref (turn + count) ≠ generation ref turn := by
  unfold generation generations at *
  split <;> omega

theorem generation_opposite {count : Nat} (few : count < generations) (young : generation ref turn < 2048) :
    generation ref (turn + count) = 2048 + generation ref turn ↔ count = 2048 := by
  unfold generation generations at *
  split at young <;> simp only [*, if_true, if_false] <;> omega

/-- The handle of a stand-alone client. -/
private theorem faithful_alone (known : Known s ref life turn handle since)
    (alone : ref.server = none) (few : advances ref since < generations) :
    Faithful s ref life since handle ↔
      (advances ref since = 0 ↔ generation ref turn < 2048) := by
  have lives : Lives s ref life := by
    intro sdx server
    rw [alone] at server
    cases server
  have lookup := lookup_alone (s := s) known.made alone
  by_cases none : advances ref since = 0
  · rw [if_pos (known.used lives none)] at lookup
    constructor
    · intro faithful
      refine ⟨fun _ => ?_, fun _ => none⟩
      by_contra old
      rw [faithful.there lives none, if_pos (Nat.not_lt.mp old)] at lookup
      cases lookup
    · intro young
      rw [if_neg (Nat.not_le.mpr (young.mp none))] at lookup
      exact ⟨fun _ _ => lookup, fun gone => absurd ⟨lives, none⟩ gone⟩
  · constructor
    · intro faithful
      refine ⟨fun zero => absurd zero none, fun young => ?_⟩
      rw [faithful.gone (fun there => none there.2) few, if_neg (Nat.not_le.mpr young)] at lookup
      split at lookup <;> cases lookup
    · intro young
      have old : generation ref turn ≥ 2048 := Nat.not_lt.mp fun below => none (young.mpr below)
      rw [if_pos old] at lookup
      exact ⟨fun _ zero => absurd zero none, fun _ _ => lookup⟩

/-- The handle of a client of a server that is there. -/
private theorem there_iff (known : Known s ref life turn handle since) (issues : Issues s)
    (owned : ref.server = some sdx) (lives : Lives s ref life) (none : advances ref since = 0) :
    clientFromHandle s handle = some (some ref) ↔ Aligned ref.slot (generation ref turn) := by
  have current : (s.clients ref).gen = generation ref turn := by
    rw [issues.generation ref fun sdx server => (lives sdx server).1, known.turns lives, none,
      Nat.add_zero]
  rw [aligned_iff]
  constructor
  · intro found
    rw [← current]
    exact current ▸ lookup_some known.made owned found
  · rintro ⟨slot, gen⟩
    have same : (⟨some sdx, ref.slot⟩ : Ref) = ref := by rw [← owned]
    rw [lookup_owned known.made owned, slot, gen, same,
      if_neg (Nat.not_le.mpr (known.inside lives sdx owned)), if_neg, if_neg, if_pos]
    · exact known.used lives none
    · rw [current]
      exact fun different => different rfl
    · rw [(lives sdx owned).1]
      nofun

/-- The handle of a client of a server that was freed. -/
private theorem freed_iff (known : Known s ref life turn handle since) (issues : Issues s)
    (owned : ref.server = some sdx) (lives : Lives s ref life) (some_ : 0 < advances ref since)
    (few : advances ref since < generations) :
    clientFromHandle s handle = some none ↔ Aligned ref.slot (generation ref turn) ∨
      (ref.slot % 2 = 1 ∧ advances ref since ≠ 2048) ∨
      (ref.slot % 2 = 0 ∧ Vacant s sdx (ref.slot + 1) (generation ref turn)) := by
  have current : (s.clients ref).gen = generation ref (turn + advances ref since) := by
    rw [issues.generation ref fun sdx server => (lives sdx server).1, known.turns lives]
  have small : generation ref turn < 4096 := generation_lt ref turn
  have same : (⟨some sdx, ref.slot⟩ : Ref) = ref := by rw [← owned]
  have here : ∀ gen, Vacant s sdx ref.slot gen ↔
      generation ref (turn + advances ref since) ≠ gen := by
    intro gen
    have inside := known.inside lives sdx owned
    simp [Vacant, same, current, (lives sdx owned).1, inside]
  rw [lookup_none_iff known.made owned]
  by_cases aligned : Aligned ref.slot (generation ref turn)
  · obtain ⟨slot, gen⟩ := aligned_iff.mp aligned
    rw [slot, gen, here]
    exact ⟨fun _ => .inl aligned, fun _ => generation_moved some_ few⟩
  by_cases odd : ref.slot % 2 = 1
  · have young : generation ref turn < 2048 := by
      unfold Aligned at aligned
      omega
    have slot : slotRead ref.slot (generation ref turn) = ref.slot := by
      unfold slotRead
      omega
    have gen : genRead ref.slot (generation ref turn) = 2048 + generation ref turn := by
      unfold genRead
      omega
    rw [slot, gen, here, ne_eq, generation_opposite few young]
    simp [aligned, odd]
  · have even : ref.slot % 2 = 0 := by omega
    have slot : slotRead ref.slot (generation ref turn) = ref.slot + 1 := by
      unfold slotRead
      unfold Aligned at aligned
      omega
    have gen : genRead ref.slot (generation ref turn) = generation ref turn := by
      unfold genRead
      unfold Aligned at aligned
      omega
    rw [slot, gen]
    simp [aligned, even]

/-- A handle that was made for a client leads to it while it is there, and to nothing once it
is gone, exactly as far as the handle is unambiguous. -/
theorem handle_faithful_iff_unambiguous {before : List Record} (reached : calls.Reachable s)
    (issued : s.log = before ++ .issued ref life turn handle :: since) :
    Faithful s ref life since handle ↔ Unambiguous s ref life turn since := by
  have issues := reachable_issues reached
  have known := issues.known before since ref life turn handle issued
  unfold Unambiguous
  by_cases few : advances ref since < generations
  · simp only [few, true_imp_iff]
    cases owned : ref.server with
    | none => exact faithful_alone known owned few
    | some sdx =>
      simp only
      constructor
      · intro faithful
        refine ⟨fun lives none => ?_, fun lives some_ => ?_, fun gone => ?_⟩
        · exact (there_iff known issues owned lives none).mp (faithful.there lives none)
        · apply (freed_iff known issues owned lives some_ few).mp
          exact faithful.gone (fun there => absurd there.2 (Nat.ne_of_gt some_)) few
        · apply (lookup_none_iff known.made owned).mp
          exact faithful.gone (fun there => gone there.1) few
      · rintro ⟨there, freed, gone⟩
        refine ⟨fun lives none => ?_, fun left _ => ?_⟩
        · exact (there_iff known issues owned lives none).mpr (there lives none)
        · by_cases lives : Lives s ref life
          · have some_ : 0 < advances ref since := Nat.pos_of_ne_zero fun none => left ⟨lives, none⟩
            exact (freed_iff known issues owned lives some_ few).mpr (freed lives some_)
          · exact (lookup_none_iff known.made owned).mpr (gone lives)
  · refine ⟨fun _ fits => absurd fits few, fun _ => ⟨fun _ none => ?_, fun _ fits => absurd fits few⟩⟩
    rw [none] at few
    exact absurd (by decide) few

end Lookup

/-- The handle of the first client of a server leads nowhere after the client was closed. -/
theorem handle_faithful_iff_unambiguous_applies : ∃ s, calls.Reachable s ∧
    Unambiguous s ⟨some 0, 0⟩ 1 0 [.pushed ⟨some 0, 0⟩ .connect, .freed ⟨some 0, 0⟩] ∧
    Faithful s ⟨some 0, 0⟩ 1 [.pushed ⟨some 0, 0⟩ .connect, .freed ⟨some 0, 0⟩] 0x08000002 ∧
    clientFromHandle s 0x08000002 = some none := by
  have begun : calls.Reachable zeroed := .start zeroed_initial
  obtain ⟨s, reached, checked⟩ := begun.replay_check
    [.serverCreate 3 2, .serverPoll 0x80000000 oneConnection, .clientClose 0x08000002]
    (fun s => s.log = [.opened ⟨some 0, 0⟩, .issued ⟨some 0, 0⟩ 1 0 0x08000002,
        .pushed ⟨some 0, 0⟩ .connect, .freed ⟨some 0, 0⟩] &&
      (s.servers 0).state = .used && (s.servers 0).life = 1) (by decide)
  simp only [Bool.and_eq_true, decide_eq_true_eq] at checked
  obtain ⟨⟨log, used⟩, life⟩ := checked
  have lives : Lives s ⟨some 0, 0⟩ 1 := by
    intro sdx server
    cases server
    exact ⟨used, life⟩
  have unambiguous :
      Unambiguous s ⟨some 0, 0⟩ 1 0 [.pushed ⟨some 0, 0⟩ .connect, .freed ⟨some 0, 0⟩] :=
    fun _ => ⟨fun _ _ => rfl, fun _ _ => .inl rfl, fun gone => absurd lives gone⟩
  have issued : s.log = [.opened ⟨some 0, 0⟩] ++ .issued ⟨some 0, 0⟩ 1 0 0x08000002 ::
      [.pushed ⟨some 0, 0⟩ .connect, .freed ⟨some 0, 0⟩] := log
  have faithful := (handle_faithful_iff_unambiguous reached issued).mpr unambiguous
  exact ⟨s, reached, unambiguous, faithful, faithful.gone (fun there => absurd there.2 (by decide))
    (by decide)⟩

/-- The handle of a stand-alone client that was closed trips the assertion, and it leads to the
next stand-alone client; and the handle of a client in slot 1 does not lead to it. -/
theorem stale_handle_leads_to_next_client :
    (∃ s, calls.Reachable s ∧ s.log = [.opened ⟨none, 0⟩, .issued ⟨none, 0⟩ 0 0 0, .freed ⟨none, 0⟩] ∧
      clientFromHandle s 0 = none ∧ ¬ Faithful s ⟨none, 0⟩ 0 [.freed ⟨none, 0⟩] 0) ∧
    (∃ s, calls.Reachable s ∧ s.log = [.opened ⟨none, 0⟩, .issued ⟨none, 0⟩ 0 0 0, .freed ⟨none, 0⟩,
        .opened ⟨none, 0⟩, .issued ⟨none, 0⟩ 0 1 2] ∧
      clientFromHandle s 0 = some (some ⟨none, 0⟩) ∧
      ¬ Faithful s ⟨none, 0⟩ 0 [.freed ⟨none, 0⟩, .opened ⟨none, 0⟩, .issued ⟨none, 0⟩ 0 1 2] 0) ∧
    ∃ s, calls.Reachable s ∧ Record.issued ⟨some 0, 1⟩ 1 0 0x08001002 ∈ s.log ∧
      (s.clients ⟨some 0, 1⟩).state = .used ∧ clientFromHandle s 0x08001002 = some none ∧
      ¬ Faithful s ⟨some 0, 1⟩ 1 [.pushed ⟨some 0, 1⟩ .connect] 0x08001002 := by
  have begun : calls.Reachable zeroed := .start zeroed_initial
  refine ⟨?_, ?_, ?_⟩
  · obtain ⟨s, reached, checked⟩ := begun.replay_check [.clientCreate 3, .clientClose 0]
      (fun s => s.log = [.opened ⟨none, 0⟩, .issued ⟨none, 0⟩ 0 0 0, .freed ⟨none, 0⟩] &&
        clientFromHandle s 0 = none) (by decide)
    simp only [Bool.and_eq_true, decide_eq_true_eq] at checked
    refine ⟨s, reached, checked.1, checked.2, fun faithful => ?_⟩
    have gone := faithful.gone (fun there => absurd there.2 (by decide)) (by decide)
    cases checked.2.symm.trans gone
  · obtain ⟨s, reached, checked⟩ := begun.replay_check
      [.clientCreate 3, .clientClose 0, .clientCreate 4]
      (fun s => s.log = [.opened ⟨none, 0⟩, .issued ⟨none, 0⟩ 0 0 0, .freed ⟨none, 0⟩,
          .opened ⟨none, 0⟩, .issued ⟨none, 0⟩ 0 1 2] &&
        clientFromHandle s 0 = some (some ⟨none, 0⟩)) (by decide)
    simp only [Bool.and_eq_true, decide_eq_true_eq] at checked
    refine ⟨s, reached, checked.1, checked.2, fun faithful => ?_⟩
    have gone := faithful.gone (fun there => absurd there.2 (by decide)) (by decide)
    cases checked.2.symm.trans gone
  · obtain ⟨s, reached, checked⟩ := begun.replay_check
      [.serverCreate 3 2, .serverPoll 0x80000000
        { oneConnection with accepts := [.accepted 5 true, .accepted 6 true] }]
      (fun s => Record.issued ⟨some 0, 1⟩ 1 0 0x08001002 ∈ s.log &&
        (s.clients ⟨some 0, 1⟩).state = .used && clientFromHandle s 0x08001002 = some none &&
        (s.servers 0).state = .used && (s.servers 0).life = 1) (by decide)
    simp only [Bool.and_eq_true, decide_eq_true_eq] at checked
    obtain ⟨⟨⟨⟨issued, state⟩, lookup⟩, used⟩, life⟩ := checked
    refine ⟨s, reached, issued, state, lookup, fun faithful => ?_⟩
    have there := faithful.there (fun sdx server => by cases server; exact ⟨used, life⟩) (by decide)
    cases lookup.symm.trans there

end Mysnips.Tcp

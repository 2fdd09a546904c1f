import Mathlib.Data.List.Nodup
import Mysnips.HttpServerClients

/-! The connection table. The poll entries and the indices of the connected clients
are parallel arrays, the free slots a stack behind them, all addressed by the number
of connections. Closing a client moves the last entry into its place, also in the
middle of the loop that services the clients. -/
namespace Mysnips.HttpServer
open Transition

/-- The descriptor of a client: the one with which its slot was last accepted. -/
def descriptor (log : List Event) (ci : Nat) : Option Nat :=
  log.foldl (fun fd e =>
    match e with
    | .accepted cj fd' => if cj = ci then some fd' else fd
    | _ => fd) none

/-- The table lists the connected clients and the stack the free ones, both without
repetition, and each connected client has its poll entry with its descriptor. -/
structure Table (max : Nat) (s : Server) : Prop where
  size : s.ncs ≤ max
  bound : ∀ i < s.ncs, s.pis i < max
  listed : ∀ i < s.ncs, (s.cs (s.pis i)).state ≠ .free
  entry : ∀ i < s.ncs, (s.cs (s.pis i)).pitem = some (i + 1)
  fd : ∀ i < s.ncs, descriptor s.log (s.pis i) = some (s.ps (i + 1)).fd
  connected : ∀ ci < max, (s.cs ci).state ≠ .free → ∃ i < s.ncs, s.pis i = ci
  stacked : ∀ k < max - s.ncs, s.free k < max
  spare : ∀ k < max - s.ncs, (s.cs (s.free k)).state = .free
  single : ∀ k < max - s.ncs, ∀ l < max - s.ncs, s.free k = s.free l → k = l
  complete : ∀ ci < max, (s.cs ci).state = .free → ∃ k < max - s.ncs, s.free k = ci

/-- No client is listed twice: its poll entry says where it is listed. -/
theorem Table.pis_injective {max i j : Nat} {s : Server} (table : Table max s) (left : i < s.ncs)
    (right : j < s.ncs) (same : s.pis i = s.pis j) : i = j := by
  have entry := table.entry i left
  rw [same, table.entry j right] at entry
  simpa using entry.symm

theorem descriptor_append (log events : List Event) (ci : Nat)
    (others : ∀ fd, .accepted ci fd ∉ events) :
    descriptor (log ++ events) ci = descriptor log ci := by
  rw [descriptor, List.foldl_append, ← descriptor]
  generalize descriptor log ci = start
  induction events generalizing start with
  | nil => rfl
  | cons e rest ih =>
    have tail := ih (fun fd member => others fd (List.mem_cons_of_mem _ member))
    rw [List.foldl_cons, tail]
    cases e with
    | accepted cj fd =>
      have other : cj ≠ ci := by
        rintro rfl
        exact others fd List.mem_cons_self
      simp [other]
    | _ => rfl

theorem descriptor_accepted (log : List Event) (ci fd : Nat) :
    descriptor (log ++ [.accepted ci fd]) ci = some fd := by
  simp [descriptor, List.foldl_append]

/-- Anything that happens to one client keeps the table, as long as the client keeps
its poll entry and stays connected. -/
theorem Table.touch {max ci : Nat} {events : List Event} {s s' : Server} (table : Table max s)
    (touch : Touch ci events s s') (others : ∀ cj fd, .accepted cj fd ∉ events)
    (free : (s'.cs ci).state = .free ↔ (s.cs ci).state = .free) : Table max s' := by
  have state : ∀ cj, (s'.cs cj).state = .free ↔ (s.cs cj).state = .free := by
    intro cj
    by_cases same : cj = ci
    · rw [same, free]
    · rw [touch.others cj same]
  have pitem : ∀ cj, (s'.cs cj).pitem = (s.cs cj).pitem := by
    intro cj
    by_cases same : cj = ci
    · rw [same, touch.pitem]
    · rw [touch.others cj same]
  constructor
  · rw [touch.ncs]
    exact table.size
  · rw [touch.ncs, touch.pis]
    exact table.bound
  · rw [touch.ncs, touch.pis]
    exact fun i inside => mt (state _).mp (table.listed i inside)
  · rw [touch.ncs, touch.pis]
    exact fun i inside => (pitem _).trans (table.entry i inside)
  · rw [touch.ncs, touch.pis, touch.log]
    intro i inside
    rw [descriptor_append _ _ _ (others _), touch.fds]
    exact table.fd i inside
  · rw [touch.ncs, touch.pis]
    exact fun cj bound taken => table.connected cj bound (mt (state cj).mpr taken)
  · rw [touch.ncs, touch.free]
    exact table.stacked
  · rw [touch.ncs, touch.free]
    exact fun k inside => (state _).mpr (table.spare k inside)
  · rw [touch.ncs, touch.free]
    exact table.single
  · rw [touch.ncs, touch.free]
    exact fun cj bound unused => table.complete cj bound ((state cj).mp unused)

/-- The next free slot is free, so that accepting a connection meets its assertions. -/
theorem Table.acceptClient_ok {max : Nat} {s : Server} (table : Table max s) (room : s.ncs < max)
    (fd : Nat) : ∃ s', acceptClient max s fd = .ok s' := by
  have top : max - (s.ncs + 1) < max - s.ncs := by omega
  unfold acceptClient
  simp only
  rw [if_neg (not_not.mpr (table.stacked _ top)), if_neg (not_not.mpr (table.spare _ top))]
  exact ⟨_, rfl⟩

theorem Table.accept {max fd ci : Nat} {s s' : Server} (table : Table max s) (room : s.ncs < max)
    (accepting : Accepting max fd ci s s') : Table max s' := by
  have top : max - (s.ncs + 1) < max - s.ncs := by omega
  have slots : ∀ i < s'.ncs, (i = s.ncs ∧ s'.pis i = ci) ∨
      (i < s.ncs ∧ s'.pis i = s.pis i ∧ s.pis i ≠ ci) := by
    intro i inside
    rw [accepting.ncs] at inside
    rw [accepting.pis, Function.update_apply]
    by_cases last : i = s.ncs
    · exact .inl ⟨last, if_pos last⟩
    · have earlier : i < s.ncs := by omega
      refine .inr ⟨earlier, if_neg last, fun same => table.listed i earlier ?_⟩
      rw [same, accepting.free]
  have stack : ∀ k < max - s'.ncs, k < max - s.ncs ∧ s'.free k = s.free k ∧ s.free k ≠ ci := by
    intro k inside
    rw [accepting.ncs] at inside
    have lower : k < max - s.ncs := by omega
    refine ⟨lower, by rw [accepting.stack], fun same => ?_⟩
    have := table.single k lower _ top (by rw [same, accepting.top])
    omega
  constructor
  · rw [accepting.ncs]
    exact room
  · intro i inside
    rcases slots i inside with ⟨-, same⟩ | ⟨earlier, same, -⟩
    · rw [same]
      exact accepting.bound
    · rw [same]
      exact table.bound i earlier
  · intro i inside
    rcases slots i inside with ⟨-, same⟩ | ⟨earlier, same, other⟩
    · simp [same, accepting.client]
    · rw [same, accepting.others _ other]
      exact table.listed i earlier
  · intro i inside
    rcases slots i inside with ⟨rfl, same⟩ | ⟨earlier, same, other⟩
    · simp [same, accepting.client]
    · rw [same, accepting.others _ other]
      exact table.entry i earlier
  · intro i inside
    rw [accepting.log, accepting.ps]
    rcases slots i inside with ⟨rfl, same⟩ | ⟨earlier, same, other⟩
    · rw [same, descriptor_accepted, Function.update_self]
    · rw [same, descriptor_append _ _ _ (by simp [other]), Function.update_of_ne (by omega)]
      exact table.fd i earlier
  · intro cj bound taken
    rw [accepting.ncs, accepting.pis]
    by_cases same : cj = ci
    · exact ⟨s.ncs, Nat.lt_succ_self _, by rw [Function.update_self, same]⟩
    · rw [accepting.others cj same] at taken
      obtain ⟨i, inside, listed⟩ := table.connected cj bound taken
      exact ⟨i, Nat.lt_succ_of_lt inside, by rw [Function.update_of_ne (by omega), listed]⟩
  · intro k inside
    obtain ⟨lower, same, -⟩ := stack k inside
    rw [same]
    exact table.stacked k lower
  · intro k inside
    obtain ⟨lower, same, other⟩ := stack k inside
    rw [same, accepting.others _ other]
    exact table.spare k lower
  · intro k inside l inside' equal
    obtain ⟨lower, same, -⟩ := stack k inside
    obtain ⟨lower', same', -⟩ := stack l inside'
    rw [same, same'] at equal
    exact table.single k lower l lower' equal
  · intro cj bound unused
    by_cases same : cj = ci
    · simp [same, accepting.client] at unused
    · rw [accepting.others cj same] at unused
      obtain ⟨k, inside, listed⟩ := table.complete cj bound unused
      refine ⟨k, ?_, by rw [accepting.stack, listed]⟩
      -- The top of the stack is the slot that was taken.
      have other : k ≠ max - (s.ncs + 1) := by
        rintro rfl
        exact same (by rw [← listed, accepting.top])
      rw [accepting.ncs]
      omega

/-- The poll entry of a connected client. -/
theorem Table.position {max ci : Nat} {s : Server} (table : Table max s) (bound : ci < max)
    (taken : (s.cs ci).state ≠ .free) :
    ∃ j < s.ncs, s.pis j = ci ∧ (s.cs ci).pitem = some (j + 1) := by
  obtain ⟨j, inside, rfl⟩ := table.connected ci bound taken
  exact ⟨j, inside, rfl, table.entry j inside⟩

/-- A connected client can be closed. -/
theorem Table.closeClient_ok {max ci : Nat} {s : Server} (table : Table max s) (bound : ci < max)
    (taken : (s.cs ci).state ≠ .free) : ∃ s', closeClient max s ci = .ok s' := by
  obtain ⟨j, inside, -, entry⟩ := table.position bound taken
  unfold closeClient
  rw [entry]
  simp only
  rw [if_neg (by omega)]
  exact ⟨_, rfl⟩

/-- The closed entry is the one that the client is listed at. -/
private theorem Table.closing_entry {max ci pi : Nat} {s s' : Server} (table : Table max s)
    (bound : ci < max) (taken : (s.cs ci).state ≠ .free) (closing : Closing max ci pi s s') :
    ∃ j < s.ncs, s.pis j = ci ∧ pi = j + 1 := by
  obtain ⟨j, inside, listed, entry⟩ := table.position bound taken
  refine ⟨j, inside, listed, ?_⟩
  have same := closing.entry
  rw [entry] at same
  simpa using same.symm

/-- The entries that are left: the moved one in the place of the closed one, and the rest. -/
private theorem Table.slots_left {max ci j : Nat} {s s' : Server} (table : Table max s)
    (inside : j < s.ncs) (listed : s.pis j = ci) (closing : Closing max ci (j + 1) s s') :
    ∀ i < s'.ncs, ∃ k < s.ncs, s'.pis i = s.pis k ∧ s.pis k ≠ ci ∧
      s'.ps (i + 1) = s.ps (k + 1) ∧ (s'.cs (s.pis k)).pitem = some (i + 1) := by
  intro i remains
  rw [closing.ncs] at remains
  rw [closing.pis, closing.ps, Nat.add_sub_cancel]
  by_cases here : i = j
  · refine ⟨s.ncs - 1, by omega, by rw [here, Function.update_self], ?_, ?_, ?_⟩
    · rw [← listed]
      intro same
      have := table.pis_injective (by omega) inside same
      omega
    · rw [here, Function.update_self, Nat.sub_add_cancel closing.positive]
    · rw [closing.pitem, if_pos rfl, here]
  · have other : s.pis i ≠ ci := by
      rw [← listed]
      exact fun same => here (table.pis_injective (by omega) inside same)
    have moved : s.pis i ≠ s.pis (s.ncs - 1) := fun same => by
      have := table.pis_injective (by omega) (by omega) same
      omega
    refine ⟨i, by omega, Function.update_of_ne here .., other,
      Function.update_of_ne (by omega) .., ?_⟩
    rw [closing.pitem, if_neg moved, if_neg other]
    exact table.entry i (by omega)

/-- A client that stays connected is still listed. -/
private theorem Table.still_listed {max ci j i : Nat} {s s' : Server} (inside : j < s.ncs)
    (closing : Closing max ci (j + 1) s s') (before : i < s.ncs) (apart : i ≠ j) :
    ∃ k < s'.ncs, s'.pis k = s.pis i := by
  rw [closing.ncs, closing.pis, Nat.add_sub_cancel]
  by_cases last : i = s.ncs - 1
  · exact ⟨j, by omega, by rw [Function.update_self, last]⟩
  · exact ⟨i, by omega, Function.update_of_ne apart ..⟩

private theorem Table.room_after {max ci pi : Nat} {s s' : Server} (table : Table max s)
    (closing : Closing max ci pi s s') : max - s'.ncs = max - s.ncs + 1 := by
  have size := table.size
  have positive := closing.positive
  rw [closing.ncs]
  omega

/-- The stack of free slots: the closed client on top, and what was there below it. -/
private theorem Table.stack_after {max ci pi : Nat} {s s' : Server} (table : Table max s)
    (taken : (s.cs ci).state ≠ .free) (closing : Closing max ci pi s s') :
    ∀ k < max - s'.ncs, (k = max - s.ncs ∧ s'.free k = ci) ∨
      (k < max - s.ncs ∧ s'.free k = s.free k ∧ s.free k ≠ ci) := by
  intro k below
  rw [table.room_after closing] at below
  rw [closing.free, Function.update_apply]
  by_cases top : k = max - s.ncs
  · exact .inl ⟨top, if_pos top⟩
  · have lower : k < max - s.ncs := by omega
    refine .inr ⟨lower, if_neg top, fun same => taken ?_⟩
    rw [← same]
    exact table.spare k lower

theorem Table.close {max ci pi : Nat} {s s' : Server} (table : Table max s) (bound : ci < max)
    (taken : (s.cs ci).state ≠ .free) (closing : Closing max ci pi s s') : Table max s' := by
  obtain ⟨j, inside, listed, rfl⟩ := table.closing_entry bound taken closing
  have slots := table.slots_left inside listed closing
  have stack := table.stack_after taken closing
  constructor
  · rw [closing.ncs]
    exact (Nat.sub_le ..).trans table.size
  · intro i remains
    obtain ⟨k, before, same, -⟩ := slots i remains
    rw [same]
    exact table.bound k before
  · intro i remains
    obtain ⟨k, before, same, other, -⟩ := slots i remains
    rw [same, closing.state, if_neg other]
    exact table.listed k before
  · intro i remains
    obtain ⟨k, before, same, -, -, pitem⟩ := slots i remains
    rw [same, pitem]
  · intro i remains
    obtain ⟨k, before, same, -, poll, -⟩ := slots i remains
    rw [same, poll, closing.log, descriptor_append _ _ _ (by simp)]
    exact table.fd k before
  · intro cj bound' taken'
    rw [closing.state] at taken'
    split at taken'
    · simp at taken'
    · rename_i other
      obtain ⟨i, before, rfl⟩ := table.connected cj bound' taken'
      refine Table.still_listed inside closing before ?_
      rintro rfl
      exact other listed
  · intro k below
    rcases stack k below with ⟨-, same⟩ | ⟨lower, same, -⟩
    · rw [same]
      exact bound
    · rw [same]
      exact table.stacked k lower
  · intro k below
    rcases stack k below with ⟨-, same⟩ | ⟨lower, same, other⟩
    · rw [same, closing.state, if_pos rfl]
    · rw [same, closing.state, if_neg other]
      exact table.spare k lower
  · intro k below l below' equal
    rcases stack k below with ⟨top, same⟩ | ⟨lower, same, other⟩ <;>
      rcases stack l below' with ⟨top', same'⟩ | ⟨lower', same', other'⟩
    · rw [top, top']
    · exact absurd (by rw [← same', ← equal, same]) other'
    · exact absurd (by rw [← same, equal, same']) other
    · rw [same, same'] at equal
      exact table.single k lower l lower' equal
  · intro cj bound' unused
    rw [closing.state] at unused
    rw [table.room_after closing, closing.free]
    split at unused
    · rename_i same
      exact ⟨max - s.ncs, Nat.lt_succ_self _, by rw [Function.update_self, same]⟩
    · obtain ⟨k, inside', stacked⟩ := table.complete cj bound' unused
      exact ⟨k, Nat.lt_succ_of_lt inside', by rw [Function.update_of_ne (by omega), stacked]⟩

/-! ## The service loop -/

/-- The clients that were serviced, in order. -/
def served (events : List Event) : List Nat :=
  events.filterMap (fun e =>
    match e with
    | .serviced ci => some ci
    | _ => none)

theorem served_append (past events : List Event) :
    served (past ++ events) = served past ++ served events :=
  List.filterMap_append ..

private theorem served_transfers {events : List Event} (transfers : ∀ e ∈ events, e.isTransfer) :
    served events = [] := by
  refine List.filterMap_eq_nil_iff.mpr (fun e member => ?_)
  have transfer := transfers e member
  cases e <;> simp_all [Event.isTransfer]

/-- The clients that the loop has still to visit. -/
def remaining (s : Server) (i : Nat) : List Nat :=
  (List.range' (i - 1) (s.ncs + 1 - i)).map s.pis

/-- Moving the last entry into the place of the first one leaves the others. -/
private theorem moved_perm (pis : Nat → Nat) (a n : Nat) :
    ((List.range' a n).map (Function.update pis a (pis (a + n)))).Perm
      ((List.range' (a + 1) n).map pis) := by
  cases n with
  | zero => exact .nil
  | succ n =>
    have rest : (List.range' (a + 1) n).map (Function.update pis a (pis (a + (n + 1)))) =
        (List.range' (a + 1) n).map pis := by
      refine List.map_congr_left (fun k member => Function.update_of_ne ?_ ..)
      have := (List.mem_range'_1.mp member).1
      omega
    rw [List.range'_succ, List.map_cons, Function.update_self, rest, List.range'_concat,
      List.map_append, List.map_cons, List.map_nil, Nat.one_mul,
      show a + 1 + n = a + (n + 1) by omega]
    exact (List.perm_append_singleton ..).symm

/-- What a round of the service loop leaves: the table, and the rest of the clients. -/
structure Round (max ci i : Nat) (s s' : Server) (rest : List Nat) : Prop where
  table : Table max s'
  log : ∃ events, s'.log = s.log ++ .serviced ci :: events ∧ served events = []
  visited : (ci :: rest).Perm (remaining s i)

theorem Table.kept {max ci : Nat} {s s' : Server} (table : Table max s) (kept : Kept ci s s') :
    Table max s' := by
  obtain ⟨events, touch, transfers⟩ := kept.touch
  refine table.touch touch (fun cj fd member => ?_) kept.free
  exact absurd (transfers _ member) (by simp [Event.isTransfer])

theorem Table.visited {max : Nat} {s : Server} (table : Table max s) (ci : Nat) :
    Table max (s.record (.serviced ci)) :=
  table.touch (Touch.record s _ rfl) (by simp) Iff.rfl

/-- A round that keeps its client. -/
theorem Table.stays {max i : Nat} {s s' : Server} (table : Table max s) (positive : 0 < i)
    (inside : i < s.ncs + 1) (kept : Kept (s.pis (i - 1)) (s.record (.serviced (s.pis (i - 1)))) s') :
    Round max (s.pis (i - 1)) i s s' (remaining s' (i + 1)) := by
  obtain ⟨events, touch, transfers⟩ := kept.touch
  refine ⟨(table.visited _).kept kept, ⟨events, ?_, served_transfers transfers⟩, ?_⟩
  · rw [touch.log, Server.record_log, List.append_assoc]
    rfl
  · rw [remaining, remaining, touch.pis, touch.ncs, Server.record_pis, Server.record_ncs,
      show s.ncs + 1 - i = (s.ncs + 1 - (i + 1)) + 1 by omega, List.range'_succ, List.map_cons,
      show i - 1 + 1 = i + 1 - 1 by omega]

/-- A round that closes its client. -/
theorem Table.leaves {max i : Nat} {s s₁ s' : Server} (table : Table max s) (positive : 0 < i)
    (inside : i < s.ncs + 1) (kept : Kept (s.pis (i - 1)) (s.record (.serviced (s.pis (i - 1)))) s₁)
    (done : closeClient max s₁ (s.pis (i - 1)) = .ok s') :
    s'.ncs + 1 = s.ncs ∧ Round max (s.pis (i - 1)) i s s' (remaining s' i) := by
  obtain ⟨pi, closing⟩ := closeClient_closing done
  obtain ⟨events, touch, transfers⟩ := kept.touch
  have listed := table.listed (i - 1) (by omega)
  have table₁ := (table.visited _).kept kept
  have ncs : s₁.ncs = s.ncs := touch.ncs
  have pis : s₁.pis = s.pis := touch.pis
  obtain rfl : pi = i := by
    have same := closing.entry
    rw [touch.pitem, Server.record_cs, table.entry (i - 1) (by omega)] at same
    simp only [Option.some.injEq] at same
    omega
  have taken : (s₁.cs (s.pis (pi - 1))).state ≠ .free := mt kept.free.mp listed
  refine ⟨by rw [closing.ncs, ncs]; omega, table₁.close (table.bound _ (by omega)) taken closing,
    ⟨events ++ [.closed (s.pis (pi - 1)) (s₁.ps pi).fd (s₁.cs (s.pis (pi - 1))).state], ?_, ?_⟩, ?_⟩
  · rw [closing.log, touch.log, Server.record_log, List.append_assoc, List.append_assoc]
    rfl
  · rw [served_append, served_transfers transfers]
    rfl
  · have last : s.ncs - 1 = pi - 1 + (s.ncs - pi) := by omega
    have perm := moved_perm s.pis (pi - 1) (s.ncs - pi)
    rw [remaining, remaining, closing.pis, closing.ncs, pis, ncs, last,
      show pi - 1 + (s.ncs - pi) + 1 - pi = s.ncs - pi by omega,
      show s.ncs + 1 - pi = (s.ncs - pi) + 1 by omega, List.range'_succ, List.map_cons]
    exact perm.cons _

/-- The loop visits every client that is left once, and keeps the table. -/
theorem serviceLoop_table {max : Nat} {io : Io} : ∀ {fuel i : Nat} {s s' : Server}, Table max s →
    0 < i → serviceLoop max io fuel i s = .ok s' →
    Table max s' ∧ ∃ events, s'.log = s.log ++ events ∧ (served events).Perm (remaining s i) := by
  intro fuel
  induction fuel with
  | zero =>
    intro i s s' table positive ran
    unfold serviceLoop at ran
    split at ran
    · cases ran
    · cases ran
      exact ⟨table, [], (List.append_nil _).symm, by simp [remaining, served]; omega⟩
  | succ fuel ih =>
    intro i s s' table positive ran
    unfold serviceLoop at ran
    split at ran
    · rename_i inside
      simp only at ran
      split at ran
      · cases ran
      · obtain ⟨⟨ok, s₁⟩, serving, rest⟩ := bind_ok ran
        have slot : Slot (s.record (.serviced (s.pis (i - 1)))) (s.pis (i - 1)) :=
          .inl ⟨i - 1, by rw [Server.record_ncs]; omega, rfl⟩
        have kept := (service_path slot serving).1
        -- The rest of the loop starts with the clients that the round leaves.
        have finish : ∀ {j : Nat} {s₂ : Server}, 0 < j →
            Round max (s.pis (i - 1)) i s s₂ (remaining s₂ j) →
            serviceLoop max io fuel j s₂ = .ok s' → Table max s' ∧ ∃ events,
              s'.log = s.log ++ events ∧ (served events).Perm (remaining s i) := by
          intro j s₂ positive' round loop
          obtain ⟨table', events', log', perm⟩ := ih round.table positive' loop
          obtain ⟨events, log, quiet⟩ := round.log
          refine ⟨table', .serviced (s.pis (i - 1)) :: (events ++ events'), ?_, ?_⟩
          · rw [log', log, List.append_assoc, List.cons_append]
          · have visits : served (.serviced (s.pis (i - 1)) :: (events ++ events')) =
                s.pis (i - 1) :: served events' := by
              rw [← List.nil_append (served events'), ← quiet, ← served_append]
              rfl
            rw [visits]
            exact (perm.cons _).trans round.visited
        cases ok with
        | true => exact finish (Nat.succ_pos i) (table.stays positive inside kept) rest
        | false =>
          obtain ⟨s₂, closed, rest⟩ := bind_ok rest
          exact finish positive (table.leaves positive inside kept closed).2 rest
    · cases ran
      exact ⟨table, [], (List.append_nil _).symm, by simp [remaining, served]; omega⟩

/-- The assertions of `process_io` on the table, and the bounds of its loops. -/
def Fault.ofTable : Fault → Prop
  | freeIndex | notFree | pitemMismatch | nullPointer | unfinished => True
  | _ => False

private theorem recvSpace_error {b : IoBuf} {fault : Fault} (stopped : recvSpace b = .error fault) :
    fault = .environment := by
  unfold recvSpace at stopped
  split at stopped
  · cases stopped
    rfl
  · cases stopped

private theorem recvLoop_error {recv : Recv} : ∀ {b : IoBuf} {received : List UInt8} {fault : Fault},
    recvLoop recv b received = .error fault → fault = .environment := by
  induction recv with
  | noMemory =>
    intro b received fault stopped
    unfold recvLoop at stopped
    split at stopped
    · cases stopped
    · cases stopped
      rfl
  | closed | error | again =>
    intro b received fault stopped
    rcases bind_error stopped with space | ⟨m, -, done⟩
    · exact recvSpace_error space
    · cases done
  | data bytes next ih =>
    intro b received fault stopped
    rcases bind_error stopped with space | ⟨m, -, rest⟩
    · exact recvSpace_error space
    · split at rest
      · exact ih rest
      · cases rest
        rfl

private theorem sendLoop_error {send : Send} : ∀ {limit sent zeros : Nat} {fault : Fault},
    sendLoop send limit sent zeros = .error fault → fault = .environment := by
  induction send with
  | error | again =>
    intro limit sent zeros fault stopped
    unfold sendLoop at stopped
    split at stopped <;> cases stopped
  | accepted n next ih =>
    intro limit sent zeros fault stopped
    unfold sendLoop at stopped
    split at stopped
    · cases stopped
    · simp only at stopped
      split at stopped
      · split at stopped
        · cases stopped
        · exact ih stopped
      · split at stopped
        · exact ih stopped
        · cases stopped
          rfl

/-- A client with a poll entry is serviced without a fault of the table. -/
private theorem service_error {max ci pi : Nat} {s : Server} {evs : PollEvents} {recv : Recv}
    {send : Send} {fault : Fault} (slot : Slot s ci) (entry : (s.cs ci).pitem = some pi)
    (stopped : service max s ci evs recv send = .error fault) : ¬ fault.ofTable := by
  rcases bind_error stopped with input | ⟨⟨ok, s₁⟩, input, output⟩
  · split at input
    · unfold socketInput at input
      rw [entry] at input
      rcases bind_error input with loop | ⟨⟨ready, buffer, received⟩, -, rest⟩
      · rw [recvLoop_error loop]
        simp [Fault.ofTable]
      · simp only at rest
        split at rest
        · cases rest
        · split at rest
          · rcases bind_error rest with full | ⟨s₂, -, done⟩
            · unfold pushClient at full
              split at full
              · cases full
              · cases full
                simp [Fault.ofTable]
            · cases done
          · cases rest
    · cases input
  · simp only at output
    split at output
    · have same : (s₁.cs ci).pitem = some pi := by
        split at input
        · rcases socketInput_attempt slot input with ⟨-, -, kept⟩ | ⟨-, drift, lost⟩
          · obtain ⟨events, touch, -⟩ := kept.touch
            rw [touch.pitem, entry]
          · rw [lost.touch.pitem, entry]
        · cases input
          exact entry
      simp only [socketOutput, same] at output
      split at output
      · cases output
        simp [Fault.ofTable]
      · rcases bind_error output with loop | ⟨⟨ready, n⟩, -, rest⟩
        · rw [sendLoop_error loop]
          simp [Fault.ofTable]
        · cases ready <;> cases rest
    · cases output

/-- The loop meets the assertion on the poll entries and ends within its bound. -/
theorem serviceLoop_error {max : Nat} {io : Io} : ∀ {fuel i : Nat} {s : Server} {fault : Fault},
    Table max s → 0 < i → s.ncs + 1 ≤ fuel + i → serviceLoop max io fuel i s = .error fault →
    ¬ fault.ofTable := by
  intro fuel
  induction fuel with
  | zero =>
    intro i s fault table positive enough stopped
    unfold serviceLoop at stopped
    rw [if_neg (by omega)] at stopped
    cases stopped
  | succ fuel ih =>
    intro i s fault table positive enough stopped
    unfold serviceLoop at stopped
    split at stopped
    · rename_i inside
      have entry : (s.cs (s.pis (i - 1))).pitem = some i := by
        rw [table.entry (i - 1) (by omega)]
        exact congrArg some (by omega)
      have slot : Slot (s.record (.serviced (s.pis (i - 1)))) (s.pis (i - 1)) :=
        .inl ⟨i - 1, by rw [Server.record_ncs]; omega, rfl⟩
      simp only at stopped
      rw [if_neg (not_not.mpr entry)] at stopped
      rcases bind_error stopped with serving | ⟨⟨ok, s₁⟩, serving, rest⟩
      · exact service_error slot entry serving
      · have kept := (service_path slot serving).1
        cases ok with
        | true =>
          have round := table.stays positive inside kept
          obtain ⟨events, touch, -⟩ := kept.touch
          have ncs : s₁.ncs = s.ncs := touch.ncs
          exact ih round.table (Nat.succ_pos i) (by rw [ncs]; omega) rest
        | false =>
          have table₁ := (table.visited _).kept kept
          have taken : (s₁.cs (s.pis (i - 1))).state ≠ .free :=
            mt kept.free.mp (table.listed (i - 1) (by omega))
          obtain ⟨s₂, closed⟩ := table₁.closeClient_ok (table.bound (i - 1) (by omega)) taken
          rcases bind_error rest with failed | ⟨s₂, closed, rest⟩
          · rw [closed] at failed
            cases failed
          · obtain ⟨fewer, round⟩ := table.leaves positive inside kept closed
            exact ih round.table positive (by omega) rest
    · cases stopped

/-- The accept loop keeps the table and disconnects nobody. -/
theorem acceptLoop_table {max : Nat} {accepts : List Accept} : ∀ {s s' : Server}, Table max s →
    acceptLoop max accepts s = .ok s' → Table max s' ∧
      (∃ events, s'.log = s.log ++ events ∧ served events = []) ∧
      ∀ ci, (s.cs ci).state ≠ .free → (s'.cs ci).state ≠ .free := by
  induction accepts with
  | nil =>
    intro s s' table ran
    cases ran
    exact ⟨table, ⟨[], (List.append_nil _).symm, rfl⟩, fun _ taken => taken⟩
  | cons outcome rest ih =>
    intro s s' table ran
    unfold acceptLoop at ran
    split at ran
    · rename_i room
      cases outcome with
      | client fd =>
        obtain ⟨s₁, accepted, loop⟩ := bind_ok ran
        have accepting := acceptClient_accepting accepted
        obtain ⟨table', ⟨events, log, quiet⟩, taken⟩ := ih (table.accept room accepting) loop
        refine ⟨table', ⟨.accepted (s.free (max - (s.ncs + 1))) fd :: events, ?_, quiet⟩, ?_⟩
        · rw [log, accepting.log, List.append_assoc]
          rfl
        intro ci before
        refine taken ci ?_
        by_cases same : ci = s.free (max - (s.ncs + 1))
        · rw [same, accepting.client]
          simp
        · rw [accepting.others ci same]
          exact before
      | blocking fd => exact ih table ran
      | error => cases ran
    · cases ran
      exact ⟨table, ⟨[], (List.append_nil _).symm, rfl⟩, fun _ taken => taken⟩

theorem acceptLoop_error {max : Nat} {accepts : List Accept} : ∀ {s : Server} {fault : Fault},
    Table max s → acceptLoop max accepts s = .error fault → ¬ fault.ofTable := by
  induction accepts with
  | nil =>
    intro s fault table stopped
    cases stopped
  | cons outcome rest ih =>
    intro s fault table stopped
    unfold acceptLoop at stopped
    split at stopped
    · rename_i room
      cases outcome with
      | client fd =>
        obtain ⟨s₁, accepted⟩ := table.acceptClient_ok room fd
        rcases bind_error stopped with failed | ⟨s₂, accepted, loop⟩
        · rw [accepted] at failed
          cases failed
        · exact ih (table.accept room (acceptClient_accepting accepted)) loop
      | blocking fd => exact ih table stopped
      | error =>
        cases stopped
        simp [Fault.ofTable]
    · cases stopped

/-- Every entry is listed once in a full pass. -/
private theorem remaining_all {max : Nat} {s : Server} (table : Table max s) :
    (remaining s 1).Nodup ∧ ∀ ci < max, (s.cs ci).state ≠ .free → ci ∈ remaining s 1 := by
  constructor
  · refine List.Nodup.map_on (fun i left j right same => ?_) List.nodup_range'
    have := List.mem_range'_1.mp left
    have := List.mem_range'_1.mp right
    exact table.pis_injective (by omega) (by omega) same
  · intro ci bound taken
    obtain ⟨i, inside, rfl⟩ := table.connected ci bound taken
    exact List.mem_map.mpr ⟨i, List.mem_range'_1.mpr (by omega), rfl⟩

private theorem Table.polled {max : Nat} {s : Server} (table : Table max s)
    (revents : Nat → PollEvents) : Table max { s with
      ps := fun i => if i ≤ s.ncs then { s.ps i with revents := revents i } else s.ps i } := by
  have touch : Touch 0 [] s { s with
      ps := fun i => if i ≤ s.ncs then { s.ps i with revents := revents i } else s.ps i } :=
    ⟨rfl, rfl, rfl, fun i => by dsimp only; split <;> rfl, fun _ _ => rfl, rfl,
      (List.append_nil _).symm, by simp⟩
  exact table.touch touch (by simp) Iff.rfl

/-- A pass of `process_io` keeps the table and services every client that it polled,
each of them once. -/
theorem processIo_table {max : Nat} {io : Io} {s s' : Server} (table : Table max s)
    (ran : processIo max s io = .ok s') : Table max s' ∧ (io.poll.isSome → ∃ events,
      s'.log = s.log ++ events ∧
      ∀ ci < max, (s.cs ci).state ≠ .free → (served events).count ci = 1) := by
  unfold processIo at ran
  split at ran
  · rename_i failed
    cases ran
    exact ⟨table, fun polled => by simp [failed] at polled⟩
  · rename_i revents polled
    obtain ⟨s₁, accepting, serving⟩ := bind_ok ran
    have polled := table.polled revents
    have accepted : Table max s₁ ∧ (∃ events, s₁.log = s.log ++ events ∧ served events = []) ∧
        ∀ ci, (s.cs ci).state ≠ .free → (s₁.cs ci).state ≠ .free := by
      split at accepting
      · have loop := acceptLoop_table polled accepting
        exact loop
      · cases accepting
        exact ⟨polled, ⟨[], (List.append_nil _).symm, rfl⟩, fun _ taken => taken⟩
    obtain ⟨table₁, ⟨events, log, quiet⟩, taken⟩ := accepted
    obtain ⟨table', events', log', perm⟩ := serviceLoop_table table₁ Nat.one_pos serving
    obtain ⟨distinct, all⟩ := remaining_all table₁
    refine ⟨table', fun _ => ⟨events ++ events', by rw [log', log, List.append_assoc], ?_⟩⟩
    intro ci bound connected
    rw [served_append, quiet, List.nil_append, perm.count_eq]
    exact List.count_eq_one_of_mem distinct (all ci bound (taken ci connected))

theorem processIo_error {max : Nat} {io : Io} {s : Server} {fault : Fault} (table : Table max s)
    (stopped : processIo max s io = .error fault) : ¬ fault.ofTable := by
  unfold processIo at stopped
  split at stopped
  · cases stopped
  · rename_i revents polled
    have polled := table.polled revents
    rcases bind_error stopped with accepting | ⟨s₁, accepting, serving⟩
    · split at accepting
      · exact acceptLoop_error polled accepting
      · cases accepting
    · have table₁ : Table max s₁ := by
        split at accepting
        · exact (acceptLoop_table polled accepting).1
        · cases accepting
          exact polled
      exact serviceLoop_error table₁ Nat.one_pos (Nat.le_refl _) serving

/-! ## Runs -/

/-- What can happen to the table: a connection is accepted, a connected client closed,
a whole pass of `process_io`. Everything else that the server does to a client keeps its
poll entry and its connection, and is a `change`. -/
inductive TableAction where
  | accept (fd : Nat)
  | close (ci : Nat)
  | change (ci : Nat) (c : Client)
  | processIo (io : Io)

def tableNext (max : Nat) (s : Server) : TableAction → Option Server
  | .accept fd => if s.ncs < max then (acceptClient max s fd).toOption else none
  | .close ci =>
    if ci < max ∧ (s.cs ci).state ≠ .free then (closeClient max s ci).toOption else none
  | .change ci c =>
    if c.pitem = (s.cs ci).pitem ∧ (c.state = .free ↔ (s.cs ci).state = .free) then
      some (s.setClient ci c)
    else none
  | .processIo io => (processIo max s io).toOption

/-- The server as far as its connections are concerned. -/
def tableSystem (config : Config) : Transition.System Server TableAction where
  initial s := Initial config.maxClients ⟨s, false⟩
  next := tableNext config.maxClients

theorem Initial.table {max : Nat} {st : State} (begun : Initial max st) : Table max st.server where
  size := by rw [begun.ncs]; exact Nat.zero_le _
  bound := by simp [begun.ncs]
  listed := by simp [begun.ncs]
  entry := by simp [begun.ncs]
  fd := by simp [begun.ncs]
  connected ci bound taken := absurd (begun.clients ci bound).1 taken
  stacked k inside := by
    rw [begun.ncs] at inside
    rw [begun.free k (by omega)]
    omega
  spare k inside := by
    rw [begun.ncs] at inside
    rw [begun.free k (by omega)]
    exact (begun.clients _ (by omega)).1
  single k inside l inside' same := by
    rw [begun.ncs] at inside inside'
    rw [begun.free k (by omega), begun.free l (by omega)] at same
    omega
  complete ci bound _ := by
    rw [begun.ncs]
    refine ⟨max - (ci + 1), by omega, ?_⟩
    rw [begun.free _ (by omega)]
    omega

theorem Table.next {max : Nat} {s s' : Server} {a : TableAction} (table : Table max s)
    (moved : tableNext max s a = some s') : Table max s' := by
  cases a with
  | accept fd =>
    simp only [tableNext] at moved
    split at moved
    · rename_i room
      exact table.accept room (acceptClient_accepting (toOption_ok moved))
    · cases moved
  | close ci =>
    simp only [tableNext] at moved
    split at moved
    · rename_i connected
      obtain ⟨pi, closing⟩ := closeClient_closing (toOption_ok moved)
      exact table.close connected.1 connected.2 closing
    · cases moved
  | change ci c =>
    simp only [tableNext] at moved
    split at moved
    · rename_i same
      cases moved
      exact table.touch (Touch.setClient s ci c same.1) (by simp) (by simpa using same.2)
    · cases moved
  | processIo io => exact (processIo_table table (toOption_ok moved)).1

theorem reachable_table {config : Config} {s : Server} (reached : (tableSystem config).Reachable s) :
    Table config.maxClients s :=
  reached.invariant (fun _ begun => begun.table) (fun _ _ _ _ table moved => table.next moved)

/-- In every state that accepting and closing connections lead to, the table lists the
connected clients and the stack the free ones, without repetition; every connected
client has its poll entry with its descriptor. So accepting, closing and `process_io`
meet their assertions, and a pass services each client that it polled once. -/
theorem table_exact {config : Config} {s : Server} (reached : (tableSystem config).Reachable s) :
    ((List.range s.ncs).map s.pis).Nodup ∧
      (∀ ci < config.maxClients,
        ci ∈ (List.range s.ncs).map s.pis ↔ (s.cs ci).state ≠ .free) ∧
      (∀ i < s.ncs, s.pis i < config.maxClients ∧ (s.cs (s.pis i)).pitem = some (i + 1) ∧
        descriptor s.log (s.pis i) = some (s.ps (i + 1)).fd) ∧
      ((List.range (config.maxClients - s.ncs)).map s.free).Nodup ∧
      (∀ ci < config.maxClients,
        ci ∈ (List.range (config.maxClients - s.ncs)).map s.free ↔ (s.cs ci).state = .free) ∧
      (∀ k < config.maxClients - s.ncs, s.free k < config.maxClients) ∧
      (∀ fd, s.ncs < config.maxClients → ∃ s', acceptClient config.maxClients s fd = .ok s') ∧
      (∀ ci < config.maxClients, (s.cs ci).state ≠ .free →
        ∃ s', closeClient config.maxClients s ci = .ok s') ∧
      ∀ io, (∀ fault, processIo config.maxClients s io = .error fault → ¬ fault.ofTable) ∧
        ∀ s', processIo config.maxClients s io = .ok s' → io.poll.isSome → ∃ events,
          s'.log = s.log ++ events ∧ ∀ ci < config.maxClients, (s.cs ci).state ≠ .free →
            (served events).count ci = 1 := by
  have table := reachable_table reached
  refine ⟨?_, ?_, ?_, ?_, ?_, table.stacked, fun fd room => table.acceptClient_ok room fd,
    fun ci bound taken => table.closeClient_ok bound taken, fun io =>
      ⟨fun _ stopped => processIo_error table stopped, fun _ ran => (processIo_table table ran).2⟩⟩
  · refine List.Nodup.map_on (fun i left j right same => ?_) List.nodup_range
    exact table.pis_injective (List.mem_range.mp left) (List.mem_range.mp right) same
  · intro ci bound
    simp only [List.mem_map, List.mem_range]
    constructor
    · rintro ⟨i, inside, rfl⟩
      exact table.listed i inside
    · exact table.connected ci bound
  · exact fun i inside => ⟨table.bound i inside, table.entry i inside, table.fd i inside⟩
  · refine List.Nodup.map_on (fun k left l right same => ?_) List.nodup_range
    exact table.single k (List.mem_range.mp left) l (List.mem_range.mp right) same
  · intro ci bound
    simp only [List.mem_map, List.mem_range]
    constructor
    · rintro ⟨k, inside, rfl⟩
      exact table.spare k inside
    · exact table.complete ci bound

/-- Three connections, the first of which is closed: the last one takes its place. -/
theorem table_exact_after_close : ∃ s, (tableSystem fourClients).Reachable s ∧ s.ncs = 2 ∧
    s.pis 0 = 2 ∧ descriptor s.log 2 = some (s.ps 1).fd := by
  have begun : (tableSystem fourClients).Reachable (start 4).server := .start (start_initial 4)
  have passed : ((tableSystem fourClients).replay (start 4).server
      [.accept 5, .accept 6, .accept 7, .close 0]).any (fun s => s.ncs = 2 && s.pis 0 = 2) := by
    decide +kernel
  cases ran : (tableSystem fourClients).replay (start 4).server
      [.accept 5, .accept 6, .accept 7, .close 0] with
  | none => simp [ran] at passed
  | some s =>
    simp only [ran, Option.any_some, Bool.and_eq_true, decide_eq_true_eq] at passed
    have reached := begun.replay _ ran
    obtain ⟨-, -, entries, -⟩ := table_exact reached
    have first := (entries 0 (by rw [passed.1]; decide)).2.2
    rw [passed.2] at first
    exact ⟨s, reached, passed.1, passed.2, first⟩

end Mysnips.HttpServer

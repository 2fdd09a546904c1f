import Mysnips.HttpServerTable

/-! Shutting the server down. The loop goes upward over the connected clients, but closing one of
them moves the last one into its place and makes the table shorter, so about every second client
is passed over. -/
namespace Mysnips.HttpServer
open Transition

/-- The loop of `http_server_free`. -/
def freeLoop (max : Nat) : Nat → Nat → Server → Except Fault Server
  | fuel, i, s =>
    if i < s.ncs then
      match fuel with
      | 0 => .error .unfinished
      | fuel + 1 => do freeLoop max fuel (i + 1) (← closeClient max s (s.pis i))
    else .ok s

/-- `http_server_free`: the server as it is left, and the descriptor of the last `close`. -/
def httpServerFree (max : Nat) (s : Server) : Except Fault (Server × Nat) := do
  let s ← freeLoop max s.ncs 0 s
  .ok (s, s.fd)

/-- The descriptors of clients that were closed, in order. -/
def closedFds (events : List Event) : List Nat :=
  events.filterMap fun e =>
    match e with
    | .closed _ fd _ => some fd
    | _ => none

/-- Everything is released: the descriptor of every connected client once, every slot, and the
listening descriptor. -/
structure Released (max : Nat) (s s' : Server) (last : Nat) : Prop where
  clients : ∃ events, s'.log = s.log ++ events ∧
    (closedFds events).Perm ((List.range s.ncs).map fun i => (s.ps (i + 1)).fd)
  slots : ∀ ci < max, (s'.cs ci).state = .free
  empty : s'.ncs = 0
  listener : last = s.fd

/-- Where the loop ends, it has passed over every second client. -/
theorem freeLoop_left {max fuel i : Nat} {s s' : Server} (ran : freeLoop max fuel i s = .ok s')
    (start : i ≤ s.ncs + 1) : i + s.ncs ≤ 2 * s'.ncs + 1 := by
  induction fuel generalizing i s with
  | zero =>
    rw [freeLoop] at ran
    split at ran
    · cases ran
    · cases ran
      omega
  | succ fuel ih =>
    rw [freeLoop] at ran
    split at ran
    · next more =>
      obtain ⟨s₁, closed, rest⟩ := bind_ok ran
      obtain ⟨pi, closing⟩ := closeClient_closing closed
      have ncs := closing.ncs
      have left := ih rest (by omega)
      omega
    · cases ran
      omega

/-- Nothing is left only where at most one client was connected. -/
theorem httpServerFree_left {max last : Nat} {s s' : Server}
    (ran : httpServerFree max s = .ok (s', last)) : s.ncs ≤ 2 * s'.ncs + 1 := by
  obtain ⟨s₁, looped, done⟩ := bind_ok ran
  cases done
  have left := freeLoop_left looped (Nat.zero_le _)
  omega

theorem closeClient_fd {max ci : Nat} {s s' : Server} (done : closeClient max s ci = .ok s') :
    s'.fd = s.fd := by
  unfold closeClient at done
  split at done
  · cases done
  · split at done
    · cases done
    · cases done
      rfl

/-- Without clients only the listening descriptor is closed. -/
theorem httpServerFree_none {max : Nat} {s : Server} (none : s.ncs = 0) :
    httpServerFree max s = .ok (s, s.fd) := by
  unfold httpServerFree freeLoop
  rw [if_neg (by omega)]
  rfl

/-- The only client is closed. -/
theorem httpServerFree_one {max : Nat} {s s₁ : Server} (one : s.ncs = 1)
    (closed : closeClient max s (s.pis 0) = .ok s₁) : httpServerFree max s = .ok (s₁, s.fd) := by
  obtain ⟨pi, closing⟩ := closeClient_closing closed
  have empty : ¬ 0 + 1 < s₁.ncs := by
    rw [closing.ncs, one]
    decide
  unfold httpServerFree
  rw [one]
  unfold freeLoop
  rw [if_pos (by omega), closed]
  change (do let s ← freeLoop max 0 (0 + 1) s₁; Except.ok (s, s.fd)) = _
  unfold freeLoop
  rw [if_neg empty, ← closeClient_fd closed]
  rfl

/-- At most one client is connected, every other slot is free, and the client refers to a poll
entry with its descriptor. -/
structure Releasable (max : Nat) (s : Server) : Prop where
  few : s.ncs ≤ 1
  spare : ∀ ci < max, (s.cs ci).state ≠ .free → ∃ i < s.ncs, s.pis i = ci
  entry : ∀ i < s.ncs, ∃ pi, (s.cs (s.pis i)).pitem = some pi ∧ (s.ps pi).fd = (s.ps (i + 1)).fd

theorem Table.releasable_iff {max : Nat} {s : Server} (table : Table max s) :
    Releasable max s ↔ s.ncs ≤ 1 :=
  ⟨Releasable.few, fun few =>
    ⟨few, table.connected, fun i inside => ⟨i + 1, table.entry i inside, rfl⟩⟩⟩

theorem Releasable.released {max : Nat} {s : Server} (ready : Releasable max s) :
    ∃ s' last, httpServerFree max s = .ok (s', last) ∧ Released max s s' last := by
  rcases Nat.le_one_iff_eq_zero_or_eq_one.mp ready.few with none | one
  · refine ⟨s, s.fd, httpServerFree_none none, ⟨[], by simp, by simp [closedFds, none]⟩, ?_, none, rfl⟩
    intro ci bound
    by_contra taken
    obtain ⟨i, inside, -⟩ := ready.spare ci bound taken
    omega
  · obtain ⟨pi, entry, fd⟩ := ready.entry 0 (by omega)
    have closes : ∃ s₁, closeClient max s (s.pis 0) = .ok s₁ := by
      unfold closeClient
      rw [entry]
      simp only
      rw [if_neg (by omega)]
      exact ⟨_, rfl⟩
    obtain ⟨s₁, closed⟩ := closes
    obtain ⟨pi', closing⟩ := closeClient_closing closed
    have same := closing.entry
    rw [entry] at same
    cases same
    refine ⟨s₁, s.fd, httpServerFree_one one closed, ⟨_, closing.log, ?_⟩, ?_, ?_, rfl⟩
    · simp [closedFds, one, fd]
    · intro ci bound
      rw [closing.state]
      by_cases same : ci = s.pis 0
      · rw [if_pos same]
      · rw [if_neg same]
        by_contra taken
        obtain ⟨i, inside, listed⟩ := ready.spare ci bound taken
        have first : i = 0 := by omega
        exact same (by rw [← listed, first])
    · rw [closing.ncs, one]

theorem Released.releasable {max last : Nat} {s s' : Server}
    (ran : httpServerFree max s = .ok (s', last)) (released : Released max s s' last) :
    Releasable max s := by
  have few : s.ncs ≤ 1 := by
    have left := httpServerFree_left ran
    rw [released.empty] at left
    exact left
  rcases Nat.le_one_iff_eq_zero_or_eq_one.mp few with none | one
  · rw [httpServerFree_none none] at ran
    cases ran
    exact ⟨few, fun ci bound taken => absurd (released.slots ci bound) taken,
      fun i inside => absurd inside (by omega)⟩
  · -- The loop has closed the only client, whatever its poll entry is.
    obtain ⟨s₁, looped, done⟩ := bind_ok ran
    rw [one, freeLoop, if_pos (by omega)] at looped
    obtain ⟨s₂, closed, rest⟩ := bind_ok looped
    have freed := httpServerFree_one one closed
    rw [ran] at freed
    cases freed
    obtain ⟨pi, closing⟩ := closeClient_closing closed
    refine ⟨few, fun ci bound taken => ?_, fun i inside => ?_⟩
    · have state := released.slots ci bound
      rw [closing.state] at state
      split at state
      · next same => exact ⟨0, by omega, same.symm⟩
      · exact absurd state taken
    · obtain ⟨events, log, fds⟩ := released.clients
      have first : i = 0 := by omega
      subst first
      rw [closing.log, List.append_cancel_left_eq] at log
      rw [← log] at fds
      refine ⟨pi, closing.entry, ?_⟩
      simpa [closedFds, one] using fds

/-- From any state `http_server_free` releases everything exactly if at most one client is
connected and the table is in order for it. Where the table lists the connected clients, as in
every run of connections, it is in order, and the number of clients decides. -/
theorem http_server_free_releases_iff (max : Nat) (s : Server) :
    ((∃ s' last, httpServerFree max s = .ok (s', last) ∧ Released max s s' last) ↔
      Releasable max s) ∧
      (Table max s → (Releasable max s ↔ s.ncs ≤ 1)) :=
  ⟨⟨fun ⟨_, _, ran, released⟩ => released.releasable ran, Releasable.released⟩,
    Table.releasable_iff⟩

/-- Of two clients one is left, with its slot in use and its descriptor open. -/
theorem http_server_free_leaves_client : ∃ st, (system fourClients).Reachable st ∧
    st.server.ncs = 2 ∧
    (∃ s' last, httpServerFree 4 st.server = .ok (s', last) ∧ s'.ncs = 1 ∧
      (s'.cs 1).state = .idle ∧ closedFds s'.log = [5]) ∧
    ¬ ∃ s' last, httpServerFree 4 st.server = .ok (s', last) ∧ Released 4 st.server s' last := by
  obtain ⟨st, reached, passed⟩ := start_reaches fourClients
    [.wait, inputOn 0 [.client 5, .client 6] .again]
    (fun st => st.server.ncs == 2 &&
      match httpServerFree 4 st.server with
      | .ok (s', _) => s'.ncs == 1 && (s'.cs 1).state == .idle && closedFds s'.log == [5]
      | .error _ => false) (by decide +kernel)
  simp only [Bool.and_eq_true, beq_iff_eq] at passed
  obtain ⟨two, freed⟩ := passed
  split at freed
  · next s' last ran =>
    simp only [Bool.and_eq_true, beq_iff_eq] at freed
    refine ⟨st, reached, two, ⟨s', last, ran, freed.1.1, freed.1.2, freed.2⟩, ?_⟩
    rintro ⟨s'', last', ran', released⟩
    rw [ran] at ran'
    cases ran'
    have empty := released.empty
    rw [freed.1.1] at empty
    cases empty
  · cases freed

end Mysnips.HttpServer

import Mysnips.AsyncIoSteps
import Mysnips.RingSlots

/-! The submission ring. Its counters are 32-bit words that run freely; the entries between
them are the ones the kernel has not taken, oldest first. -/
namespace Mysnips.AsyncIo
open Machine RingSlots

/-- The ring holds a list of entries. -/
structure Queued (config : Config) (ring : Submissions) (queue : List Entry) : Prop where
  word : ring.head < 2 ^ 32
  tail : ring.tail = (ring.head + queue.length) % 2 ^ 32
  few : queue.length ≤ config.limit
  entry : ∀ i, (inside : i < queue.length) →
    ring.array ((ring.head + i) % config.limit) = (ring.head + i) % config.limit ∧
      ring.entries ((ring.head + i) % config.limit) = queue.get ⟨i, inside⟩

section Ring

variable {config : Config} {ring : Submissions} {queue rest : List Entry} {entry sqe : Entry}

/-- The mask takes a counter to its slot, also where the counter wraps around. -/
theorem mask_eq (config : Config) (counter : Nat) :
    counter % 2 ^ 32 &&& (config.limit - 1) = counter % config.limit := by
  rw [Config.limit, Nat.and_two_pow_sub_one_eq_mod]
  exact Nat.mod_mod_of_dvd counter (Nat.pow_dvd_pow 2 (Nat.le_of_lt config.smallRing))

theorem Queued.empty (head : ring.head = 0) (tail : ring.tail = 0) : Queued config ring [] := by
  refine ⟨?_, ?_, Nat.zero_le _, nofun⟩
  · rw [head]
    decide
  · rw [head, tail]
    rfl

/-- A ring that does not refuse an entry has room for it. -/
theorem Queued.room (queued : Queued config ring queue)
    (accepts : ¬ ring.tail ≥ add32 ring.head config.limit) : queue.length < config.limit := by
  refine Nat.lt_of_le_of_ne queued.few fun full => accepts ?_
  rw [queued.tail, full]
  exact Nat.le_refl _

/-- The entry that is stored does not touch the others. -/
theorem Queued.store (queued : Queued config ring queue) (room : queue.length < config.limit) :
    Queued config (storeEntry config ring sqe) (queue ++ [sqe]) := by
  have index : ring.tail &&& (config.limit - 1) = (ring.head + queue.length) % config.limit := by
    rw [queued.tail, mask_eq]
  refine ⟨queued.word, ?_, ?_, fun i inside => ?_⟩
  · show add32 ring.tail 1 = _
    rw [add32, queued.tail, List.length_append, List.length_singleton, Nat.mod_add_mod,
      Nat.add_assoc]
    rfl
  · rw [List.length_append]
    exact room
  · simp only [storeEntry, index]
    by_cases last : i = queue.length
    · subst last
      simp
    · rw [List.length_append, List.length_singleton] at inside
      have earlier : i < queue.length := by omega
      have apart : (ring.head + i) % config.limit ≠ (ring.head + queue.length) % config.limit :=
        mod_ne_of_window ring.head (by omega) (by omega) (by omega) (by omega) (by omega)
      rw [Function.update_of_ne apart, Function.update_of_ne apart]
      obtain ⟨same, stored⟩ := queued.entry i earlier
      refine ⟨same, stored.trans ?_⟩
      simp [List.getElem_append_left earlier]

/-- The kernel takes the oldest entry. -/
theorem Queued.take (queued : Queued config ring (entry :: rest)) :
    (takeEntry config ring).2 = entry ∧ Queued config (takeEntry config ring).1 rest := by
  have slot : ring.head &&& (config.limit - 1) = ring.head % config.limit := by
    rw [← mask_eq config ring.head, Nat.mod_eq_of_lt queued.word]
  have shifted : ∀ i, (add32 ring.head 1 + i) % config.limit =
      (ring.head + (i + 1)) % config.limit := by
    intro i
    have divides : config.limit ∣ 2 ^ 32 := Nat.pow_dvd_pow 2 (Nat.le_of_lt config.smallRing)
    rw [add32, ← Nat.mod_add_mod, Nat.mod_mod_of_dvd _ divides, Nat.mod_add_mod]
    congr 1
    omega
  constructor
  · obtain ⟨same, stored⟩ := queued.entry 0 (Nat.succ_pos _)
    rw [takeEntry, slot]
    rw [Nat.add_zero] at same stored
    rw [same]
    exact stored
  · refine ⟨Nat.mod_lt _ (by decide), ?_, Nat.le_of_succ_le queued.few, fun i inside => ?_⟩
    · show ring.tail = (add32 ring.head 1 + rest.length) % 2 ^ 32
      rw [queued.tail, add32, Nat.mod_add_mod, List.length_cons]
      congr 1
      omega
    · show ring.array ((add32 ring.head 1 + i) % config.limit) = _ ∧ _
      rw [takeEntry, shifted]
      exact queued.entry (i + 1) (Nat.succ_lt_succ inside)

/-- What `start_uring_op` does: it refuses the entry, or stores it without the kernel, or the
kernel takes the oldest one. -/
theorem startUringOp_spec {s : State} {entered : Bool} (queued : Queued config s.submissions queue) :
    startUringOp config s sqe entered = (s, false) ∨
    (entered = false ∧ ∃ ring, Queued config ring (queue ++ [sqe]) ∧
      startUringOp config s sqe entered = ({ s with submissions := ring }, false)) ∨
    (entered = true ∧ ∃ ring entry rest, queue ++ [sqe] = entry :: rest ∧ Queued config ring rest ∧
      startUringOp config s sqe entered =
        ({ s with submissions := ring, flying := s.flying ++ [entry] }, true)) := by
  unfold startUringOp
  simp only
  split
  · exact .inl rfl
  rename_i accepts
  have stored : Queued config (storeEntry config s.submissions sqe) (queue ++ [sqe]) :=
    queued.store (queued.room accepts)
  cases entered with
  | false => exact .inr (.inl ⟨rfl, _, stored, rfl⟩)
  | true =>
    cases behind : queue ++ [sqe] with
    | nil => simp at behind
    | cons entry rest =>
      rw [behind] at stored
      obtain ⟨oldest, taken⟩ := stored.take
      refine .inr (.inr ⟨rfl, _, entry, rest, rfl, taken, ?_⟩)
      simp [oldest]

end Ring

end Mysnips.AsyncIo

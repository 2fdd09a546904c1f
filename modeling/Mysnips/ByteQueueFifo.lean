import Mysnips.ByteQueue

/-! The byte queue delivers what was written, in order, as long as it never
reallocates behind bytes already read. -/
namespace Mysnips.ByteQueue
open Machine Memory Transition

/-- What every call keeps when no reallocation leaves `head` behind. -/
structure Ready (q : Queue) (pending : List UInt8) : Prop where
  region : q.data.length = q.capacity
  object : q.capacity < 2 ^ 63
  inside : q.head + q.size ≤ q.capacity
  live : load q.data q.head q.size = some pending

namespace Ready

variable {q : Queue} {pending : List UInt8}

theorem freeSpace_eq (ready : Ready q pending) : freeSpace q = q.capacity - q.size - q.head := by
  have object := ready.object
  have inside := ready.inside
  have total : sub64 q.capacity q.size = q.capacity - q.size := sub64_eq (by omega) (by omega)
  rw [freeSpace, total, sub64_eq (by omega) (by omega)]

theorem pending_length (ready : Ready q pending) : pending.length = q.size :=
  load_length ready.live

end Ready

private theorem ready_init : Ready init [] := ⟨rfl, by decide, le_refl _, by decide⟩

/-- The branch that moves the live bytes down to the start of the data. -/
private theorem ready_moved {q : Queue} {pending data : List UInt8} (ready : Ready q pending)
    (stored : store q.data 0 pending = some data) : Ready { q with data, head := 0 } pending where
  region := (store_length stored).trans ready.region
  object := ready.object
  inside := by
    have inside := ready.inside
    simp only
    omega
  live := by
    have read := load_store_same stored
    rwa [ready.pending_length] at read

/-- The branch that copies the live bytes into a new region, when they started
at the start of the old one. -/
private theorem ready_reallocated {q : Queue} {pending fresh data : List UInt8}
    (ready : Ready q pending) (start : q.head = 0) (small : fresh.length < 2 ^ 63)
    (stored : store fresh 0 pending = some data) :
    Ready { q with data, capacity := fresh.length } pending where
  region := store_length stored
  object := small
  inside := by
    have fits := store_inside stored
    rw [ready.pending_length] at fits
    simpa only [start] using fits
  live := by
    have read := load_store_same stored
    rw [ready.pending_length] at read
    simpa only [start] using read

private theorem store_start (fresh cells : List UInt8) (fits : cells.length ≤ fresh.length) :
    ∃ data, store fresh 0 cells = some data :=
  ⟨_, store_eq (by omega)⟩

/-- The capacity a reallocation asks for holds the live bytes and the request. -/
private theorem requested_capacity {q : Queue} {pending : List UInt8} {num : Nat}
    (ready : Ready q pending) (fits : q.size + num < 2 ^ 64) :
    q.size + num ≤ if sub64 (mul64 2 q.capacity) q.size < num then add64 q.size num
      else mul64 2 q.capacity := by
  have object := ready.object
  have inside := ready.inside
  have doubled : mul64 2 q.capacity = 2 * q.capacity := mul64_eq (by omega)
  rw [doubled, sub64_eq (by omega) (by omega), add64_eq fits]
  split <;> omega

/-- `byte_queue_ensure_min_free_space` returns, keeps the live bytes, and grants
the space it says it grants. -/
theorem ensure_spec {q : Queue} {pending : List UInt8} {num : Nat} (malloc : Malloc)
    (ready : Ready q pending)
    (fromStart : q.capacity - q.size < num → q.head = 0 ∧ q.size + num < 2 ^ 64) :
    ∃ queue ok, ensureMinFreeSpace q num malloc = some (queue, ok) ∧ Ready queue pending ∧
      (ok = true → num ≤ freeSpace queue) := by
  have object := ready.object
  have inside := ready.inside
  have total : sub64 q.capacity q.size = q.capacity - q.size := sub64_eq (by omega) (by omega)
  have behind : sub64 (q.capacity - q.size) q.head = q.capacity - q.size - q.head :=
    sub64_eq (by omega) (by omega)
  simp only [ensureMinFreeSpace, total, behind]
  by_cases room : q.capacity - q.size - q.head < num
  · rw [if_pos room]
    by_cases short : q.capacity - q.size < num
    · rw [if_pos short]
      obtain ⟨start, fits⟩ := fromStart short
      have enough := requested_capacity ready fits
      generalize (if sub64 (mul64 2 q.capacity) q.size < num then add64 q.size num
        else mul64 2 q.capacity) = capacity at enough ⊢
      cases allocated : malloc.region capacity with
      | none => exact ⟨q, false, rfl, ready, by simp⟩
      | some fresh =>
        have size := malloc.length allocated
        have limit := malloc.limit allocated
        obtain ⟨data, stored⟩ := store_start fresh pending
          (by rw [ready.pending_length]; omega)
        have after : Ready { q with data, capacity } pending := by
          simpa only [size] using ready_reallocated ready start (by omega) stored
        refine ⟨{ q with data, capacity }, true, ?_, after, fun _ => ?_⟩
        · by_cases some_live : q.size > 0
          · simp [some_live, ready.live, stored]
          · have none_live : pending = [] := by
              apply List.eq_nil_of_length_eq_zero
              rw [ready.pending_length]
              omega
            subst none_live
            simp [store] at stored
            simp [some_live, stored]
        · rw [after.freeSpace_eq]
          simp only [start]
          omega
    · rw [if_neg short]
      obtain ⟨data, stored⟩ := store_start q.data pending
        (by rw [ready.pending_length, ready.region]; omega)
      have after := ready_moved ready stored
      refine ⟨{ q with data, head := 0 }, true, by simp [ready.live, stored], after, fun _ => ?_⟩
      rw [after.freeSpace_eq]
      simp only
      omega
  · rw [if_neg room]
    exact ⟨q, true, rfl, ready, fun _ => by rw [ready.freeSpace_eq]; omega⟩

/-- Writing within the free space appends to the live bytes. -/
theorem write_spec {q : Queue} {pending bytes : List UInt8} (ready : Ready q pending)
    (within : bytes.length ≤ freeSpace q) :
    ∃ data, store q.data (startWrite q) bytes = some data ∧
      Ready (endWrite { q with data } bytes.length) (pending ++ bytes) := by
  have region := ready.region
  have object := ready.object
  have inside := ready.inside
  rw [ready.freeSpace_eq] at within
  have start : startWrite q = q.head + q.size := add64_eq (by omega)
  have grown : add64 q.size bytes.length = q.size + bytes.length := add64_eq (by omega)
  have fits : q.head + q.size + bytes.length ≤ q.data.length := by omega
  obtain ⟨data, stored⟩ : ∃ data, store q.data (startWrite q) bytes = some data := by
    rw [start]
    exact ⟨_, store_eq fits⟩
  refine ⟨data, stored, (store_length stored).trans region, object, ?_, ?_⟩
  · simp only [endWrite, grown]
    omega
  · rw [start] at stored
    simpa only [endWrite, grown] using load_store_behind ready.live stored

/-- Reading takes bytes off the front of the live ones. -/
theorem read_spec {q : Queue} {pending : List UInt8} {num : Nat} (ready : Ready q pending)
    (within : num ≤ usedSpace q) : Ready (endRead q num) (pending.drop num) := by
  have object := ready.object
  have inside := ready.inside
  unfold usedSpace at within
  have advanced : add64 q.head num = q.head + num := add64_eq (by omega)
  have shrunk : sub64 q.size num = q.size - num := sub64_eq within (by omega)
  refine ⟨ready.region, object, ?_, ?_⟩
  · simp only [endRead, advanced, shrunk]
    omega
  · simpa only [endRead, advanced, shrunk] using load_drop ready.live num within

/-- One call keeps the queue ready and pays out the space it granted. -/
private theorem call_preserves {s s' : Session} {c : Call} (ready : Ready s.queue s.pending)
    (fromStart : ReallocatesFromStart s c) (called : call s c = some s') :
    Ready s'.queue s'.pending ∧ s'.granted ≤ freeSpace s'.queue := by
  cases c with
  | ensure num malloc =>
    obtain ⟨queue, ok, returned, after, granted⟩ := ensure_spec malloc ready fromStart
    simp only [call, returned] at called
    split at called
    · cases called
      refine ⟨after, ?_⟩
      cases ok with
      | false => exact Nat.zero_le _
      | true => exact granted rfl
    · cases called
  | write bytes =>
    simp only [call] at called
    split at called
    · rename_i within
      obtain ⟨data, stored, after⟩ := write_spec ready within
      simp only [stored] at called
      cases called
      exact ⟨after, Nat.zero_le _⟩
    · cases called
  | read num =>
    simp only [call] at called
    split at called
    · rename_i within
      cases called
      exact ⟨read_spec ready within, Nat.zero_le _⟩
    · cases called

/-- **The byte queue is a FIFO** in every run that reallocates only while the
live bytes are at the start of the data: they stay inside the allocation, are
the bytes written and not yet read, and granted space is there. -/
theorem fifo_while_reallocating_from_start {s : Session}
    (reached : (sessions.restrict ReallocatesFromStart).Reachable s) : Holds s := by
  have kept : Ready s.queue s.pending ∧ s.granted ≤ freeSpace s.queue := by
    refine reached.invariant (P := fun s =>
      Ready s.queue s.pending ∧ s.granted ≤ freeSpace s.queue) ?_ ?_
    · rintro s rfl
      exact ⟨ready_init, Nat.zero_le _⟩
    · intro s c s' _ before moved
      obtain ⟨fromStart, called⟩ := System.restrict_next.mp moved
      exact call_preserves before.1 fromStart called
  exact ⟨kept.1.inside, kept.1.live, kept.2⟩

/-- A `malloc` that serves every request of at most a kilobyte with zeros. -/
def smallMalloc : Malloc where
  region request := if request ≤ 1024 then some (List.replicate request 0) else none
  length := by
    intro request bytes served
    split at served
    · cases served
      exact List.length_replicate
    · cases served
  limit := by
    intro request bytes served
    split at served
    · omega
    · cases served

/-- Four bytes pass through a queue that grows while it holds no read bytes. -/
theorem fifo_while_reallocating_from_start_applies :
    ∃ s, (sessions.restrict ReallocatesFromStart).Reachable s ∧ Holds s ∧ s.pending = [2, 3, 4] := by
  refine ⟨⟨⟨[1, 2, 3, 4], 1, 3, 4⟩, [2, 3, 4], 0⟩, ?_, ?_, rfl⟩
  · exact (System.Reachable.start rfl).replay
      [.ensure 4 smallMalloc, .write [1, 2, 3, 4], .read 1] (by decide)
  · exact fifo_while_reallocating_from_start ((System.Reachable.start rfl).replay
      [.ensure 4 smallMalloc, .write [1, 2, 3, 4], .read 1] (by decide))

/-- Growing after a partial read leaves `head` pointing into the copied bytes:
`start_read` then skips a byte that was never read. -/
theorem reallocation_loses_a_byte : ¬ ∀ s, sessions.Reachable s → Holds s := by
  intro always
  have reached : sessions.Reachable ⟨⟨[2, 3, 4, 0, 0, 0, 0, 0], 1, 3, 8⟩, [2, 3, 4], 4⟩ :=
    (System.Reachable.start rfl).replay
      [.ensure 4 smallMalloc, .write [1, 2, 3, 4], .read 1, .ensure 4 smallMalloc] (by decide)
  exact absurd (always _ reached) (by decide)

end Mysnips.ByteQueue

import Mysnips.ByteQueue

/-! The bounds of the byte queue. A reallocation behind bytes already read keeps `head`, so that the
queue loses bytes, but it asks for so much that the live range still ends inside the new region.
So no call reads or writes outside the allocation, whatever the calls before did. -/
namespace Mysnips.ByteQueue
open Machine Memory

/-- The live range lies inside the allocation. -/
structure Inside (q : Queue) : Prop where
  region : q.data.length = q.capacity
  object : q.capacity < 2 ^ 63
  range : q.head + q.size ≤ q.capacity

theorem inside_init : Inside init := ⟨rfl, by decide, le_refl _⟩

namespace Inside

variable {q : Queue} {num : Nat}

theorem total (inside : Inside q) : sub64 q.capacity q.size = q.capacity - q.size := by
  have object := inside.object
  have range := inside.range
  exact sub64_eq (by omega) (by omega)

theorem behind (inside : Inside q) :
    sub64 (q.capacity - q.size) q.head = q.capacity - q.size - q.head := by
  have object := inside.object
  have range := inside.range
  exact sub64_eq (by omega) (by omega)

/-- The live bytes can be read. -/
theorem live (inside : Inside q) :
    ∃ cells, load q.data q.head q.size = some cells ∧ cells.length = q.size := by
  have fits : q.head + q.size ≤ q.data.length := by
    rw [inside.region]
    exact inside.range
  have loaded := load_eq fits
  exact ⟨_, loaded, load_length loaded⟩

/-- The live bytes moved to the start of a region. -/
private theorem moved (inside : Inside q) (fresh : List UInt8) (fits : q.size ≤ fresh.length) :
    ∃ cells data, load q.data q.head q.size = some cells ∧ store fresh 0 cells = some data ∧
      data.length = fresh.length := by
  obtain ⟨cells, loaded, length⟩ := inside.live
  have fits : 0 + cells.length ≤ fresh.length := by omega
  have stored := store_eq fits
  exact ⟨cells, _, loaded, stored, store_length stored⟩

/-- What a reallocation asks for holds the live range where it is, and the request behind the live
bytes. -/
private theorem requested (inside : Inside q) (small : num < 2 ^ 63) :
    q.capacity ≤ (if sub64 (mul64 2 q.capacity) q.size < num then add64 q.size num
      else mul64 2 q.capacity) ∧
    q.size ≤ (if sub64 (mul64 2 q.capacity) q.size < num then add64 q.size num
      else mul64 2 q.capacity) := by
  have object := inside.object
  have range := inside.range
  have doubled : mul64 2 q.capacity = 2 * q.capacity := mul64_eq (by omega)
  rw [doubled, sub64_eq (by omega) (by omega), add64_eq (by omega)]
  split <;> omega

end Inside

/-- `byte_queue_ensure_min_free_space` returns, and keeps the number of live bytes. -/
theorem ensure_inside {q : Queue} {num : Nat} (malloc : Malloc) (inside : Inside q)
    (small : num < 2 ^ 63) :
    ∃ queue ok, ensureMinFreeSpace q num malloc = some (queue, ok) ∧ Inside queue ∧
      queue.size = q.size := by
  have range := inside.range
  simp only [ensureMinFreeSpace, inside.total, inside.behind]
  by_cases room : q.capacity - q.size - q.head < num
  · rw [if_pos room]
    by_cases short : q.capacity - q.size < num
    · rw [if_pos short]
      obtain ⟨enough, holds⟩ := inside.requested small
      generalize (if sub64 (mul64 2 q.capacity) q.size < num then add64 q.size num
        else mul64 2 q.capacity) = capacity at enough holds ⊢
      cases allocated : malloc.region capacity with
      | none => exact ⟨q, false, rfl, inside, rfl⟩
      | some fresh =>
        have size := malloc.length allocated
        have limit := malloc.limit allocated
        obtain ⟨cells, data, loaded, stored, length⟩ := inside.moved fresh (by omega)
        by_cases some_live : q.size > 0
        · refine ⟨{ q with data, capacity }, true, by simp [some_live, loaded, stored], ?_, rfl⟩
          exact ⟨length.trans size, limit, Nat.le_trans range enough⟩
        · refine ⟨{ q with data := fresh, capacity }, true, by simp [some_live], ?_, rfl⟩
          exact ⟨size, limit, Nat.le_trans range enough⟩
    · rw [if_neg short]
      obtain ⟨cells, data, loaded, stored, length⟩ := inside.moved q.data
        (by rw [inside.region]; omega)
      refine ⟨{ q with data, head := 0 }, true, by simp [loaded, stored], ?_, rfl⟩
      exact ⟨length.trans inside.region, inside.object, by simp only; omega⟩
  · rw [if_neg room]
    exact ⟨q, true, rfl, inside, rfl⟩

/-- A write that stays in the region adds to the live bytes. -/
theorem write_inside {q : Queue} {bytes data : List UInt8} (inside : Inside q)
    (stored : store q.data (startWrite q) bytes = some data) :
    Inside (endWrite { q with data } bytes.length) ∧
      (endWrite { q with data } bytes.length).size = q.size + bytes.length := by
  have region := inside.region
  have object := inside.object
  have range := inside.range
  have start : startWrite q = q.head + q.size := add64_eq (by omega)
  have fits := store_inside stored
  rw [start] at fits
  have grown : add64 q.size bytes.length = q.size + bytes.length := add64_eq (by omega)
  refine ⟨⟨(store_length stored).trans region, object, ?_⟩, grown⟩
  simp only [endWrite, grown]
  omega

theorem read_inside {q : Queue} {num : Nat} (inside : Inside q) (within : num ≤ usedSpace q) :
    Inside (endRead q num) := by
  have object := inside.object
  have range := inside.range
  unfold usedSpace at within
  have advanced : add64 q.head num = q.head + num := add64_eq (by omega)
  have shrunk : sub64 q.size num = q.size - num := sub64_eq within (by omega)
  refine ⟨inside.region, object, ?_⟩
  simp only [endRead, advanced, shrunk]
  omega

/-- The region that a call leaves is an object. -/
theorem ensure_object {q queue : Queue} {num : Nat} {malloc : Malloc} {ok : Bool} (inside : Inside q)
    (ran : ensureMinFreeSpace q num malloc = some (queue, ok)) : queue.data.length < 2 ^ 63 := by
  have old : q.data.length < 2 ^ 63 := by
    rw [inside.region]
    exact inside.object
  unfold ensureMinFreeSpace at ran
  simp only at ran
  split at ran
  · split at ran
    · split at ran
      · cases ran
        exact old
      · next fresh allocated =>
        have limit := malloc.limit allocated
        have size := malloc.length allocated
        split at ran
        · obtain ⟨cells, -, ran⟩ := Option.bind_eq_some_iff.mp ran
          obtain ⟨data, stored, ran⟩ := Option.bind_eq_some_iff.mp ran
          cases ran
          rw [store_length stored, size]
          exact limit
        · cases ran
          rw [size]
          exact limit
    · obtain ⟨cells, -, ran⟩ := Option.bind_eq_some_iff.mp ran
      obtain ⟨data, stored, ran⟩ := Option.bind_eq_some_iff.mp ran
      cases ran
      rw [store_length stored]
      exact old
  · cases ran
    exact old

/-- What fits into the region that a call leaves is smaller than an object. -/
theorem ensured_store_small {q queue : Queue} {num off : Nat} {malloc : Malloc} {ok : Bool}
    {bytes data : List UInt8} (inside : Inside q)
    (ran : ensureMinFreeSpace q num malloc = some (queue, ok))
    (stored : store queue.data off bytes = some data) : bytes.length < 2 ^ 63 := by
  have object := ensure_object inside ran
  have fits := store_inside stored
  omega

end Mysnips.ByteQueue

import Mathlib.Data.Multiset.OrderedMonoid

/-! Blocks of a heap. A block is named by the number of the allocation that gave it, so a block
that is allocated was never there before; whether an allocation succeeds is said by its number. A
block that is freed twice is a fault, and one that is never freed stays among the live ones. -/
namespace Mysnips.HeapBlocks

/-- The allocations that were tried, and the live blocks. -/
structure Heap where
  attempts : Nat
  live : Multiset Nat
  nodup : live.Nodup
  past : ∀ b ∈ live, b < attempts

/-- The block of a pointer that may be null. -/
def block (pointer : Option Nat) : Multiset Nat := pointer.elim 0 ({·})

/-- An allocation that fails. -/
def Heap.refuse (h : Heap) : Heap :=
  ⟨h.attempts + 1, h.live, h.nodup, fun b live => Nat.lt_succ_of_lt (h.past b live)⟩

/-- An allocation that succeeds. -/
def Heap.grant (h : Heap) : Heap where
  attempts := h.attempts + 1
  live := h.attempts ::ₘ h.live
  nodup := Multiset.nodup_cons.mpr ⟨fun live => Nat.lt_irrefl _ (h.past _ live), h.nodup⟩
  past b live := by
    rcases Multiset.mem_cons.mp live with rfl | before
    · exact Nat.lt_succ_self _
    · exact Nat.lt_succ_of_lt (h.past b before)

/-- A block that is gone. -/
def Heap.drop (h : Heap) (b : Nat) : Heap where
  attempts := h.attempts
  live := h.live.erase b
  nodup := h.nodup.erase b
  past other live := h.past other (Multiset.mem_of_mem_erase live)

/-- `malloc`. -/
def Heap.malloc (ok : Nat → Bool) (h : Heap) : Heap × Option Nat :=
  if ok h.attempts then (h.grant, some h.attempts) else (h.refuse, none)

/-- `free`, of a live block or of null. -/
def Heap.free (h : Heap) (pointer : Option Nat) : Option Heap :=
  match pointer with
  | none => some h
  | some b => if b ∈ h.live then some (h.drop b) else none

/-- `realloc`, of a live block or of null. The old block goes when there is a new one. -/
def Heap.realloc (ok : Nat → Bool) (h : Heap) (old : Option Nat) : Option (Heap × Option Nat) := do
  let freed ← h.free old
  if ok h.attempts then some (freed.malloc ok) else some (h.refuse, none)

variable {ok : Nat → Bool} {h : Heap} {rest : Multiset Nat} {pointer : Option Nat}

@[simp] theorem block_none : block none = 0 := rfl

@[simp] theorem block_some (b : Nat) : block (some b) = {b} := rfl

theorem malloc_live (ok : Nat → Bool) (h : Heap) :
    (h.malloc ok).1.live = block (h.malloc ok).2 + h.live := by
  rw [Heap.malloc]
  split <;> simp [Heap.grant, Heap.refuse]

theorem malloc_granted (granted : ok h.attempts = true) : (h.malloc ok).2 = some h.attempts := by
  rw [Heap.malloc, if_pos granted]

/-- A live block can be freed. -/
theorem free_live (live : h.live = block pointer + rest) : ∃ h', h.free pointer = some h' ∧
    h'.live = rest ∧ h'.attempts = h.attempts := by
  cases pointer with
  | none => exact ⟨h, rfl, by simpa using live, rfl⟩
  | some b =>
    have there : b ∈ h.live := by
      rw [live]
      simp
    exact ⟨h.drop b, if_pos there, by simp [Heap.drop, live], rfl⟩

/-- A live block can be allocated again: a new block takes its place, or it stays. -/
theorem realloc_live (live : h.live = block pointer + rest) : ∃ h' new,
    h.realloc ok pointer = some (h', new) ∧
      h'.live = (if new.isSome then block new else block pointer) + rest ∧
      (ok h.attempts = true → new.isSome) := by
  obtain ⟨freed, gone, left, same⟩ := free_live live
  rw [Heap.realloc, gone, Option.bind_eq_bind, Option.bind_some]
  by_cases granted : ok h.attempts = true
  · have given : (freed.malloc ok).2 = some h.attempts := by
      rw [← same] at granted ⊢
      exact malloc_granted granted
    rw [if_pos granted]
    refine ⟨(freed.malloc ok).1, (freed.malloc ok).2, rfl, ?_, fun _ => by rw [given]; rfl⟩
    rw [malloc_live, given, left]
    rfl
  · rw [if_neg granted]
    exact ⟨h.refuse, none, rfl, by simpa [Heap.refuse] using live, fun given => absurd given granted⟩

end Mysnips.HeapBlocks

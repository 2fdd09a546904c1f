import Mysnips.SpscQueuePeek

/-! The regions that the two peeks of the single-producer single-consumer queue
return, seen as one list of items. They are the contents of the queue, oldest item
first, as long as the address of the oldest item fits the 32 bits in which
`item_addr` multiplies and its number of items fits an `int`. -/
namespace Mysnips.SpscQueue
open Machine Memory RingSlots

variable {q : Queue}

/-- What a peek returns lies inside the array. -/
def Inside (q : Queue) (region : Option Nat × Int) : Prop :=
  0 ≤ region.2 ∧
    match region.1 with
    | none => region.2 = 0
    | some addr => addr + q.itemSize * region.2.toNat ≤ q.items.length

/-- Where the items of a region start. -/
def places (q : Queue) (region : Option Nat × Int) : List Nat :=
  match region.1 with
  | none => []
  | some addr => (List.range region.2.toNat).map fun k => addr + q.itemSize * k

/-- The bytes of a region. -/
def bytesOf (q : Queue) (region : Option Nat × Int) : Option (List UInt8) :=
  match region.1 with
  | none => some []
  | some addr => load q.items addr (q.itemSize * region.2.toNat)

/-- Two regions have no byte in common. -/
def Apart (q : Queue) (first second : Option Nat × Int) : Prop :=
  ∀ {addr addr'}, first.1 = some addr → second.1 = some addr' →
    addr + q.itemSize * first.2.toNat ≤ addr' ∨ addr' + q.itemSize * second.2.toNat ≤ addr

/-- The two peeks return disjoint regions of the array, and what is in them is the
sequence of the queued items. -/
structure PeeksContents (q : Queue) : Prop where
  first : Inside q (peek0 q)
  second : Inside q (peek1 q)
  apart : Apart q (peek0 q) (peek1 q)
  total : (peek0 q).2 + (peek1 q).2 = (q.tail - q.head : Nat)
  ordered : places q (peek0 q) ++ places q (peek1 q) =
    (List.range' q.head (q.tail - q.head)).map (slot q.itemSize (2 ^ q.capLog2))
  contents : ∃ (items : List Item) (front back : List UInt8),
    (List.range' q.head (q.tail - q.head)).map q.itemAt = items.map some ∧
      bytesOf q (peek0 q) = some front ∧ bytesOf q (peek1 q) = some back ∧
      front ++ back = items.flatten

/-! ### Runs of items -/

/-- A region holds the items of some indices in order. -/
structure IsRun (q : Queue) (region : Option Nat × Int) (start count : Nat) : Prop where
  number : region.2 = count
  inside : Inside q region
  ordered : places q region = (List.range' start count).map (slot q.itemSize (2 ^ q.capLog2))
  contents : ∃ items : List Item, (List.range' start count).map q.itemAt = items.map some ∧
    bytesOf q region = some items.flatten

/-- Items up to the end of the array. -/
theorem IsRun.of_slot (whole : q.items.length = q.itemSize * 2 ^ q.capLog2) {start count : Nat}
    (inside : start % 2 ^ q.capLog2 + count ≤ 2 ^ q.capLog2) :
    IsRun q (some (slot q.itemSize (2 ^ q.capLog2) start), (count : Int)) start count where
  number := rfl
  inside := by
    refine ⟨Int.natCast_nonneg _, ?_⟩
    simp only [Int.toNat_natCast, slot, whole, ← Nat.mul_add]
    exact Nat.mul_le_mul_left _ inside
  ordered := by
    simp only [places, Int.toNat_natCast]
    rw [List.range'_eq_map_range, List.map_map]
    apply List.map_congr_left
    intro k member
    have below := List.mem_range.mp member
    exact (slot_add (by omega)).symm
  contents := by
    simp only [bytesOf, Int.toNat_natCast]
    exact load_run whole inside

/-- No items, with the start of the array as their address or with none. -/
theorem IsRun.empty {ptr : Option Nat} (start : Nat) (place : ptr = none ∨ ptr = some 0) :
    IsRun q (ptr, 0) start 0 := by
  rcases place with rfl | rfl
  · exact ⟨rfl, ⟨Int.le_refl _, rfl⟩, rfl, [], rfl, rfl⟩
  · refine ⟨rfl, ⟨Int.le_refl _, by simp⟩, rfl, [], rfl, ?_⟩
    exact load_eq (Nat.zero_le _)

/-- Two runs behind each other are the contents of the queue. -/
theorem IsRun.contents_of {n0 n1 : Nat} (first : IsRun q (peek0 q) q.head n0)
    (second : IsRun q (peek1 q) (q.head + n0) n1) (count : q.tail - q.head = n0 + n1)
    (apart : Apart q (peek0 q) (peek1 q)) : PeeksContents q where
  first := first.inside
  second := second.inside
  apart := apart
  total := by
    rw [first.number, second.number, count]
    rfl
  ordered := by
    rw [first.ordered, second.ordered, count, ← List.map_append, List.range'_append_1]
  contents := by
    obtain ⟨items, cells, front⟩ := first.contents
    obtain ⟨items', cells', back⟩ := second.contents
    refine ⟨items ++ items', _, _, ?_, front, back, List.flatten_append.symm⟩
    rw [count, ← List.range'_append_1, List.map_append, cells, cells', List.map_append]

/-! ### The two peeks -/

/-- The number of items of the first region fits an `int`, but for a full queue of
`2 ^ 31` items that starts at the front of the array. -/
private theorem first_fits (shift : q.capLog2 < 32) (room : q.tail ≤ q.head + 2 ^ q.capLog2)
    (unfilled : ¬ (q.tail = q.head + 2 ^ 31 ∧ q.head % 2 ^ q.capLog2 = 0)) :
    min (q.tail - q.head) (straight q) < 2 ^ 31 := by
  have small : 2 ^ q.capLog2 ≤ 2 ^ 31 := Nat.pow_le_pow_right (by decide) (by omega)
  rw [straight]
  omega

/-- The second peek finds the items that have wrapped around. -/
private theorem second_run (shift : q.capLog2 < 32)
    (whole : q.items.length = q.itemSize * 2 ^ q.capLog2) (nonempty : q.head < q.tail)
    (room : q.tail ≤ q.head + 2 ^ q.capLog2) :
    IsRun q (peek1 q) (q.head + min (q.tail - q.head) (straight q))
      (q.tail - q.head - straight q) := by
  have below := Nat.mod_lt q.head (Nat.two_pow_pos q.capLog2)
  have length : straight q = 2 ^ q.capLog2 - q.head % 2 ^ q.capLog2 := rfl
  rw [peek1_eq shift nonempty room]
  by_cases wrapped : straight q < q.tail - q.head
  · have start : (q.head + straight q) % 2 ^ q.capLog2 = 0 := by
      rw [length, ← Nat.mod_add_mod, Nat.add_sub_cancel' (Nat.le_of_lt below), Nat.mod_self]
    have inside : (q.head + straight q) % 2 ^ q.capLog2 + (q.tail - q.head - straight q) ≤
        2 ^ q.capLog2 := by omega
    have run := IsRun.of_slot whole inside
    rw [slot, start, Nat.mul_zero] at run
    rwa [if_pos (Nat.le_of_lt wrapped), Nat.min_eq_right (Nat.le_of_lt wrapped)]
  · rw [Nat.sub_eq_zero_of_le (Nat.not_lt.mp wrapped)]
    apply IsRun.empty
    split
    · exact Or.inr rfl
    · exact Or.inl rfl

/-- Where the product of `item_addr` and the number of items of the first region are
exact, the peeks return the contents. -/
private theorem peeks_contents (shift : q.capLog2 < 32)
    (whole : q.items.length = q.itemSize * 2 ^ q.capLog2) (nonempty : q.head < q.tail)
    (room : q.tail ≤ q.head + 2 ^ q.capLog2)
    (addressed : q.head % 2 ^ q.capLog2 * q.itemSize < 2 ^ 32)
    (unfilled : ¬ (q.tail = q.head + 2 ^ 31 ∧ q.head % 2 ^ q.capLog2 = 0)) : PeeksContents q := by
  have below := Nat.mod_lt q.head (Nat.two_pow_pos q.capLog2)
  have length : straight q = 2 ^ q.capLog2 - q.head % 2 ^ q.capLog2 := rfl
  have found : peek0 q = (some (slot q.itemSize (2 ^ q.capLog2) q.head),
      ((min (q.tail - q.head) (straight q) : Nat) : Int)) := by
    rw [peek0_eq shift nonempty room, int32_natCast (first_fits shift room unfilled),
      mul32_eq addressed, slot, Nat.mul_comm]
  have first : IsRun q (peek0 q) q.head (min (q.tail - q.head) (straight q)) := by
    rw [found]
    exact IsRun.of_slot whole (by omega)
  refine first.contents_of (second_run shift whole nonempty room) (by omega) ?_
  -- the wrapped items end in front of the oldest one
  intro addr addr' atHead atStart
  rw [found] at atHead
  rw [peek1_eq shift nonempty room] at atStart ⊢
  simp only [Option.some.injEq] at atHead
  subst atHead
  have start : addr' = 0 := by
    split at atStart
    · exact (Option.some.inj atStart).symm
    · cases atStart
  right
  rw [start, Nat.zero_add, Int.toNat_natCast]
  exact Nat.mul_le_mul_left _ (by omega)

/-- A first region at the place of the oldest item, with a number of items that is not
negative, was computed exactly. -/
private theorem exact_of_contents (shift : q.capLog2 < 32) (nonempty : q.head < q.tail)
    (room : q.tail ≤ q.head + 2 ^ q.capLog2) (peeks : PeeksContents q) :
    q.head % 2 ^ q.capLog2 * q.itemSize < 2 ^ 32 ∧
      ¬ (q.tail = q.head + 2 ^ 31 ∧ q.head % 2 ^ q.capLog2 = 0) := by
  have small : 2 ^ q.capLog2 ≤ 2 ^ 31 := Nat.pow_le_pow_right (by decide) (by omega)
  have below := Nat.mod_lt q.head (Nat.two_pow_pos q.capLog2)
  have length : straight q = 2 ^ q.capLog2 - q.head % 2 ^ q.capLog2 := rfl
  have number := peeks.first.1
  have ordered := peeks.ordered
  rw [peek0_eq shift nonempty room] at number ordered
  have unfilled : ¬ (q.tail = q.head + 2 ^ 31 ∧ q.head % 2 ^ q.capLog2 = 0) := by
    rintro ⟨full, front⟩
    have all : min (q.tail - q.head) (straight q) = 2 ^ 31 := by omega
    have negative : ¬ 0 ≤ int32 ((2 ^ 31 : Nat) : Int) := by decide
    rw [all] at number
    exact negative number
  refine ⟨?_, unfilled⟩
  obtain ⟨n0, more⟩ : ∃ n0, min (q.tail - q.head) (straight q) = n0 + 1 :=
    Nat.exists_eq_succ_of_ne_zero (by omega)
  obtain ⟨n, count⟩ : ∃ n, q.tail - q.head = n + 1 := Nat.exists_eq_succ_of_ne_zero (by omega)
  rw [int32_natCast (first_fits shift room unfilled), more, count] at ordered
  have heads := congrArg List.head? ordered
  simp only [places, Int.toNat_natCast, List.range_succ_eq_map, List.range'_succ, List.map_cons,
    List.cons_append, List.head?_cons, Option.some.injEq, Nat.mul_zero, Nat.add_zero] at heads
  rw [slot, Nat.mul_comm q.itemSize] at heads
  rw [← heads]
  exact Nat.mod_lt _ (by decide)

/-- The two regions are the contents of the queue exactly when the queue is empty, or
the address of its oldest item fits 32 bits and the first region is not a whole array
of `2 ^ 31` items. -/
theorem peeks_contents_iff (shift : q.capLog2 < 32)
    (whole : q.items.length = q.itemSize * 2 ^ q.capLog2) (items : q.head ≤ q.tail)
    (room : q.tail ≤ q.head + 2 ^ q.capLog2) :
    PeeksContents q ↔ q.head = q.tail ∨ (q.head % 2 ^ q.capLog2 * q.itemSize < 2 ^ 32 ∧
      ¬ (q.tail = q.head + 2 ^ 31 ∧ q.head % 2 ^ q.capLog2 = 0)) := by
  rcases Nat.eq_or_lt_of_le items with empty | nonempty
  · refine ⟨fun _ => Or.inl empty, fun _ => ?_⟩
    have first : IsRun q (peek0 q) q.head 0 := by
      rw [(peeks_empty empty).1]
      exact IsRun.empty _ (Or.inl rfl)
    have second : IsRun q (peek1 q) (q.head + 0) 0 := by
      rw [(peeks_empty empty).2]
      exact IsRun.empty _ (Or.inl rfl)
    refine first.contents_of second (by omega) fun atHead => ?_
    rw [(peeks_empty empty).1] at atHead
    cases atHead
  · constructor
    · exact fun peeks => Or.inr (exact_of_contents shift nonempty room peeks)
    · rintro (empty | ⟨addressed, unfilled⟩)
      · exact absurd empty (Nat.ne_of_lt nonempty)
      · exact peeks_contents shift whole nonempty room addressed unfilled

/-- Three items of which the last two have wrapped around. -/
theorem peeks_contents_iff_applies :
    PeeksContents ⟨[10, 11, 12, 13, 14, 15, 16, 17], 2, 2, 3, 6⟩ :=
  (peeks_contents_iff (by decide) rfl (by decide) (by decide)).mpr (Or.inr (by decide))

/-- In an array of 8 GiB the item in the middle is looked for at the start. -/
theorem high_item_is_misplaced : ∃ q : Queue, q.capLog2 < 32 ∧
    q.items.length = q.itemSize * 2 ^ q.capLog2 ∧ q.head ≤ q.tail ∧
    q.tail ≤ q.head + 2 ^ q.capLog2 ∧ q.tail < 2 ^ 64 ∧ peek0 q = (some 0, 1) ∧
    ¬ PeeksContents q := by
  refine ⟨⟨List.replicate (2 ^ 33) 0, 2 ^ 12, 21, 2 ^ 20, 2 ^ 20 + 1⟩, by decide, ?_, by decide,
    by decide, by decide, rfl, fun peeks => ?_⟩
  · exact List.length_replicate
  · obtain ⟨addressed, _⟩ := exact_of_contents (by decide) (by decide) (by decide) peeks
    exact absurd addressed (by decide)

end Mysnips.SpscQueue

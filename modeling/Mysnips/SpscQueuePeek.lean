import Mysnips.SpscQueueFifo

/-! The two peeks of the single-producer single-consumer queue. The first one finds
the items up to the end of the array, the second one those that have wrapped around
to its start; each of them looks at the tail for itself. -/
namespace Mysnips.SpscQueue
open Machine Memory RingSlots

variable {q : Queue}

/-- The cells from the one of `head` up to the end of the array. -/
def straight (q : Queue) : Nat := 2 ^ q.capLog2 - q.head % 2 ^ q.capLog2

/-- The remainder of an index at most one turn behind another one. -/
private theorem mod_of_turn {c h t : Nat} (positive : 0 < c) (low : h ≤ t) (high : t ≤ h + c) :
    t % c = if h % c + (t - h) < c then h % c + (t - h) else h % c + (t - h) - c := by
  have below := Nat.mod_lt h positive
  have parts := Nat.div_add_mod h c
  have split : t = c * (h / c) + (h % c + (t - h)) := by omega
  have same : t % c = (h % c + (t - h)) % c := by
    conv_lhs => rw [split]
    exact Nat.mul_add_mod _ _ _
  rw [same]
  by_cases short : h % c + (t - h) < c
  · rw [if_pos short, Nat.mod_eq_of_lt short]
  · rw [if_neg short, Nat.mod_eq_sub_mod (by omega), Nat.mod_eq_of_lt (by omega)]

theorem masked_eq (shift : q.capLog2 < 32) (index : Nat) :
    uint32 (index &&& mask q) = index % 2 ^ q.capLog2 := by
  have small : 2 ^ q.capLog2 ≤ 2 ^ 31 := Nat.pow_le_pow_right (by decide) (by omega)
  have below := Nat.mod_lt index (Nat.two_pow_pos q.capLog2)
  rw [mask_pow shift, uint32_eq (by omega)]

theorem peeks_empty (empty : q.head = q.tail) : peek0 q = (none, 0) ∧ peek1 q = (none, 0) :=
  ⟨if_pos empty, if_pos empty⟩

theorem peek0_eq (shift : q.capLog2 < 32) (nonempty : q.head < q.tail)
    (room : q.tail ≤ q.head + 2 ^ q.capLog2) :
    peek0 q = (some (mul32 (q.head % 2 ^ q.capLog2) q.itemSize),
      int32 (min (q.tail - q.head) (straight q) : Nat)) := by
  have small : 2 ^ q.capLog2 ≤ 2 ^ 31 := Nat.pow_le_pow_right (by decide) (by omega)
  have below := Nat.mod_lt q.head (Nat.two_pow_pos q.capLog2)
  have turn := mod_of_turn (Nat.two_pow_pos q.capLog2) (Nat.le_of_lt nonempty) room
  rw [peek0, if_neg (Nat.ne_of_lt nonempty), straight]
  simp only [masked_eq shift, itemAddr_masked shift, cap_pow shift]
  split
  · rename_i less
    rw [sub32_eq (by omega) (by omega)]
    congr 3
    split at turn <;> omega
  · rename_i more
    rw [sub32_eq (by omega) (by omega)]
    congr 3
    split at turn <;> omega

theorem peek1_eq (shift : q.capLog2 < 32) (nonempty : q.head < q.tail)
    (room : q.tail ≤ q.head + 2 ^ q.capLog2) :
    peek1 q = (if straight q ≤ q.tail - q.head then some 0 else none,
      ((q.tail - q.head - straight q : Nat) : Int)) := by
  have small : 2 ^ q.capLog2 ≤ 2 ^ 31 := Nat.pow_le_pow_right (by decide) (by omega)
  have below := Nat.mod_lt q.head (Nat.two_pow_pos q.capLog2)
  have turn := mod_of_turn (Nat.two_pow_pos q.capLog2) (Nat.le_of_lt nonempty) room
  have start : itemAddr q 0 = 0 := by simp [itemAddr, ofInt, uint32, mul32]
  rw [peek1, if_neg (Nat.ne_of_lt nonempty), straight]
  simp only [masked_eq shift, start]
  by_cases wrapped : 2 ^ q.capLog2 - q.head % 2 ^ q.capLog2 ≤ q.tail - q.head
  · rw [if_neg (by split at turn <;> omega), if_pos wrapped, int32_natCast (by omega)]
    congr 2
    split at turn <;> omega
  · rw [if_pos (by split at turn <;> omega), if_neg wrapped]
    congr 1
    omega

theorem Sized.peek0_spec (sized : Sized q) (items : q.head ≤ q.tail)
    (room : q.tail ≤ q.head + 2 ^ q.capLog2) :
    (peek0 q).2 = (min (q.tail - q.head) (straight q) : Nat) ∧
      (q.head < q.tail → (peek0 q).1 = some (slot q.itemSize (2 ^ q.capLog2) q.head)) := by
  have small := sized.pow_le
  obtain ⟨_, addr⟩ := sized.index_spec q.head
  rw [sized.mask_eq, itemAddr_masked sized.shift] at addr
  rcases Nat.eq_or_lt_of_le items with empty | nonempty
  · rw [(peeks_empty empty).1, empty, Nat.sub_self, Nat.zero_min]
    exact ⟨rfl, fun some => absurd some (Nat.lt_irrefl _)⟩
  · have fits : min (q.tail - q.head) (straight q) < 2 ^ 31 := by
      rw [straight]
      omega
    rw [peek0_eq sized.shift nonempty room, addr, int32_natCast fits]
    exact ⟨rfl, fun _ => rfl⟩

theorem Sized.peek1_spec (sized : Sized q) (items : q.head ≤ q.tail)
    (room : q.tail ≤ q.head + 2 ^ q.capLog2) :
    (peek1 q).2 = (q.tail - q.head - straight q : Nat) ∧
      (straight q < q.tail - q.head → (peek1 q).1 = some 0) := by
  rcases Nat.eq_or_lt_of_le items with empty | nonempty
  · rw [(peeks_empty empty).2, empty, Nat.sub_self, Nat.zero_sub]
    exact ⟨rfl, fun more => absurd more (Nat.not_lt_zero _)⟩
  · rw [peek1_eq sized.shift nonempty room]
    exact ⟨rfl, fun more => if_pos (Nat.le_of_lt more)⟩

/-- The second peek points to the start of the array, or nowhere. -/
theorem peek1_ptr (q : Queue) : (peek1 q).1 = none ∨ (peek1 q).1 = some 0 := by
  rw [peek1]
  split
  · exact Or.inl rfl
  · simp only
    split
    · exact Or.inl rfl
    · exact Or.inr (by simp [itemAddr, ofInt, uint32, mul32])

/-! ### Bytes -/

/-- One cell of a region. -/
private theorem load_one {region : List UInt8} {off : Nat} {byte : UInt8}
    (loaded : load region off 1 = some (asItem byte)) : region[off]? = some byte := by
  have inside := load_inside loaded
  rw [load_eq inside, List.drop_eq_getElem_cons (by omega), List.take_succ_cons, List.take_zero,
    asItem] at loaded
  rw [List.getElem?_eq_getElem (by omega)]
  simpa using loaded

/-- Bytes in order that do not wrap around are found in one piece. -/
theorem Holds.load_bytes {content : List UInt8} (holds : Holds q (content.map asItem))
    (bytes : q.itemSize = 1) {start k : Nat} (low : q.head ≤ start) (high : start + k ≤ q.tail)
    (inside : start % 2 ^ q.capLog2 + k ≤ 2 ^ q.capLog2) :
    load q.items (start % 2 ^ q.capLog2) k = some ((content.drop start).take k) := by
  have whole := holds.whole
  have count := holds.count
  rw [List.length_map] at count
  rw [bytes, Nat.one_mul] at whole
  rw [load_eq (by omega)]
  congr 1
  apply List.ext_getElem?
  intro j
  by_cases within : j < k
  · rw [List.getElem?_take_of_lt within, List.getElem?_take_of_lt within, List.getElem?_drop,
      List.getElem?_drop]
    have turn : (start + j) % 2 ^ q.capLog2 = start % 2 ^ q.capLog2 + j := by
      rw [mod_of_turn (Nat.two_pow_pos _) (Nat.le_add_right start j) (by omega),
        Nat.add_sub_cancel_left, if_pos (by omega)]
    have read := holds.stored (i := start + j) (by omega) (by omega)
    rw [List.getElem?_map, List.getElem?_eq_getElem (show start + j < content.length by omega)] at read
    rw [Queue.itemAt, item, slot, bytes, Nat.one_mul, turn] at read
    rw [List.getElem?_eq_getElem (show start + j < content.length by omega)]
    exact load_one read
  · rw [List.getElem?_take, List.getElem?_take, if_neg within, if_neg within]

end Mysnips.SpscQueue

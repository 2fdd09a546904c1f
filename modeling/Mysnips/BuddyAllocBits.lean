import Mysnips.BuddyAllocSizeClasses
import Mysnips.DyadicTiling

/-! Blocks and bit trees of the buddy allocator. The pointer arithmetic of
the source finds the other half and the parent of a block; every block of the
pool has a bit of its own; and the recursive check for allocated splits sees
exactly the allocated blocks inside a block. -/
namespace Mysnips.BuddyAlloc
open Machine DyadicTiling PowersOfTwo

/-- The pages of the pool, split down to the smallest block size. -/
def area (b : Buddy) : Area :=
  ⟨b.base / 2 ^ maxBlockLog2, b.numTrees.toNat, minBlockLog2, maxBlockLog2⟩

/-- Where `buddy_startup` puts the pages. -/
structure Placed (b : Buddy) : Prop where
  aligned : 2 ^ 12 ∣ b.base
  positive : 0 < b.base
  trees : 0 ≤ b.numTrees

/-! ### The other half and the parent -/

/-- The blocks of the pool have power-of-two lengths. -/
theorem isPow2_of_admits {b : Buddy} {blk : Block} (admitted : (area b).Admits blk) :
    isPow2 (2 ^ blk.level) = true := by
  have high : blk.level ≤ 12 := admitted.top
  exact isPow2_two_pow (Nat.lt_of_le_of_lt high (by decide))

/-- `sibling_of` is the other half. -/
theorem siblingOf_eq {blk : Block} (low : 4 ≤ blk.level)
    (high : blk.level < 12) :
    siblingOf blk.start (2 ^ blk.level) = some blk.buddy.start := by
  have power := isPow2_two_pow (k := blk.level) (by omega)
  have smaller : 2 ^ blk.level < 2 ^ 12 := Nat.pow_lt_pow_right (by omega) high
  have mask : 2 ^ blk.level <<< 1 - 1 = 2 ^ (blk.level + 1) - 1 := by
    rw [Nat.shiftLeft_eq, pow_one, Nat.pow_succ]
  rw [siblingOf, if_pos ⟨power, smaller⟩, mask, Nat.and_two_pow_sub_one_eq_mod]
  simp only [Block.buddy, Nat.dvd_iff_mod_eq_zero]

/-- `parent_of` is the block one level up. -/
theorem parentOf_eq {blk : Block} (aligned : blk.Aligned) (low : 4 ≤ blk.level)
    (high : blk.level < 12) :
    parentOf blk.start (2 ^ blk.level) = some blk.parent.start := by
  have positive : 0 < 2 ^ blk.level := Nat.two_pow_pos _
  simp only [parentOf, siblingOf_eq low high, Option.bind_eq_bind, Option.bind_some,
    Option.some.injEq]
  rcases Block.halves aligned with ⟨q, own, other, up⟩ | ⟨q, own, other, up⟩
  · have start := congrArg Block.start own
    simp only at start
    rw [up, other, start]
    simp
  · have start := congrArg Block.start own
    simp only at start
    rw [up, other, start]
    simp [positive]

/-! ### Bit trees -/

/-- The bit tree of a block. -/
def treeIndex (b : Buddy) (blk : Block) : Nat := blk.start / 2 ^ 12 - b.base / 2 ^ 12

/-- The bit of a block within its tree. -/
def bitIndex (blk : Block) : Nat :=
  2 ^ (12 - blk.level) + blk.start % 2 ^ 12 / 2 ^ blk.level

/-- The bits of a tree in one sequence. -/
def marked (b : Buddy) (i j : Nat) : Bool := (b.bits i (j / 32)).getLsbD (j % 32)

theorem blockInfoIndex_eq {blk : Block} (low : 4 ≤ blk.level)
    (high : blk.level ≤ 12) :
    blockInfoIndex blk.start (2 ^ blk.level) = bitIndex blk := by
  have complement : ((12 : Int) - (blk.level : Int)).toNat = 12 - blk.level := by
    omega
  have level := firstSet_two_pow (Nat.lt_of_le_of_lt high (by decide))
  simp only [blockInfoIndex, level, Int.toNat_natCast, Nat.shiftLeft_eq, one_mul,
    Nat.shiftRight_eq_div_pow, maxBlockAlignMask, maxBlockSize, maxBlockLog2, Nat.cast_ofNat,
    complement, Nat.and_two_pow_sub_one_eq_mod, bitIndex]

private theorem offset_lt {blk : Block} (high : blk.level ≤ 12) :
    blk.start % 2 ^ 12 / 2 ^ blk.level < 2 ^ (12 - blk.level) := by
  rw [Nat.div_lt_iff_lt_mul (Nat.two_pow_pos _), ← Nat.pow_add, Nat.sub_add_cancel high]
  exact Nat.mod_lt _ (Nat.two_pow_pos _)

theorem bitIndex_lt {blk : Block} (low : 4 ≤ blk.level)
    (high : blk.level ≤ 12) : bitIndex blk < 512 := by
  have offset := offset_lt high
  have small : 2 ^ (12 - blk.level) ≤ 2 ^ 8 := Nat.pow_le_pow_right (by omega) (by omega)
  unfold bitIndex
  omega

/-- Different blocks of the pool have different bits. -/
theorem block_of_bit {b : Buddy} {blk other : Block} (admitted : (area b).Admits blk)
    (otherAdmitted : (area b).Admits other) (tree : treeIndex b blk = treeIndex b other)
    (bit : bitIndex blk = bitIndex other) : blk = other := by
  have offset := offset_lt admitted.top
  have otherOffset := offset_lt otherAdmitted.top
  -- the leading bit of the index gives the level
  have level : blk.level = other.level := by
    have high : blk.level ≤ 12 := admitted.top
    have otherHigh : other.level ≤ 12 := otherAdmitted.top
    by_contra different
    have grow : ∀ m n : Nat, m < n → 2 ^ m + 2 ^ m ≤ 2 ^ n := by
      intro m n less
      rw [← Nat.two_mul, ← Nat.pow_succ']
      exact Nat.pow_le_pow_right (by omega) less
    unfold bitIndex at bit
    generalize blk.start % 2 ^ 12 / 2 ^ blk.level = low at bit offset
    generalize other.start % 2 ^ 12 / 2 ^ other.level = otherLow at bit otherOffset
    rcases Nat.lt_or_gt_of_ne different with less | more
    · have := grow (12 - other.level) (12 - blk.level) (by omega)
      omega
    · have := grow (12 - blk.level) (12 - other.level) (by omega)
      omega
  obtain ⟨start, k⟩ := blk
  obtain ⟨start', k'⟩ := other
  simp only at level
  subst level
  have inside : b.base / 2 ^ 12 ≤ start / 2 ^ 12 := admitted.start.1
  have otherInside : b.base / 2 ^ 12 ≤ start' / 2 ^ 12 := otherAdmitted.start.1
  simp only [treeIndex] at tree
  simp only [bitIndex, Nat.add_left_cancel_iff] at bit
  have page : start / 2 ^ 12 = start' / 2 ^ 12 := by omega
  have divides : 2 ^ k ∣ 2 ^ 12 := Nat.pow_dvd_pow 2 admitted.top
  have rest : start % 2 ^ 12 = start' % 2 ^ 12 := by
    have aligned : 2 ^ k ∣ start % 2 ^ 12 :=
      (Nat.dvd_mod_iff divides).mpr admitted.aligned
    have otherAligned : 2 ^ k ∣ start' % 2 ^ 12 :=
      (Nat.dvd_mod_iff divides).mpr otherAdmitted.aligned
    rw [← Nat.div_mul_cancel aligned, bit, Nat.div_mul_cancel otherAligned]
  rw [← Nat.div_add_mod start (2 ^ 12), page, rest, Nat.div_add_mod]

theorem pageIndex_eq {b : Buddy} {blk : Block} (placed : Placed b) (admitted : (area b).Admits blk) :
    pageIndex b blk.start = some (treeIndex b blk) ∧ (treeIndex b blk : Int) < b.numTrees := by
  have trees := placed.trees
  obtain ⟨q, base⟩ := placed.aligned
  have inside : b.base / 2 ^ 12 ≤ blk.start / 2 ^ 12 ∧
      blk.start / 2 ^ 12 < b.base / 2 ^ 12 + b.numTrees.toNat := admitted.start
  rw [base, Nat.mul_div_cancel_left _ (Nat.two_pow_pos _)] at inside
  have above : b.base ≤ blk.start := by
    rw [base]
    omega
  constructor
  · rw [pageIndex, if_pos above, Nat.shiftRight_eq_div_pow, treeIndex, base,
      Nat.mul_div_cancel_left _ (Nat.two_pow_pos _), Nat.sub_mul_div]
  · rw [treeIndex, base, Nat.mul_div_cancel_left _ (Nat.two_pow_pos _)]
    omega

private theorem word_and_bit (j : Nat) : j >>> 5 = j / 32 ∧ j &&& 31 = j % 32 :=
  ⟨Nat.shiftRight_eq_div_pow j 5, Nat.and_two_pow_sub_one_eq_mod j 5⟩

private theorem mask_bit {v i : Nat} (inside : i < 32) :
    (1#32 <<< v).getLsbD i = decide (i = v) := by
  by_cases below : i < v
  · simp [below, show i ≠ v by omega]
  · by_cases same : i = v
    · simp [same, same ▸ inside]
    · simp [below, same, show i - v ≠ 0 by omega]

/-- Testing a word against the mask of one bit reads that bit. -/
private theorem test_mask (word : BitVec 32) {v : Nat} (bound : v < 32) :
    (word &&& 1#32 <<< v == 1#32 <<< v) = word.getLsbD v := by
  cases bit : word.getLsbD v with
  | false =>
    rw [beq_eq_false_iff_ne]
    intro same
    have own := congrArg (BitVec.getLsbD · v) same
    simp only [BitVec.getLsbD_and, bit, Bool.false_and, mask_bit bound] at own
    simp at own
  | true =>
    rw [beq_iff_eq]
    apply BitVec.eq_of_getLsbD_eq
    intro i inside
    rw [BitVec.getLsbD_and, mask_bit inside]
    by_cases isV : i = v
    · simp [isV, bit]
    · simp [isV]

/-- Or-ing the mask sets its bit, and-ing the complement clears it. -/
private theorem write_mask (word : BitVec 32) {v i : Nat} (value : Bool) (inside : i < 32) :
    (if value then word ||| 1#32 <<< v else word &&& ~~~(1#32 <<< v)).getLsbD i =
      if i = v then value else word.getLsbD i := by
  cases value with
  | false =>
    rw [if_neg (by simp), BitVec.getLsbD_and, BitVec.getLsbD_not, mask_bit inside]
    by_cases isV : i = v <;> simp [isV, inside]
  | true =>
    rw [if_pos rfl, BitVec.getLsbD_or, mask_bit inside]
    by_cases isV : i = v <;> simp [isV]

/-- `is_allocated` reads the bit of its block. -/
theorem isAllocated_eq {b : Buddy} {blk : Block} (placed : Placed b)
    (admitted : (area b).Admits blk) :
    isAllocated b blk.start (2 ^ blk.level) = some (marked b (treeIndex b blk) (bitIndex blk)) := by
  obtain ⟨page, tree⟩ := pageIndex_eq placed admitted
  have index := bitIndex_lt admitted.bottom admitted.top
  have inside : (treeIndex b blk : Int) < b.numTrees ∧ bitIndex blk / 32 < bitTreeWordsPerPage :=
    ⟨tree, show bitIndex blk / 32 < 16 by omega⟩
  obtain ⟨word, bit⟩ := word_and_bit (bitIndex blk)
  simp only [isAllocated, isPow2_of_admits admitted, if_true, page,
    blockInfoIndex_eq admitted.bottom admitted.top, word, bit, Option.bind_eq_bind,
    Option.bind_some, if_pos inside, marked]
  rw [test_mask _ (Nat.mod_lt _ (by omega))]

/-- `set_allocated` writes the bit of its block and nothing else. -/
theorem setAllocated_spec {b : Buddy} {blk : Block} (placed : Placed b)
    (admitted : (area b).Admits blk) (value : Bool) :
    ∃ bits, setAllocated b blk.start (2 ^ blk.level) value = some { b with bits } ∧
      ∀ i j, marked { b with bits } i j =
        if i = treeIndex b blk ∧ j = bitIndex blk then value else marked b i j := by
  obtain ⟨page, tree⟩ := pageIndex_eq placed admitted
  have index := bitIndex_lt admitted.bottom admitted.top
  have inside : (treeIndex b blk : Int) < b.numTrees ∧ bitIndex blk / 32 < bitTreeWordsPerPage :=
    ⟨tree, show bitIndex blk / 32 < 16 by omega⟩
  obtain ⟨word, bit⟩ := word_and_bit (bitIndex blk)
  refine ⟨Function.update b.bits (treeIndex b blk) (Function.update (b.bits (treeIndex b blk))
    (bitIndex blk / 32) (if value then b.bits (treeIndex b blk) (bitIndex blk / 32) |||
      1#32 <<< (bitIndex blk % 32) else b.bits (treeIndex b blk) (bitIndex blk / 32) &&&
        ~~~(1#32 <<< (bitIndex blk % 32)))), ?_, ?_⟩
  · simp only [setAllocated, isPow2_of_admits admitted, if_true, page,
      blockInfoIndex_eq admitted.bottom admitted.top, word, bit, Option.bind_eq_bind,
      Option.bind_some, if_pos inside]
  · intro i j
    simp only [marked, Function.update_apply]
    by_cases isTree : i = treeIndex b blk
    · subst isTree
      by_cases isWord : j / 32 = bitIndex blk / 32
      · rw [if_pos rfl, Function.update_apply, if_pos isWord,
          write_mask _ value (Nat.mod_lt j (by omega)), isWord]
        by_cases isBit : j % 32 = bitIndex blk % 32
        · rw [if_pos isBit, if_pos ⟨rfl, by omega⟩]
        · rw [if_neg isBit, if_neg (fun both => isBit (by rw [both.2]))]
      · rw [if_pos rfl, Function.update_apply, if_neg isWord,
          if_neg (fun both => isWord (by rw [both.2]))]
    · rw [if_neg isTree, if_neg (fun both => isTree both.1)]

/-- The set bits of the trees are the bits of the live blocks. -/
def Marks (b : Buddy) (live : Set Block) : Prop :=
  ∀ i j, marked b i j = true ↔ ∃ blk ∈ live, treeIndex b blk = i ∧ bitIndex blk = j

theorem Marks.isAllocated {b : Buddy} {live : Set Block} {blk : Block} (marks : Marks b live)
    (placed : Placed b) (within : ∀ c ∈ live, (area b).Admits c) (admitted : (area b).Admits blk) :
    ∃ r, isAllocated b blk.start (2 ^ blk.level) = some r ∧ (r = true ↔ blk ∈ live) := by
  refine ⟨_, isAllocated_eq placed admitted, ?_⟩
  rw [marks]
  constructor
  · rintro ⟨c, member, tree, bit⟩
    rwa [← block_of_bit (within c member) admitted tree bit]
  · exact fun member => ⟨blk, member, rfl, rfl⟩

/-- Setting or clearing the bit of a block adds it to or removes it from the live
blocks. -/
theorem Marks.setAllocated {b : Buddy} {live : Set Block} {blk : Block} (marks : Marks b live)
    (placed : Placed b) (within : ∀ c ∈ live, (area b).Admits c) (admitted : (area b).Admits blk)
    (value : Bool) :
    ∃ bits, setAllocated b blk.start (2 ^ blk.level) value = some { b with bits } ∧
      Marks { b with bits } (if value then insert blk live else live \ {blk}) := by
  obtain ⟨bits, done, written⟩ := setAllocated_spec placed admitted value
  refine ⟨bits, done, fun i j => ?_⟩
  have sameTree : ∀ c, treeIndex { b with bits } c = treeIndex b c := fun _ => rfl
  rw [written]
  simp only [sameTree]
  cases value with
  | true =>
    simp only [if_true, Set.mem_insert_iff, exists_eq_or_imp]
    by_cases own : i = treeIndex b blk ∧ j = bitIndex blk
    · simp [own]
    · rw [if_neg own, marks]
      simp only [eq_comm (a := i), eq_comm (a := j)] at own
      simp [own]
  | false =>
    simp only [Bool.false_eq_true, if_false, Set.mem_sdiff, Set.mem_singleton_iff]
    by_cases own : i = treeIndex b blk ∧ j = bitIndex blk
    · rw [if_pos own]
      simp only [Bool.false_eq_true, false_iff]
      rintro ⟨c, ⟨member, different⟩, tree, bit⟩
      exact different (block_of_bit (within c member) admitted (tree.trans own.1) (bit.trans own.2))
    · rw [if_neg own, marks]
      constructor
      · rintro ⟨c, member, tree, bit⟩
        refine ⟨c, ⟨member, ?_⟩, tree, bit⟩
        rintro rfl
        exact own ⟨tree.symm, bit.symm⟩
      · rintro ⟨c, ⟨member, _⟩, tree, bit⟩
        exact ⟨c, member, tree, bit⟩

/-- `is_allocated_considering_splits` finds the live blocks inside a block. The
induction is on the level: a live block inside is the block itself or inside one
of its halves. -/
theorem Marks.consideringSplits {b : Buddy} {live : Set Block} (marks : Marks b live)
    (placed : Placed b) (within : ∀ c ∈ live, (area b).Admits c) :
    ∀ (fuel : Nat) {blk : Block}, (area b).Admits blk → blk.level < fuel + minBlockLog2 →
      ∃ r, isAllocatedConsideringSplits b fuel blk.start (2 ^ blk.level) = some r ∧
        (r = true ↔ ∃ c ∈ live, c.level ≤ blk.level ∧ blk.Holds c.start) := by
  intro fuel
  induction fuel with
  | zero =>
    intro blk admitted short
    have low : 4 ≤ blk.level := admitted.bottom
    have high : blk.level < 0 + 4 := short
    omega
  | succ fuel ih =>
    intro blk admitted short
    have low : 4 ≤ blk.level := admitted.bottom
    obtain ⟨own, read, meaning⟩ := marks.isAllocated placed within admitted
    -- a live block of the same level that starts inside is the block itself
    have same : ∀ c ∈ live, blk.level ≤ c.level → c.level ≤ blk.level → blk.Holds c.start →
        c = blk := fun c member le ge inside =>
      Block.eq_of_shared (within c member).aligned admitted.aligned (Nat.le_antisymm ge le)
        Block.holds_start inside
    by_cases smallest : blk.level = 4
    · refine ⟨own, ?_, meaning.trans ⟨fun member => ⟨blk, member, Nat.le_refl _, Block.holds_start⟩, ?_⟩⟩
      · rw [isAllocatedConsideringSplits, if_pos (by rw [smallest])]
        exact read
      · rintro ⟨c, member, le, inside⟩
        have bottom : 4 ≤ c.level := (within c member).bottom
        rwa [← same c member (by omega) le inside]
    · obtain ⟨half, aligned, start, halfLevel, up, upper⟩ :=
        Block.exists_lower admitted.aligned (show 0 < blk.level by omega)
      have bottom : 4 ≤ half.level := by omega
      have top : half.level < 12 := by
        have top : blk.level ≤ 12 := admitted.top
        omega
      have lowerAdmitted : (area b).Admits half :=
        ⟨aligned, bottom, Nat.le_of_lt top, start ▸ admitted.start⟩
      have halved : 2 ^ blk.level >>> 1 = 2 ^ half.level := by
        rw [← halfLevel, Nat.shiftRight_eq_div_pow, Nat.pow_succ, pow_one,
          Nat.mul_div_cancel _ (by omega)]
      obtain ⟨first, readFirst, meaningFirst⟩ := ih lowerAdmitted (by omega)
      obtain ⟨second, readSecond, meaningSecond⟩ := ih (lowerAdmitted.buddy top) (by
        simp only [Block.buddy_level]
        omega)
      simp only [Block.buddy_level, upper] at readSecond meaningSecond
      rw [start] at readFirst
      refine ⟨own || first || second, ?_, ?_⟩
      · rw [isAllocatedConsideringSplits, if_neg (by
          intro least
          exact smallest (Nat.pow_right_injective (Nat.le_refl 2) least))]
        simp only [halved, read, readFirst, readSecond, Option.bind_eq_bind, Option.bind_some]
        cases own <;> cases first <;> rfl
      · rw [Bool.or_eq_true, Bool.or_eq_true, meaning, meaningFirst, meaningSecond]
        have inside : ∀ x, blk.Holds x ↔ half.Holds x ∨ half.buddy.Holds x := by
          rw [← up]
          exact fun x => Block.parent_holds aligned
        constructor
        · rintro ((member | ⟨c, member, le, held⟩) | ⟨c, member, le, held⟩)
          · exact ⟨blk, member, Nat.le_refl _, Block.holds_start⟩
          · exact ⟨c, member, by omega, (inside _).mpr (Or.inl held)⟩
          · exact ⟨c, member, by omega, (inside _).mpr (Or.inr held)⟩
        · rintro ⟨c, member, le, held⟩
          by_cases whole : blk.level ≤ c.level
          · exact Or.inl (Or.inl (same c member whole le held ▸ member))
          · rcases (inside _).mp held with held | held
            · exact Or.inl (Or.inr ⟨c, member, by omega, held⟩)
            · exact Or.inr ⟨c, member, by omega, held⟩

end Mysnips.BuddyAlloc

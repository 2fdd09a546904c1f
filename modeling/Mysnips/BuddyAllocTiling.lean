import Mysnips.BuddyAllocBits
import Mysnips.BuddyAllocLists

/-! `buddy_malloc` and `buddy_free` on the tiling of the pool. The linked blocks
are the vacant ones, and the blocks in the hands of callers, or of the running
operation, are the taken ones; popping, splitting, merging and linking are the
four ways to change a tiling. -/
namespace Mysnips.BuddyAlloc
open Machine LinkedList DyadicTiling

/-- The blocks linked in the free lists. -/
def vacant (chain : Nat → List Nat) : Set Block :=
  { blk | 4 ≤ blk.level ∧ blk.level ≤ 12 ∧ blk.start ∈ chain (blk.level - 4) }

/-- The lists are linked and, with the taken blocks, tile the pool. -/
structure Working (b : Buddy) (chain : Nat → List Nat) (taken : Set Block) : Prop where
  placed : Placed b
  linked : Linked b chain
  tiling : Tiling (area b) (vacant chain) taken

/-- The taken blocks are blocks of the pool. -/
theorem Working.within {b : Buddy} {chain : Nat → List Nat} {taken : Set Block}
    (working : Working b chain taken) : ∀ c ∈ taken, (area b).Admits c :=
  fun c member => working.tiling.admitted c (Or.inr member)

theorem SamePool.area {b b' : Buddy} (same : SamePool b b') : area b' = area b := by
  simp only [BuddyAlloc.area, same.base, same.numTrees]

theorem SamePool.placed {b b' : Buddy} (same : SamePool b b') (placed : Placed b) : Placed b' :=
  ⟨same.base ▸ placed.aligned, same.base ▸ placed.positive, same.numTrees ▸ placed.trees⟩

theorem SamePool.marks {b b' : Buddy} {live : Set Block} (same : SamePool b b')
    (marks : Marks b live) : Marks b' live := by
  intro i j
  have tree : ∀ blk, treeIndex b' blk = treeIndex b blk := fun blk => by
    simp only [treeIndex, same.base]
  simpa only [marked, same.bits, tree] using marks i j

/-! ### The lists as sets of blocks -/

variable {b : Buddy} {chain : Nat → List Nat} {taken : Set Block} {blk : Block}

private theorem eq_iff_start {c : Block} (level : c.level = blk.level) :
    c = blk ↔ c.start = blk.start := by
  obtain ⟨_, _⟩ := c
  obtain ⟨_, _⟩ := blk
  simp_all

theorem vacant_push (blk : Block) (low : 4 ≤ blk.level) (high : blk.level ≤ 12) :
    vacant (Function.update chain (blk.level - 4) (blk.start :: chain (blk.level - 4))) =
      insert blk (vacant chain) := by
  ext c
  simp only [vacant, Set.mem_ofPred_eq, Set.mem_insert_iff]
  by_cases level : c.level = blk.level
  · rw [level, Function.update_self, List.mem_cons, eq_iff_start level]
    tauto
  · have other : c ≠ blk := fun same => level (congrArg Block.level same)
    constructor
    · rintro ⟨cLow, cHigh, member⟩
      rw [Function.update_of_ne (by omega)] at member
      exact Or.inr ⟨cLow, cHigh, member⟩
    · rintro (same | ⟨cLow, cHigh, member⟩)
      · exact absurd same other
      · rw [Function.update_of_ne (by omega)]
        exact ⟨cLow, cHigh, member⟩

theorem vacant_drop (blk : Block) {nodes : List Nat} (low : 4 ≤ blk.level)
    (dropped : ∀ a, a ∈ nodes ↔ a ∈ chain (blk.level - 4) ∧ a ≠ blk.start) :
    vacant (Function.update chain (blk.level - 4) nodes) = vacant chain \ {blk} := by
  ext c
  simp only [vacant, Set.mem_ofPred_eq, Set.mem_sdiff, Set.mem_singleton_iff]
  by_cases level : c.level = blk.level
  · rw [level, Function.update_self, dropped, eq_iff_start level]
    tauto
  · have other : c ≠ blk := fun same => level (congrArg Block.level same)
    constructor
    · rintro ⟨cLow, cHigh, member⟩
      rw [Function.update_of_ne (by omega)] at member
      exact ⟨⟨cLow, cHigh, member⟩, other⟩
    · rintro ⟨⟨cLow, cHigh, member⟩, _⟩
      rw [Function.update_of_ne (by omega)]
      exact ⟨cLow, cHigh, member⟩

theorem start_ne_null (placed : Placed b) (admitted : (area b).Admits blk) : blk.start ≠ 0 := by
  have page : b.base / 2 ^ 12 ≤ blk.start / 2 ^ 12 := admitted.start.1
  obtain ⟨q, base⟩ := placed.aligned
  have positive := placed.positive
  rw [base, Nat.mul_div_cancel_left _ (Nat.two_pow_pos _)] at page
  rintro null
  rw [null, Nat.zero_div] at page
  obtain rfl : q = 0 := by omega
  omega

/-- `buddy_free` goes on with every block of the pool. -/
theorem accepts (placed : Placed b) (admitted : (area b).Admits blk) {len : Nat} (positive : 0 < len)
    (small : len ≤ 2 ^ 12) : ¬ (blk.start = 0 ∨ len = 0 ∨ len > maxBlockSize) := by
  have nonnull := start_ne_null placed admitted
  have bound : maxBlockSize = 2 ^ 12 := rfl
  omega

namespace Working

/-- No list links an address of a taken block. -/
theorem fresh (working : Working b chain taken) (used : blk ∈ taken) {a : Nat}
    (held : blk.Holds a) : ∀ j < numLists, a ∉ chain j := by
  intro j bound member
  have small : j < 9 := bound
  have free : (⟨a, j + 4⟩ : Block) ∈ vacant chain := ⟨by simp, by simp; omega, by simpa using member⟩
  have same := working.tiling.unique _ blk a (Or.inl free) (Or.inr used) Block.holds_start held
  exact working.tiling.apart _ free (same ▸ used)

/-- Linking a taken block whose other half is not linked. -/
theorem give (working : Working b chain taken) (used : blk ∈ taken)
    (alone : blk.level < 12 → blk.buddy ∉ vacant chain) :
    ∃ b' chain', append b (listIndexForSize (2 ^ blk.level)) blk.start = some b' ∧ SamePool b b' ∧
      Working b' chain' (taken \ {blk}) := by
  have admitted := working.tiling.admitted blk (Or.inr used)
  have low : 4 ≤ blk.level := admitted.bottom
  have high : blk.level ≤ 12 := admitted.top
  obtain ⟨b', done, same, linked⟩ := working.linked.append (i := blk.level - 4)
    (show blk.level - 4 < 9 by omega) (start_ne_null working.placed admitted)
    (working.fresh used Block.holds_start)
  refine ⟨b', _, ?_, same, same.placed working.placed, linked, ?_⟩
  · rw [listIndexForSize_two_pow low high]
    exact done
  · rw [same.area, vacant_push blk low high]
    exact working.tiling.give used alone

/-- Linking the upper half of a taken block and keeping the lower one. -/
theorem split (working : Working b chain taken) (aligned : blk.Aligned) (low : 4 ≤ blk.level)
    (used : blk.parent ∈ taken) :
    ∃ b' chain', append b ((blk.level - 4 : Nat) : Int) blk.buddy.start = some b' ∧
      SamePool b b' ∧ Working b' chain' (insert blk (taken \ {blk.parent})) := by
  have whole := working.tiling.admitted _ (Or.inr used)
  have small : blk.level < 12 := whole.top
  have tiling := working.tiling.split aligned low used
  have buddyAdmitted := tiling.admitted blk.buddy (Or.inl (Or.inl rfl))
  obtain ⟨b', done, same, linked⟩ := working.linked.append (i := blk.level - 4)
    (show blk.level - 4 < 9 by omega) (start_ne_null working.placed buddyAdmitted)
    (working.fresh used ((Block.parent_holds aligned).mpr (Or.inr Block.holds_start)))
  refine ⟨b', _, done, same, same.placed working.placed, linked, ?_⟩
  rw [same.area, show blk.level = blk.buddy.level from rfl,
    vacant_push blk.buddy low (Nat.le_of_lt small)]
  exact tiling

/-- Unlinking the first block of a list. -/
theorem pop (working : Working b chain taken) {j : Nat} (bound : j < 9) (nonempty : chain j ≠ []) :
    ∃ b' chain' ptr, pop b j = some (b', ptr) ∧ SamePool b b' ∧ ⟨ptr, j + 4⟩ ∈ vacant chain ∧
      Working b' chain' (insert ⟨ptr, j + 4⟩ taken) := by
  obtain ⟨ptr, rest, nodes⟩ := List.exists_cons_of_ne_nil nonempty
  obtain ⟨b', done, same, linked⟩ := working.linked.pop bound nodes
  have free : (⟨ptr, j + 4⟩ : Block) ∈ vacant chain :=
    ⟨by simp, by simp; omega, by simp [nodes]⟩
  have distinct := working.linked.distinct j bound
  rw [nodes] at distinct
  have kept : ∀ a, a ∈ rest ↔ a ∈ chain (j + 4 - 4) ∧ a ≠ ptr := by
    intro a
    rw [Nat.add_sub_cancel, nodes, List.mem_cons]
    constructor
    · exact fun member => ⟨Or.inr member, fun isPtr =>
        (List.nodup_cons.mp distinct).1 (isPtr ▸ member)⟩
    · rintro ⟨isPtr | member, different⟩
      · exact absurd isPtr different
      · exact member
  have dropped := vacant_drop ⟨ptr, j + 4⟩ (Nat.le_add_left 4 j) kept
  simp only [Nat.add_sub_cancel] at dropped
  refine ⟨b', _, ptr, done, same, free, same.placed working.placed, linked, ?_⟩
  rw [same.area, dropped]
  exact working.tiling.take free

/-- Unlinking the other half of a taken block. -/
theorem merge (working : Working b chain taken) (used : blk ∈ taken) (small : blk.level < 12)
    (free : blk.buddy ∈ vacant chain) :
    ∃ b' chain', removeSiblingFromList b (blk.level - 4) blk.start = some b' ∧ SamePool b b' ∧
      Working b' chain' (insert blk.parent (taken \ {blk})) := by
  have admitted := working.tiling.admitted blk (Or.inr used)
  have low : 4 ≤ blk.level := admitted.bottom
  have size : 1 <<< (blk.level - 4 + minBlockLog2) = 2 ^ blk.level := by
    rw [Nat.shiftLeft_eq, one_mul, show blk.level - 4 + minBlockLog2 = blk.level by
      rw [minBlockLog2]; omega]
  obtain ⟨b', nodes, done, same, linked, dropped⟩ := working.linked.remove (i := blk.level - 4)
    (show blk.level - 4 < 9 by omega) (by rw [size]; exact siblingOf_eq low small) free.2.2
  refine ⟨b', _, done, same, same.placed working.placed, linked, ?_⟩
  rw [same.area, show blk.level = blk.buddy.level from rfl, vacant_drop blk.buddy low dropped]
  exact working.tiling.merge used free small

end Working

/-! ### Allocation -/

/-- The search of `buddy_malloc` stops at the first list that is not empty. -/
private theorem firstNonEmpty_spec (b : Buddy) (fuel : Nat) {i : Nat} (inside : i ≤ 9)
    (enough : 9 ≤ fuel + i) :
    i ≤ firstNonEmpty b fuel i ∧ firstNonEmpty b fuel i ≤ 9 ∧
      (firstNonEmpty b fuel i < 9 → b.lists (firstNonEmpty b fuel i) ≠ 0) ∧
      ∀ m, i ≤ m → m < firstNonEmpty b fuel i → b.lists m = 0 := by
  induction fuel generalizing i with
  | zero =>
    simp only [firstNonEmpty]
    exact ⟨Nat.le_refl i, inside, by omega, by omega⟩
  | succ fuel ih =>
    rw [firstNonEmpty]
    by_cases empty : i < numLists ∧ b.lists i = 0
    · rw [if_pos empty]
      have small : i < 9 := empty.1
      obtain ⟨above, bound, stops, skipped⟩ := ih (i := i + 1) (by omega) (by omega)
      refine ⟨by omega, bound, stops, fun m low high => ?_⟩
      by_cases first : m = i
      · exact first ▸ empty.2
      · exact skipped m (by omega) high
    · rw [if_neg empty]
      refine ⟨Nat.le_refl i, inside, fun small null => empty ⟨small, null⟩, by omega⟩

/-- The loop that splits a taken block leaves its lowest part taken. -/
private theorem splitDown_spec {ptr i : Nat} (outside : ∀ c ∈ taken, ¬ c.Holds ptr) (j : Nat)
    (above : i ≤ j) (working : Working b chain (insert ⟨ptr, j + 4⟩ taken)) :
    ∃ b' chain', splitDown b ptr i j = some b' ∧ SamePool b b' ∧
      Working b' chain' (insert ⟨ptr, i + 4⟩ taken) := by
  induction j generalizing b chain with
  | zero =>
    obtain rfl : i = 0 := by omega
    exact ⟨b, chain, rfl, ⟨rfl, rfl, rfl, rfl, rfl, rfl⟩, working⟩
  | succ j ih =>
    rw [splitDown]
    by_cases more : j + 1 > i
    · rw [if_pos more]
      have used : (⟨ptr, j + 1 + 4⟩ : Block) ∈ insert ⟨ptr, j + 1 + 4⟩ taken := Or.inl rfl
      have whole := working.tiling.admitted _ (Or.inr used)
      obtain ⟨half, aligned, start, level, up, _⟩ := Block.exists_lower whole.aligned (by simp)
      obtain rfl : half = ⟨ptr, j + 4⟩ := by
        obtain ⟨_, _⟩ := half
        simp_all
      have top : j + 1 + 4 ≤ 12 := whole.top
      have low : 4 ≤ (Block.mk ptr (j + 4)).level := Nat.le_add_left 4 j
      have sibling := siblingOf_eq low (show j + 4 < 12 by omega)
      obtain ⟨b₁, chain₁, pushed, same, split⟩ := working.split aligned low (up ▸ used)
      have kept : insert ⟨ptr, j + 4⟩ (insert ⟨ptr, j + 1 + 4⟩ taken \ {Block.parent ⟨ptr, j + 4⟩}) =
          insert ⟨ptr, j + 4⟩ taken := by
        have absent : (⟨ptr, j + 1 + 4⟩ : Block) ∉ taken :=
          fun member => outside _ member Block.holds_start
        rw [up, Set.insert_sdiff_of_mem _ (Set.mem_singleton _), Set.sdiff_singleton_eq_self absent]
      rw [kept] at split
      obtain ⟨b₂, chain₂, done, further, result⟩ := ih (by omega) split
      refine ⟨b₂, chain₂, ?_, same.trans further, result⟩
      have size : 1 <<< (j + minBlockLog2) = 2 ^ (j + 4) := by rw [Nat.shiftLeft_eq, one_mul]
      simp only [Nat.add_sub_cancel] at pushed
      simp only [size, sibling, pushed, Option.bind_eq_bind, Option.bind_some]
      exact done
    · rw [if_neg more]
      obtain rfl : i = j + 1 := by omega
      exact ⟨b, chain, rfl, ⟨rfl, rfl, rfl, rfl, rfl, rfl⟩, working⟩

/-- `buddy_malloc` never faults. It either returns `NULL` and changes nothing,
because no linked block is large enough, or takes a block of the requested size
class that met no taken one. -/
theorem malloc_spec (working : Working b chain taken) (marks : Marks b taken) (len : Nat) :
    (malloc b len = some (b, 0) ∧
      (len = 0 ∨ 2 ^ 12 < len ∨ ∀ c ∈ vacant chain, 2 ^ c.level < normalizeLen len)) ∨
    ∃ b' chain' blk, malloc b len = some (b', blk.start) ∧ area b' = area b ∧
      0 < len ∧ len ≤ 2 ^ 12 ∧ normalizeLen len = 2 ^ blk.level ∧ blk ∉ taken ∧
      Working b' chain' (insert blk taken) ∧ Marks b' (insert blk taken) := by
  by_cases refused : len = 0 ∨ len > maxBlockSize
  · refine Or.inl ⟨by rw [malloc, if_pos refused], ?_⟩
    exact refused.imp id Or.inl
  · have positive : 0 < len := Nat.pos_of_ne_zero fun zero => refused (Or.inl zero)
    have small : len ≤ 2 ^ 12 := Nat.le_of_not_lt fun large => refused (Or.inr large)
    obtain ⟨k, low, high, normalized, _⟩ := normalizeLen_eq positive small
    have class_ := listIndexForSize_two_pow low high
    have size : 2 ^ 4 ≤ 2 ^ k := Nat.pow_le_pow_right (by omega) low
    have asserted : 2 ^ k ≥ minBlockSize ∧ (0 : Int) ≤ ((k - 4 : Nat) : Int) ∧
        ((k - 4 : Nat) : Int) < (numLists : Int) :=
      ⟨size, by omega, show ((k - 4 : Nat) : Int) < 9 by omega⟩
    obtain ⟨above, bound, stops, skipped⟩ :=
      firstNonEmpty_spec b 9 (i := k - 4) (by omega) (by omega)
    have unfolded : malloc b len =
        (let j := firstNonEmpty b 9 (k - 4)
         if j = numLists then some (b, 0)
         else (pop b j).bind fun popped =>
           (splitDown popped.1 popped.2 (k - 4) j).bind fun b =>
             (setAllocated b popped.2 (2 ^ k) true).bind fun b => some (b, popped.2)) := by
      rw [malloc, if_neg refused]
      simp only [normalized, class_, if_pos asserted, Int.toNat_natCast]
      rfl
    rw [unfolded]
    generalize firstNonEmpty b 9 (k - 4) = j at above bound stops skipped
    by_cases exhausted : j = 9
    · refine Or.inl ⟨if_pos exhausted, Or.inr (Or.inr fun c free => ?_)⟩
      rw [normalized]
      refine Nat.pow_lt_pow_right (by omega) ?_
      obtain ⟨cLow, cHigh, member⟩ := free
      by_contra large
      have null := skipped (c.level - 4) (by omega) (by omega)
      rw [working.linked.null_iff (show c.level - 4 < 9 by omega)] at null
      simp [null] at member
    · have inside : j < 9 := by omega
      have nonempty : chain j ≠ [] := fun empty =>
        stops inside ((working.linked.null_iff inside).mpr empty)
      obtain ⟨b₁, chain₁, ptr, popped, same₁, free, taken₁⟩ := working.pop inside nonempty
      have outside : ∀ c ∈ taken, ¬ c.Holds ptr := fun c used held =>
        Tiling.untaken_of_vacant working.tiling free c used ptr Block.holds_start held
      obtain ⟨b₂, chain₂, split, same₂, taken₂⟩ := splitDown_spec outside j above taken₁
      rw [Nat.sub_add_cancel low] at taken₂
      have same := same₁.trans same₂
      have admitted := taken₂.tiling.admitted ⟨ptr, k⟩ (Or.inr (Or.inl rfl))
      obtain ⟨bits, set, marks'⟩ := (same.marks marks).setAllocated taken₂.placed
        (fun c used => taken₂.tiling.admitted c (Or.inr (Or.inr used))) admitted true
      refine Or.inr ⟨{ b₂ with bits }, chain₂, ⟨ptr, k⟩, ?_, same.area, positive, small, normalized,
        fun used => outside _ used Block.holds_start, ?_, marks'⟩
      · simp only [if_neg (show ¬ j = numLists from exhausted), popped, split, set,
          Option.bind_some]
      · exact ⟨⟨taken₂.placed.aligned, taken₂.placed.positive, taken₂.placed.trees⟩,
          ⟨taken₂.linked.chains, taken₂.linked.distinct, taken₂.linked.apart⟩, taken₂.tiling⟩

/-! ### Release -/

/-- The merge decision, taken from the bit tree, agrees with the free lists: with
one block in hand, its other half is free of allocated splits exactly when it is
linked. -/
theorem siblingAllocated_spec (working : Working b chain (insert blk taken)) (marks : Marks b taken)
    (small : blk.level < 12) :
    ∃ r, siblingAllocatedConsideringSplits b blk.start (2 ^ blk.level) = some r ∧
      (r = false ↔ blk.buddy ∈ vacant chain) := by
  have used : blk ∈ insert blk taken := Or.inl rfl
  have admitted := working.tiling.admitted blk (Or.inr used)
  have aligned := admitted.aligned
  have within : ∀ c ∈ taken, (area b).Admits c := fun c member => working.within c (Or.inr member)
  obtain ⟨r, read, meaning⟩ := marks.consideringSplits working.placed within 64
    (admitted.buddy small) (show blk.level < 64 + 4 by omega)
  refine ⟨r, ?_, ?_⟩
  · simp only [siblingAllocatedConsideringSplits, siblingOf_eq admitted.bottom small,
      Option.bind_eq_bind, Option.bind_some]
    exact read
  · rw [Tiling.buddy_vacant_iff working.tiling used small, ← Bool.not_eq_true, meaning]
    constructor
    · intro none c member le held
      rcases member with rfl | member
      · exact Block.buddy_ne aligned (Block.eq_of_shared (Block.buddy_aligned aligned) aligned rfl
          held Block.holds_start)
      · exact none ⟨c, member, le, held⟩
    · rintro none ⟨c, member, le, held⟩
      exact none c (Or.inr member) le held

/-- A round of the merge loop where the other half is linked: that is unlinked, and the loop goes
on with the parent. -/
theorem merge_round (fuel : Nat) (absent : blk ∉ taken) (working : Working b chain (insert blk taken))
    (marks : Marks b taken) (small : blk.level < 12) (free : blk.buddy ∈ vacant chain) :
    b.lists (blk.level - 4) ≠ 0 ∧ blk.parent ∉ taken ∧
    ∃ b' chain', removeSiblingFromList b (blk.level - 4) blk.start = some b' ∧ SamePool b b' ∧
      Working b' chain' (insert blk.parent taken) ∧
      mergeUp (fuel + 1) b blk.start (2 ^ blk.level) =
        mergeUp fuel b' blk.parent.start (2 ^ blk.parent.level) := by
  have used : blk ∈ insert blk taken := Or.inl rfl
  have admitted := working.tiling.admitted blk (Or.inr used)
  have low : 4 ≤ blk.level := admitted.bottom
  have notPage : 2 ^ blk.level ≠ maxBlockSize := fun same =>
    Nat.ne_of_lt small (Nat.pow_right_injective (Nat.le_refl 2) same)
  have listed : b.lists (blk.level - 4) ≠ 0 := fun null => by
    rw [working.linked.null_iff (show blk.level - 4 < 9 by omega)] at null
    have member : blk.buddy.start ∈ chain (blk.level - 4) := free.2.2
    simp [null] at member
  have parentAbsent : blk.parent ∉ taken := by
    intro member
    have shared := (Block.parent_holds admitted.aligned).mpr (Or.inl (Block.holds_start (b := blk)))
    have same := working.tiling.unique blk.parent blk blk.start (Or.inr (Or.inr member))
      (Or.inr used) shared Block.holds_start
    exact absurd (congrArg Block.level same) (by simp)
  obtain ⟨r, read, meaning⟩ := siblingAllocated_spec working marks small
  cases meaning.mpr free
  obtain ⟨b', chain', removed, same, merged⟩ := working.merge used small free
  rw [Set.insert_sdiff_of_mem _ (Set.mem_singleton _), Set.sdiff_singleton_eq_self absent] at merged
  have doubled : 2 ^ blk.level <<< 1 = 2 ^ blk.parent.level := by
    rw [Nat.shiftLeft_eq, pow_one, Block.parent_level, Nat.pow_succ]
  refine ⟨listed, parentAbsent, b', chain', removed, same, merged, ?_⟩
  rw [mergeUp]
  simp only [if_neg notPage, read, listIndexForSize_two_pow low (Nat.le_of_lt small),
    Int.toNat_natCast, listed, removed, parentOf_eq admitted.aligned low small, doubled,
    Option.bind_eq_bind, Option.bind_some, Bool.false_eq_true, if_false, ne_eq, not_false_eq_true,
    if_true]

/-- The merge loop links the block in hand, joined with every free half it finds,
and leaves the other taken blocks alone. -/
private theorem mergeUp_spec (fuel : Nat) (absent : blk ∉ taken) (enough : 12 < fuel + blk.level)
    (working : Working b chain (insert blk taken)) (marks : Marks b taken) :
    ∃ b' chain', mergeUp fuel b blk.start (2 ^ blk.level) = some b' ∧ SamePool b b' ∧
      Working b' chain' taken := by
  induction fuel generalizing b chain blk with
  | zero =>
    have top : blk.level ≤ 12 := (working.tiling.admitted blk (Or.inr (Or.inl rfl))).top
    omega
  | succ fuel ih =>
    have used : blk ∈ insert blk taken := Or.inl rfl
    have admitted := working.tiling.admitted blk (Or.inr used)
    have low : 4 ≤ blk.level := admitted.bottom
    have high : blk.level ≤ 12 := admitted.top
    have restored : insert blk taken \ {blk} = taken := by
      rw [Set.insert_sdiff_of_mem _ (Set.mem_singleton _), Set.sdiff_singleton_eq_self absent]
    have ends : ∀ alone : blk.level < 12 → blk.buddy ∉ vacant chain,
        ∃ b' chain', append b (listIndexForSize (2 ^ blk.level)) blk.start = some b' ∧
          SamePool b b' ∧ Working b' chain' taken := by
      intro alone
      have given := working.give used alone
      rwa [restored] at given
    by_cases page : blk.level = 12
    · obtain ⟨b', chain', done, same, result⟩ := ends (by omega)
      refine ⟨b', chain', ?_, same, result⟩
      rw [mergeUp]
      simp only [if_pos (show 2 ^ blk.level = maxBlockSize by rw [page]), Option.bind_eq_bind,
        Option.bind_some, if_true]
      exact done
    · have small : blk.level < 12 := by omega
      have notPage : 2 ^ blk.level ≠ maxBlockSize := fun same =>
        page (Nat.pow_right_injective (Nat.le_refl 2) same)
      obtain ⟨r, read, meaning⟩ := siblingAllocated_spec working marks small
      cases r with
      | true =>
        obtain ⟨b', chain', done, same, result⟩ := ends fun _ free => by simp [← meaning] at free
        refine ⟨b', chain', ?_, same, result⟩
        rw [mergeUp]
        simp only [if_neg notPage, read, Option.bind_eq_bind, Option.bind_some, if_true]
        exact done
      | false =>
        obtain ⟨_, parentAbsent, b₁, chain₁, _, same, merged, goesOn⟩ :=
          merge_round fuel absent working marks small (meaning.mp rfl)
        obtain ⟨b₂, chain₂, done, further, result⟩ := ih parentAbsent
          (by simp only [Block.parent_level]; omega) merged (same.marks marks)
        exact ⟨b₂, chain₂, goesOn.trans done, same.trans further, result⟩

/-- `buddy_free` of a taken block clears its mark, and goes on with the block in hand. -/
theorem free_enters (working : Working b chain taken) (marks : Marks b taken) {len : Nat}
    (positive : 0 < len) (small : len ≤ 2 ^ 12) (size : normalizeLen len = 2 ^ blk.level)
    (used : blk ∈ taken) :
    ∃ bits, setAllocated b blk.start (2 ^ blk.level) false = some { b with bits } ∧
      Working { b with bits } chain (insert blk (taken \ {blk})) ∧
      Marks { b with bits } (taken \ {blk}) ∧
      free b len blk.start = mergeUp 64 { b with bits } blk.start (2 ^ blk.level) := by
  have admitted := working.tiling.admitted blk (Or.inr used)
  have accepted := accepts working.placed admitted positive small
  obtain ⟨r, read, meaning⟩ := marks.isAllocated working.placed working.within admitted
  cases meaning.mpr used
  obtain ⟨bits, cleared, marks'⟩ := marks.setAllocated working.placed working.within admitted false
  simp only [Bool.false_eq_true, if_false] at marks'
  refine ⟨bits, cleared, ?_, marks', ?_⟩
  · rw [Set.insert_sdiff_singleton, Set.insert_eq_of_mem used]
    exact ⟨⟨working.placed.aligned, working.placed.positive, working.placed.trees⟩,
      ⟨working.linked.chains, working.linked.distinct, working.linked.apart⟩, working.tiling⟩
  · rw [free, if_neg accepted]
    simp only [size, read, Option.bind_eq_bind, Option.bind_some, if_true, cleared]

/-- `buddy_free` of a block of the pool never faults: it takes the block out of
the live ones, and does nothing when it is not one of them. -/
theorem free_spec (working : Working b chain taken) (marks : Marks b taken) {len : Nat}
    (positive : 0 < len) (small : len ≤ 2 ^ 12) (size : normalizeLen len = 2 ^ blk.level)
    (admitted : (area b).Admits blk) :
    ∃ b' chain', free b len blk.start = some b' ∧ area b' = area b ∧
      Working b' chain' (taken \ {blk}) ∧ Marks b' (taken \ {blk}) ∧ (blk ∉ taken → b' = b) := by
  have accepted := accepts working.placed admitted positive small
  obtain ⟨r, read, meaning⟩ := marks.isAllocated working.placed working.within admitted
  rw [free, if_neg accepted]
  simp only [size, read, Option.bind_eq_bind, Option.bind_some]
  cases r with
  | false =>
    have absent : blk ∉ taken := by simp [← meaning]
    rw [Set.sdiff_singleton_eq_self absent]
    exact ⟨b, chain, by simp, rfl, working, marks, fun _ => rfl⟩
  | true =>
    have used : blk ∈ taken := meaning.mp rfl
    obtain ⟨bits, _, held, marks', enters⟩ := free_enters working marks positive small size used
    rw [free, if_neg accepted] at enters
    simp only [size, read, Option.bind_eq_bind, Option.bind_some] at enters
    obtain ⟨b', chain', done, same, result⟩ := mergeUp_spec 64 (fun member => member.2 rfl)
      (by omega) held marks'
    refine ⟨b', chain', ?_, same.area, result, same.marks marks', fun absent => absurd used absent⟩
    exact enters.trans done

end Mysnips.BuddyAlloc

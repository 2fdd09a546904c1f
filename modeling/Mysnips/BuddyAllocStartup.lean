import Mysnips.BuddyAllocTiling

/-! `buddy_startup`. The counting loop finds how many pages fit behind their bit
trees, and the linking loop leaves all of them in the list of the largest blocks,
so that a started pool is tiled by its vacant pages. -/
namespace Mysnips.BuddyAlloc
open Machine LinkedList DyadicTiling

/-- A region of memory that a pool is started in: it does not wrap around the
address space, and is small enough for the `int` arithmetic of the source. -/
structure Region (base size : Nat) : Prop where
  fits : base + size ≤ 2 ^ 64
  small : size < 2 ^ 31

/-- The padding reaches the next multiple of a power of two. -/
theorem padding_aligns (p : Nat) {k : Nat} (le : k ≤ 64) : 2 ^ k ∣ p + padding p (2 ^ k) := by
  have inside := Nat.mod_lt p (Nat.two_pow_pos k)
  rw [padding, negated_mask p le, Nat.dvd_iff_mod_eq_zero, Nat.add_mod_mod, ← Nat.mod_add_mod,
    Nat.add_sub_cancel' (Nat.le_of_lt inside), Nat.mod_self]

theorem padding_eq (p : Nat) {k : Nat} (le : k ≤ 64) :
    padding p (2 ^ k) = (2 ^ k - p % 2 ^ k) % 2 ^ k := negated_mask p le

/-- The padding before a page is shorter than a page. -/
theorem padding_lt (p : Nat) : padding p maxBlockSize < 2 ^ 12 := by
  rw [maxBlockSize, padding_eq p (by decide)]
  exact Nat.mod_lt _ (Nat.two_pow_pos _)

/-! ### Counting the pages -/

/-- `n` pages fit in the region behind the bit trees they need. -/
def Fits (base size n : Nat) : Prop :=
  n = 0 ∨ 64 * n + padding (base + 64 * n) maxBlockSize + 2 ^ 12 * n ≤ size

/-- Fewer pages fit as well: the first page does not move up when a bit tree is left out. -/
theorem Fits.less {base size n : Nat} (fits : Fits base size (n + 1)) : Fits base size n := by
  rcases fits with zero | fits
  · cases zero
  have padded := padding_eq (base + 64 * n) (show 12 ≤ 64 by decide)
  have padded' := padding_eq (base + 64 * (n + 1)) (show 12 ≤ 64 by decide)
  refine Or.inr ?_
  rw [maxBlockSize, padded'] at fits
  rw [maxBlockSize, padded]
  omega

theorem Fits.mono {base size m n : Nat} (fits : Fits base size n) (le : m ≤ n) : Fits base size m := by
  induction le with
  | refl => exact fits
  | step _ ih => exact ih fits.less

/-- The test of the counting loop for `k` pages: they fit behind `k` bit trees, by a count
that is folded into the range of an `int`. -/
def Counts (trees room k : Nat) : Prop :=
  64 * k + padding (trees + 64 * k) maxBlockSize ≤ room ∧
    (k : Int) ≤ int32 ((room - 64 * k - padding (trees + 64 * k) maxBlockSize) / 2 ^ 12 : Nat)

/-- Where the counting loop ends: the tests up to `n` succeed, and the next one fails. -/
structure Counted (trees room n : Nat) : Prop where
  counts : ∀ k, 0 < k → k ≤ n → Counts trees room k
  ends : ¬ Counts trees room (n + 1)

section Counting

variable {trees room : Nat}

theorem Counts.bounds {k : Nat} (counts : Counts trees room k) : k ≤ room / 2 ^ 12 ∧ k < 2 ^ 31 := by
  obtain ⟨-, blocks⟩ := counts
  have folded := int32_le ((room - 64 * k - padding (trees + 64 * k) maxBlockSize) / 2 ^ 12)
  have below :=
    int32_lt (((room - 64 * k - padding (trees + 64 * k) maxBlockSize) / 2 ^ 12 : Nat) : Int)
  have less : (room - 64 * k - padding (trees + 64 * k) maxBlockSize) / 2 ^ 12 ≤ room / 2 ^ 12 :=
    Nat.div_le_div_right (by omega)
  omega

/-- The last test that succeeded, if any did. -/
theorem Counted.last {n : Nat} (counted : Counted trees room n) : n = 0 ∨ Counts trees room n := by
  rcases Nat.eq_zero_or_pos n with zero | positive
  · exact Or.inl zero
  · exact Or.inr (counted.counts n positive (Nat.le_refl n))

theorem Counted.lt {n : Nat} (counted : Counted trees room n) : n < 2 ^ 31 := by
  rcases counted.last with rfl | counts
  · decide
  · exact counts.bounds.2

/-- In a region of less than `2 ^ 31` bytes the count is exact. -/
theorem counts_iff_fits (small : room < 2 ^ 31) {k : Nat} (positive : 0 < k) :
    Counts trees room k ↔ Fits trees room k := by
  rw [Counts, Fits, or_iff_right (by omega)]
  generalize padding (trees + 64 * k) maxBlockSize = pad
  have blocks : (room - 64 * k - pad) / 2 ^ 12 < 2 ^ 31 :=
    Nat.lt_of_le_of_lt (Nat.div_le_self _ _) (by omega)
  rw [int32_natCast blocks, Nat.cast_le, Nat.le_div_iff_mul_le (Nat.two_pow_pos _)]
  omega

theorem Counted.fits {n : Nat} (small : room < 2 ^ 31) (counted : Counted trees room n) :
    Fits trees room n ∧ ¬ Fits trees room (n + 1) := by
  constructor
  · rcases Nat.eq_zero_or_pos n with zero | positive
    · exact Or.inl zero
    · exact (counts_iff_fits small positive).mp (counted.counts n positive (Nat.le_refl n))
  · rw [← counts_iff_fits small (Nat.succ_pos n)]
    exact counted.ends

/-- The counting loop ends. Where its count would leave the range of an `int`, the region
of the bit trees does not fit. -/
theorem countTrees_spec (trees : Nat) (bounded : room < 2 ^ 64) (fuel : Nat) {k : Nat}
    (counts : ∀ j, 0 < j → j ≤ k → Counts trees room j) (enough : room / 2 ^ 12 < fuel + k) :
    ∃ n : Nat, countTrees trees room fuel k = some (n : Int) ∧ Counted trees room n := by
  induction fuel generalizing k with
  | zero =>
    have last := (counts k (by omega) (Nat.le_refl k)).bounds.1
    omega
  | succ fuel ih =>
    have stops : ¬ Counts trees room (k + 1) →
        ∃ n : Nat, some (k : Int) = some (n : Int) ∧ Counted trees room n :=
      fun full => ⟨k, rfl, counts, full⟩
    rw [countTrees]
    by_cases inRange : k + 1 < 2 ^ 31
    · have maybe : int32 ((k : Int) + 1) = ((k + 1 : Nat) : Int) := by
        rw [int32_eq (by omega) (by omega)]
        omega
      have region : mul64 (ofInt ((k + 1 : Nat) : Int)) sizeofBitTree = 64 * (k + 1) := by
        rw [ofInt_eq (by omega) (by omega), Int.toNat_natCast, show sizeofBitTree = 64 from rfl,
          mul64_eq (by omega), Nat.mul_comm]
      simp only [maybe, region]
      by_cases long : 64 * (k + 1) > room
      · rw [if_pos long]
        refine stops fun more => ?_
        have inside := more.1
        omega
      rw [if_neg long]
      by_cases pad : padding (trees + 64 * (k + 1)) maxBlockSize > room - 64 * (k + 1)
      · rw [if_pos pad]
        refine stops fun more => ?_
        have inside := more.1
        omega
      rw [if_neg pad, show maxBlockLog2 = 12 from rfl, Nat.shiftRight_eq_div_pow]
      by_cases few : int32 ((room - 64 * (k + 1) - padding (trees + 64 * (k + 1)) maxBlockSize) /
          2 ^ 12 : Nat) < ((k + 1 : Nat) : Int)
      · rw [if_pos few]
        exact stops fun more => Int.not_le.mpr few more.2
      · rw [if_neg few]
        refine ih (fun j positive le => ?_) (by omega)
        by_cases old : j ≤ k
        · exact counts j positive old
        · obtain rfl : j = k + 1 := by omega
          exact ⟨by omega, Int.not_lt.mp few⟩
    · have previous := counts k (by omega) (Nat.le_refl k)
      obtain rfl : k = 2 ^ 31 - 1 := by
        have last := previous.bounds.2
        omega
      have maybe : int32 (((2 ^ 31 - 1 : Nat) : Int) + 1) = -2 ^ 31 := by decide
      have region : mul64 (ofInt (-2 ^ 31)) sizeofBitTree = 2 ^ 64 - 2 ^ 37 := by decide
      have long : 2 ^ 64 - 2 ^ 37 > room := by
        obtain ⟨inside, blocks⟩ := previous
        have padded := padding_lt (trees + 64 * (2 ^ 31 - 1))
        generalize padding (trees + 64 * (2 ^ 31 - 1)) maxBlockSize = pad at *
        obtain ⟨m, folded, -, high⟩ :=
          int32_folds (((room - 64 * (2 ^ 31 - 1) - pad) / 2 ^ 12 : Nat) : Int)
        omega
      simp only [maybe, region, if_pos long]
      exact stops fun more => absurd more.bounds.2 (by decide)

end Counting

/-! ### Linking the pages -/

/-- The addresses of the pages of the pool, in order. -/
def pages (base n : Nat) : List Nat := (List.range n).map fun i => base + i * 2 ^ 12

theorem mem_pages {base n a : Nat} : a ∈ pages base n ↔ ∃ i < n, a = base + i * 2 ^ 12 := by
  simp [pages, eq_comm]

theorem pages_succ (base n : Nat) : pages base (n + 1) = pages base n ++ [base + n * 2 ^ 12] := by
  simp [pages, List.range_succ]

theorem pages_nodup (base n : Nat) : (pages base n).Nodup := by
  refine List.Nodup.map_on (fun i _ j _ same => ?_) List.nodup_range
  omega

private theorem page_fresh (base n : Nat) : base + n * 2 ^ 12 ∉ pages base n := by
  rw [mem_pages]
  rintro ⟨i, below, same⟩
  omega

/-- The linking loop leaves the pages in one list, in order; its tail is the last
page. -/
theorem linkPages_spec {base n : Nat} (heap : Heap) (positive : 0 < base)
    (few : n < 2 ^ 19) (fits : base + n * 2 ^ 12 ≤ 2 ^ 64) :
    ∃ heap' head tail, linkPages base heap n = (heap', head, tail) ∧
      Chain heap' 0 head (pages base n) ∧ ∀ m, n = m + 1 → tail = base + m * 2 ^ 12 := by
  induction n with
  | zero =>
    refine ⟨heap, 0, 0, rfl, chain_nil.mpr rfl, fun m same => ?_⟩
    omega
  | succ n ih =>
    have room : base + n * 2 ^ 12 < 2 ^ 64 := by omega
    obtain ⟨heap', head, tail, linked, chain, last⟩ := ih (by omega) (Nat.le_of_lt room)
    have page : pageIndexToPtr base (n : Int) = base + n * 2 ^ 12 := by
      rw [pageIndexToPtr, int32_eq (by simp only [maxBlockLog2]; omega)
        (by simp only [maxBlockLog2]; omega), ofInt_eq (by positivity)
        (by simp only [maxBlockLog2]; omega), add64_eq (by simp only [maxBlockLog2]; omega)]
      simp only [maxBlockLog2]
      omega
    have nonnull : base + n * 2 ^ 12 ≠ 0 := by omega
    rw [linkPages, linked]
    simp only [page]
    cases n with
    | zero =>
      have empty : head = 0 := chain
      subst empty
      refine ⟨_, _, _, rfl, ?_, fun m same => ?_⟩
      · exact ⟨by simp, by omega, by simp, by simp⟩
      · obtain rfl : m = 0 := by omega
        rfl
    | succ n =>
      have headNonnull : head ≠ 0 := fun null => by
        have nodes := chain.null_iff.mp null
        simp [pages_succ] at nodes
      obtain rfl := last n rfl
      rw [if_pos headNonnull]
      refine ⟨_, _, _, rfl, ?_, fun m same => ?_⟩
      · rw [pages_succ base (n + 1), pages_succ base n, List.append_assoc]
        rw [pages_succ] at chain
        refine chain.snoc ?_ nonnull ?_
        · rw [← pages_succ]
          exact pages_nodup base (n + 1)
        · rw [← pages_succ]
          exact page_fresh base (n + 1)
      · obtain rfl : m = n + 1 := by omega
        rfl

/-! ### The started pool -/

/-- The lists of a pool without taken blocks. -/
def untouched (base n : Nat) : Nat → List Nat := fun i => if i = 8 then pages base n else []

theorem mem_vacant_untouched {base n : Nat} {blk : Block} :
    blk ∈ vacant (untouched base n) ↔ blk.level = 12 ∧ blk.start ∈ pages base n := by
  simp only [vacant, untouched, Set.mem_ofPred_eq]
  constructor
  · rintro ⟨low, high, member⟩
    by_cases top : blk.level - 4 = 8
    · rw [if_pos top] at member
      exact ⟨by omega, member⟩
    · simp [top] at member
  · rintro ⟨level, member⟩
    refine ⟨by omega, by omega, ?_⟩
    rwa [if_pos (by omega)]

/-- Whole pages tile the pool. -/
theorem untouched_tiling {b : Buddy} (placed : Placed b) :
    Tiling (area b) (vacant (untouched b.base b.numTrees.toNat)) ∅ := by
  obtain ⟨q, base⟩ := placed.aligned
  have page : (area b).page = q := by
    simp only [area, base]
    exact Nat.mul_div_cancel_left _ (Nat.two_pow_pos _)
  -- a page is the block of the top level at its index
  have shape : ∀ blk, blk ∈ vacant (untouched b.base b.numTrees.toNat) ↔
      ∃ i < b.numTrees.toNat, blk = ⟨2 ^ 12 * (q + i), 12⟩ := by
    intro blk
    obtain ⟨start, level⟩ := blk
    simp only [mem_vacant_untouched, mem_pages, base, Block.mk.injEq]
    constructor
    · rintro ⟨top, i, below, same⟩
      exact ⟨i, below, by omega, top⟩
    · rintro ⟨i, below, same, top⟩
      exact ⟨top, i, below, by omega⟩
  have admitted : ∀ blk, blk ∈ vacant (untouched b.base b.numTrees.toNat) ∨ blk ∈ (∅ : Set Block) →
      (area b).Admits blk := by
    rintro blk (member | member)
    · obtain ⟨i, below, rfl⟩ := (shape blk).mp member
      refine ⟨Nat.dvd_mul_right _ _, show 4 ≤ 12 by omega, Nat.le_refl _, ?_⟩
      rw [Area.Holds, page]
      show q ≤ 2 ^ 12 * (q + i) / 2 ^ 12 ∧ 2 ^ 12 * (q + i) / 2 ^ 12 < q + b.numTrees.toNat
      rw [Nat.mul_div_cancel_left _ (Nat.two_pow_pos _)]
      omega
    · exact absurd member (Set.notMem_empty blk)
  refine ⟨admitted, fun _ _ => Set.notMem_empty _, ?_, ?_, ?_⟩
  · intro c d x cMember dMember inC inD
    have levels : c.level = d.level := by
      rcases cMember with cMember | cMember
      · rcases dMember with dMember | dMember
        · rw [(mem_vacant_untouched.mp cMember).1, (mem_vacant_untouched.mp dMember).1]
        · exact absurd dMember (Set.notMem_empty d)
      · exact absurd cMember (Set.notMem_empty c)
    exact Block.eq_of_shared (admitted c cMember).aligned (admitted d dMember).aligned levels inC inD
  · intro x inside
    have low : q ≤ x / 2 ^ 12 := page ▸ inside.1
    have high : x / 2 ^ 12 < q + b.numTrees.toNat := page ▸ inside.2
    refine ⟨⟨2 ^ 12 * (x / 2 ^ 12), 12⟩, Or.inl ((shape _).mpr ⟨x / 2 ^ 12 - q, by omega, ?_⟩), ?_⟩
    · rw [Nat.add_sub_cancel' low]
    · rw [Block.holds_iff_div (Nat.dvd_mul_right _ _)]
      simp
  · intro c member small
    rw [(mem_vacant_untouched.mp member).1] at small
    exact absurd small (Nat.lt_irrefl 12)

/-- The pages are in the list of the largest blocks, and the other lists are empty. -/
private theorem untouched_linked {b : Buddy} {n head : Nat}
    (lists : ∀ i, b.lists i = if i = 8 then head else 0)
    (chain : Chain b.heap 0 head (pages b.base n)) : Linked b (untouched b.base n) := by
  refine ⟨fun i _ => ?_, fun i _ => ?_, fun i _ j _ different a member => ?_⟩
  · rw [lists, untouched]
    by_cases top : i = 8
    · rw [if_pos top, if_pos top]
      exact chain
    · rw [if_neg top, if_neg top]
      exact chain_nil.mpr rfl
  · rw [untouched]
    by_cases top : i = 8
    · rw [if_pos top]
      exact pages_nodup b.base n
    · rw [if_neg top]
      exact List.nodup_nil
  · rw [untouched] at member ⊢
    by_cases top : i = 8
    · rw [if_neg fun isTop => different (top.trans isTop.symm)]
      exact List.not_mem_nil
    · rw [if_neg top] at member
      exact absurd member List.not_mem_nil

/-- The size of the bit trees does not wrap around. -/
theorem treeRegion_eq {n : Nat} (small : n < 2 ^ 31) :
    mul64 (ofInt (n : Int)) sizeofBitTree = 64 * n := by
  rw [ofInt_eq (by omega) (by omega), Int.toNat_natCast, show sizeofBitTree = 64 from rfl,
    mul64_eq (by omega), Nat.mul_comm]

/-- Where `buddy_startup` puts the bit trees: behind the padding of the header, the header
and their own padding. -/
def treesStart (base : Nat) : Nat :=
  let trees := base + padding base alignofBuddy + sizeofBuddy
  trees + padding trees alignofBitTree

/-- What `buddy_startup` computes in a region of any size, before the `int` arithmetic on the
number of pages is looked at. -/
structure Launched (base size : Nat) (heap : Heap) (b : Buddy) (n : Nat) : Prop where
  selfAligned : 8 ∣ b.self
  self : base ≤ b.self
  treesAligned : 4 ∣ b.trees
  trees : b.self + sizeofBuddy ≤ b.trees
  treesAt : b.trees = treesStart base
  treesInside : b.trees ≤ base + size
  counted : Counted b.trees (base + size - b.trees) n
  first : b.base = b.trees + 64 * n + padding (b.trees + 64 * n) maxBlockSize
  firstInside : b.base ≤ base + size
  numTrees : b.numTrees = n
  bytes : b.size = ofInt (int32 ((n : Int) * 2 ^ maxBlockLog2))
  bits : ∀ i j, b.bits i j = 0
  lists : ∀ i, b.lists i = if i = 8 then (linkPages b.base heap n).2.1 else 0
  heap : b.heap = (linkPages b.base heap n).1

/-- `buddy_startup` returns: `NULL` when the header or the first page does not fit. -/
theorem startup_cases {base size : Nat} (heap : Heap)
    (given : (base ≠ 0 ∧ size ≠ 0) ∨ (base = 0 ∧ size = 0)) (bounded : size < 2 ^ 64) :
    (startup base size heap = some none ∧
      (base + size < treesStart base ∨ ¬ Counts (treesStart base) (base + size - treesStart base) 1)) ∨
    ∃ b n, startup base size heap = some (some b) ∧ Launched base size heap b n := by
  have header : sizeofBuddy = 104 := rfl
  have firstAligned : 2 ^ 3 ∣ base + padding base alignofBuddy := padding_aligns base (by decide)
  obtain ⟨first, firstIs⟩ : ∃ first, padding base alignofBuddy = first := ⟨_, rfl⟩
  rw [firstIs] at firstAligned
  have secondAligned : 2 ^ 2 ∣ base + first + 104 + padding (base + first + 104) alignofBitTree :=
    padding_aligns (base + first + 104) (by decide)
  obtain ⟨second, secondIs⟩ : ∃ second, padding (base + first + 104) alignofBitTree = second :=
    ⟨_, rfl⟩
  rw [secondIs] at secondAligned
  have start : treesStart base = base + first + 104 + second := by
    rw [treesStart, firstIs, header, secondIs]
  rw [start, startup, if_pos given]
  simp only [header, firstIs, secondIs]
  by_cases tiny : size < first
  · rw [if_pos tiny]
    exact Or.inl ⟨rfl, Or.inl (by omega)⟩
  rw [if_neg tiny]
  by_cases short : size - first < 104
  · rw [if_pos short]
    exact Or.inl ⟨rfl, Or.inl (by omega)⟩
  rw [if_neg short]
  by_cases none : size - first - 104 < second
  · rw [if_pos none]
    exact Or.inl ⟨rfl, Or.inl (by omega)⟩
  rw [if_neg none]
  have rest : size - first - 104 - second = base + size - (base + first + 104 + second) := by omega
  rw [rest]
  generalize treesAt : base + first + 104 + second = trees at *
  have inside : trees ≤ base + size := by omega
  generalize roomIs : base + size - trees = room at *
  obtain ⟨n, loop, counted⟩ := countTrees_spec trees (show room < 2 ^ 64 by omega)
    (room / maxBlockSize + 1) (k := 0) (fun j positive le => absurd positive (by omega))
    (Nat.lt_succ_self _)
  rw [Nat.cast_zero] at loop
  simp only [loop, treeRegion_eq counted.lt]
  by_cases unaligned : padding (trees + 64 * n) maxBlockSize > room - 64 * n
  · rw [if_pos unaligned]
    refine Or.inl ⟨rfl, Or.inr fun one => ?_⟩
    rcases counted.last with rfl | counts
    · exact counted.ends one
    · have fits := counts.1
      omega
  · rw [if_neg unaligned]
    refine Or.inr ⟨_, n, rfl, ?_⟩
    have fits : 64 * n ≤ room := by
      rcases counted.last with rfl | counts
      · exact Nat.zero_le _
      · have fits := counts.1
        omega
    refine ⟨firstAligned, Nat.le_add_right _ _, secondAligned, ?_, start.symm, inside, ?_, rfl, ?_, rfl,
      by simp only, fun _ _ => rfl, fun i => rfl, rfl⟩
    · show base + first + 104 ≤ trees
      omega
    · show Counted trees (base + size - trees) n
      rw [roomIs]
      exact counted
    · show trees + 64 * n + padding (trees + 64 * n) maxBlockSize ≤ base + size
      omega

/-- A pool that was returned is the one that was computed. -/
theorem launched_of_startup {base size : Nat} {heap : Heap} {b : Buddy} (bounded : size < 2 ^ 64)
    (started : startup base size heap = some (some b)) : ∃ n, Launched base size heap b n := by
  have given : (base ≠ 0 ∧ size ≠ 0) ∨ (base = 0 ∧ size = 0) := by
    by_contra refused
    rw [startup, if_neg refused] at started
    cases started
  rcases startup_cases heap given bounded with ⟨null, -⟩ | ⟨other, n, returned, launched⟩
  · rw [null] at started
    cases started
  · rw [returned] at started
    cases started
    exact ⟨n, launched⟩

/-- How `buddy_startup` divides its region: the header, `n` bit trees and the pages that belong
to them, which are linked in order. -/
structure Laid (base size : Nat) (b : Buddy) (n head : Nat) : Prop where
  selfAligned : 8 ∣ b.self
  self : base ≤ b.self
  treesAligned : 4 ∣ b.trees
  trees : b.self + sizeofBuddy ≤ b.trees
  treesInside : b.trees ≤ base + size
  first : b.base = b.trees + 64 * n + padding (b.trees + 64 * n) maxBlockSize
  pagesInside : b.base + n * 2 ^ 12 ≤ base + size
  numTrees : b.numTrees = n
  bytes : b.size = n * 2 ^ 12
  fits : Fits b.trees (base + size - b.trees) n
  full : ¬ Fits b.trees (base + size - b.trees) (n + 1)
  bits : ∀ i j, b.bits i j = 0
  lists : ∀ i, b.lists i = if i = 8 then head else 0
  chain : Chain b.heap 0 head (pages b.base n)

/-- With fewer than `2 ^ 19` pages the `int` arithmetic on them is exact, and the pages are
linked in order. -/
theorem Launched.pages_exact {base size n : Nat} {heap : Heap} {b : Buddy}
    (launched : Launched base size heap b n) (few : n < 2 ^ 19)
    (inside : b.base + n * 2 ^ 12 ≤ 2 ^ 64) :
    b.size = n * 2 ^ 12 ∧ Chain b.heap 0 (linkPages b.base heap n).2.1 (pages b.base n) := by
  have positive : 0 < b.base := by
    have first := launched.first
    have behind := launched.trees
    have header : sizeofBuddy = 104 := rfl
    omega
  obtain ⟨heap', head, tail, linked, chain, -⟩ := linkPages_spec heap positive few inside
  constructor
  · rw [launched.bytes, int32_eq (by simp only [maxBlockLog2]; omega)
      (by simp only [maxBlockLog2]; omega), ofInt_eq (by positivity)
      (by simp only [maxBlockLog2]; omega)]
    simp only [maxBlockLog2]
    omega
  · rw [launched.heap, linked]
    exact chain

theorem startup_laid {base size : Nat} {heap : Heap} {b : Buddy} (region : Region base size)
    (started : startup base size heap = some (some b)) : ∃ n head, Laid base size b n head := by
  have fits := region.fits
  have small := region.small
  obtain ⟨n, launched⟩ := launched_of_startup (by omega) started
  have first := launched.first
  have self := launched.self
  have behind := launched.trees
  have treesInside := launched.treesInside
  have firstInside := launched.firstInside
  obtain ⟨pagesFit, full⟩ := launched.counted.fits (by omega)
  have pagesInside : b.base + n * 2 ^ 12 ≤ base + size := by
    rcases pagesFit with zero | pagesFit
    · subst zero
      omega
    · omega
  have few : n < 2 ^ 19 := by omega
  obtain ⟨bytes, chain⟩ := launched.pages_exact few (Nat.le_trans pagesInside fits)
  exact ⟨n, _, launched.selfAligned, launched.self, launched.treesAligned, launched.trees,
    treesInside, first, pagesInside, launched.numTrees, bytes, pagesFit, full, launched.bits,
    launched.lists, chain⟩

/-- A pool that `buddy_startup` accepted is tiled by whole vacant pages, inside
the region, and all its bits are clear. -/
theorem startup_spec {base size : Nat} {heap : Heap} {b : Buddy} (region : Region base size)
    (started : startup base size heap = some (some b)) :
    Working b (untouched b.base b.numTrees.toNat) ∅ ∧ (∀ i j, b.bits i j = 0) ∧
      base < b.base ∧ b.base + b.numTrees.toNat * 2 ^ 12 ≤ base + size := by
  obtain ⟨n, head, laid⟩ := startup_laid region started
  have count : b.numTrees.toNat = n := by rw [laid.numTrees, Int.toNat_natCast]
  have pages := laid.first
  have trees := laid.trees
  have self := laid.self
  have header : sizeofBuddy = 104 := rfl
  have aligned : 2 ^ 12 ∣ b.base := by
    rw [laid.first]
    exact padding_aligns (b.trees + 64 * n) (by decide)
  have placed : Placed b := ⟨aligned, by omega, by rw [laid.numTrees]; omega⟩
  refine ⟨⟨placed, ?_, untouched_tiling placed⟩, laid.bits, by omega, count ▸ laid.pagesInside⟩
  rw [count]
  exact untouched_linked laid.lists laid.chain

/-! ### The layout -/

/-- `n` bit trees from an address on, followed by as many pages, end before a limit. -/
def RoomFor (trees limit n : Nat) : Prop :=
  ∃ page, maxBlockSize ∣ page ∧ trees + sizeofBitTree * n ≤ page ∧ page + n * maxBlockSize ≤ limit

theorem roomFor_iff_fits {trees limit n : Nat} (inside : trees ≤ limit) (positive : 0 < n) :
    RoomFor trees limit n ↔ Fits trees (limit - trees) n := by
  have tree : sizeofBitTree = 64 := rfl
  have page : maxBlockSize = 4096 := rfl
  have padded := padding_eq (trees + 64 * n) (show 12 ≤ 64 by decide)
  rw [RoomFor, Fits, or_iff_right (by omega), padded, tree, page]
  constructor
  · rintro ⟨start, ⟨q, rfl⟩, behind, ends⟩
    omega
  · intro fits
    refine ⟨trees + 64 * n + (4096 - (trees + 64 * n) % 4096) % 4096, ?_, by omega, by omega⟩
    omega

/-- The header, the bit trees and the pages are aligned, inside the region and behind one another;
there are as many pages as there is room for; and the list of the largest blocks has them in
order. -/
structure WellLaid (base size : Nat) (b : Buddy) : Prop where
  aligned : alignofBuddy ∣ b.self ∧ alignofBitTree ∣ b.trees ∧ maxBlockSize ∣ b.base
  header : base ≤ b.self ∧ b.self + sizeofBuddy ≤ b.trees
  trees : b.trees + sizeofBitTree * b.numTrees.toNat ≤ b.base
  pages : b.base + b.numTrees.toNat * maxBlockSize ≤ base + size
  counted : 0 ≤ b.numTrees ∧ b.size = b.numTrees.toNat * maxBlockSize
  largest : ∀ n, RoomFor b.trees (base + size) n ↔ n ≤ b.numTrees.toNat
  linked : Chain b.heap 0 (b.lists (numLists - 1))
    ((List.range b.numTrees.toNat).map fun i => b.base + i * maxBlockSize)
  others : ∀ i < numLists - 1, b.lists i = 0

/-- Every pool that `buddy_startup` returns is laid out like that. -/
theorem startup_layout {base size : Nat} {heap : Heap} {b : Buddy} (region : Region base size)
    (started : startup base size heap = some (some b)) : WellLaid base size b := by
  obtain ⟨n, head, laid⟩ := startup_laid region started
  have count : b.numTrees.toNat = n := by rw [laid.numTrees, Int.toNat_natCast]
  have aligned : 2 ^ 12 ∣ b.base := by
    rw [laid.first]
    exact padding_aligns (b.trees + 64 * n) (by decide)
  have pages := laid.first
  have inside := laid.pagesInside
  refine ⟨⟨laid.selfAligned, laid.treesAligned, aligned⟩, ⟨laid.self, laid.trees⟩, ?_, ?_, ⟨?_, ?_⟩, ?_,
    ?_, ?_⟩
  · rw [count, show sizeofBitTree = 64 from rfl]
    omega
  · rw [count]
    exact inside
  · rw [laid.numTrees]
    omega
  · rw [count]
    exact laid.bytes
  · intro m
    rw [count]
    by_cases zero : m = 0
    · subst zero
      refine iff_of_true ⟨b.base, aligned, ?_, ?_⟩ (Nat.zero_le n)
      · rw [Nat.mul_zero]
        omega
      · rw [Nat.zero_mul]
        omega
    · rw [roomFor_iff_fits laid.treesInside (by omega)]
      constructor
      · intro fits
        by_contra more
        exact laid.full (fits.mono (by omega))
      · exact laid.fits.mono
  · rw [count, laid.lists]
    exact laid.chain
  · intro i below
    have small : i < 8 := below
    rw [laid.lists, if_neg (by omega)]

/-- A region of sixteen kilobytes, in which three pages fit behind their bit trees. -/
theorem startup_layout_applies : ∃ b, startup 4096 16384 (fun _ => ⟨0, 0⟩) = some (some b) ∧
    b.self = 4096 ∧ b.trees = 4200 ∧ b.base = 8192 ∧ b.numTrees = 3 ∧ WellLaid 4096 16384 b := by
  have run : ((startup 4096 16384 (fun _ => ⟨0, 0⟩)).bind fun started => started.map fun b =>
      (b.self, b.trees, b.base, b.numTrees)) = some (4096, 4200, 8192, 3) := by decide
  obtain ⟨_, started, withStart⟩ := Option.bind_eq_some_iff.mp run
  obtain ⟨b, rfl, fields⟩ := Option.map_eq_some_iff.mp withStart
  simp only [Prod.mk.injEq] at fields
  obtain ⟨self, trees, pages, count⟩ := fields
  exact ⟨b, started, self, trees, pages, count, startup_layout ⟨by decide, by decide⟩ started⟩

end Mysnips.BuddyAlloc

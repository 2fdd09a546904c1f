import Mysnips.BuddyAllocStartup

/-! Pools of any size. `buddy_startup` counts its pages in an `int` and shifts the
count, and every page index, by twelve bits: from `2 ^ 19` pages on the shifts leave
the range of an `int`. Whether a region gets that many pages is decided by how many
fit behind one bit tree and behind `2 ^ 19` of them. -/
namespace Mysnips.BuddyAlloc
open Machine LinkedList

/-- The pages that fit before a limit, behind `k` bit trees. -/
def blocksBehind (trees limit k : Nat) : Nat := limit / 2 ^ 12 - (trees + 64 * k + 4095) / 2 ^ 12

/-- The `int` counts of the pages behind one bit tree and behind `2 ^ 19` bit trees are large
enough for `2 ^ 19` pages. -/
def Overgrown (trees limit : Nat) : Prop :=
  0 < int32 (blocksBehind trees limit 1) ∧ 2 ^ 19 ≤ int32 (blocksBehind trees limit (2 ^ 19))

/-- The region ends with the address space, and its last page does so too. -/
def ReachesTop (trees limit : Nat) : Prop :=
  limit = 2 ^ 64 ∧ ∃ k, 0 < k ∧ k < 2 ^ 19 ∧ blocksBehind trees limit k = k

/-- The size is that of the pages, the pages are where their indices say, linked in order
inside the region, and `buddy_owned` accepts their bytes. -/
structure PagesExact (base size : Nat) (b : Buddy) : Prop where
  bytes : (b.size : Int) = b.numTrees * maxBlockSize
  pointers : ∀ i : Nat, (i : Int) < b.numTrees → pageIndexToPtr b.base i = b.base + i * maxBlockSize
  linked : Chain b.heap 0 (b.lists (numLists - 1))
    ((List.range b.numTrees.toNat).map fun i => b.base + i * maxBlockSize)
  inside : base ≤ b.base ∧ b.base + b.numTrees.toNat * maxBlockSize ≤ base + size
  owned : ∀ ptr < 2 ^ 64, owned b ptr = true ↔
    b.base ≤ ptr ∧ ptr < b.base + b.numTrees.toNat * maxBlockSize

/-! ### The count of the pages -/

section Counting

variable {trees room k n : Nat}

theorem counts_iff (positive : 0 < k) :
    Counts trees room k ↔ (k : Int) ≤ int32 (blocksBehind trees (trees + room) k) := by
  have padded := padding_eq (trees + 64 * k) (show 12 ≤ 64 by decide)
  have blocks : 64 * k + padding (trees + 64 * k) maxBlockSize ≤ room →
      (room - 64 * k - padding (trees + 64 * k) maxBlockSize) / 2 ^ 12 =
        blocksBehind trees (trees + room) k := by
    rw [maxBlockSize, padded, blocksBehind]
    omega
  constructor
  · rintro ⟨inside, count⟩
    rwa [blocks inside] at count
  · intro count
    have inside : 64 * k + padding (trees + 64 * k) maxBlockSize ≤ room := by
      by_contra outside
      have none : blocksBehind trees (trees + room) k = 0 := by
        rw [maxBlockSize, padded] at outside
        rw [blocksBehind]
        omega
      rw [none, int32_natCast (by decide)] at count
      omega
    exact ⟨inside, by rwa [blocks inside]⟩

/-- More bit trees leave fewer pages, by one for each page of bit trees. -/
theorem blocksBehind_mono (trees limit : Nat) {j : Nat} (le : j ≤ k) :
    blocksBehind trees limit k ≤ blocksBehind trees limit j ∧
      blocksBehind trees limit j ≤ blocksBehind trees limit k + (k - j) / 64 + 1 := by
  rw [blocksBehind, blocksBehind]
  omega

/-- The loop counts `2 ^ 19` pages when its test succeeds for the first and for the last one
of them. -/
theorem counted_large_iff (counted : Counted trees room n) :
    2 ^ 19 ≤ n ↔ Overgrown trees (trees + room) := by
  constructor
  · intro large
    have one := (counts_iff Nat.one_pos).mp (counted.counts 1 Nat.one_pos (by omega))
    have many := (counts_iff (by decide)).mp (counted.counts (2 ^ 19) (by decide) large)
    exact ⟨by omega, by omega⟩
  · rintro ⟨one, many⟩
    by_contra small
    have fails := counted.ends
    rw [counts_iff (k := n + 1) (Nat.succ_pos n)] at fails
    -- the counts lie close together, so that none is folded unless all are
    obtain ⟨least, -⟩ := blocksBehind_mono trees (trees + room)
      (show n + 1 ≤ 2 ^ 19 by omega)
    obtain ⟨most, -⟩ := blocksBehind_mono trees (trees + room)
      (show 1 ≤ n + 1 by omega)
    obtain ⟨-, close⟩ := blocksBehind_mono trees (trees + room)
      (show 1 ≤ 2 ^ 19 by decide)
    obtain ⟨_, firstFolded, _, firstBelow⟩ := int32_folds (blocksBehind trees (trees + room) 1)
    obtain ⟨_, nextFolded, _, _⟩ := int32_folds (blocksBehind trees (trees + room) (n + 1))
    obtain ⟨_, lastFolded, _, _⟩ := int32_folds (blocksBehind trees (trees + room) (2 ^ 19))
    omega

/-- Fewer pages end with the region when their number is the number of pages behind their bit
trees. -/
theorem counted_eq_iff (counted : Counted trees room n) (few : n < 2 ^ 19) (positive : 0 < k)
    (small : k < 2 ^ 19) (behind : blocksBehind trees (trees + room) k = k) : n = k := by
  have fails := counted.ends
  rw [counts_iff (k := n + 1) (Nat.succ_pos n)] at fails
  rcases Nat.lt_trichotomy n k with less | same | more
  · obtain ⟨least, close⟩ := blocksBehind_mono trees (trees + room)
      (show n + 1 ≤ k by omega)
    rw [int32_natCast (by omega)] at fails
    omega
  · exact same
  · have last := (counts_iff (by omega)).mp (counted.counts n (by omega) (Nat.le_refl n))
    have folded := int32_le (blocksBehind trees (trees + room) n)
    have fewer := (blocksBehind_mono trees (trees + room)
      (Nat.le_of_lt more)).1
    omega

end Counting

/-! ### The pages of a pool -/

section Pages

variable {base size n : Nat} {heap : Heap} {b : Buddy}

/-- The pages of a pool lie in its region. -/
theorem Launched.pagesInside (launched : Launched base size heap b n) :
    b.base + n * 2 ^ 12 ≤ base + size := by
  have first := launched.first
  have treesInside := launched.treesInside
  rcases launched.counted.last with rfl | ⟨inside, count⟩
  · have firstInside := launched.firstInside
    omega
  · have folded := int32_le
      ((base + size - b.trees - 64 * n - padding (b.trees + 64 * n) maxBlockSize) / 2 ^ 12)
    generalize padding (b.trees + 64 * n) maxBlockSize = pad at *
    have blocks : n ≤ (base + size - b.trees - 64 * n - pad) / 2 ^ 12 := by omega
    rw [Nat.le_div_iff_mul_le (Nat.two_pow_pos _)] at blocks
    omega

/-- From `2 ^ 19` pages on the size is not that of the pages. -/
theorem Launched.bytes_large (launched : Launched base size heap b n) (large : 2 ^ 19 ≤ n) :
    (b.size : Int) ≠ b.numTrees * maxBlockSize := by
  have below := launched.counted.lt
  obtain ⟨m, folded, low, high⟩ := int32_folds ((n : Int) * 2 ^ maxBlockLog2)
  rw [launched.bytes, launched.numTrees, ofInt, show ((maxBlockSize : Nat) : Int) = 2 ^ 12 from rfl]
  generalize int32 ((n : Int) * 2 ^ maxBlockLog2) = bytes at *
  simp only [maxBlockLog2] at folded
  omega

/-- Below, `page_index_to_ptr` gives the address of a page. -/
theorem Launched.pointers (launched : Launched base size heap b n) (wraps : base + size ≤ 2 ^ 64)
    (few : n < 2 ^ 19) {i : Nat} (below : i < n) :
    pageIndexToPtr b.base i = b.base + i * maxBlockSize := by
  have inside := launched.pagesInside
  rw [pageIndexToPtr, int32_eq (by simp only [maxBlockLog2]; omega)
    (by simp only [maxBlockLog2]; omega), ofInt_eq (by simp only [maxBlockLog2]; omega)
    (by simp only [maxBlockLog2]; omega), add64_eq (by simp only [maxBlockLog2]; omega)]
  simp only [maxBlockSize, maxBlockLog2]
  omega

/-- The pages end with the address space when their region does and leaves no room behind
them. -/
theorem Launched.reachesTop_iff (launched : Launched base size heap b n)
    (wraps : base + size ≤ 2 ^ 64) (few : n < 2 ^ 19) :
    0 < n ∧ b.base + n * 2 ^ 12 = 2 ^ 64 ↔ ReachesTop (treesStart base) (base + size) := by
  have inside := launched.pagesInside
  have treesInside := launched.treesInside
  have first := launched.first
  have padded := padding_eq (b.trees + 64 * n) (show 12 ≤ 64 by decide)
  have counted := launched.counted
  rw [← maxBlockLog2, ← maxBlockSize] at padded
  rw [← launched.treesAt]
  have limit : b.trees + (base + size - b.trees) = base + size := Nat.add_sub_cancel' treesInside
  constructor
  · rintro ⟨positive, top⟩
    refine ⟨by omega, n, positive, few, ?_⟩
    rw [blocksBehind]
    simp only [maxBlockSize, maxBlockLog2] at padded first
    omega
  · rintro ⟨top, k, positive, small, behind⟩
    rw [← limit] at behind
    obtain rfl := counted_eq_iff counted few positive small behind
    rw [limit, blocksBehind] at behind
    simp only [maxBlockSize, maxBlockLog2] at padded first
    omega

end Pages

/-- `buddy_startup` returns in every region, and its pages are exact unless it counts
`2 ^ 19` of them or they end with the address space. -/
theorem large_pools_exact_iff {base size : Nat} (heap : Heap)
    (given : (base ≠ 0 ∧ size ≠ 0) ∨ (base = 0 ∧ size = 0)) (wraps : base + size ≤ 2 ^ 64) :
    ∃ started, startup base size heap = some started ∧ ∀ b, started = some b →
      (PagesExact base size b ↔ ¬ Overgrown (treesStart base) (base + size) ∧
        ¬ ReachesTop (treesStart base) (base + size)) := by
  have bounded : size < 2 ^ 64 := by omega
  rcases startup_cases heap given bounded with ⟨null, -⟩ | ⟨b, n, returned, launched⟩
  · exact ⟨none, null, by simp⟩
  refine ⟨some b, returned, ?_⟩
  rintro _ ⟨⟩
  have treesInside := launched.treesInside
  have inside := launched.pagesInside
  have limit : b.trees + (base + size - b.trees) = base + size := Nat.add_sub_cancel' treesInside
  have overgrown := counted_large_iff launched.counted
  rw [limit, launched.treesAt] at overgrown
  have count : b.numTrees.toNat = n := by rw [launched.numTrees, Int.toNat_natCast]
  by_cases large : 2 ^ 19 ≤ n
  · refine iff_of_false (fun pagesExact => ?_) (fun fine => fine.1 (overgrown.mp large))
    exact launched.bytes_large large pagesExact.bytes
  have few := Nat.lt_of_not_le large
  have top := launched.reachesTop_iff wraps few
  obtain ⟨bytes, chain⟩ := launched.pages_exact few (Nat.le_trans inside wraps)
  rw [← overgrown, ← top]
  have owns : ∀ ptr < 2 ^ 64, owned b ptr = true ↔
      b.base ≤ ptr ∧ ptr < (b.base + n * 2 ^ 12) % 2 ^ 64 := by
    intro ptr bound
    rw [owned, add64, bytes, Bool.and_eq_true, decide_eq_true_eq, decide_eq_true_eq]
  constructor
  · intro pagesExact
    refine ⟨large, ?_⟩
    rintro ⟨positive, ends⟩
    have page := (pagesExact.owned b.base (by omega)).mpr (by
      rw [count, maxBlockSize, maxBlockLog2]
      omega)
    rw [owns b.base (by omega), ends] at page
    omega
  · rintro ⟨-, below⟩
    refine ⟨?_, ?_, ?_, ⟨?_, ?_⟩, ?_⟩
    · rw [bytes, launched.numTrees]
      push_cast
      rfl
    · intro i less
      rw [launched.numTrees] at less
      exact launched.pointers wraps few (by omega)
    · rw [count, launched.lists]
      exact chain
    · have first := launched.first
      have self := launched.self
      have behind := launched.trees
      omega
    · rw [count]
      exact inside
    · intro ptr bound
      rw [owns ptr bound, count, maxBlockSize, maxBlockLog2]
      omega

/-- Three pages are exact. -/
theorem small_pool_exact :
    ∃ b, startup 4096 16384 (fun _ => ⟨0, 0⟩) = some (some b) ∧ PagesExact 4096 16384 b := by
  obtain ⟨started, returned, pagesExact⟩ :=
    large_pools_exact_iff (fun _ => ⟨0, 0⟩) (Or.inl ⟨by decide, by decide⟩)
      (show 4096 + 16384 ≤ 2 ^ 64 by decide)
  have run : ((startup 4096 16384 (fun _ => ⟨0, 0⟩)).bind fun started =>
      started.map fun b => b.numTrees) = some 3 := by decide
  rw [returned, Option.bind_some, Option.map_eq_some_iff] at run
  obtain ⟨b, rfl, -⟩ := run
  refine ⟨b, returned, (pagesExact b rfl).mpr ⟨?_, ?_⟩⟩
  · rintro ⟨-, many⟩
    exact absurd many (by decide)
  · rintro ⟨top, -⟩
    exact absurd top (by decide)

/-- In a region of four gigabytes at least `2 ^ 19` pages are counted, and the size of the pool
is not theirs. -/
theorem large_pool_overflows : ∃ b, startup 4096 (2 ^ 32) (fun _ => ⟨0, 0⟩) = some (some b) ∧
    2 ^ 19 ≤ b.numTrees ∧ (b.size : Int) ≠ b.numTrees * maxBlockSize := by
  have start : treesStart 4096 = 4200 := by decide
  have grown : Overgrown 4200 (4096 + 2 ^ 32) := ⟨by decide, by decide⟩
  have given : ((4096 : Nat) ≠ 0 ∧ 2 ^ 32 ≠ 0) ∨ ((4096 : Nat) = 0 ∧ 2 ^ 32 = 0) := by decide
  have bounded : 2 ^ 32 < 2 ^ 64 := by decide
  rcases startup_cases (fun _ => ⟨0, 0⟩) given bounded with
    ⟨-, short | none⟩ | ⟨b, n, returned, launched⟩
  · rw [start] at short
    exact absurd short (by decide)
  · rw [start, counts_iff Nat.one_pos] at none
    exact absurd grown.1 none
  · have large : 2 ^ 19 ≤ n := by
      rw [counted_large_iff launched.counted, launched.treesAt, start]
      exact grown
    refine ⟨b, returned, ?_, launched.bytes_large large⟩
    rw [launched.numTrees]
    omega

end Mysnips.BuddyAlloc

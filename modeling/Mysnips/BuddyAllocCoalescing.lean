import Mysnips.BuddyAllocSessions

/-! Coalescing. No list stores which halves could be merged: the merge decision
is read off the bit trees. Still the free lists depend only on the live blocks,
whatever the order of the calls that led there, because a tiling in which no two
vacant halves are left apart is determined by its taken blocks. -/
namespace Mysnips.BuddyAlloc
open LinkedList DyadicTiling Transition

/-- A size-aligned block of the pool, no larger than a page, that contains no byte
of a live block. -/
structure Session.Clear (s : Session) (ptr k : Nat) : Prop where
  small : k ≤ maxBlockLog2
  aligned : 2 ^ k ∣ ptr
  first : s.buddy.base ≤ ptr
  last : ptr + 2 ^ k ≤ poolEnd s.buddy
  untouched : ∀ blk ∈ s.live, ptr + 2 ^ k ≤ blk.1 ∨ blk.1 + blk.2 ≤ ptr

/-- A clear block that lies in no other clear block. -/
def Session.MaximalClear (s : Session) (ptr k : Nat) : Prop :=
  s.Clear ptr k ∧ ∀ ptr' k', s.Clear ptr' k' → ptr' ≤ ptr → ptr + 2 ^ k ≤ ptr' + 2 ^ k' →
    ptr' = ptr ∧ k' = k

variable {pool : Buddy} {s t : Session} {chain : Nat → List Nat}

/-- A clear block lies inside a linked one. -/
theorem clear_inside_vacant (valid : s.Valid pool chain) {ptr k : Nat}
    (clear : s.Clear ptr k) :
    ∃ c ∈ vacant chain, c.start ≤ ptr ∧ ptr + 2 ^ k ≤ c.start + 2 ^ c.level := by
  have tiling := valid.working.tiling
  have placed := valid.working.placed
  have positive : 0 < 2 ^ k := Nat.two_pow_pos k
  have inBlock : (Block.mk ptr k).Holds (ptr + 2 ^ k - 1) := ⟨by simp only; omega, by simp only; omega⟩
  have untaken : Tiling.Untaken s.taken ⟨ptr, k⟩ := by
    intro c used x inside held
    have away := clear.untouched _ used
    simp only [Block.Holds] at inside held
    omega
  have bounds : ∀ c : Block, (∀ x, (Block.mk ptr k).Holds x → c.Holds x) →
      c.start ≤ ptr ∧ ptr + 2 ^ k ≤ c.start + 2 ^ c.level := by
    intro c around
    have low := (around ptr Block.holds_start).1
    have high := (around _ inBlock).2
    omega
  obtain ⟨c, member, held⟩ := tiling.covered ptr
    ((area_holds_iff placed).mpr ⟨clear.first, by have := clear.last; omega⟩)
  have free := member.resolve_right fun used => untaken c used ptr Block.holds_start held
  have admitted := tiling.admitted c member
  by_cases large : k ≤ c.level
  · refine ⟨c, free, bounds c fun x inside => ?_⟩
    exact Block.holds_of_shared (b := ⟨ptr, k⟩) clear.aligned admitted.aligned large
      Block.holds_start held inside
  · -- a block above the smallest size is one the tiling speaks about
    have low : 4 ≤ c.level := admitted.bottom
    have inArea : (area s.buddy).Admits ⟨ptr, k⟩ :=
      (admits_iff placed (show 4 ≤ k by omega) clear.small clear.aligned).mpr
        ⟨clear.first, clear.last⟩
    obtain ⟨d, dFree, _, around⟩ := tiling.vacant_cover inArea untaken
    exact ⟨d, dFree, bounds d around⟩

private theorem clear_of_vacant (valid : s.Valid pool chain) {c : Block} (free : c ∈ vacant chain) :
    s.Clear c.start c.level := by
  have tiling := valid.working.tiling
  have admitted := tiling.admitted c (Or.inl free)
  obtain ⟨first, last⟩ :=
    (admits_iff valid.working.placed admitted.bottom admitted.top admitted.aligned).mp admitted
  refine ⟨admitted.top, admitted.aligned, first, last, ?_⟩
  rintro ⟨ptr, size⟩ member
  obtain ⟨k, rfl⟩ := valid.sizes _ member
  have away := Tiling.untaken_of_vacant tiling free ⟨ptr, k⟩ member (max c.start ptr)
  have positive := Nat.two_pow_pos k
  have positive' := Nat.two_pow_pos c.level
  simp only [Block.Holds] at away
  by_contra overlap
  exact away ⟨by omega, by omega⟩ ⟨by omega, by omega⟩

/-- The linked blocks are the maximal clear ones. -/
theorem vacant_iff_maximalClear (valid : s.Valid pool chain) {ptr k : Nat} :
    s.MaximalClear ptr k ↔ (⟨ptr, k⟩ : Block) ∈ vacant chain := by
  have tiling := valid.working.tiling
  constructor
  · rintro ⟨clear, maximal⟩
    obtain ⟨c, free, low, high⟩ := clear_inside_vacant valid clear
    obtain ⟨start, level⟩ := maximal _ _ (clear_of_vacant valid free) low high
    rw [← start, ← level]
    exact free
  · intro free
    refine ⟨clear_of_vacant valid free, fun ptr' k' clear low high => ?_⟩
    obtain ⟨c, cFree, cLow, cHigh⟩ := clear_inside_vacant valid clear
    have positive := Nat.two_pow_pos k
    have same := tiling.unique ⟨ptr, k⟩ c ptr (Or.inl free) (Or.inl cFree) Block.holds_start
      ⟨by omega, by omega⟩
    subst same
    have start : ptr' = ptr := by
      simp only at cLow
      omega
    refine ⟨start, Nat.pow_right_injective (Nat.le_refl 2) (?_ : 2 ^ k' = 2 ^ k)⟩
    simp only at cHigh
    omega

theorem mem_chain_iff {i a : Nat} (bound : i < numLists) :
    a ∈ chain i ↔ (⟨a, i + 4⟩ : Block) ∈ vacant chain := by
  have small : i < 9 := bound
  constructor
  · exact fun member => ⟨by simp, by simp; omega, by simpa using member⟩
  · rintro ⟨_, _, member⟩
    simpa using member

/-- Equal areas are equal pools. -/
theorem pool_of_area {b b' : Buddy} (placed : Placed b) (placed' : Placed b')
    (same : area b = area b') : b.base = b'.base ∧ b.numTrees = b'.numTrees := by
  have page : b.base / 2 ^ 12 = b'.base / 2 ^ 12 := congrArg Area.page same
  have count : b.numTrees.toNat = b'.numTrees.toNat := congrArg Area.count same
  obtain ⟨q, base⟩ := placed.aligned
  obtain ⟨q', base'⟩ := placed'.aligned
  have := placed.trees
  have := placed'.trees
  omega

/-- A session without live blocks is back to the lists and bit trees of the
started pool. -/
private theorem empty_session (placed : Placed pool) (valid : s.Valid pool chain)
    (none : s.live = []) :
    (∀ i < numLists, ∀ a, a ∈ chain i ↔ a ∈ untouched pool.base pool.numTrees.toNat i) ∧
      ∀ i u, s.buddy.bits i u = 0 := by
  have taken : s.taken = ∅ := by
    ext blk
    simp [Session.taken, none]
  obtain ⟨base, count⟩ := pool_of_area valid.working.placed placed valid.area
  have tiling := valid.working.tiling
  rw [taken] at tiling
  have same := tiling.vacant_unique (untouched_tiling valid.working.placed)
  rw [base, count] at same
  refine ⟨fun i bound a => ?_, fun i u => ?_⟩
  · rw [mem_chain_iff bound, same, ← mem_chain_iff bound]
  · apply BitVec.eq_of_getLsbD_eq
    intro v inside
    have clear : marked s.buddy i (u * 32 + v) = false := by
      rw [← Bool.not_eq_true, valid.marks i, taken]
      simp
    rw [marked, show (u * 32 + v) / 32 = u by omega, show (u * 32 + v) % 32 = v by omega] at clear
    simpa using clear

/-- The free lists are determined by the live blocks: two sessions with the same
pool that end with the same live blocks have the same blocks in every free list,
namely the maximal clear ones. Without live blocks, all the pages are back in the
list of the largest blocks, the other lists are empty, and every bit is clear. -/
theorem coalescing_is_history_independent {base size : Nat} {heap : Heap}
    (region : Region base size) (started : startup base size heap = some (some pool))
    (reached : (sessions pool).Reachable s) (reached' : (sessions pool).Reachable t)
    (sameLive : ∀ blk, blk ∈ s.live ↔ blk ∈ t.live) :
    ∃ chain chain' : Nat → List Nat,
      (∀ i < numLists, Chain s.buddy.heap 0 (s.buddy.lists i) (chain i)) ∧
      (∀ i < numLists, Chain t.buddy.heap 0 (t.buddy.lists i) (chain' i)) ∧
      (∀ i < numLists, ∀ a, a ∈ chain i ↔ a ∈ chain' i) ∧
      (∀ ptr k, s.MaximalClear ptr k ↔ ∃ i < numLists, k = i + minBlockLog2 ∧ ptr ∈ chain i) ∧
      (s.live = [] →
        (∀ a, a ∈ chain (numLists - 1) ↔
          ∃ i < pool.numTrees.toNat, a = pool.base + i * maxBlockSize) ∧
        (∀ i < numLists - 1, s.buddy.lists i = 0) ∧ ∀ i u, s.buddy.bits i u = 0) := by
  obtain ⟨chain, valid⟩ := reachable_valid region started reached
  obtain ⟨chain', valid'⟩ := reachable_valid region started reached'
  have placed := (startup_spec region started).1.placed
  refine ⟨chain, chain', valid.working.linked.chains, valid'.working.linked.chains, ?_, ?_, ?_⟩
  · intro i bound a
    have taken : t.taken = s.taken := by
      ext blk
      exact (sameLive _).symm
    have tiling := valid'.working.tiling
    rw [taken, valid'.area, ← valid.area] at tiling
    rw [mem_chain_iff bound, mem_chain_iff bound, valid.working.tiling.vacant_unique tiling]
  · intro ptr k
    rw [vacant_iff_maximalClear valid]
    constructor
    · rintro ⟨low, high, member⟩
      have low : 4 ≤ k := low
      have high : k ≤ 12 := high
      exact ⟨k - 4, show k - 4 < 9 by omega, show k = k - 4 + 4 by omega, member⟩
    · rintro ⟨i, bound, rfl, member⟩
      exact (mem_chain_iff bound).mp member
  · intro none
    obtain ⟨lists, clear⟩ := empty_session placed valid none
    refine ⟨fun a => ?_, fun i bound => ?_, clear⟩
    · rw [lists _ (by decide), show untouched _ _ (numLists - 1) = _ from if_pos rfl, mem_pages]
    · have small : i < 8 := bound
      have inside : i < numLists := show i < 9 by omega
      rw [valid.working.linked.null_iff inside, List.eq_nil_iff_forall_not_mem]
      intro a member
      rw [lists i inside, untouched, if_neg (by omega)] at member
      exact List.not_mem_nil member

/-- Two orders of calls that both end with one live block. -/
theorem coalescing_is_history_independent_applies :
    ∃ pool s t, startup 4096 16384 (fun _ => ⟨0, 0⟩) = some (some pool) ∧
      (sessions pool).Reachable s ∧ (sessions pool).Reachable t ∧ s.live = [(8192, 16)] ∧
      t.live = [(8192, 16)] ∧
      ∃ chain chain' : Nat → List Nat,
        (∀ i < numLists, Chain s.buddy.heap 0 (s.buddy.lists i) (chain i)) ∧
        (∀ i < numLists, Chain t.buddy.heap 0 (t.buddy.lists i) (chain' i)) ∧
        ∀ i < numLists, ∀ a, a ∈ chain i ↔ a ∈ chain' i := by
  have run : ((startup 4096 16384 (fun _ => ⟨0, 0⟩)).bind fun started => started.bind fun pool =>
      ((sessions pool).replay ⟨pool, [], []⟩ [.malloc 10]).bind fun s =>
      ((sessions pool).replay ⟨pool, [], []⟩ [.malloc 16, .malloc 100, .free 16 8192, .malloc 12,
        .free 100 8320]).map fun t => (s.live, t.live)) =
          some ([(8192, 16)], [(8192, 16)]) := by decide
  obtain ⟨_, started, withStart⟩ := Option.bind_eq_some_iff.mp run
  obtain ⟨pool, rfl, withPool⟩ := Option.bind_eq_some_iff.mp withStart
  obtain ⟨s, first, withFirst⟩ := Option.bind_eq_some_iff.mp withPool
  obtain ⟨t, second, live⟩ := Option.map_eq_some_iff.mp withFirst
  rw [Prod.mk.injEq] at live
  have reached := (System.Reachable.start (M := sessions pool) rfl).replay _ first
  have reached' := (System.Reachable.start (M := sessions pool) rfl).replay _ second
  obtain ⟨chain, chain', linked, linked', same, _⟩ :=
    coalescing_is_history_independent ⟨by decide, by decide⟩ started reached reached'
      fun blk => by rw [live.1, live.2]
  exact ⟨pool, s, t, started, reached, reached', live.1, live.2, chain, chain', linked, linked', same⟩

end Mysnips.BuddyAlloc

import Mysnips.BuddyAllocStartup

/-! Sessions with a started pool: any sequence of `buddy_malloc` and `buddy_free`
calls, where the pairs given back are pairs that were handed out, interleaved
with arbitrary writes of the callers into the blocks they hold. The invariant of
the session is the tiling of the pool by live and linked blocks. -/
namespace Mysnips.BuddyAlloc
open LinkedList DyadicTiling Transition

/-- A pool in use: the blocks its callers hold, as address and normalized size,
and every pair of a pointer and a length that `buddy_malloc` was asked for. -/
structure Session where
  buddy : Buddy
  live : List (Nat × Nat)
  issued : List (Nat × Nat)

/-- What callers do to the pool: allocate, give back a pair handed out before, or
write a cell of a block they hold. -/
inductive Call where
  | malloc (len : Nat)
  | free (len ptr : Nat)
  | write (cell : Nat) (contents : Node)

/-- The cell lies inside a live block. -/
def Session.holds (s : Session) (cell : Nat) : Bool :=
  cell % minBlockSize = 0 && s.live.any fun blk => blk.1 ≤ cell && cell < blk.1 + blk.2

/-- One call. A call with a pair that was not handed out, and a write outside the
live blocks, are not offered. -/
def Session.perform (s : Session) : Call → Option Session
  | .malloc len => do
    let (buddy, ptr) ← malloc s.buddy len
    some { buddy, issued := (ptr, len) :: s.issued
           live := if ptr = 0 then s.live else (ptr, normalizeLen len) :: s.live }
  | .free len ptr =>
    if (ptr, len) ∈ s.issued then do
      let buddy ← free s.buddy len ptr
      some { s with buddy, live := s.live.erase (ptr, normalizeLen len) }
    else none
  | .write cell contents =>
    if s.holds cell then
      some { s with buddy :=
        { s.buddy with heap := Function.update s.buddy.heap cell contents } }
    else none

/-- The sessions with one started pool. -/
def sessions (pool : Buddy) : System Session Call where
  initial s := s = ⟨pool, [], []⟩
  next := Session.perform

/-- The live blocks of a session. -/
def Session.taken (s : Session) : Set Block := { blk | (blk.start, 2 ^ blk.level) ∈ s.live }

/-- The invariant of a session. -/
structure Session.Valid (pool : Buddy) (s : Session) (chain : Nat → List Nat) : Prop where
  working : Working s.buddy chain s.taken
  marks : Marks s.buddy s.taken
  area : area s.buddy = area pool
  distinct : s.live.Nodup
  sizes : ∀ blk ∈ s.live, ∃ k, blk.2 = 2 ^ k
  issued : ∀ pair ∈ s.issued, pair.1 = 0 ∨
    ∃ k, 0 < pair.2 ∧ pair.2 ≤ 2 ^ 12 ∧ normalizeLen pair.2 = 2 ^ k ∧
      (BuddyAlloc.area pool).Admits ⟨pair.1, k⟩

/-! ### Calls keep the invariant -/

variable {pool : Buddy} {s s' : Session} {chain : Nat → List Nat}

theorem taken_insert (blk : Block) {b : Buddy} {issued : List (Nat × Nat)} :
    Session.taken ⟨b, (blk.start, 2 ^ blk.level) :: s.live, issued⟩ = insert blk s.taken := by
  ext c
  obtain ⟨start, level⟩ := c
  obtain ⟨start', level'⟩ := blk
  simp only [Session.taken, Set.mem_ofPred_eq, List.mem_cons, Set.mem_insert_iff, Prod.mk.injEq,
    Block.mk.injEq]
  have level : 2 ^ level = 2 ^ level' ↔ level = level' := (Nat.pow_right_injective (Nat.le_refl 2)).eq_iff
  rw [level]

theorem taken_erase (blk : Block) {b : Buddy} {issued : List (Nat × Nat)}
    (distinct : s.live.Nodup) :
    Session.taken ⟨b, s.live.erase (blk.start, 2 ^ blk.level), issued⟩ = s.taken \ {blk} := by
  ext c
  obtain ⟨start, level⟩ := c
  obtain ⟨start', level'⟩ := blk
  simp only [Session.taken, Set.mem_ofPred_eq, distinct.mem_erase_iff, Set.mem_sdiff,
    Set.mem_singleton_iff, Block.mk.injEq, ne_eq, Prod.mk.injEq]
  have level : 2 ^ level = 2 ^ level' ↔ level = level' := (Nat.pow_right_injective (Nat.le_refl 2)).eq_iff
  rw [level, and_comm]

namespace Session.Valid

theorem start {base size : Nat} {heap : Heap} (region : Region base size)
    (started : startup base size heap = some (some pool)) :
    Valid pool ⟨pool, [], []⟩ (untouched pool.base pool.numTrees.toNat) := by
  obtain ⟨working, clear, _⟩ := startup_spec region started
  have none : Session.taken ⟨pool, [], []⟩ = ∅ := by
    ext blk
    simp [taken]
  refine ⟨none ▸ working, ?_, rfl, List.nodup_nil, by simp, by simp⟩
  intro i j
  rw [none]
  simp [marked, clear]

/-- A live block is a block of the pool. -/
theorem admitted (valid : Valid pool s chain) {ptr k : Nat} (held : (ptr, 2 ^ k) ∈ s.live) :
    (BuddyAlloc.area s.buddy).Admits ⟨ptr, k⟩ :=
  valid.working.tiling.admitted ⟨ptr, k⟩ (Or.inr held)

theorem malloc (valid : Valid pool s chain) (len : Nat) :
    ∃ s' chain', s.perform (.malloc len) = some s' ∧ Valid pool s' chain' := by
  rcases malloc_spec valid.working valid.marks len with
    ⟨refused, _⟩ | ⟨b', chain', blk, served, sameArea, positive, small, size, fresh, working, marks⟩
  · refine ⟨{ s with issued := (0, len) :: s.issued }, chain, by simp [perform, refused], ?_⟩
    refine ⟨valid.working, valid.marks, valid.area, valid.distinct, valid.sizes, ?_⟩
    rintro pair (_ | ⟨_, member⟩)
    · exact Or.inl rfl
    · exact valid.issued pair member
  · have admitted := working.tiling.admitted blk (Or.inr (Or.inl rfl))
    have nonnull := start_ne_null working.placed admitted
    refine ⟨⟨b', (blk.start, 2 ^ blk.level) :: s.live, (blk.start, len) :: s.issued⟩, chain', ?_, ?_⟩
    · simp [perform, served, nonnull, size]
    · refine ⟨taken_insert blk ▸ working, taken_insert blk ▸ marks, sameArea.trans valid.area,
        List.nodup_cons.mpr ⟨fresh, valid.distinct⟩, ?_, ?_⟩
      · rintro held (_ | ⟨_, member⟩)
        · exact ⟨blk.level, rfl⟩
        · exact valid.sizes held member
      · rintro pair (_ | ⟨_, member⟩)
        · exact Or.inr ⟨blk.level, positive, small, size, valid.area ▸ sameArea ▸ admitted⟩
        · exact valid.issued pair member

theorem free (valid : Valid pool s chain) {len ptr : Nat} (handed : (ptr, len) ∈ s.issued) :
    ∃ s' chain', s.perform (.free len ptr) = some s' ∧ Valid pool s' chain' := by
  rcases valid.issued _ handed with null | ⟨k, positive, small, size, admitted⟩
  · -- `NULL` is never live, so nothing changes
    obtain rfl : ptr = 0 := null
    have absent : (0, normalizeLen len) ∉ s.live := by
      intro member
      obtain ⟨k, size⟩ := valid.sizes _ member
      have size : normalizeLen len = 2 ^ k := size
      exact start_ne_null valid.working.placed (valid.admitted (size ▸ member)) rfl
    refine ⟨s, chain, ?_, valid⟩
    simp [perform, handed, BuddyAlloc.free, List.erase_of_not_mem absent]
  · rw [← valid.area] at admitted
    obtain ⟨b', chain', freed, sameArea, working, marks, _⟩ :=
      free_spec valid.working valid.marks positive small size admitted
    refine ⟨⟨b', s.live.erase (ptr, 2 ^ k), s.issued⟩, chain', ?_, ?_⟩
    · have freed : BuddyAlloc.free s.buddy len ptr = some b' := freed
      have size : normalizeLen len = 2 ^ k := size
      simp [perform, handed, freed, size]
    · have taken : Session.taken ⟨b', s.live.erase (ptr, 2 ^ k), s.issued⟩ = s.taken \ {⟨ptr, k⟩} :=
        taken_erase ⟨ptr, k⟩ valid.distinct
      refine ⟨taken ▸ working, taken ▸ marks, sameArea.trans valid.area,
        valid.distinct.erase _, ?_, valid.issued⟩
      exact fun held member => valid.sizes held (List.mem_of_mem_erase member)

/-- A caller writes only cells that no list runs through. -/
theorem write (valid : Valid pool s chain) {cell : Nat} {contents : Node}
    (moved : s.perform (.write cell contents) = some s') : Valid pool s' chain := by
  rw [perform] at moved
  by_cases inside : s.holds cell = true
  · rw [if_pos inside] at moved
    cases moved
    simp only [holds, Bool.and_eq_true, List.any_eq_true, decide_eq_true_eq] at inside
    obtain ⟨_, ⟨ptr, size⟩, member, low, high⟩ := inside
    obtain ⟨k, rfl⟩ := valid.sizes _ member
    have used : (⟨ptr, k⟩ : Block) ∈ s.taken := member
    have fresh := valid.working.fresh used ⟨low, high⟩
    have linked := valid.working.linked
    have placed := valid.working.placed
    refine ⟨⟨⟨placed.aligned, placed.positive, placed.trees⟩, ⟨fun i bound => ?_,
      linked.distinct, linked.apart⟩, valid.working.tiling⟩, valid.marks, valid.area,
      valid.distinct, valid.sizes, valid.issued⟩
    refine (linked.chains i bound).frame fun node listed => ?_
    have other : node ≠ cell := fun same => fresh i bound (same ▸ listed)
    exact Function.update_of_ne other _ _
  · simp [inside] at moved

theorem step (valid : Valid pool s chain) {call : Call} (moved : s.perform call = some s') :
    ∃ chain', Valid pool s' chain' := by
  cases call with
  | malloc len =>
    obtain ⟨s'', chain', performed, valid'⟩ := valid.malloc len
    obtain rfl := Option.some.inj (performed.symm.trans moved)
    exact ⟨chain', valid'⟩
  | free len ptr =>
    by_cases handed : (ptr, len) ∈ s.issued
    · obtain ⟨s'', chain', performed, valid'⟩ := valid.free handed
      obtain rfl := Option.some.inj (performed.symm.trans moved)
      exact ⟨chain', valid'⟩
    · simp [perform, handed] at moved
  | write cell contents => exact ⟨chain, valid.write moved⟩

end Session.Valid

/-- Every reachable session is valid. -/
theorem reachable_valid {base size : Nat} {heap : Heap} (region : Region base size)
    (started : startup base size heap = some (some pool))
    (reached : (sessions pool).Reachable s) : ∃ chain, s.Valid pool chain := by
  apply reached.invariant (P := fun s => ∃ chain, s.Valid pool chain)
  · rintro s rfl
    exact ⟨_, Session.Valid.start region started⟩
  · rintro s call s' _ ⟨chain, valid⟩ moved
    exact valid.step moved

/-! ### The tiling, in addresses and sizes -/

/-- Where the last page of the pool ends. -/
def poolEnd (b : Buddy) : Nat := b.base + b.numTrees.toNat * maxBlockSize

theorem area_holds_iff {b : Buddy} {x : Nat} (placed : Placed b) :
    (area b).Holds x ↔ b.base ≤ x ∧ x < poolEnd b := by
  obtain ⟨q, base⟩ := placed.aligned
  have page : b.base / 2 ^ 12 = q := by rw [base, Nat.mul_div_cancel_left _ (Nat.two_pow_pos _)]
  show b.base / 2 ^ 12 ≤ x / 2 ^ 12 ∧ x / 2 ^ 12 < b.base / 2 ^ 12 + b.numTrees.toNat ↔
    b.base ≤ x ∧ x < b.base + b.numTrees.toNat * 2 ^ 12
  rw [page, base]
  omega

theorem admits_iff {b : Buddy} {blk : Block} (placed : Placed b) (low : 4 ≤ blk.level)
    (high : blk.level ≤ 12) (aligned : 2 ^ blk.level ∣ blk.start) :
    (area b).Admits blk ↔ b.base ≤ blk.start ∧ blk.start + 2 ^ blk.level ≤ poolEnd b := by
  have positive : 0 < 2 ^ blk.level := Nat.two_pow_pos _
  constructor
  · intro admitted
    have first := (area_holds_iff placed).mp admitted.start
    have last := (area_holds_iff placed).mp (admitted.inside (x := blk.start + 2 ^ blk.level - 1)
      ⟨by omega, by omega⟩)
    omega
  · rintro ⟨first, last⟩
    exact ⟨aligned, low, high, (area_holds_iff placed).mpr ⟨first, by omega⟩⟩

/-- A block of the pool, as address and size: held by a caller, or linked in the
list of its size class. -/
def Session.Present (s : Session) (chain : Nat → List Nat) (blk : Nat × Nat) : Prop :=
  blk ∈ s.live ∨ ∃ i < numLists, blk.1 ∈ chain i ∧ blk.2 = 1 <<< (i + minBlockLog2)

/-- Live and linked blocks tile the pages of the pool. -/
structure Session.TilesPool (s : Session) (chain : Nat → List Nat) : Prop where
  linked : ∀ i < numLists, Chain s.buddy.heap 0 (s.buddy.lists i) (chain i)
  linkedOnce : ∀ i < numLists, (chain i).Nodup
  liveOnce : s.live.Nodup
  apart : ∀ blk ∈ s.live, ∀ i < numLists, blk.1 ∉ chain i
  aligned : ∀ blk, s.Present chain blk → blk.2 ∣ blk.1
  inside : ∀ blk, s.Present chain blk → s.buddy.base ≤ blk.1 ∧ blk.1 + blk.2 ≤ poolEnd s.buddy
  exactlyOne : ∀ x, s.buddy.base ≤ x → x < poolEnd s.buddy →
    ∃! blk, s.Present chain blk ∧ blk.1 ≤ x ∧ x < blk.1 + blk.2
  marked : ∀ ptr k, minBlockLog2 ≤ k → k ≤ maxBlockLog2 → 2 ^ k ∣ ptr → s.buddy.base ≤ ptr →
    ptr + 2 ^ k ≤ poolEnd s.buddy →
      isAllocated s.buddy ptr (2 ^ k) = some (decide ((ptr, 2 ^ k) ∈ s.live))

/-- The blocks of a session as blocks of its tiling. -/
theorem present_iff (valid : s.Valid pool chain) {ptr size : Nat} :
    s.Present chain (ptr, size) ↔
      ∃ k, size = 2 ^ k ∧ ((⟨ptr, k⟩ : Block) ∈ vacant chain ∨ (⟨ptr, k⟩ : Block) ∈ s.taken) := by
  constructor
  · rintro (member | ⟨i, bound, member, size⟩)
    · obtain ⟨k, rfl⟩ := valid.sizes _ member
      exact ⟨k, rfl, Or.inr member⟩
    · have small : i < 9 := bound
      rw [Nat.shiftLeft_eq, one_mul] at size
      refine ⟨i + 4, size, Or.inl ⟨by simp, by simp; omega, ?_⟩⟩
      simpa using member
  · rintro ⟨k, rfl, ⟨low, high, member⟩ | member⟩
    · have low : 4 ≤ k := low
      have high : k ≤ 12 := high
      refine Or.inr ⟨k - 4, show k - 4 < 9 by omega, member, ?_⟩
      rw [Nat.shiftLeft_eq, one_mul, show k - 4 + minBlockLog2 = k by rw [minBlockLog2]; omega]
    · exact Or.inl member

theorem valid_tilesPool (valid : s.Valid pool chain) : s.TilesPool chain := by
  have tiling := valid.working.tiling
  have placed := valid.working.placed
  have admitted : ∀ {ptr size}, s.Present chain (ptr, size) →
      ∃ k, size = 2 ^ k ∧ (area s.buddy).Admits ⟨ptr, k⟩ := fun present => by
    obtain ⟨k, size, member⟩ := (present_iff valid).mp present
    exact ⟨k, size, tiling.admitted _ member⟩
  refine ⟨valid.working.linked.chains, valid.working.linked.distinct, valid.distinct, ?_, ?_, ?_,
    ?_, ?_⟩
  · rintro ⟨ptr, size⟩ member i bound
    obtain ⟨k, rfl⟩ := valid.sizes _ member
    have used : (⟨ptr, k⟩ : Block) ∈ s.taken := member
    exact valid.working.fresh used Block.holds_start i bound
  · rintro ⟨ptr, size⟩ present
    obtain ⟨k, rfl, inArea⟩ := admitted present
    exact inArea.aligned
  · rintro ⟨ptr, size⟩ present
    obtain ⟨k, rfl, inArea⟩ := admitted present
    exact (admits_iff placed inArea.bottom inArea.top inArea.aligned).mp inArea
  · intro x low high
    obtain ⟨blk, member, held⟩ := tiling.covered x ((area_holds_iff placed).mpr ⟨low, high⟩)
    refine ⟨(blk.start, 2 ^ blk.level), ⟨(present_iff valid).mpr ⟨_, rfl, member⟩, held⟩, ?_⟩
    rintro ⟨ptr, size⟩ ⟨present, inside⟩
    obtain ⟨k, rfl, member'⟩ := (present_iff valid).mp present
    rw [← tiling.unique ⟨ptr, k⟩ blk x member' member inside held]
  · intro ptr k low high aligned first last
    have inArea : (area s.buddy).Admits ⟨ptr, k⟩ :=
      (admits_iff placed low high aligned).mpr ⟨first, last⟩
    obtain ⟨r, read, meaning⟩ := valid.marks.isAllocated placed
      (fun c used => tiling.admitted c (Or.inr used)) inArea
    have read : isAllocated s.buddy ptr (2 ^ k) = some r := read
    rw [read, Option.some.injEq, Bool.eq_iff_iff, meaning, decide_eq_true_eq]
    rfl

/-- A block that was added to the taken ones meets no live one. -/
theorem taken_apart (valid : s.Valid pool chain) {b : Buddy} {chain' : Nat → List Nat} {blk : Block}
    (fresh : blk ∉ s.taken) (working : Working b chain' (insert blk s.taken)) :
    ∀ other ∈ s.live, blk.start + 2 ^ blk.level ≤ other.1 ∨ other.1 + other.2 ≤ blk.start := by
  rintro ⟨ptr, length⟩ member
  obtain ⟨k, rfl⟩ := valid.sizes _ member
  have member : (⟨ptr, k⟩ : Block) ∈ s.taken := member
  by_contra overlap
  have positive := Nat.two_pow_pos k
  have positive' := Nat.two_pow_pos blk.level
  have same := working.tiling.unique blk ⟨ptr, k⟩ (max blk.start ptr) (Or.inr (Or.inl rfl))
    (Or.inr (Or.inr member)) ⟨by omega, by omega⟩ ⟨by simp only; omega, by simp only; omega⟩
  exact fresh (same ▸ member)

/-- The block served by `buddy_malloc` meets no live one. -/
theorem served_apart (valid : s.Valid pool chain) (len : Nat) :
    ∃ b ptr, malloc s.buddy len = some (b, ptr) ∧
      (ptr ≠ 0 → ∀ blk ∈ s.live, ptr + normalizeLen len ≤ blk.1 ∨ blk.1 + blk.2 ≤ ptr) := by
  rcases malloc_spec valid.working valid.marks len with
    ⟨refused, _⟩ | ⟨b', chain', blk, served, _, _, _, size, fresh, working, _⟩
  · exact ⟨_, _, refused, fun nonnull => absurd rfl nonnull⟩
  · refine ⟨b', blk.start, served, fun _ => ?_⟩
    rw [size]
    exact taken_apart valid fresh working

/-- In every reachable state of a session the live blocks and the blocks in the
free lists tile the pages of the pool exactly, each block being aligned to its
size and each free block linked once in the list of its size class, and the bit
trees mark the live blocks. Allocation and release never fault, and a block that
is served is disjoint from every live one. -/
theorem live_and_free_blocks_tile_the_pool {base size : Nat} {heap : Heap}
    (region : Region base size) (started : startup base size heap = some (some pool))
    (reached : (sessions pool).Reachable s) :
    (∃ chain, s.TilesPool chain) ∧
    (∀ len, ∃ b ptr, malloc s.buddy len = some (b, ptr) ∧
      (ptr ≠ 0 → ∀ blk ∈ s.live, ptr + normalizeLen len ≤ blk.1 ∨ blk.1 + blk.2 ≤ ptr)) ∧
    ∀ pair ∈ s.issued, ∃ b, free s.buddy pair.2 pair.1 = some b := by
  obtain ⟨chain, valid⟩ := reachable_valid region started reached
  refine ⟨⟨chain, valid_tilesPool valid⟩, served_apart valid, ?_⟩
  rintro ⟨ptr, len⟩ handed
  obtain ⟨s', _, performed, _⟩ := valid.free handed
  rw [Session.perform, if_pos handed, Option.bind_eq_bind, Option.bind_eq_some_iff] at performed
  obtain ⟨b, freed, _⟩ := performed
  exact ⟨b, freed⟩

/-- A pool of three pages with two blocks in use and one given back. -/
theorem live_and_free_blocks_tile_the_pool_applies :
    ∃ pool s, startup 4096 16384 (fun _ => ⟨0, 0⟩) = some (some pool) ∧
      s.live = [(8224, 32), (8192, 16)] ∧ (sessions pool).Reachable s ∧
      ∃ chain, s.TilesPool chain := by
  have run : ((startup 4096 16384 (fun _ => ⟨0, 0⟩)).bind fun started => started.bind fun pool =>
      ((sessions pool).replay ⟨pool, [], []⟩ [.malloc 10, .malloc 30, .malloc 5000, .malloc 16,
        .free 16 8208]).map Session.live) = some [(8224, 32), (8192, 16)] := by decide
  obtain ⟨_, started, withStart⟩ := Option.bind_eq_some_iff.mp run
  obtain ⟨pool, rfl, withPool⟩ := Option.bind_eq_some_iff.mp withStart
  obtain ⟨s, replayed, live⟩ := Option.map_eq_some_iff.mp withPool
  have reached := (System.Reachable.start (M := sessions pool) rfl).replay _ replayed
  exact ⟨pool, s, started, live, reached,
    (live_and_free_blocks_tile_the_pool ⟨by decide, by decide⟩ started reached).1⟩

end Mysnips.BuddyAlloc

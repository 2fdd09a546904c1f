import Mysnips.BuddyAllocCoalescing

/-! Pointers that `buddy_malloc` did not hand out. `is_allocated` finds its bit by the page and by
the upper bits of the offset in it, so that every address inside a block has the bit of the
block; and it takes the page from an address that nobody has compared with the end of the
pool. `buddy_free` and `buddy_allocated` are exact except for these addresses; and
`buddy_allocated` does not round the length up. -/
namespace Mysnips.BuddyAlloc
open Machine LinkedList DyadicTiling Transition

variable {pool b b' : Buddy} {s s' : Session} {chain : Nat → List Nat} {ptr len k : Nat}

/-! ### What the operations leave alone -/

theorem append_same {i : Int} (linked : append b i ptr = some b') : SamePool b b' := by
  obtain ⟨-, rest⟩ := Option.ite_none_right_eq_some.mp linked
  cases rest
  exact ⟨rfl, rfl, rfl, rfl, rfl, rfl⟩

theorem removeSiblingFromList_same {i : Nat} (removed : removeSiblingFromList b i ptr = some b') :
    SamePool b b' := by
  obtain ⟨sibling, -, rest⟩ := Option.bind_eq_some_iff.mp removed
  simp only [Option.some.injEq] at rest
  subst rest
  constructor <;> split <;> split <;> rfl

theorem mergeUp_same {fuel : Nat} (merged : mergeUp fuel b ptr len = some b') : SamePool b b' := by
  induction fuel generalizing b ptr len with
  | zero => cases merged
  | succ fuel ih =>
    -- whether the loop stops here or not
    have goes : ∀ stop : Bool, (if stop then append b (listIndexForSize len) ptr
        else if b.lists (listIndexForSize len).toNat ≠ 0 then do
          let b ← removeSiblingFromList b (listIndexForSize len).toNat ptr
          let parent ← parentOf ptr len
          mergeUp fuel b parent (len <<< 1)
        else none) = some b' → SamePool b b' := by
      intro stop rest
      split at rest
      · exact append_same rest
      split at rest
      · obtain ⟨removed, removal, rest⟩ := Option.bind_eq_some_iff.mp rest
        obtain ⟨parent, -, rest⟩ := Option.bind_eq_some_iff.mp rest
        exact (removeSiblingFromList_same removal).trans (ih rest)
      · cases rest
    rw [mergeUp] at merged
    split at merged
    · exact goes true merged
    · obtain ⟨stop, -, rest⟩ := Option.bind_eq_some_iff.mp merged
      exact goes stop rest

theorem pop_same {i : Nat} (popped : pop b i = some (b', ptr)) : SamePool b b' := by
  obtain ⟨-, rest⟩ := Option.ite_none_right_eq_some.mp popped
  cases rest
  exact ⟨rfl, rfl, rfl, rfl, rfl, rfl⟩

theorem splitDown_same {i j : Nat} (split : splitDown b ptr i j = some b') : SamePool b b' := by
  induction j generalizing b with
  | zero =>
    cases split
    exact ⟨rfl, rfl, rfl, rfl, rfl, rfl⟩
  | succ j ih =>
    rw [splitDown] at split
    split at split
    · obtain ⟨sibling, -, rest⟩ := Option.bind_eq_some_iff.mp split
      obtain ⟨appended, linked, rest⟩ := Option.bind_eq_some_iff.mp rest
      exact (append_same linked).trans (ih rest)
    · cases split
      exact ⟨rfl, rfl, rfl, rfl, rfl, rfl⟩

theorem setAllocated_size {value : Bool} (set : setAllocated b ptr len value = some b') :
    b'.size = b.size := by
  obtain ⟨-, rest⟩ := Option.ite_none_right_eq_some.mp set
  obtain ⟨i, -, rest⟩ := Option.bind_eq_some_iff.mp rest
  obtain ⟨-, rest⟩ := Option.ite_none_right_eq_some.mp rest
  cases rest
  rfl

theorem malloc_size (served : malloc b len = some (b', ptr)) : b'.size = b.size := by
  unfold malloc at served
  split at served
  · cases served
    rfl
  simp only at served
  split at served
  · split at served
    · cases served
      rfl
    · obtain ⟨⟨popped, block⟩, pops, rest⟩ := Option.bind_eq_some_iff.mp served
      obtain ⟨halved, splits, rest⟩ := Option.bind_eq_some_iff.mp rest
      obtain ⟨marked, sets, rest⟩ := Option.bind_eq_some_iff.mp rest
      cases rest
      rw [setAllocated_size sets, (splitDown_same splits).size, (pop_same pops).size]
  · cases served

theorem free_size (freed : free b len ptr = some b') : b'.size = b.size := by
  unfold free at freed
  split at freed
  · cases freed
    rfl
  obtain ⟨live, -, rest⟩ := Option.bind_eq_some_iff.mp freed
  split at rest
  · obtain ⟨cleared, clears, rest⟩ := Option.bind_eq_some_iff.mp rest
    rw [(mergeUp_same rest).size, setAllocated_size clears]
  · cases rest
    rfl

/-- The pool of a session keeps its size. -/
theorem reachable_size (reached : (sessions pool).Reachable s) : s.buddy.size = pool.size := by
  apply reached.invariant (P := fun s => s.buddy.size = pool.size)
  · rintro s rfl
    rfl
  · intro s call s' _ size moved
    cases call with
    | malloc len =>
      obtain ⟨⟨b, ptr⟩, served, rest⟩ := Option.bind_eq_some_iff.mp moved
      cases rest
      exact (malloc_size served).trans size
    | free len ptr =>
      obtain ⟨-, rest⟩ := Option.ite_none_right_eq_some.mp moved
      obtain ⟨b, freed, rest⟩ := Option.bind_eq_some_iff.mp rest
      cases rest
      exact (free_size freed).trans size
    | write cell contents =>
      obtain ⟨-, rest⟩ := Option.ite_none_right_eq_some.mp moved
      cases rest
      exact size

/-! ### The bit of an address -/

/-- The block of size `2 ^ k` that an address lies in. -/
def blockAt (ptr k : Nat) : Nat := ptr / 2 ^ k * 2 ^ k

theorem blockAt_le (ptr k : Nat) : blockAt ptr k ≤ ptr := Nat.div_mul_le_self ptr (2 ^ k)

theorem lt_blockAt (ptr k : Nat) : ptr < blockAt ptr k + 2 ^ k := by
  have inside := Nat.mod_lt ptr (Nat.two_pow_pos k)
  have parts := Nat.div_add_mod' ptr (2 ^ k)
  rw [blockAt]
  omega

/-- An address has the page of its block. -/
theorem blockAt_page (ptr : Nat) (high : k ≤ 12) : blockAt ptr k / 2 ^ 12 = ptr / 2 ^ 12 := by
  have split : 2 ^ 12 = 2 ^ k * 2 ^ (12 - k) := by rw [← Nat.pow_add, Nat.add_sub_cancel' high]
  rw [split, ← Nat.div_div_eq_div_mul, ← Nat.div_div_eq_div_mul, blockAt,
    Nat.mul_div_cancel _ (Nat.two_pow_pos k)]

theorem base_le_blockAt (placed : Placed b) (high : k ≤ 12) : b.base ≤ blockAt ptr k ↔ b.base ≤ ptr := by
  obtain ⟨q, base⟩ := placed.aligned
  have same := blockAt_page ptr high
  have le := blockAt_le ptr k
  rw [base]
  omega

theorem pageIndex_blockAt (placed : Placed b) (high : k ≤ 12) :
    pageIndex b (blockAt ptr k) = pageIndex b ptr := by
  obtain ⟨q, base⟩ := placed.aligned
  have same := blockAt_page ptr high
  rw [pageIndex, pageIndex, Nat.shiftRight_eq_div_pow, Nat.shiftRight_eq_div_pow, base,
    maxBlockLog2, Nat.sub_mul_div, Nat.sub_mul_div, same, ← base]
  simp only [base_le_blockAt placed high]

theorem blockInfoIndex_blockAt (high : k ≤ 12) :
    blockInfoIndex (blockAt ptr k) (2 ^ k) = blockInfoIndex ptr (2 ^ k) := by
  have split : 2 ^ 12 = 2 ^ k * 2 ^ (12 - k) := by rw [← Nat.pow_add, Nat.add_sub_cancel' high]
  have offset : blockAt ptr k % 2 ^ 12 / 2 ^ k = ptr % 2 ^ 12 / 2 ^ k := by
    rw [split, Nat.mod_mul_right_div_self, Nat.mod_mul_right_div_self, blockAt,
      Nat.mul_div_cancel _ (Nat.two_pow_pos k)]
  have level := firstSet_two_pow (Nat.lt_of_le_of_lt high (by decide))
  simp only [blockInfoIndex, level, Int.toNat_natCast, maxBlockAlignMask, maxBlockSize,
    maxBlockLog2, Nat.and_two_pow_sub_one_eq_mod, Nat.shiftRight_eq_div_pow, offset]

/-- An address has the bit of its block. -/
theorem isAllocated_blockAt (placed : Placed b) (high : k ≤ 12) :
    isAllocated b (blockAt ptr k) (2 ^ k) = isAllocated b ptr (2 ^ k) := by
  simp only [isAllocated, pageIndex_blockAt placed high, blockInfoIndex_blockAt high]

theorem setAllocated_blockAt (placed : Placed b) (high : k ≤ 12) (value : Bool) :
    setAllocated b (blockAt ptr k) (2 ^ k) value = setAllocated b ptr (2 ^ k) value := by
  simp only [setAllocated, pageIndex_blockAt placed high, blockInfoIndex_blockAt high]

theorem blockAt_admitted (placed : Placed b) (low : 4 ≤ k) (high : k ≤ 12) (first : b.base ≤ ptr)
    (last : ptr < poolEnd b) : (area b).Admits ⟨blockAt ptr k, k⟩ := by
  refine ⟨Nat.dvd_mul_left _ _, low, high, ?_⟩
  have held := (area_holds_iff placed).mpr ⟨first, last⟩
  have same := blockAt_page ptr high
  rw [Area.Holds] at held ⊢
  show _ ≤ blockAt ptr k / 2 ^ 12 ∧ blockAt ptr k / 2 ^ 12 < _
  rw [same]
  exact held

/-- Inside the pool, the answer is about the block that the address lies in. -/
theorem isAllocated_inside (valid : s.Valid pool chain) (low : 4 ≤ k) (high : k ≤ 12)
    (first : s.buddy.base ≤ ptr) (last : ptr < poolEnd s.buddy) :
    isAllocated s.buddy ptr (2 ^ k) = some (decide ((blockAt ptr k, 2 ^ k) ∈ s.live)) := by
  have placed := valid.working.placed
  have admitted : (area s.buddy).Admits ⟨blockAt ptr k, k⟩ :=
    blockAt_admitted placed low high first last
  obtain ⟨start, ends⟩ := (admits_iff placed low high admitted.aligned).mp admitted
  rw [← isAllocated_blockAt placed high]
  exact (valid_tilesPool valid).marked _ k low high admitted.aligned start ends

/-- Behind the pool, a bit tree is read that does not exist. -/
theorem isAllocated_behind (placed : Placed b) (behind : poolEnd b ≤ ptr) :
    isAllocated b ptr len = none := by
  have trees := placed.trees
  obtain ⟨q, base⟩ := placed.aligned
  rw [poolEnd, maxBlockSize, maxBlockLog2] at behind
  have page : pageIndex b ptr = some ((ptr - b.base) / 2 ^ 12) := by
    rw [pageIndex, if_pos (by omega), Nat.shiftRight_eq_div_pow]
  have outside : ¬ (((ptr - b.base) / 2 ^ 12 : Nat) : Int) < b.numTrees := by
    have enough : b.numTrees.toNat ≤ (ptr - b.base) / 2 ^ 12 := by
      rw [Nat.le_div_iff_mul_le (Nat.two_pow_pos _)]
      omega
    omega
  unfold isAllocated
  split
  · simp only [page, Option.bind_eq_bind, Option.bind_some]
    exact if_neg fun both => outside both.1
  · rfl

/-! ### Invalid frees -/

/-- The address is inside a live block of a size, and not its start. -/
def Session.Interior (s : Session) (ptr size : Nat) : Prop :=
  ∃ blk ∈ s.live, blk.2 = size ∧ blk.1 < ptr ∧ ptr < blk.1 + blk.2

/-- A call of `buddy_free` changes nothing, and reads no bit tree outside those of the pool: it
returns, or stops at the assertion of `page_index` before it looks at one. -/
def Caught (b : Buddy) (len ptr : Nat) : Prop :=
  free b len ptr = some b ∨ (¬ (ptr = 0 ∨ len = 0 ∨ len > maxBlockSize) ∧ pageIndex b ptr = none)

theorem blockAt_of_live (valid : s.Valid pool chain) {start : Nat} (member : (start, 2 ^ k) ∈ s.live)
    (low : start ≤ ptr) (high : ptr < start + 2 ^ k) : blockAt ptr k = start := by
  obtain ⟨q, aligned⟩ := (valid_tilesPool valid).aligned _ (Or.inl member)
  simp only at aligned
  have quotient : ptr / 2 ^ k = q := by
    apply Nat.div_eq_of_lt_le
    · rw [Nat.mul_comm, ← aligned]
      exact low
    · rw [Nat.succ_mul, Nat.mul_comm, ← aligned]
      exact high
  rw [blockAt, quotient, Nat.mul_comm, aligned]

theorem interior_iff (valid : s.Valid pool chain) :
    s.Interior ptr (2 ^ k) ↔ (blockAt ptr k, 2 ^ k) ∈ s.live ∧ (ptr, 2 ^ k) ∉ s.live := by
  constructor
  · rintro ⟨⟨start, size⟩, member, rfl, low, high⟩
    have here := blockAt_of_live valid member (Nat.le_of_lt low) high
    refine ⟨here ▸ member, fun other => ?_⟩
    have there := blockAt_of_live valid other (Nat.le_refl ptr) (by omega)
    simp only at low
    omega
  · rintro ⟨member, other⟩
    refine ⟨_, member, rfl, ?_, lt_blockAt ptr k⟩
    apply Nat.lt_of_le_of_ne (blockAt_le ptr k)
    intro same
    rw [same] at member
    exact other member

/-- A free with the bit of another block clears that bit. -/
theorem free_interior (valid : s.Valid pool chain) (low : 4 ≤ k) (high : k ≤ 12)
    (accepted : ¬ (ptr = 0 ∨ len = 0 ∨ len > maxBlockSize)) (size : normalizeLen len = 2 ^ k)
    (first : s.buddy.base ≤ ptr) (last : ptr < poolEnd s.buddy)
    (member : (blockAt ptr k, 2 ^ k) ∈ s.live) : free s.buddy len ptr ≠ some s.buddy := by
  have placed := valid.working.placed
  have admitted : (area s.buddy).Admits ⟨blockAt ptr k, k⟩ :=
    blockAt_admitted placed low high first last
  have read : isAllocated s.buddy ptr (2 ^ k) = some true := by
    rw [isAllocated_inside valid low high first last, decide_eq_true member]
  have was : isAllocated s.buddy (blockAt ptr k) (2 ^ k) = some
      (marked s.buddy (treeIndex s.buddy ⟨blockAt ptr k, k⟩) (bitIndex ⟨blockAt ptr k, k⟩)) :=
    isAllocated_eq placed admitted
  rw [isAllocated_blockAt placed high, read, Option.some.injEq] at was
  obtain ⟨bits, cleared, written⟩ := setAllocated_spec placed admitted false
  have cleared : setAllocated s.buddy (blockAt ptr k) (2 ^ k) false = some { s.buddy with bits } :=
    cleared
  rw [setAllocated_blockAt placed high] at cleared
  intro unchanged
  simp only [free, if_neg accepted, size, read, Option.bind_eq_bind, Option.bind_some, if_true,
    cleared] at unchanged
  have same : s.buddy.bits = bits := (mergeUp_same unchanged).bits
  have now := written (treeIndex s.buddy ⟨blockAt ptr k, k⟩) (bitIndex ⟨blockAt ptr k, k⟩)
  rw [if_pos ⟨rfl, rfl⟩] at now
  rw [marked, same] at was
  exact absurd (was.trans now) (by decide)

/-- An invalid free is caught exactly when it is refused at once, or its address is before the end
of the pool and not inside a live block of its size. -/
theorem free_caught_iff {base size : Nat} {heap : Heap} (region : Region base size)
    (started : startup base size heap = some (some pool)) (reached : (sessions pool).Reachable s)
    (ptr len : Nat) (dead : (ptr, normalizeLen len) ∉ s.live) :
    Caught s.buddy len ptr ↔ (ptr = 0 ∨ len = 0 ∨ maxBlockSize < len) ∨
      (ptr < poolEnd s.buddy ∧ ¬ s.Interior ptr (normalizeLen len)) := by
  obtain ⟨chain, valid⟩ := reachable_valid region started reached
  have placed := valid.working.placed
  by_cases accepted : ptr = 0 ∨ len = 0 ∨ maxBlockSize < len
  · exact iff_of_true (.inl (if_pos accepted)) (.inl accepted)
  have small : len ≤ 2 ^ 12 := Nat.not_lt.mp fun large => accepted (.inr (.inr large))
  have positive : 0 < len := Nat.pos_of_ne_zero fun zero => accepted (.inr (.inl zero))
  obtain ⟨k, low, high, normalized, -⟩ := normalizeLen_eq positive small
  rw [normalized] at dead ⊢
  rw [or_iff_right accepted]
  by_cases before : ptr < s.buddy.base
  · refine iff_of_true (.inr ⟨accepted, if_neg (Nat.not_le.mpr before)⟩) ⟨?_, ?_⟩
    · exact Nat.lt_of_lt_of_le before (Nat.le_add_right _ _)
    · rintro ⟨blk, member, -, low, -⟩
      have inside := (valid_tilesPool valid).inside blk (Or.inl member)
      omega
  have first : s.buddy.base ≤ ptr := Nat.not_lt.mp before
  have caught : Caught s.buddy len ptr ↔ free s.buddy len ptr = some s.buddy := by
    apply or_iff_left
    rintro ⟨-, stopped⟩
    rw [pageIndex, if_pos first] at stopped
    cases stopped
  rw [caught]
  by_cases last : ptr < poolEnd s.buddy
  · rw [interior_iff valid]
    by_cases member : (blockAt ptr k, 2 ^ k) ∈ s.live
    · exact iff_of_false (free_interior valid low high accepted normalized first last member)
        fun both => both.2 ⟨member, dead⟩
    · refine iff_of_true ?_ ⟨last, fun inside => member inside.1⟩
      simp only [free, if_neg accepted, normalized, isAllocated_inside valid low high first last,
        decide_eq_false member, Option.bind_eq_bind, Option.bind_some, Bool.false_eq_true, if_false]
  · refine iff_of_false ?_ fun inside => last inside.1
    simp only [free, if_neg accepted, normalized,
      isAllocated_behind placed (Nat.not_lt.mp last), Option.bind_eq_bind, Option.bind_none]
    rintro ⟨⟩

/-- A live block of 64 bytes, and an address in the free rest of its page. -/
theorem free_caught_iff_applies :
    ∃ pool s, startup 4096 16384 (fun _ => ⟨0, 0⟩) = some (some pool) ∧
      (sessions pool).Reachable s ∧ s.live = [(8192, 64)] ∧ Caught s.buddy 64 8300 := by
  have run : ((startup 4096 16384 (fun _ => ⟨0, 0⟩)).bind fun started => started.bind fun pool =>
      ((sessions pool).replay ⟨pool, [], []⟩ [.malloc 64]).map fun s => (s.live, poolEnd s.buddy)) =
        some ([(8192, 64)], 20480) := by decide
  obtain ⟨_, started, withStart⟩ := Option.bind_eq_some_iff.mp run
  obtain ⟨pool, rfl, withPool⟩ := Option.bind_eq_some_iff.mp withStart
  obtain ⟨s, replayed, result⟩ := Option.map_eq_some_iff.mp withPool
  obtain ⟨live, ends⟩ := Prod.mk.inj result
  have reached := (System.Reachable.start (M := sessions pool) rfl).replay _ replayed
  refine ⟨pool, s, started, reached, live, ?_⟩
  apply (free_caught_iff ⟨by decide, by decide⟩ started reached 8300 64 ?_).mpr
  · refine .inr ⟨by rw [ends]; decide, ?_⟩
    rintro ⟨blk, member, -, -, high⟩
    rw [live, List.mem_singleton] at member
    subst member
    exact absurd high (by decide)
  · rw [live]
    decide

/-- Freeing an address eight bytes behind the start of a live block links that address in a free
list. -/
theorem interior_free_not_caught :
    ∃ pool s b, startup 4096 16384 (fun _ => ⟨0, 0⟩) = some (some pool) ∧
      (sessions pool).Reachable s ∧ s.live = [(8256, 64), (8192, 64)] ∧
      (8264, normalizeLen 64) ∉ s.live ∧ free s.buddy 64 8264 = some b ∧ b.lists 2 = 8264 ∧
      ¬ Caught s.buddy 64 8264 := by
  have run : ((startup 4096 16384 (fun _ => ⟨0, 0⟩)).bind fun started => started.bind fun pool =>
      ((sessions pool).replay ⟨pool, [], []⟩ [.malloc 64, .malloc 64]).bind fun s =>
        (free s.buddy 64 8264).map fun b =>
          (s.live, s.buddy.lists 2, pageIndex s.buddy 8264, b.lists 2)) =
            some ([(8256, 64), (8192, 64)], 0, some 0, 8264) := by decide
  obtain ⟨_, started, withStart⟩ := Option.bind_eq_some_iff.mp run
  obtain ⟨pool, rfl, withPool⟩ := Option.bind_eq_some_iff.mp withStart
  obtain ⟨s, replayed, withSession⟩ := Option.bind_eq_some_iff.mp withPool
  obtain ⟨b, freed, result⟩ := Option.map_eq_some_iff.mp withSession
  simp only [Prod.mk.injEq] at result
  obtain ⟨live, before, page, after⟩ := result
  have reached := (System.Reachable.start (M := sessions pool) rfl).replay _ replayed
  refine ⟨pool, s, b, started, reached, live, by rw [live]; decide, freed, after, ?_⟩
  rintro (unchanged | ⟨-, stopped⟩)
  · rw [freed, Option.some.injEq] at unchanged
    rw [unchanged, before] at after
    cases after
  · rw [page] at stopped
    cases stopped

/-! ### The public query -/

/-- `is_pow2`. -/
theorem isPow2_iff (positive : 0 < len) (small : len ≤ 2 ^ 12) : isPow2 len = true ↔ ∃ k, len = 2 ^ k := by
  rw [isPow2, sub64_eq positive (by omega), beq_iff_eq]
  exact Nat.and_sub_one_eq_zero_iff_isPowerOfTwo (by omega)

theorem normalizeLen_two_pow (low : 4 ≤ k) (high : k ≤ 12) : normalizeLen (2 ^ k) = 2 ^ k := by
  interval_cases k <;> decide

/-- The bit of a block below the smallest size is behind the bits of the tree. -/
theorem isAllocated_tiny (tiny : k < 4) : isAllocated b ptr (2 ^ k) = none := by
  have position : firstSet (2 ^ k) = k := by interval_cases k <;> decide
  have large : 2 ^ 9 ≤ blockInfoIndex ptr (2 ^ k) := by
    have power : (2 : Nat) ^ 9 ≤ 2 ^ (12 - k) := Nat.pow_le_pow_right (by decide) (by omega)
    have exponent : ((maxBlockLog2 : Int) - (k : Int)).toNat = 12 - k := by
      rw [maxBlockLog2]
      omega
    simp only [blockInfoIndex, position, exponent, Nat.shiftLeft_eq, Nat.one_mul]
    exact Nat.le_add_right_of_le power
  unfold isAllocated
  split
  · cases page : pageIndex b ptr with
    | none => rfl
    | some i =>
      simp only [Option.bind_eq_bind, Option.bind_some]
      apply if_neg
      rintro ⟨-, inside⟩
      rw [Nat.shiftRight_eq_div_pow] at inside
      have words : bitTreeWordsPerPage = 16 := rfl
      omega
  · rfl

/-- The call of `buddy_allocated` is one that it answers exactly. In a pool that ends with the
address space, where `buddy_owned` knows no address, it says that nothing is live. -/
def Session.Answerable (s : Session) (ptr len : Nat) : Prop :=
  if poolEnd s.buddy < 2 ^ 64 then
    s.buddy.base ≤ ptr → ptr < poolEnd s.buddy →
      (∃ k, minBlockLog2 ≤ k ∧ len = 2 ^ k) ∧ ¬ s.Interior ptr len
  else (ptr, normalizeLen len) ∉ s.live

/-- The addresses that `buddy_owned` accepts. -/
theorem owned_iff {base size : Nat} {heap : Heap} (region : Region base size)
    (started : startup base size heap = some (some pool)) (reached : (sessions pool).Reachable s)
    (valid : s.Valid pool chain) : owned s.buddy ptr = true ↔
      poolEnd s.buddy < 2 ^ 64 ∧ s.buddy.base ≤ ptr ∧ ptr < poolEnd s.buddy := by
  have layout := startup_layout region started
  obtain ⟨same, count⟩ := pool_of_area valid.working.placed (startup_spec region started).1.placed
    valid.area
  have fits := region.fits
  have pages := layout.pages
  have bytes : s.buddy.size = s.buddy.numTrees.toNat * maxBlockSize := by
    rw [reachable_size reached, count]
    exact layout.counted.2
  have bound : poolEnd s.buddy ≤ 2 ^ 64 := by
    rw [poolEnd, same, count]
    omega
  have sum : s.buddy.base + s.buddy.size = poolEnd s.buddy := by rw [bytes, poolEnd]
  rw [owned, add64, sum, Bool.and_eq_true, decide_eq_true_eq, decide_eq_true_eq]
  by_cases below : poolEnd s.buddy < 2 ^ 64
  · rw [Nat.mod_eq_of_lt below]
    exact ⟨fun inside => ⟨below, inside⟩, And.right⟩
  · rw [Nat.le_antisymm bound (Nat.not_lt.mp below), Nat.mod_self]
    exact ⟨fun inside => absurd inside.2 (Nat.not_lt_zero ptr), fun inside => absurd inside.1 (Nat.lt_irrefl _)⟩

/-- `buddy_allocated` tells whether a live block starts at an address exactly for these calls. -/
theorem allocated_exact_iff {base size : Nat} {heap : Heap} (region : Region base size)
    (started : startup base size heap = some (some pool)) (reached : (sessions pool).Reachable s)
    (ptr : Nat) {len : Nat} (positive : 0 < len) (small : len ≤ maxBlockSize) :
    allocated s.buddy ptr len = some (decide ((ptr, normalizeLen len) ∈ s.live)) ↔
      s.Answerable ptr len := by
  obtain ⟨chain, valid⟩ := reachable_valid region started reached
  have owns : owned s.buddy ptr = true ↔
      poolEnd s.buddy < 2 ^ 64 ∧ s.buddy.base ≤ ptr ∧ ptr < poolEnd s.buddy :=
    owned_iff region started reached valid
  rw [allocated, Session.Answerable]
  by_cases below : poolEnd s.buddy < 2 ^ 64
  · rw [if_pos below]
    by_cases inside : s.buddy.base ≤ ptr ∧ ptr < poolEnd s.buddy
    · rw [if_pos (owns.mpr ⟨below, inside⟩)]
      simp only [inside.1, inside.2, forall_const]
      by_cases power : isPow2 len = true
      · obtain ⟨k, rfl⟩ := (isPow2_iff positive small).mp power
        have high : k ≤ 12 := (Nat.pow_le_pow_iff_right (by decide)).mp small
        by_cases low : 4 ≤ k
        · rw [isAllocated_inside valid low high inside.1 inside.2, normalizeLen_two_pow low high,
            interior_iff valid, Option.some.injEq, decide_eq_decide]
          constructor
          · exact fun same => ⟨⟨k, low, rfl⟩, fun wrong => wrong.2 (same.mp wrong.1)⟩
          · rintro ⟨-, outside⟩
            refine ⟨fun member => ?_, fun member => ?_⟩
            · by_contra other
              exact outside ⟨member, other⟩
            · rwa [blockAt_of_live valid member (Nat.le_refl ptr)
                (Nat.lt_add_of_pos_right (Nat.two_pow_pos k))]
        · rw [isAllocated_tiny (Nat.not_le.mp low)]
          refine iff_of_false (by simp) ?_
          rintro ⟨⟨m, enough, same⟩, -⟩
          rw [Nat.pow_right_injective (Nat.le_refl 2) same] at low
          exact low enough
      · rw [isAllocated, if_neg power]
        refine iff_of_false (by simp) ?_
        rintro ⟨⟨m, -, same⟩, -⟩
        exact power ((isPow2_iff positive small).mpr ⟨m, same⟩)
    · rw [if_neg fun owned => inside (owns.mp owned).2, Option.some.injEq, eq_comm,
        decide_eq_false_iff_not]
      refine iff_of_true (fun member => ?_) fun first last => absurd ⟨first, last⟩ inside
      obtain ⟨k, size⟩ := valid.sizes _ member
      obtain ⟨first, last⟩ := (valid_tilesPool valid).inside _ (Or.inl member)
      have room := Nat.two_pow_pos k
      simp only at size first last
      rw [size] at last
      exact inside ⟨first, by omega⟩
  · rw [if_neg below, if_neg fun owned => below (owns.mp owned).1, Option.some.injEq,
      eq_comm, decide_eq_false_iff_not]

/-- A query for a live block of 64 bytes and for one that was never handed out. -/
theorem allocated_exact_iff_applies :
    ∃ pool s, startup 4096 16384 (fun _ => ⟨0, 0⟩) = some (some pool) ∧
      (sessions pool).Reachable s ∧ s.live = [(8192, 64)] ∧
      allocated s.buddy 8192 64 = some true ∧ allocated s.buddy 8256 64 = some false := by
  have run : ((startup 4096 16384 (fun _ => ⟨0, 0⟩)).bind fun started => started.bind fun pool =>
      ((sessions pool).replay ⟨pool, [], []⟩ [.malloc 64]).map fun s => (s.live, poolEnd s.buddy)) =
        some ([(8192, 64)], 20480) := by decide
  obtain ⟨_, started, withStart⟩ := Option.bind_eq_some_iff.mp run
  obtain ⟨pool, rfl, withPool⟩ := Option.bind_eq_some_iff.mp withStart
  obtain ⟨s, replayed, result⟩ := Option.map_eq_some_iff.mp withPool
  obtain ⟨live, ends⟩ := Prod.mk.inj result
  have reached := (System.Reachable.start (M := sessions pool) rfl).replay _ replayed
  have answerable : ∀ ptr, ptr = 8192 ∨ ptr = 8256 → s.Answerable ptr 64 := by
    intro ptr asked
    rw [Session.Answerable, ends, if_pos (by decide)]
    refine fun _ _ => ⟨⟨6, by decide, rfl⟩, ?_⟩
    rintro ⟨blk, member, -, low, high⟩
    rw [live, List.mem_singleton] at member
    subst member
    simp only at low high
    omega
  have answers := fun ptr asked => (allocated_exact_iff ⟨by decide, by decide⟩ started reached ptr
    (by decide) (by decide)).mpr (answerable ptr asked)
  rw [live] at answers
  exact ⟨pool, s, started, reached, live, answers 8192 (.inl rfl), answers 8256 (.inr rfl)⟩

/-- A block that was asked for with a length of twenty: the query for it fails an assertion, and
says that an address inside a block is the start of one. -/
theorem query_not_exact :
    ∃ pool s, startup 4096 16384 (fun _ => ⟨0, 0⟩) = some (some pool) ∧
      (sessions pool).Reachable s ∧ s.issued = [(8192, 20)] ∧ s.live = [(8192, 32)] ∧
      allocated s.buddy 8192 20 = none ∧ allocated s.buddy 8200 32 = some true ∧
      ¬ allocated s.buddy 8192 20 = some (decide ((8192, normalizeLen 20) ∈ s.live)) := by
  have run : ((startup 4096 16384 (fun _ => ⟨0, 0⟩)).bind fun started => started.bind fun pool =>
      ((sessions pool).replay ⟨pool, [], []⟩ [.malloc 20]).map fun s =>
        (s.issued, s.live, allocated s.buddy 8192 20, allocated s.buddy 8200 32)) =
        some ([(8192, 20)], [(8192, 32)], none, some true) := by decide
  obtain ⟨_, started, withStart⟩ := Option.bind_eq_some_iff.mp run
  obtain ⟨pool, rfl, withPool⟩ := Option.bind_eq_some_iff.mp withStart
  obtain ⟨s, replayed, result⟩ := Option.map_eq_some_iff.mp withPool
  simp only [Prod.mk.injEq] at result
  obtain ⟨issued, live, failed, inside⟩ := result
  have reached := (System.Reachable.start (M := sessions pool) rfl).replay _ replayed
  refine ⟨pool, s, started, reached, issued, live, failed, inside, ?_⟩
  rw [failed]
  exact nofun

end Mysnips.BuddyAlloc

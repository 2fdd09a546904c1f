import Mysnips.BuddyAllocSessions

/-! The merge loop of `buddy_free`, round by round. Whether the other half of the block in hand
is free is read off the bit tree, as the absence of allocated parts, and then that half is
unlinked from a list that is not searched. Both agree because a block without allocated parts
has been coalesced into one linked block by the calls before. -/
namespace Mysnips.BuddyAlloc
open LinkedList DyadicTiling Transition

/-- The rounds of the loop in a call of `buddy_free`: the pool, the block and its length when a
round begins. -/
inductive Round (s : Session) (len₀ ptr₀ : Nat) : Buddy → (ptr len : Nat) → Prop where
  | enter {b : Buddy} (accepted : ¬ (ptr₀ = 0 ∨ len₀ = 0 ∨ len₀ > maxBlockSize))
      (allocated : isAllocated s.buddy ptr₀ (normalizeLen len₀) = some true)
      (cleared : setAllocated s.buddy ptr₀ (normalizeLen len₀) false = some b) :
      Round s len₀ ptr₀ b ptr₀ (normalizeLen len₀)
  | again {b b' : Buddy} {ptr len parent : Nat} (before : Round s len₀ ptr₀ b ptr len)
      (more : len ≠ maxBlockSize)
      (free : siblingAllocatedConsideringSplits b ptr len = some false)
      (asserted : b.lists (listIndexForSize len).toNat ≠ 0)
      (removed : removeSiblingFromList b (listIndexForSize len).toNat ptr = some b')
      (up : parentOf ptr len = some parent) : Round s len₀ ptr₀ b' parent (len <<< 1)

/-- The sibling is said to be free if and only if it is in the list of its size, and then that
list is not empty and the sibling is taken off it. -/
def AgreesWithLists (b : Buddy) (ptr len : Nat) : Prop :=
  ∃ (sibling i : Nat) (chain : Nat → List Nat) (answer : Bool), siblingOf ptr len = some sibling ∧
    listIndexForSize len = (i : Int) ∧ i < numLists ∧ Linked b chain ∧
    siblingAllocatedConsideringSplits b ptr len = some answer ∧
    (answer = false ↔ sibling ∈ chain i) ∧
    (answer = false → b.lists i ≠ 0 ∧ ∃ b' nodes, removeSiblingFromList b i ptr = some b' ∧
      Linked b' (Function.update chain i nodes) ∧ ∀ a, a ∈ nodes ↔ a ∈ chain i ∧ a ≠ sibling)

/-- The block in hand when a round begins: it is neither linked nor marked, and what is left of
the call is the loop from here on. -/
structure InHand (s : Session) (len₀ ptr₀ : Nat) (b : Buddy) (blk : Block) (fuel : Nat)
    (chain : Nat → List Nat) (taken : Set Block) : Prop where
  enough : 12 ≤ fuel + blk.level
  absent : blk ∉ taken
  working : Working b chain (insert blk taken)
  marks : Marks b taken
  rest : free s.buddy len₀ ptr₀ = mergeUp (fuel + 1) b blk.start (2 ^ blk.level)

section Rounds

variable {pool : Buddy} {s : Session} {chain : Nat → List Nat} {len₀ ptr₀ : Nat} {b b' : Buddy}
  {blk : Block} {fuel ptr len : Nat} {taken : Set Block}

theorem InHand.admitted (hand : InHand s len₀ ptr₀ b blk fuel chain taken) : (area b).Admits blk :=
  hand.working.tiling.admitted blk (Or.inr (Or.inl rfl))

/-- A block of less than a page is merged into its parent. -/
theorem InHand.again (hand : InHand s len₀ ptr₀ b blk fuel chain taken) {parent : Nat}
    (more : 2 ^ blk.level ≠ maxBlockSize)
    (free : siblingAllocatedConsideringSplits b blk.start (2 ^ blk.level) = some false)
    (removed : removeSiblingFromList b (listIndexForSize (2 ^ blk.level)).toNat blk.start = some b')
    (up : parentOf blk.start (2 ^ blk.level) = some parent) :
    parent = blk.parent.start ∧
      ∃ fuel' chain', InHand s len₀ ptr₀ b' blk.parent fuel' chain' taken := by
  have admitted := hand.admitted
  have low : 4 ≤ blk.level := admitted.bottom
  have top : blk.level ≤ 12 := admitted.top
  have small : blk.level < 12 := Nat.lt_of_le_of_ne top fun page => more (by rw [page])
  obtain ⟨answer, read, meaning⟩ := siblingAllocated_spec hand.working hand.marks small
  cases Option.some.inj (read.symm.trans free)
  have enough := hand.enough
  obtain ⟨fuel, rfl⟩ : ∃ n, fuel = n + 1 := ⟨fuel - 1, by omega⟩
  obtain ⟨_, absent, b₁, chain', done, same, working, goesOn⟩ :=
    merge_round (fuel + 1) hand.absent hand.working hand.marks small (meaning.mp rfl)
  rw [listIndexForSize_two_pow low top, Int.toNat_natCast, done] at removed
  cases removed
  rw [parentOf_eq admitted.aligned low small] at up
  refine ⟨(Option.some.inj up).symm, fuel, chain', ?_, absent, working, same.marks hand.marks,
    hand.rest.trans goesOn⟩
  rw [Block.parent_level]
  omega

/-- In every round there is a block in hand. -/
theorem round_inHand (valid : s.Valid pool chain) (handed : (ptr₀, len₀) ∈ s.issued)
    (round : Round s len₀ ptr₀ b ptr len) :
    ∃ blk fuel chain taken, ptr = blk.start ∧ len = 2 ^ blk.level ∧
      InHand s len₀ ptr₀ b blk fuel chain taken := by
  induction round with
  | enter accepted allocated cleared =>
    rcases valid.issued _ handed with null | ⟨k, positive, small, size, admitted⟩
    · exact absurd (Or.inl null) accepted
    have size : normalizeLen len₀ = 2 ^ k := size
    rw [← valid.area] at admitted
    rw [size] at allocated cleared ⊢
    obtain ⟨answer, read, meaning⟩ := valid.marks.isAllocated valid.working.placed
      (fun c used => valid.working.tiling.admitted c (Or.inr used)) admitted
    cases Option.some.inj (read.symm.trans allocated)
    obtain ⟨bits, done, working, marks, enters⟩ :=
      free_enters valid.working valid.marks positive small size (meaning.mp rfl)
    cases done.symm.trans cleared
    exact ⟨⟨ptr₀, k⟩, 63, chain, _, rfl, rfl, by omega, fun member => member.2 rfl, working, marks,
      enters⟩
  | again before more free asserted removed up ih =>
    obtain ⟨blk, fuel, chain, taken, rfl, rfl, hand⟩ := ih
    obtain ⟨rfl, fuel', chain', hand'⟩ := hand.again more free removed up
    refine ⟨blk.parent, fuel', chain', taken, rfl, ?_, hand'⟩
    rw [Nat.shiftLeft_eq, pow_one, Block.parent_level, Nat.pow_succ]

/-- The answer of the bit tree is that of the lists, and the sibling is taken off its list. -/
theorem InHand.agrees (hand : InHand s len₀ ptr₀ b blk fuel chain taken)
    (more : 2 ^ blk.level < maxBlockSize) : AgreesWithLists b blk.start (2 ^ blk.level) := by
  have low : 4 ≤ blk.level := hand.admitted.bottom
  have small : blk.level < 12 := (Nat.pow_lt_pow_iff_right (Nat.lt_succ_self 1)).mp more
  have bound : blk.level - 4 < numLists := show blk.level - 4 < 9 by omega
  have sibling := siblingOf_eq low small
  obtain ⟨answer, read, meaning⟩ := siblingAllocated_spec hand.working hand.marks small
  have linked : blk.buddy ∈ vacant chain ↔ blk.buddy.start ∈ chain (blk.level - 4) :=
    ⟨fun free => free.2.2, fun member => ⟨low, Nat.le_of_lt small, member⟩⟩
  refine ⟨_, blk.level - 4, chain, answer, sibling, listIndexForSize_two_pow low (Nat.le_of_lt small),
    bound, hand.working.linked, read, meaning.trans linked, fun free => ?_⟩
  have member := (meaning.trans linked).mp free
  have size : 1 <<< (blk.level - 4 + minBlockLog2) = 2 ^ blk.level := by
    rw [Nat.shiftLeft_eq, one_mul, show blk.level - 4 + minBlockLog2 = blk.level by
      rw [minBlockLog2]; omega]
  obtain ⟨b', nodes, removed, -, unlinked, others⟩ :=
    hand.working.linked.remove bound (by rw [size]; exact sibling) member
  refine ⟨fun null => ?_, b', nodes, removed, unlinked, others⟩
  rw [hand.working.linked.null_iff bound] at null
  rw [null] at member
  cases member

/-- A page is linked without a look at the bit tree. -/
theorem InHand.ends (hand : InHand s len₀ ptr₀ b blk fuel chain taken)
    (page : 2 ^ blk.level = maxBlockSize) :
    free s.buddy len₀ ptr₀ = append b (listIndexForSize (2 ^ blk.level)) blk.start := by
  rw [hand.rest, mergeUp]
  simp only [if_pos page, Option.bind_eq_bind, Option.bind_some, if_true]

end Rounds

/-- In every state reached by allocations and releases and in every round of the merge loop, a
sibling is merged if and only if it is in the list of its size. It is taken off that list, which
is not empty. The loop ends, and with a page at the latest. -/
theorem merge_decision_agrees_with_lists {base size : Nat} {heap : Heap} {pool : Buddy} {s : Session}
    (region : Region base size) (started : startup base size heap = some (some pool))
    (reached : (sessions pool).Reachable s) {len₀ ptr₀ : Nat} (handed : (ptr₀, len₀) ∈ s.issued) :
    (∃ b', free s.buddy len₀ ptr₀ = some b') ∧
    ∀ b ptr len, Round s len₀ ptr₀ b ptr len → len ≤ maxBlockSize ∧
      (∃ fuel, free s.buddy len₀ ptr₀ = mergeUp (fuel + 1) b ptr len) ∧
      (len < maxBlockSize → AgreesWithLists b ptr len) ∧
      (len = maxBlockSize →
        free s.buddy len₀ ptr₀ = append b (listIndexForSize len) ptr) := by
  obtain ⟨chain, valid⟩ := reachable_valid region started reached
  refine ⟨?_, fun b ptr len round => ?_⟩
  · obtain ⟨s', _, performed, _⟩ := valid.free handed
    rw [Session.perform, if_pos handed, Option.bind_eq_bind, Option.bind_eq_some_iff] at performed
    obtain ⟨b', freed, _⟩ := performed
    exact ⟨b', freed⟩
  · obtain ⟨blk, fuel, chain', taken, rfl, rfl, hand⟩ := round_inHand valid handed round
    exact ⟨Nat.pow_le_pow_right (Nat.two_pos) hand.admitted.top, ⟨fuel, hand.rest⟩, hand.agrees,
      hand.ends⟩

/-- The first block of a pool of three pages is given back, and its sibling is in the list. -/
theorem merge_decision_agrees_with_lists_applies :
    ∃ pool s b, startup 4096 16384 (fun _ => ⟨0, 0⟩) = some (some pool) ∧
      (sessions pool).Reachable s ∧ Round s 10 8192 b 8192 16 ∧ AgreesWithLists b 8192 16 ∧
      siblingAllocatedConsideringSplits b 8192 16 = some false := by
  have run : ((startup 4096 16384 (fun _ => ⟨0, 0⟩)).bind fun started => started.bind fun pool =>
      ((sessions pool).replay ⟨pool, [], []⟩ [.malloc 10]).bind fun s =>
      (setAllocated s.buddy 8192 16 false).map fun b => (s.issued, isAllocated s.buddy 8192 16,
        siblingAllocatedConsideringSplits b 8192 16)) =
          some ([(8192, 10)], some true, some false) := by decide +kernel
  obtain ⟨_, started, withStart⟩ := Option.bind_eq_some_iff.mp run
  obtain ⟨pool, rfl, withPool⟩ := Option.bind_eq_some_iff.mp withStart
  obtain ⟨s, replayed, withSession⟩ := Option.bind_eq_some_iff.mp withPool
  obtain ⟨b, cleared, found⟩ := Option.map_eq_some_iff.mp withSession
  simp only [Prod.mk.injEq] at found
  obtain ⟨issued, allocated, free⟩ := found
  have reached := (System.Reachable.start (M := sessions pool) rfl).replay _ replayed
  have size : normalizeLen 10 = 16 := by decide
  have round : Round s 10 8192 b 8192 (normalizeLen 10) :=
    .enter (by decide) (by rwa [size]) (by rwa [size])
  rw [size] at round
  have handed : (8192, 10) ∈ s.issued := by rw [issued]; decide
  obtain ⟨-, rounds⟩ :=
    merge_decision_agrees_with_lists ⟨by decide, by decide⟩ started reached handed
  obtain ⟨-, -, agrees, -⟩ := rounds b 8192 16 round
  exact ⟨pool, s, b, started, reached, round, agrees (by decide), free⟩

end Mysnips.BuddyAlloc

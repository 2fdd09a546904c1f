import Mathlib.Data.Set.Basic
import Mathlib.Tactic.Common
import Mathlib.Tactic.Ring

/-! Tilings of an address range by size-aligned blocks of power-of-two sizes.

A block is its start and its level; it holds the `2 ^ level` addresses from its
start on. Aligned blocks are nested or disjoint, so the block of a given level
around an address is found by rounding down. A tiling splits its blocks into
vacant and taken ones, and never keeps two vacant halves of one block apart.
The four ways to change a tiling (`take`, `split`, `merge`, `give`) keep it one,
and `vacant_cover` says that the vacant blocks are determined by the taken
ones. -/
namespace Mysnips.DyadicTiling

/-- A block: where it starts, and the logarithm of its size. -/
structure Block where
  start : Nat
  level : Nat
  deriving DecidableEq, Repr

namespace Block

/-- The addresses of the block. -/
def Holds (b : Block) (x : Nat) : Prop := b.start ≤ x ∧ x < b.start + 2 ^ b.level

def Aligned (b : Block) : Prop := 2 ^ b.level ∣ b.start

/-- The other half of the block one level up. -/
def buddy (b : Block) : Block :=
  ⟨if 2 ^ (b.level + 1) ∣ b.start then b.start + 2 ^ b.level else b.start - 2 ^ b.level, b.level⟩

/-- The block one level up. -/
def parent (b : Block) : Block :=
  ⟨if 2 ^ (b.level + 1) ∣ b.start then b.start else b.start - 2 ^ b.level, b.level + 1⟩

variable {b c : Block} {x : Nat}

theorem holds_start : b.Holds b.start := ⟨Nat.le_refl _, Nat.lt_add_of_pos_right (Nat.two_pow_pos _)⟩

/-- An aligned block holds exactly the addresses that round down to its start. -/
theorem holds_iff_div (aligned : b.Aligned) :
    b.Holds x ↔ x / 2 ^ b.level = b.start / 2 ^ b.level := by
  obtain ⟨q, shape⟩ := aligned
  have positive : 0 < 2 ^ b.level := Nat.two_pow_pos _
  rw [Holds, shape, Nat.mul_div_cancel_left _ positive, Nat.div_eq_iff positive]
  constructor
  · rintro ⟨low, high⟩
    constructor
    · rw [Nat.mul_comm]; exact low
    · rw [Nat.mul_comm]; omega
  · rintro ⟨low, high⟩
    rw [Nat.mul_comm] at low high
    exact ⟨low, by omega⟩

/-- A block that shares an address with a larger one lies inside it. -/
theorem holds_of_shared (bAligned : b.Aligned) (cAligned : c.Aligned) (le : b.level ≤ c.level)
    (inB : b.Holds x) (inC : c.Holds x) {y : Nat} (other : b.Holds y) : c.Holds y := by
  rw [holds_iff_div bAligned] at inB other
  rw [holds_iff_div cAligned] at inC ⊢
  obtain ⟨d, shape⟩ := Nat.exists_eq_add_of_le le
  rw [shape, Nat.pow_add, ← Nat.div_div_eq_div_mul] at inC ⊢
  rw [other, ← inB, inC]

theorem eq_of_shared (bAligned : b.Aligned) (cAligned : c.Aligned) (same : b.level = c.level)
    (inB : b.Holds x) (inC : c.Holds x) : b = c := by
  have low := holds_of_shared bAligned cAligned same.le inB inC holds_start
  have high := holds_of_shared cAligned bAligned same.ge inC inB holds_start
  obtain ⟨_, level⟩ := b
  obtain ⟨_, _⟩ := c
  simp only at same
  subst same
  simp only [Holds] at low high
  congr
  omega

theorem div_eq_of_holds (aligned : b.Aligned) (inside : b.Holds x) {top : Nat}
    (le : b.level ≤ top) : x / 2 ^ top = b.start / 2 ^ top := by
  rw [holds_iff_div aligned] at inside
  obtain ⟨d, shape⟩ := Nat.exists_eq_add_of_le le
  rw [shape, Nat.pow_add, ← Nat.div_div_eq_div_mul, ← Nat.div_div_eq_div_mul, inside]

/-- A block is the lower or the upper half of its parent. -/
theorem halves (aligned : b.Aligned) :
    (∃ q, b = ⟨2 ^ (b.level + 1) * q, b.level⟩ ∧
      b.buddy = ⟨2 ^ (b.level + 1) * q + 2 ^ b.level, b.level⟩ ∧
      b.parent = ⟨2 ^ (b.level + 1) * q, b.level + 1⟩) ∨
    (∃ q, b = ⟨2 ^ (b.level + 1) * q + 2 ^ b.level, b.level⟩ ∧
      b.buddy = ⟨2 ^ (b.level + 1) * q, b.level⟩ ∧
      b.parent = ⟨2 ^ (b.level + 1) * q, b.level + 1⟩) := by
  obtain ⟨start, level⟩ := b
  obtain ⟨n, shape⟩ := aligned
  simp only at shape
  subst shape
  obtain ⟨q, even | odd⟩ := Nat.even_or_odd' n
  · subst even
    have spelled : 2 ^ level * (2 * q) = 2 ^ (level + 1) * q := by ring
    refine Or.inl ⟨q, ?_⟩
    simp only [buddy, parent, spelled, Nat.dvd_mul_right, if_true]
    exact ⟨trivial, trivial, trivial⟩
  · subst odd
    have spelled : 2 ^ level * (2 * q + 1) = 2 ^ (level + 1) * q + 2 ^ level := by ring
    have unaligned : ¬ 2 ^ (level + 1) ∣ 2 ^ (level + 1) * q + 2 ^ level := by
      rw [Nat.dvd_add_right (Nat.dvd_mul_right _ _)]
      exact Nat.not_dvd_of_pos_of_lt (Nat.two_pow_pos _)
        (Nat.pow_lt_pow_right (by omega) (Nat.lt_succ_self _))
    refine Or.inr ⟨q, ?_⟩
    simp only [buddy, parent, spelled, unaligned, if_false, Nat.add_sub_cancel]
    exact ⟨trivial, trivial, trivial⟩

@[simp] theorem buddy_level : b.buddy.level = b.level := rfl

@[simp] theorem parent_level : b.parent.level = b.level + 1 := rfl

private theorem lower_dvd (level q : Nat) : 2 ^ level ∣ 2 ^ (level + 1) * q :=
  Dvd.dvd.mul_right (Nat.pow_dvd_pow 2 (Nat.le_succ level)) q

theorem buddy_aligned (aligned : b.Aligned) : b.buddy.Aligned := by
  rcases halves aligned with ⟨q, _, shape, _⟩ | ⟨q, _, shape, _⟩
  · rw [shape]
    exact Nat.dvd_add (lower_dvd b.level q) (Nat.dvd_refl _)
  · rw [shape]
    exact lower_dvd b.level q

theorem parent_aligned (aligned : b.Aligned) : b.parent.Aligned := by
  rcases halves aligned with ⟨q, _, _, shape⟩ | ⟨q, _, _, shape⟩ <;>
    rw [shape] <;> exact Nat.dvd_mul_right _ _

theorem buddy_ne (aligned : b.Aligned) : b.buddy ≠ b := by
  have positive : 0 < 2 ^ b.level := Nat.two_pow_pos _
  intro same
  have starts := congrArg Block.start same
  rcases halves aligned with ⟨q, own, other, _⟩ | ⟨q, own, other, _⟩ <;>
    rw [other] at starts <;> rw [own] at starts <;> simp at starts

/-- The parent holds the addresses of both halves and no others. -/
theorem parent_holds (aligned : b.Aligned) :
    b.parent.Holds x ↔ b.Holds x ∨ b.buddy.Holds x := by
  have doubled : 2 ^ (b.level + 1) = 2 ^ b.level + 2 ^ b.level := by ring
  rcases halves aligned with ⟨q, own, other, up⟩ | ⟨q, own, other, up⟩
  · have start := congrArg Block.start own
    simp only at start
    simp only [Holds, up, other, start]
    omega
  · have start := congrArg Block.start own
    simp only at start
    simp only [Holds, up, other, start]
    omega

theorem buddy_parent (aligned : b.Aligned) : b.buddy.parent = b.parent := by
  apply eq_of_shared (x := b.buddy.start) (parent_aligned (buddy_aligned aligned))
    (parent_aligned aligned) rfl
  · exact (parent_holds (buddy_aligned aligned)).mpr (Or.inl holds_start)
  · exact (parent_holds aligned).mpr (Or.inr holds_start)

theorem buddy_buddy (aligned : b.Aligned) : b.buddy.buddy = b := by
  have up := (parent_holds aligned).mpr (Or.inl (holds_start (b := b)))
  rw [← buddy_parent aligned, parent_holds (buddy_aligned aligned)] at up
  rcases up with inBuddy | inSelf
  · exact absurd (eq_of_shared (buddy_aligned aligned) aligned rfl inBuddy holds_start)
      (buddy_ne aligned)
  · exact eq_of_shared (buddy_aligned (buddy_aligned aligned)) aligned rfl inSelf holds_start

/-- The lower half of a block. -/
theorem exists_lower (aligned : b.Aligned) (divisible : 0 < b.level) :
    ∃ half : Block, half.Aligned ∧ half.start = b.start ∧ half.level + 1 = b.level ∧
      half.parent = b ∧ half.buddy.start = b.start + 2 ^ half.level := by
  obtain ⟨start, level⟩ := b
  obtain ⟨level, rfl⟩ := Nat.exists_eq_add_of_le' divisible
  have wide : 2 ^ (level + 1) ∣ start := aligned
  refine ⟨⟨start, level⟩, Nat.dvd_trans (Nat.pow_dvd_pow 2 (Nat.le_succ level)) wide, rfl, rfl, ?_, ?_⟩
  · rw [parent, if_pos wide]
  · rw [buddy, if_pos wide]

end Block

/-- The range that is tiled: whole blocks of the top level, split no further
than the bottom level. -/
structure Area where
  page : Nat
  count : Nat
  bottom : Nat
  top : Nat

namespace Area

variable {A : Area} {b c : Block} {x y : Nat}

def Holds (A : Area) (x : Nat) : Prop :=
  A.page ≤ x / 2 ^ A.top ∧ x / 2 ^ A.top < A.page + A.count

/-- A block of the area: aligned, of an admitted level, and inside. -/
structure Admits (A : Area) (b : Block) : Prop where
  aligned : b.Aligned
  bottom : A.bottom ≤ b.level
  top : b.level ≤ A.top
  start : A.Holds b.start

theorem Admits.inside (admitted : A.Admits b) (held : b.Holds x) : A.Holds x := by
  have start := admitted.start
  rwa [Holds, ← Block.div_eq_of_holds admitted.aligned held admitted.top] at start

theorem Admits.parent (admitted : A.Admits b) (small : b.level < A.top) :
    A.Admits b.parent where
  aligned := Block.parent_aligned admitted.aligned
  bottom := Nat.le_succ_of_le admitted.bottom
  top := small
  start := by
    have within : b.parent.Holds b.start :=
      (Block.parent_holds admitted.aligned).mpr (Or.inl Block.holds_start)
    have start := admitted.start
    rwa [Holds, Block.div_eq_of_holds (Block.parent_aligned admitted.aligned) within small] at start

theorem Admits.buddy (admitted : A.Admits b) (small : b.level < A.top) : A.Admits b.buddy where
  aligned := Block.buddy_aligned admitted.aligned
  bottom := admitted.bottom
  top := admitted.top
  start := (admitted.parent small).inside
    ((Block.parent_holds admitted.aligned).mpr (Or.inr Block.holds_start))

end Area

/-- Vacant and taken blocks that hold every address of the area exactly once,
where no two vacant blocks are halves of one block. -/
structure Tiling (A : Area) (vacant taken : Set Block) : Prop where
  admitted : ∀ b, b ∈ vacant ∨ b ∈ taken → A.Admits b
  apart : ∀ b, b ∈ vacant → b ∉ taken
  unique : ∀ b c x, b ∈ vacant ∨ b ∈ taken → c ∈ vacant ∨ c ∈ taken → b.Holds x → c.Holds x → b = c
  covered : ∀ x, A.Holds x → ∃ b, (b ∈ vacant ∨ b ∈ taken) ∧ b.Holds x
  coalesced : ∀ b, b ∈ vacant → b.level < A.top → b.buddy ∉ vacant

namespace Tiling

variable {A : Area} {vacant taken : Set Block} {b c : Block}

/-- A vacant block becomes taken. -/
theorem take (tiling : Tiling A vacant taken) (free : b ∈ vacant) :
    Tiling A (vacant \ {b}) (insert b taken) where
  admitted c member := by
    rcases member with member | rfl | member
    · exact tiling.admitted c (Or.inl member.1)
    · exact tiling.admitted c (Or.inl free)
    · exact tiling.admitted c (Or.inr member)
  apart c member := by
    rintro (rfl | other)
    · exact member.2 rfl
    · exact tiling.apart c member.1 other
  unique := by
    have back : ∀ c, c ∈ vacant \ {b} ∨ c ∈ insert b taken → c ∈ vacant ∨ c ∈ taken := by
      rintro c (member | rfl | member)
      · exact Or.inl member.1
      · exact Or.inl free
      · exact Or.inr member
    exact fun c d x inC inD => tiling.unique c d x (back c inC) (back d inD)
  covered x inside := by
    obtain ⟨c, member, held⟩ := tiling.covered x inside
    refine ⟨c, ?_, held⟩
    by_cases same : c = b
    · exact Or.inr (Or.inl same)
    · exact member.imp (fun member => ⟨member, same⟩) Or.inr
  coalesced c member small other := tiling.coalesced c member.1 small other.1

/-- A taken block becomes vacant, when its other half is not vacant. -/
theorem give (tiling : Tiling A vacant taken) (used : b ∈ taken)
    (alone : b.level < A.top → b.buddy ∉ vacant) :
    Tiling A (insert b vacant) (taken \ {b}) where
  admitted c member := by
    rcases member with (rfl | member) | member
    · exact tiling.admitted c (Or.inr used)
    · exact tiling.admitted c (Or.inl member)
    · exact tiling.admitted c (Or.inr member.1)
  apart c member other := by
    rcases member with rfl | member
    · exact other.2 rfl
    · exact tiling.apart c member other.1
  unique := by
    have back : ∀ c, c ∈ insert b vacant ∨ c ∈ taken \ {b} → c ∈ vacant ∨ c ∈ taken := by
      rintro c ((rfl | member) | member)
      · exact Or.inr used
      · exact Or.inl member
      · exact Or.inr member.1
    exact fun c d x inC inD => tiling.unique c d x (back c inC) (back d inD)
  covered x inside := by
    obtain ⟨c, member, held⟩ := tiling.covered x inside
    refine ⟨c, ?_, held⟩
    by_cases same : c = b
    · exact Or.inl (Or.inl same)
    · exact member.imp Or.inr (fun member => ⟨member, same⟩)
  coalesced c member small other := by
    have aligned := (tiling.admitted b (Or.inr used)).aligned
    rcases member with rfl | member
    · rcases other with same | other
      · exact Block.buddy_ne aligned same
      · exact alone small other
    · rcases other with same | other
      · have level : c.buddy.level = b.level := congrArg Block.level same
        apply alone (level ▸ small)
        rw [← same, Block.buddy_buddy (tiling.admitted c (Or.inl member)).aligned]
        exact member
      · exact tiling.coalesced c member small other

/-- The two halves of one block hold no common address. -/
private theorem halves_apart {x : Nat} (aligned : b.Aligned) (own : b.Holds x) : ¬ b.buddy.Holds x :=
  fun other => Block.buddy_ne aligned
    (Block.eq_of_shared (Block.buddy_aligned aligned) aligned rfl other own)

/-- A taken block is split: one half stays taken, the other becomes vacant. -/
theorem split (tiling : Tiling A vacant taken) (aligned : b.Aligned) (bottom : A.bottom ≤ b.level)
    (used : b.parent ∈ taken) :
    Tiling A (insert b.buddy vacant) (insert b (taken \ {b.parent})) := by
  have whole := tiling.admitted _ (Or.inr used)
  have admittedHalf : A.Admits b := ⟨aligned, bottom, Nat.le_of_succ_le whole.top,
    whole.inside ((Block.parent_holds aligned).mpr (Or.inl Block.holds_start))⟩
  have small : b.level < A.top := whole.top
  -- an old block other than the parent holds no address of either half
  have old : ∀ c x, c ∈ vacant ∨ c ∈ taken \ {b.parent} → c.Holds x → b.parent.Holds x → False := by
    rintro c x (member | member) held inside
    · have same := tiling.unique c b.parent x (Or.inl member) (Or.inr used) held inside
      exact tiling.apart c member (same ▸ used)
    · exact member.2 (tiling.unique c b.parent x (Or.inr member.1) (Or.inr used) held inside)
  have outside : ∀ c, c ∈ vacant ∨ c ∈ taken \ {b.parent} → c ≠ b ∧ c ≠ b.buddy := by
    intro c member
    constructor
    · rintro rfl
      exact old _ _ member Block.holds_start
        ((Block.parent_holds aligned).mpr (Or.inl Block.holds_start))
    · rintro rfl
      exact old _ _ member Block.holds_start
        ((Block.parent_holds aligned).mpr (Or.inr Block.holds_start))
  refine ⟨?_, ?_, ?_, ?_, ?_⟩
  · rintro c ((rfl | member) | (rfl | member))
    · exact admittedHalf.buddy small
    · exact tiling.admitted c (Or.inl member)
    · exact admittedHalf
    · exact tiling.admitted c (Or.inr member.1)
  · rintro c (rfl | member) (same | other)
    · exact Block.buddy_ne aligned same
    · exact (outside _ (Or.inr other)).2 rfl
    · exact (outside _ (Or.inl member)).1 same
    · exact tiling.apart c member other.1
  · have sorted : ∀ c, c ∈ insert b.buddy vacant ∨ c ∈ insert b (taken \ {b.parent}) →
        c = b ∨ c = b.buddy ∨ (c ∈ vacant ∨ c ∈ taken \ {b.parent}) := by
      rintro c ((rfl | member) | (rfl | member))
      · exact Or.inr (Or.inl rfl)
      · exact Or.inr (Or.inr (Or.inl member))
      · exact Or.inl rfl
      · exact Or.inr (Or.inr (Or.inr member))
    intro c d x inC inD heldC heldD
    have up := fun y (held : b.Holds y ∨ b.buddy.Holds y) => (Block.parent_holds aligned).mpr held
    rcases sorted c inC with rfl | rfl | oldC <;> rcases sorted d inD with rfl | rfl | oldD
    · rfl
    · exact (halves_apart aligned heldC heldD).elim
    · exact (old d x oldD heldD (up x (Or.inl heldC))).elim
    · exact (halves_apart aligned heldD heldC).elim
    · rfl
    · exact (old d x oldD heldD (up x (Or.inr heldC))).elim
    · exact (old c x oldC heldC (up x (Or.inl heldD))).elim
    · exact (old c x oldC heldC (up x (Or.inr heldD))).elim
    · exact tiling.unique c d x (oldC.imp id And.left) (oldD.imp id And.left) heldC heldD
  · intro x inside
    obtain ⟨c, member, held⟩ := tiling.covered x inside
    by_cases same : c = b.parent
    · rw [same, Block.parent_holds aligned] at held
      rcases held with held | held
      · exact ⟨b, Or.inr (Or.inl rfl), held⟩
      · exact ⟨b.buddy, Or.inl (Or.inl rfl), held⟩
    · exact ⟨c, member.imp Or.inr (fun member => Or.inr ⟨member, same⟩), held⟩
  · rintro c (rfl | member) level (same | other)
    · exact Block.buddy_ne (Block.buddy_aligned aligned) same
    · rw [Block.buddy_buddy aligned] at other
      exact (outside _ (Or.inl other)).1 rfl
    · have cAligned := (tiling.admitted c (Or.inl member)).aligned
      have back : c = b := by rw [← Block.buddy_buddy cAligned, same, Block.buddy_buddy aligned]
      exact (outside _ (Or.inl member)).1 back
    · exact tiling.coalesced c member level other

/-- A taken block absorbs its vacant other half. -/
theorem merge (tiling : Tiling A vacant taken) (used : b ∈ taken) (free : b.buddy ∈ vacant)
    (small : b.level < A.top) :
    Tiling A (vacant \ {b.buddy}) (insert b.parent (taken \ {b})) := by
  have half := tiling.admitted b (Or.inr used)
  have aligned := half.aligned
  -- an old block other than the two halves holds no address of their parent
  have old : ∀ c x, c ∈ vacant \ {b.buddy} ∨ c ∈ taken \ {b} → c.Holds x → b.parent.Holds x →
      False := by
    intro c x member held inside
    have kept : c ∈ vacant ∨ c ∈ taken := member.imp And.left And.left
    rcases (Block.parent_holds aligned).mp inside with own | other
    · have same := tiling.unique c b x kept (Or.inr used) held own
      rcases member with member | member
      · exact tiling.apart c member.1 (same ▸ used)
      · exact member.2 same
    · have same := tiling.unique c b.buddy x kept (Or.inl free) held other
      rcases member with member | member
      · exact member.2 same
      · exact tiling.apart c (same ▸ free) member.1
  have outside : ∀ c, c ∈ vacant \ {b.buddy} ∨ c ∈ taken \ {b} → c ≠ b.parent := by
    rintro c member rfl
    exact old _ _ member Block.holds_start Block.holds_start
  refine ⟨?_, ?_, ?_, ?_, ?_⟩
  · rintro c (member | (rfl | member))
    · exact tiling.admitted c (Or.inl member.1)
    · exact half.parent small
    · exact tiling.admitted c (Or.inr member.1)
  · rintro c member (same | other)
    · exact outside c (Or.inl member) same
    · exact tiling.apart c member.1 other.1
  · have sorted : ∀ c, c ∈ vacant \ {b.buddy} ∨ c ∈ insert b.parent (taken \ {b}) →
        c = b.parent ∨ (c ∈ vacant \ {b.buddy} ∨ c ∈ taken \ {b}) := by
      rintro c (member | (rfl | member))
      · exact Or.inr (Or.inl member)
      · exact Or.inl rfl
      · exact Or.inr (Or.inr member)
    intro c d x inC inD heldC heldD
    rcases sorted c inC with rfl | oldC <;> rcases sorted d inD with rfl | oldD
    · rfl
    · exact (old d x oldD heldD heldC).elim
    · exact (old c x oldC heldC heldD).elim
    · exact tiling.unique c d x (oldC.imp And.left And.left) (oldD.imp And.left And.left) heldC heldD
  · intro x inside
    obtain ⟨c, member, held⟩ := tiling.covered x inside
    by_cases own : c = b
    · exact ⟨b.parent, Or.inr (Or.inl rfl), (Block.parent_holds aligned).mpr (Or.inl (own ▸ held))⟩
    by_cases other : c = b.buddy
    · exact ⟨b.parent, Or.inr (Or.inl rfl),
        (Block.parent_holds aligned).mpr (Or.inr (other ▸ held))⟩
    · exact ⟨c, member.imp (fun member => ⟨member, other⟩) (fun member => Or.inr ⟨member, own⟩), held⟩
  · exact fun c member level other => tiling.coalesced c member.1 level other.1

/-- No address of the block is taken. -/
def Untaken (taken : Set Block) (b : Block) : Prop := ∀ c ∈ taken, ∀ x, b.Holds x → ¬ c.Holds x

theorem untaken_of_vacant (tiling : Tiling A vacant taken) (free : b ∈ vacant) :
    Untaken taken b := by
  intro c used x inB inC
  have same := tiling.unique b c x (Or.inl free) (Or.inr used) inB inC
  exact tiling.apart b free (same ▸ used)

/-- A vacant block that meets an untaken block and is at least as large holds it. -/
private theorem holds_larger (tiling : Tiling A vacant taken) (aligned : b.Aligned)
    (free : c ∈ vacant) (large : b.level ≤ c.level) {y : Nat} (inB : b.Holds y) (inC : c.Holds y) :
    ∃ c ∈ vacant, b.level ≤ c.level ∧ ∀ x, b.Holds x → c.Holds x :=
  ⟨c, free, large, fun _ inside => Block.holds_of_shared aligned
    (tiling.admitted c (Or.inl free)).aligned large inB inC inside⟩

/-- An admitted block of which no address is taken lies inside one vacant block:
were its halves in different vacant blocks, those would be the halves themselves
and would have been merged. -/
theorem vacant_cover (tiling : Tiling A vacant taken) (admitted : A.Admits b)
    (untaken : Untaken taken b) : ∃ c ∈ vacant, b.level ≤ c.level ∧ ∀ x, b.Holds x → c.Holds x := by
  obtain ⟨start, level⟩ := b
  induction level generalizing start with
  | zero =>
    obtain ⟨c, member, held⟩ := tiling.covered start admitted.start
    have free := member.resolve_right fun used => untaken c used start Block.holds_start held
    exact holds_larger tiling admitted.aligned free (Nat.zero_le _) Block.holds_start held
  | succ level ih =>
    obtain ⟨c, member, held⟩ := tiling.covered start admitted.start
    have free := member.resolve_right fun used => untaken c used start Block.holds_start held
    by_cases large : level + 1 ≤ c.level
    · exact holds_larger tiling admitted.aligned free large Block.holds_start held
    -- both halves are admitted, and each lies inside a vacant block
    obtain ⟨half, aligned, halfStart, halfLevel, up, _⟩ :=
      Block.exists_lower admitted.aligned (Nat.succ_pos level)
    obtain rfl : half.level = level := Nat.succ_injective halfLevel
    have lowerAdmitted : A.Admits half :=
      ⟨aligned, Nat.le_trans (tiling.admitted c member).bottom (Nat.le_of_not_lt large),
        Nat.le_of_succ_le admitted.top, halfStart ▸ admitted.start⟩
    have within : ∀ x, half.Holds x ∨ half.buddy.Holds x → (Block.mk start (half.level + 1)).Holds x :=
      fun x held => up ▸ (Block.parent_holds aligned).mpr held
    obtain ⟨d, dFree, dLevel, dAround⟩ := ih half.start lowerAdmitted
      fun e used x inside => untaken e used x (within x (Or.inl inside))
    obtain ⟨e, eFree, eLevel, eAround⟩ := ih half.buddy.start
      (lowerAdmitted.buddy (Nat.lt_of_succ_le admitted.top))
      fun f used x inside => untaken f used x (within x (Or.inr inside))
    by_cases dLarge : half.level + 1 ≤ d.level
    · exact holds_larger tiling admitted.aligned dFree dLarge
        (within _ (Or.inl Block.holds_start)) (dAround _ Block.holds_start)
    by_cases eLarge : half.level + 1 ≤ e.level
    · exact holds_larger tiling admitted.aligned eFree eLarge
        (within _ (Or.inr Block.holds_start)) (eAround _ Block.holds_start)
    have lower : d = half := Block.eq_of_shared (tiling.admitted d (Or.inl dFree)).aligned
      aligned (Nat.le_antisymm (Nat.le_of_not_lt dLarge) dLevel) (dAround _ Block.holds_start)
      Block.holds_start
    have upper : e = half.buddy :=
      Block.eq_of_shared (tiling.admitted e (Or.inl eFree)).aligned (Block.buddy_aligned aligned)
        (Nat.le_antisymm (Nat.le_of_not_lt eLarge) eLevel) (eAround _ Block.holds_start)
        Block.holds_start
    exact (tiling.coalesced _ (lower ▸ dFree) (Nat.lt_of_succ_le admitted.top)
      (upper ▸ eFree)).elim

/-- The vacant blocks are the maximal admitted blocks of which no address is
taken, so they are determined by the taken ones. -/
theorem mem_vacant_iff (tiling : Tiling A vacant taken) :
    b ∈ vacant ↔ A.Admits b ∧ Untaken taken b ∧ (b.level < A.top → ¬ Untaken taken b.parent) := by
  constructor
  · intro free
    have admitted := tiling.admitted b (Or.inl free)
    refine ⟨admitted, untaken_of_vacant tiling free, fun small untaken => ?_⟩
    obtain ⟨c, cFree, large, around⟩ := vacant_cover tiling (admitted.parent small) untaken
    have shared := around b.start ((Block.parent_holds admitted.aligned).mpr (Or.inl Block.holds_start))
    have same := tiling.unique b c b.start (Or.inl free) (Or.inl cFree) Block.holds_start shared
    rw [← same, Block.parent_level] at large
    omega
  · rintro ⟨admitted, untaken, maximal⟩
    obtain ⟨c, cFree, le, around⟩ := vacant_cover tiling admitted untaken
    have cAdmitted := tiling.admitted c (Or.inl cFree)
    have shared := around b.start Block.holds_start
    rcases Nat.lt_or_eq_of_le le with larger | same
    · have small : b.level < A.top := Nat.lt_of_lt_of_le larger cAdmitted.top
      refine (maximal small fun d used x inside held => ?_).elim
      have inC := Block.holds_of_shared (Block.parent_aligned admitted.aligned) cAdmitted.aligned
        larger ((Block.parent_holds admitted.aligned).mpr (Or.inl Block.holds_start)) shared inside
      exact untaken_of_vacant tiling cFree d used x inC held
    · rwa [Block.eq_of_shared admitted.aligned cAdmitted.aligned same Block.holds_start shared]

theorem vacant_unique {vacant' : Set Block} (tiling : Tiling A vacant taken)
    (tiling' : Tiling A vacant' taken) : vacant = vacant' := by
  ext b
  rw [mem_vacant_iff tiling, mem_vacant_iff tiling']

/-- The other half of a taken block is vacant exactly when no taken block starts
in it. -/
theorem buddy_vacant_iff (tiling : Tiling A vacant taken) (used : b ∈ taken)
    (small : b.level < A.top) :
    b.buddy ∈ vacant ↔ ∀ c ∈ taken, c.level ≤ b.level → ¬ b.buddy.Holds c.start := by
  have half := tiling.admitted b (Or.inr used)
  have other := half.buddy small
  -- a larger block around the other half would also hold the taken one
  have larger : ∀ c, c ∈ vacant ∨ c ∈ taken → (∃ x, b.buddy.Holds x ∧ c.Holds x) →
      c.level ≤ b.level := by
    rintro c member ⟨x, inBuddy, inC⟩
    by_contra large
    have inParent := (Block.parent_holds half.aligned).mpr (Or.inr inBuddy)
    have start := Block.holds_of_shared (Block.parent_aligned half.aligned)
      (tiling.admitted c member).aligned (by simp only [Block.parent_level]; omega) inParent inC
      ((Block.parent_holds half.aligned).mpr (Or.inl Block.holds_start))
    have same := tiling.unique c b b.start member (Or.inr used) start Block.holds_start
    exact large (same ▸ Nat.le_refl _)
  constructor
  · exact fun free c cUsed _ inside =>
      untaken_of_vacant tiling free c cUsed c.start inside Block.holds_start
  · intro none
    have untaken : Untaken taken b.buddy := by
      intro c cUsed x inBuddy inC
      have le := larger c (Or.inr cUsed) ⟨x, inBuddy, inC⟩
      exact none c cUsed le (Block.holds_of_shared (tiling.admitted c (Or.inr cUsed)).aligned
        other.aligned le inC inBuddy Block.holds_start)
    obtain ⟨c, free, le, around⟩ := vacant_cover tiling other untaken
    have shared := around _ Block.holds_start
    have level := larger c (Or.inl free) ⟨_, Block.holds_start, shared⟩
    rwa [Block.eq_of_shared other.aligned (tiling.admitted c (Or.inl free)).aligned
      (Nat.le_antisymm le level) Block.holds_start shared]

end Tiling

end Mysnips.DyadicTiling

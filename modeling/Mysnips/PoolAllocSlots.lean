import Mathlib.Order.Bounds.Basic
import Mysnips.Packing
import Mysnips.PoolAlloc

/-! How many slots `pool_alloc_create` counts in a page, against the largest number
of aligned items that fit behind the page header. The loop leaves after an item
that ends with the page, before it has counted it, so that it is one short exactly
when the items fill the page to its end. -/
namespace Mysnips.PoolAlloc
open Machine Packing

/-- Items at aligned addresses of a page, behind its header, that do not overlap. -/
structure Placement (page pageSize itemSize itemAlign : Nat) (items : List Nat) : Prop where
  aligned : ∀ item ∈ items, itemAlign ∣ item
  header : ∀ item ∈ items, page + sizeofPageHeader ≤ item
  stop : ∀ item ∈ items, item + itemSize ≤ page + pageSize
  apart : Apart itemSize items

/-- The numbers of items that fit in a page. -/
def slotCounts (page pageSize itemSize itemAlign : Nat) : Set Nat :=
  {n | ∃ items, Placement page pageSize itemSize itemAlign items ∧ items.length = n}

/-- Behind the header and its padding, items at their aligned distance fill the page to
its end. -/
def FillsPage (pageSize itemSize itemAlign : Nat) : Prop :=
  alignUp sizeofPageHeader itemAlign + itemSize ≤ pageSize ∧
    alignUp itemSize itemAlign ∣ pageSize - (alignUp sizeofPageHeader itemAlign + itemSize)

variable {a : Nat}

/-! ## Multiples of the alignment -/

theorem alignUp_ge (cur align : Nat) : cur ≤ alignUp cur align := Nat.le_add_right ..

/-- Aligning up gives the first multiple. -/
theorem alignUp_least {cur z : Nat} (le : a ≤ 64) (aligned : 2 ^ a ∣ z) (above : cur ≤ z) :
    alignUp cur (2 ^ a) ≤ z := by
  by_contra past
  have positive := Nat.two_pow_pos a
  have near : alignUp cur (2 ^ a) < cur + 2 ^ a := by
    rw [alignUp_eq cur le]
    exact Nat.add_lt_add_left (Nat.mod_lt _ positive) cur
  have gap : 2 ^ a ∣ alignUp cur (2 ^ a) - z := Nat.dvd_sub (alignUp_aligned cur le) aligned
  have wide := Nat.le_of_dvd (by omega) gap
  omega

/-- Aligned items that do not overlap lie an aligned size apart. -/
theorem Placement.strides {page pageSize itemSize : Nat} {items : List Nat} (le : a ≤ 64)
    (placement : Placement page pageSize itemSize (2 ^ a) items) :
    Apart (alignUp itemSize (2 ^ a)) items := by
  refine List.Pairwise.imp_of_mem ?_ placement.apart
  intro x y xIn yIn far
  have xAligned := placement.aligned x xIn
  have yAligned := placement.aligned y yIn
  rcases far with far | far
  · have next := alignUp_least le yAligned far
    rw [alignUp_shift _ le xAligned] at next
    exact Or.inl next
  · have next := alignUp_least le xAligned far
    rw [alignUp_shift _ le yAligned] at next
    exact Or.inr next

/-! ## The largest number of items -/

section Page

variable {page k itemSize : Nat}

/-- An item that fits shows that the alignment is not larger than a page. -/
theorem align_le_page (onPage : 2 ^ k ∣ page) {item : Nat} (aligned : 2 ^ a ∣ item)
    (positive : 0 < itemSize) (header : page + sizeofPageHeader ≤ item)
    (stop : item + itemSize ≤ page + 2 ^ k) : a ≤ k := by
  by_contra larger
  have pageAligned : 2 ^ k ∣ item :=
    Nat.dvd_trans (Nat.pow_dvd_pow 2 (Nat.le_of_not_le larger)) aligned
  have offset : 2 ^ k ∣ item - page := Nat.dvd_sub pageAligned onPage
  have inside : page < item := Nat.lt_of_lt_of_le (Nat.lt_add_of_pos_right (by decide)) header
  have whole := Nat.le_of_dvd (by omega) offset
  omega

/-- `n + 1` items fit when the last one of the grid does. -/
theorem succ_mem_slotCounts_iff (onPage : 2 ^ k ∣ page) (le : a ≤ 64) (positive : 0 < itemSize)
    (n : Nat) :
    n + 1 ∈ slotCounts page (2 ^ k) itemSize (2 ^ a) ↔
      alignUp sizeofPageHeader (2 ^ a) + n * alignUp itemSize (2 ^ a) + itemSize ≤ 2 ^ k := by
  have wide : 0 < alignUp itemSize (2 ^ a) := Nat.lt_of_lt_of_le positive (alignUp_ge _ _)
  constructor
  · rintro ⟨items, placement, count⟩
    obtain ⟨first, firstIn⟩ :=
      List.exists_mem_of_ne_nil items (List.ne_nil_of_length_eq_add_one count)
    have small : a ≤ k := align_le_page onPage (placement.aligned first firstIn) positive
      (placement.header first firstIn) (placement.stop first firstIn)
    have pageAligned : 2 ^ a ∣ page := Nat.dvd_trans (Nat.pow_dvd_pow 2 small) onPage
    have window : ∀ item ∈ items, page + alignUp sizeofPageHeader (2 ^ a) ≤ item ∧
        item ≤ page + 2 ^ k - itemSize := by
      intro item member
      have start := alignUp_least le (placement.aligned item member) (placement.header item member)
      rw [alignUp_shift _ le pageAligned] at start
      exact ⟨start, Nat.le_sub_of_add_le (placement.stop item member)⟩
    have span := (placement.strides le).span_le wide window count
    have room := placement.stop first firstIn
    omega
  · intro fits
    have headerAligned := alignUp_aligned sizeofPageHeader le
    have strideAligned := alignUp_aligned itemSize le
    have small : a ≤ k := by
      have least : 2 ^ a ≤ alignUp sizeofPageHeader (2 ^ a) :=
        Nat.le_of_dvd (Nat.lt_of_lt_of_le (by decide) (alignUp_ge _ _)) headerAligned
      have within : 2 ^ a ≤ 2 ^ k := by omega
      exact (Nat.pow_le_pow_iff_right (by decide)).mp within
    have pageAligned : 2 ^ a ∣ page := Nat.dvd_trans (Nat.pow_dvd_pow 2 small) onPage
    have header := alignUp_ge sizeofPageHeader (2 ^ a)
    refine ⟨grid (page + alignUp sizeofPageHeader (2 ^ a)) (alignUp itemSize (2 ^ a)) (n + 1),
      ⟨?_, ?_, ?_, grid_apart (alignUp_ge _ _) _ _⟩, length_grid _ _ _⟩
    · intro item member
      obtain ⟨i, -, rfl⟩ := mem_grid.mp member
      exact Nat.dvd_add (Nat.dvd_add pageAligned headerAligned) (Nat.dvd_mul_left_of_dvd strideAligned i)
    · intro item member
      obtain ⟨i, -, rfl⟩ := mem_grid.mp member
      omega
    · intro item member
      obtain ⟨i, below, rfl⟩ := mem_grid.mp member
      have before : i * alignUp itemSize (2 ^ a) ≤ n * alignUp itemSize (2 ^ a) :=
        Nat.mul_le_mul_right _ (Nat.le_of_lt_succ below)
      omega

theorem zero_mem_slotCounts (page pageSize itemSize itemAlign : Nat) :
    0 ∈ slotCounts page pageSize itemSize itemAlign :=
  ⟨[], ⟨by simp, by simp, by simp, List.Pairwise.nil⟩, rfl⟩

end Page

/-! ## The number that is counted -/

/-- The loop counts the items of the grid that end before the page does. -/
theorem lt_countSlots_iff {pageSize itemSize : Nat} {positive : 0 < itemSize} (le : a ≤ 64)
    (n cur : Nat) :
    n < countSlots pageSize itemSize (2 ^ a) positive cur ↔
      alignUp cur (2 ^ a) + n * alignUp itemSize (2 ^ a) + itemSize < pageSize := by
  induction n generalizing cur with
  | zero =>
    rw [Nat.pos_iff_ne_zero, ne_eq, countSlots_zero_iff]
    omega
  | succ n ih =>
    by_cases counted : 0 < countSlots pageSize itemSize (2 ^ a) positive cur
    · obtain ⟨-, step⟩ := countSlots_pos counted
      have next : alignUp (alignUp cur (2 ^ a) + itemSize) (2 ^ a) =
          alignUp cur (2 ^ a) + alignUp itemSize (2 ^ a) :=
        alignUp_shift itemSize le (alignUp_aligned cur le)
      rw [step, Nat.add_lt_add_iff_right, ih, next, Nat.succ_mul]
      omega
    · have stopped := countSlots_zero_iff.mp (Nat.eq_zero_of_not_pos counted)
      omega

/-- The items fill the page when the last one of some grid ends with it. -/
theorem fillsPage_iff {pageSize itemSize : Nat} :
    FillsPage pageSize itemSize (2 ^ a) ↔ ∃ n,
      alignUp sizeofPageHeader (2 ^ a) + n * alignUp itemSize (2 ^ a) + itemSize = pageSize := by
  constructor
  · rintro ⟨first, n, rest⟩
    refine ⟨n, ?_⟩
    rw [Nat.mul_comm] at rest
    omega
  · rintro ⟨n, rfl⟩
    refine ⟨by omega, n, ?_⟩
    rw [Nat.mul_comm]
    omega

/-- The slots that are counted fit in a page. -/
theorem countSlots_mem {page k itemSize : Nat} {positive : 0 < itemSize} (onPage : 2 ^ k ∣ page)
    (le : a ≤ 64) :
    countSlots (2 ^ k) itemSize (2 ^ a) positive sizeofPageHeader ∈
      slotCounts page (2 ^ k) itemSize (2 ^ a) := by
  cases counted : countSlots (2 ^ k) itemSize (2 ^ a) positive sizeofPageHeader with
  | zero => exact zero_mem_slotCounts ..
  | succ n =>
    rw [succ_mem_slotCounts_iff onPage le positive]
    exact Nat.le_of_lt ((lt_countSlots_iff le n sizeofPageHeader).mp (by omega))

/-- In a page of any power-of-two size, at any power-of-two alignment, the loop counts
the largest number of items that fit, at least one where one fits, unless the items fill
the page to its end. -/
theorem slots_per_page_exact_iff {page k itemSize : Nat} (align : a < 64) (large : 0 < itemSize)
    (onPage : 2 ^ k ∣ page) :
    (IsGreatest (slotCounts page (2 ^ k) itemSize (2 ^ a))
        (countSlots (2 ^ k) itemSize (2 ^ a) large sizeofPageHeader) ∧
      (1 ∈ slotCounts page (2 ^ k) itemSize (2 ^ a) →
        0 < countSlots (2 ^ k) itemSize (2 ^ a) large sizeofPageHeader)) ↔
      ¬ FillsPage (2 ^ k) itemSize (2 ^ a) := by
  have le : a ≤ 64 := Nat.le_of_lt align
  constructor
  · rintro ⟨⟨-, most⟩, -⟩ fills
    obtain ⟨n, last⟩ := fillsPage_iff.mp fills
    have fits := (succ_mem_slotCounts_iff onPage le large n).mpr (Nat.le_of_eq last)
    have counted := (lt_countSlots_iff le n sizeofPageHeader).mp (most fits)
    omega
  · intro short
    -- an item that fits ends before the page does, and is counted
    have counts : ∀ n, n + 1 ∈ slotCounts page (2 ^ k) itemSize (2 ^ a) →
        n + 1 ≤ countSlots (2 ^ k) itemSize (2 ^ a) large sizeofPageHeader := by
      intro n fits
      rw [succ_mem_slotCounts_iff onPage le large] at fits
      have different : alignUp sizeofPageHeader (2 ^ a) + n * alignUp itemSize (2 ^ a) + itemSize ≠
          2 ^ k := fun last => short (fillsPage_iff.mpr ⟨n, last⟩)
      exact (lt_countSlots_iff le n sizeofPageHeader).mpr (by omega)
    refine ⟨⟨countSlots_mem onPage le, ?_⟩, counts 0⟩
    intro n fits
    cases n with
    | zero => exact Nat.zero_le _
    | succ n => exact counts n fits

theorem slots_of_100_byte_items :
    IsGreatest (slotCounts 4096 (2 ^ 12) 100 (2 ^ 3))
      (countSlots (2 ^ 12) 100 (2 ^ 3) (by decide) sizeofPageHeader) := by
  have align : 3 < 64 := by decide
  have large : 0 < 100 := by decide
  have onPage : 2 ^ 12 ∣ 4096 := Nat.dvd_refl _
  have short : ¬ FillsPage (2 ^ 12) 100 (2 ^ 3) := by
    rintro ⟨-, fills⟩
    exact absurd fills (by decide)
  exact ((slots_per_page_exact_iff align large onPage).mpr short).1

/-- Four items of 1016 bytes fill a page behind its header, and three are counted; one item
of 4064 bytes fills it, and none is counted. -/
theorem slots_of_page_filling_items :
    (countSlots (2 ^ 12) 1016 (2 ^ 3) (by decide) sizeofPageHeader = 3 ∧
      4 ∈ slotCounts 4096 (2 ^ 12) 1016 (2 ^ 3)) ∧
    (countSlots (2 ^ 12) 4064 (2 ^ 3) (by decide) sizeofPageHeader = 0 ∧
      1 ∈ slotCounts 4096 (2 ^ 12) 4064 (2 ^ 3) ∧ create (2 ^ 12) 4064 (2 ^ 3) = none) := by
  have onPage : 2 ^ 12 ∣ 4096 := Nat.dvd_refl _
  have three : countSlots (2 ^ 12) 1016 (2 ^ 3) (by decide) sizeofPageHeader = 3 := by
    decide +kernel
  have none_counted : countSlots (2 ^ 12) 4064 (2 ^ 3) (by decide) sizeofPageHeader = 0 := by
    decide +kernel
  refine ⟨⟨three, ?_⟩, none_counted, ?_, ?_⟩
  · exact (succ_mem_slotCounts_iff onPage (by decide) (by decide) 3).mpr (by decide)
  · exact (succ_mem_slotCounts_iff onPage (by decide) (by decide) 0).mpr (by decide)
  · rw [create, dif_pos (by decide), if_pos (by decide)]
    simp only [none_counted, Nat.lt_irrefl, if_false]

end Mysnips.PoolAlloc

import Mathlib.Logic.Function.Basic
import Mysnips.Machine
import Mysnips.SinglyLinked
import Mysnips.Transition

/-! The pool allocator of `alloc/pool.c`. The free slots of a page are linked through
their own memory, and the pages with and without free slots are kept in two lists. The
loop that links the slots of a new page never moves its cursor past a slot, so that
every page starts with one free slot, however many `pool_alloc_create` has counted. A
null pointer that is followed, and a failed assertion, is a fault (`none`). -/
namespace Mysnips.PoolAlloc
open Machine SinglyLinked Transition

/-- `sizeof(void*)`. -/
abbrev sizeofPointer : Nat := 8

/-- `sizeof(struct page_header)`. -/
abbrev sizeofPageHeader : Nat := 32

/-- What the `prev` of a page points to: one of the two lists of the pool. -/
inductive ListHead where
  | partiallyFull
  | full
  deriving DecidableEq, Repr

/-- `struct page_header`. -/
structure Page where
  prev : ListHead
  next : Option Nat
  slots : Option Nat
  allocatedCount : Nat
  deriving DecidableEq, Repr

/-- `struct pool_alloc`, with the page size, the pages that the system has mapped and
the `next` fields of the slots. -/
structure Pool where
  listPartiallyFull : Option Nat
  listFull : Option Nat
  itemSize : Nat
  itemAlign : Nat
  slotsPerPage : Nat
  pageSize : Nat
  pages : Nat → Option Page
  next : Nat → Option Nat

/-- `cur += -cur & (align - 1)`. -/
def alignUp (cur align : Nat) : Nat := cur + (sub64 0 cur &&& (align - 1))

/-- The counting loop of `pool_alloc_create`, from an offset in the page. -/
def countSlots (pageSize itemSize itemAlign : Nat) (positive : 0 < itemSize) (cur : Nat) : Nat :=
  if pageSize ≤ alignUp cur itemAlign then 0
  else if pageSize ≤ alignUp cur itemAlign + itemSize then 0
  else countSlots pageSize itemSize itemAlign positive (alignUp cur itemAlign + itemSize) + 1
termination_by pageSize - cur
decreasing_by
  have grows : cur ≤ alignUp cur itemAlign := Nat.le_add_right ..
  omega

/-- `pool_alloc_create`. -/
def create (pageSize itemSize itemAlign : Nat) : Option Pool :=
  if large : sizeofPointer ≤ itemSize then
    if itemSize ≤ pageSize - sizeofPageHeader then
      let slotsPerPage := countSlots pageSize itemSize itemAlign
        (Nat.lt_of_lt_of_le (by decide) large) sizeofPageHeader
      if 0 < slotsPerPage then
        some ⟨none, none, itemSize, itemAlign, slotsPerPage, pageSize, fun _ => none, fun _ => none⟩
      else none
    else none
  else none

/-- Where `tail` points to while the slots are linked: the local `slots`, or the `next` of
a slot. -/
inductive Tail where
  | slots
  | next (slot : Nat)
  deriving DecidableEq, Repr

/-- `*tail = target`, on `slots` and on the slots. -/
def Tail.store (tail : Tail) (target : Option Nat) (slots : Option Nat) (next : Nat → Option Nat) :
    Option Nat × (Nat → Option Nat) :=
  match tail with
  | .slots => (target, next)
  | .next slot => (slots, Function.update next slot target)

/-- The loop that links the slots of a new page, with its rounds left. -/
def linkSlots (itemAlign stop : Nat) : (rounds : Nat) → (cursor : Nat) → (tail : Tail) →
    (slots : Option Nat) → (next : Nat → Option Nat) → Option Nat × (Nat → Option Nat)
  | 0, _, tail, slots, next => tail.store none slots next
  | rounds + 1, cursor, tail, slots, next =>
    let cursor := alignUp cursor itemAlign
    if stop ≤ cursor then tail.store none slots next
    else
      let slot := cursor
      let (slots, next) := tail.store (some slot) slots next
      linkSlots itemAlign stop rounds cursor (.next slot) slots next

/-- `ensure_partially_full_page_available`, with the page that `os_alloc` returns if it is
called. -/
def ensurePartiallyFullPageAvailable (pool : Pool) (fresh : Nat) : Pool :=
  if pool.listPartiallyFull = none then
    let (slots, next) := linkSlots pool.itemAlign (fresh + pool.pageSize) pool.slotsPerPage
      (fresh + sizeofPageHeader) .slots none pool.next
    { pool with
      listPartiallyFull := some fresh
      pages := Function.update pool.pages fresh
        (some ⟨.partiallyFull, pool.listPartiallyFull, slots, 0⟩)
      next }
  else pool

/-- `*page->prev = target`. -/
def setHead (pool : Pool) (prev : ListHead) (target : Option Nat) : Pool :=
  match prev with
  | .partiallyFull => { pool with listPartiallyFull := target }
  | .full => { pool with listFull := target }

/-- `pool_alloc_get`. -/
def get (pool : Pool) (fresh : Nat) : Option (Pool × Nat) := do
  let pool := ensurePartiallyFullPageAvailable pool fresh
  let page ← pool.listPartiallyFull
  let header ← pool.pages page
  let slot ← header.slots
  let header := { header with
    slots := pool.next slot
    allocatedCount := header.allocatedCount + 1 }
  if header.allocatedCount = pool.slotsPerPage then
    let pool := setHead pool header.prev header.next
    some ({ pool with
      listFull := some page
      pages := Function.update pool.pages page
        (some { header with prev := .full, next := pool.listFull }) }, slot)
  else some ({ pool with pages := Function.update pool.pages page (some header) }, slot)

/-- `(uintptr_t) ptr & ~(page_size - 1)`. -/
def pageOf (pool : Pool) (ptr : Nat) : Nat := ptr &&& (2 ^ 64 - pool.pageSize)

/-- `pool_alloc_put`. -/
def put (pool : Pool) (ptr : Nat) : Option Pool := do
  let page := pageOf pool ptr
  let header ← pool.pages page
  let pool := { pool with next := Function.update pool.next ptr header.slots }
  let header := { header with slots := some ptr }
  if 0 < header.allocatedCount then
    let header := { header with allocatedCount := header.allocatedCount - 1 }
    if header.allocatedCount = 0 then
      let pool := setHead pool header.prev header.next
      some { pool with pages := Function.update pool.pages page none }
    else if header.allocatedCount = pool.slotsPerPage - 1 then
      let pool := setHead pool header.prev header.next
      some { pool with
        listPartiallyFull := some page
        pages := Function.update pool.pages page
          (some { header with prev := .partiallyFull, next := pool.listPartiallyFull }) }
    else some { pool with pages := Function.update pool.pages page (some header) }
  else none

/-- A pool and the items that its users hold. -/
structure State where
  pool : Pool
  live : List Nat

/-- A call, or a user writing to the beginning of its item. -/
inductive Action where
  | get (fresh : Nat)
  | put (ptr : Nat)
  | write (ptr : Nat) (link : Option Nat)

/-- A page that `os_alloc` may return: it is aligned, not null, inside the address space and
not mapped already. -/
def Fresh (pool : Pool) (fresh : Nat) : Prop :=
  pool.pageSize ∣ fresh ∧ 0 < fresh ∧ fresh + pool.pageSize ≤ 2 ^ 64 ∧ pool.pages fresh = none

instance (pool : Pool) (fresh : Nat) : Decidable (Fresh pool fresh) :=
  inferInstanceAs (Decidable (_ ∧ _ ∧ _ ∧ _))

/-- The use of one pool, which puts back only live items. -/
def pools (pageSize itemSize itemAlign : Nat) : System State Action where
  initial s := create pageSize itemSize itemAlign = some s.pool ∧ s.live = []
  next s action :=
    match action with
    | .get fresh =>
      if Fresh s.pool fresh then do
        let (pool, ptr) ← get s.pool fresh
        some ⟨pool, ptr :: s.live⟩
      else none
    | .put ptr =>
      if ptr ∈ s.live then do
        let pool ← put s.pool ptr
        some ⟨pool, s.live.erase ptr⟩
      else none
    | .write ptr link =>
      if ptr ∈ s.live then
        some { s with pool := { s.pool with next := Function.update s.pool.next ptr link } }
      else none

/-- An item that may be given out: it is not null and aligned, it lies inside one page behind
its header, and it is apart from the other items. -/
structure Placed (pool : Pool) (others : List Nat) (ptr : Nat) : Prop where
  nonnull : ptr ≠ 0
  aligned : pool.itemAlign ∣ ptr
  inside : ∃ page header, pool.pages page = some header ∧ page + sizeofPageHeader ≤ ptr ∧
    ptr + pool.itemSize ≤ page + pool.pageSize
  apart : ∀ other ∈ others, ptr + pool.itemSize ≤ other ∨ other + pool.itemSize ≤ ptr

/-- Every call returns such an item, and every page links as many free slots as it has left. -/
structure Sound (s : State) : Prop where
  returns : ∀ fresh, Fresh s.pool fresh →
    ∃ pool ptr, get s.pool fresh = some (pool, ptr) ∧ Placed pool s.live ptr
  chains : ∀ page header, s.pool.pages page = some header →
    ∃ slots, Chain s.pool.next header.slots slots ∧ slots.Nodup ∧
      slots.length + header.allocatedCount = s.pool.slotsPerPage

/-- A second slot ends at or behind the end of the page. -/
def OneSlotFits (pageSize itemSize itemAlign : Nat) : Prop :=
  pageSize ≤ alignUp (alignUp sizeofPageHeader itemAlign + itemSize) itemAlign + itemSize

/-! ## The slots of a new page -/

section Align

variable {a : Nat}

theorem alignUp_eq (cur : Nat) (le : a ≤ 64) :
    alignUp cur (2 ^ a) = cur + (2 ^ a - cur % 2 ^ a) % 2 ^ a := by
  rw [alignUp, negated_mask cur le]

theorem alignUp_aligned (cur : Nat) (le : a ≤ 64) : 2 ^ a ∣ alignUp cur (2 ^ a) := by
  have inside := Nat.mod_lt cur (Nat.two_pow_pos a)
  rw [alignUp_eq cur le, Nat.dvd_iff_mod_eq_zero, Nat.add_mod_mod, ← Nat.mod_add_mod,
    Nat.add_sub_cancel' (Nat.le_of_lt inside), Nat.mod_self]

theorem alignUp_self {cur : Nat} (le : a ≤ 64) (aligned : 2 ^ a ∣ cur) : alignUp cur (2 ^ a) = cur := by
  rw [alignUp_eq cur le, Nat.mod_eq_zero_of_dvd aligned, Nat.sub_zero, Nat.mod_self, Nat.add_zero]

theorem alignUp_shift {page : Nat} (cur : Nat) (le : a ≤ 64) (aligned : 2 ^ a ∣ page) :
    alignUp (page + cur) (2 ^ a) = page + alignUp cur (2 ^ a) := by
  obtain ⟨n, rfl⟩ := aligned
  rw [alignUp_eq _ le, alignUp_eq _ le, Nat.mul_add_mod, Nat.add_assoc]

end Align

/-- Once a slot is linked, the loop links the same slot until its rounds are over. -/
theorem linkSlots_again {itemAlign stop slot : Nat} (aligned : alignUp slot itemAlign = slot)
    (below : slot < stop) (rounds : Nat) (slots : Option Nat) (next : Nat → Option Nat) :
    linkSlots itemAlign stop rounds slot (.next slot) slots next =
      (slots, Function.update next slot none) := by
  induction rounds generalizing next with
  | zero => rfl
  | succ rounds ih =>
    rw [linkSlots, aligned, if_neg (Nat.not_le.mpr below)]
    simp only [Tail.store]
    rw [ih, Function.update_idem]

/-- A new page has one free slot, if any was counted. -/
theorem linkSlots_eq {stop cursor rounds a : Nat} (next : Nat → Option Nat) (le : a ≤ 64)
    (positive : 0 < rounds) (below : alignUp cursor (2 ^ a) < stop) :
    linkSlots (2 ^ a) stop rounds cursor .slots none next =
      (some (alignUp cursor (2 ^ a)), Function.update next (alignUp cursor (2 ^ a)) none) := by
  obtain ⟨rounds, rfl⟩ := Nat.exists_eq_add_of_lt positive
  rw [Nat.zero_add, linkSlots, if_neg (Nat.not_le.mpr below)]
  simp only [Tail.store]
  rw [linkSlots_again (alignUp_self le (alignUp_aligned cursor le)) below]

/-- A pool that was created: the sizes, and the slot that was found to fit. -/
structure Created (k a : Nat) (pool : Pool) : Prop where
  align : a ≤ k
  page : k < 31
  pageSize : pool.pageSize = 2 ^ k
  itemAlign : pool.itemAlign = 2 ^ a
  positive : 0 < pool.itemSize
  counted : 0 < pool.slotsPerPage
  fits : alignUp sizeofPageHeader (2 ^ a) + pool.itemSize < 2 ^ k
  one : pool.slotsPerPage = 1 ↔ OneSlotFits (2 ^ k) pool.itemSize (2 ^ a)

theorem countSlots_pos {pageSize itemSize itemAlign cur : Nat} {positive : 0 < itemSize}
    (counted : 0 < countSlots pageSize itemSize itemAlign positive cur) :
    alignUp cur itemAlign + itemSize < pageSize ∧
      countSlots pageSize itemSize itemAlign positive cur =
        countSlots pageSize itemSize itemAlign positive (alignUp cur itemAlign + itemSize) + 1 := by
  rw [countSlots] at counted ⊢
  split at counted
  · cases counted
  · split at counted
    · cases counted
    · rename_i starts ends
      rw [if_neg starts, if_neg ends]
      exact ⟨Nat.not_le.mp ends, rfl⟩

theorem countSlots_zero_iff {pageSize itemSize itemAlign cur : Nat} {positive : 0 < itemSize} :
    countSlots pageSize itemSize itemAlign positive cur = 0 ↔
      pageSize ≤ alignUp cur itemAlign + itemSize := by
  rw [countSlots]
  split
  · rename_i starts
    exact ⟨fun _ => Nat.le_add_right_of_le starts, fun _ => rfl⟩
  · split
    · rename_i ends
      exact ⟨fun _ => ends, fun _ => rfl⟩
    · rename_i ends
      exact ⟨nofun, fun past => absurd past ends⟩

/-- What `pool_alloc_create` accepts. -/
theorem create_spec {k a itemSize : Nat} {pool : Pool} (page : k < 31) (align : a < 64)
    (accepted : create (2 ^ k) itemSize (2 ^ a) = some pool) :
    Created k a pool ∧ pool.itemSize = itemSize ∧ pool.listPartiallyFull = none ∧
      pool.pages = fun _ => none := by
  unfold create at accepted
  split at accepted
  · split at accepted
    · rename_i large _
      simp only at accepted
      split at accepted
      · rename_i counted
        cases accepted
        obtain ⟨fits, count⟩ := countSlots_pos counted
        refine ⟨⟨?_, page, rfl, rfl, Nat.lt_of_lt_of_le (by decide) large, counted, fits, ?_⟩, rfl, rfl,
          rfl⟩
        · -- The first slot is a multiple of the alignment, and lies inside the page.
          have aligned := alignUp_aligned sizeofPageHeader (Nat.le_of_lt align)
          have first : 0 < alignUp sizeofPageHeader (2 ^ a) :=
            Nat.lt_of_lt_of_le (by decide) (Nat.le_add_right ..)
          have bound : 2 ^ a ≤ 2 ^ k := Nat.le_trans (Nat.le_of_dvd first aligned) (by omega)
          exact (Nat.pow_le_pow_iff_right (by decide)).mp bound
        · have positive : 0 < itemSize := Nat.lt_of_lt_of_le (by decide) large
          have second : countSlots (2 ^ k) itemSize (2 ^ a) positive
              (alignUp sizeofPageHeader (2 ^ a) + itemSize) = 0 ↔
              OneSlotFits (2 ^ k) itemSize (2 ^ a) := countSlots_zero_iff
          rw [← second]
          simp only [count, Nat.add_eq_right]
      · cases accepted
    · cases accepted
  · cases accepted

/-- The offset of the first slot of a page. -/
def firstSlot (pool : Pool) : Nat := alignUp sizeofPageHeader pool.itemAlign

/-- The first slot of a page, by its address. -/
theorem Created.slot_eq {k a : Nat} {pool : Pool} {page : Nat} (created : Created k a pool)
    (aligned : pool.pageSize ∣ page) :
    alignUp (page + sizeofPageHeader) (2 ^ a) = page + firstSlot pool := by
  have divides : 2 ^ a ∣ page := by
    rw [created.pageSize] at aligned
    exact Nat.dvd_trans (Nat.pow_dvd_pow 2 created.align) aligned
  have small := created.page
  have align := created.align
  rw [alignUp_shift _ (by omega) divides, firstSlot, created.itemAlign]

theorem Created.placed {k a : Nat} {pool : Pool} {page : Nat} {header : Page} {others : List Nat}
    (created : Created k a pool) (mapped : pool.pages page = some header)
    (aligned : pool.pageSize ∣ page)
    (apart : ∀ other ∈ others, ∃ page', pool.pageSize ∣ page' ∧ page' ≠ page ∧
      other = page' + firstSlot pool) :
    Placed pool others (page + firstSlot pool) := by
  have small := created.page
  have align := created.align
  have behind : 32 ≤ firstSlot pool := Nat.le_add_right ..
  have fits : firstSlot pool + pool.itemSize < pool.pageSize := by
    rw [firstSlot, created.itemAlign, created.pageSize]
    exact created.fits
  refine ⟨by omega, ?_, ⟨page, header, mapped, Nat.add_le_add_left behind page, by omega⟩, fun other member => ?_⟩
  · rw [← created.slot_eq aligned, created.itemAlign]
    exact alignUp_aligned _ (by omega)
  · obtain ⟨page', aligned', different, rfl⟩ := apart other member
    obtain ⟨i, rfl⟩ := aligned
    obtain ⟨j, rfl⟩ := aligned'
    have different : i ≠ j := by
      rintro rfl
      exact different rfl
    rcases Nat.lt_or_gt_of_ne different with less | less
    · have next := Nat.mul_le_mul_left pool.pageSize (Nat.succ_le_of_lt less)
      rw [Nat.mul_succ] at next
      omega
    · have next := Nat.mul_le_mul_left pool.pageSize (Nat.succ_le_of_lt less)
      rw [Nat.mul_succ] at next
      omega

/-- A page that was mapped for a call, whose only linked slot is the first one. -/
theorem ensure_eq {k a : Nat} {pool : Pool} {fresh : Nat} (created : Created k a pool)
    (none : pool.listPartiallyFull = none) (new : Fresh pool fresh) :
    ensurePartiallyFullPageAvailable pool fresh = { pool with
      listPartiallyFull := some fresh
      pages := Function.update pool.pages fresh
        (some ⟨.partiallyFull, .none, some (fresh + firstSlot pool), 0⟩)
      next := Function.update pool.next (fresh + firstSlot pool) .none } := by
  have small := created.page
  have align := created.align
  have below : alignUp (fresh + sizeofPageHeader) (2 ^ a) < fresh + pool.pageSize := by
    have fits := created.fits
    rw [created.slot_eq new.1, firstSlot, created.itemAlign, created.pageSize]
    omega
  rw [ensurePartiallyFullPageAvailable, if_pos none, created.itemAlign,
    linkSlots_eq pool.next (by omega) created.counted below, created.slot_eq new.1, none]

/-- A call that maps a page returns its first slot, and leaves no slot in its list. -/
theorem get_eq {k a : Nat} {pool : Pool} {fresh : Nat} (created : Created k a pool)
    (none : pool.listPartiallyFull = none) (new : Fresh pool fresh) :
    get pool fresh = some ({ pool with
      listPartiallyFull := if pool.slotsPerPage = 1 then .none else some fresh
      listFull := if pool.slotsPerPage = 1 then some fresh else pool.listFull
      pages := Function.update pool.pages fresh (some (if pool.slotsPerPage = 1
        then ⟨.full, pool.listFull, .none, 1⟩ else ⟨.partiallyFull, .none, .none, 1⟩))
      next := Function.update pool.next (fresh + firstSlot pool) .none },
      fresh + firstSlot pool) := by
  simp only [get, ensure_eq created none new, Function.update_self, Option.bind_eq_bind,
    Option.bind_some, Nat.zero_add, eq_comm (a := 1) (b := pool.slotsPerPage)]
  by_cases one : pool.slotsPerPage = 1
  · simp [one, setHead]
  · simp [one]

/-- The page of an address inside it. -/
theorem pageOf_eq {k : Nat} {pool : Pool} {page off : Nat} (size : pool.pageSize = 2 ^ k)
    (small : k < 31) (aligned : pool.pageSize ∣ page) (fits : page + pool.pageSize ≤ 2 ^ 64)
    (below : off < pool.pageSize) : pageOf pool (page + off) = page := by
  rw [size] at aligned fits below
  obtain ⟨q, rfl⟩ := aligned
  have split : 2 ^ 64 = 2 ^ k * 2 ^ (64 - k) := by rw [← Nat.pow_add, Nat.add_sub_cancel' (by omega)]
  have bound : q < 2 ^ (64 - k) := by
    have bound : 2 ^ k * (q + 1) ≤ 2 ^ k * 2 ^ (64 - k) := by
      rw [← split, Nat.mul_succ]
      exact fits
    exact Nat.le_of_mul_le_mul_left bound (Nat.two_pow_pos k)
  have mask : 2 ^ 64 - 2 ^ k = 2 ^ k * (2 ^ (64 - k) - 1) + 0 := by
    rw [Nat.mul_sub, ← split, Nat.mul_one, Nat.add_zero]
  rw [pageOf, size, mask]
  apply Nat.eq_of_testBit_eq
  intro i
  rw [Nat.testBit_and, Nat.testBit_two_pow_mul_add _ below,
    Nat.testBit_two_pow_mul_add _ (Nat.two_pow_pos k), ← Nat.add_zero (2 ^ k * q),
    Nat.testBit_two_pow_mul_add _ (Nat.two_pow_pos k), Nat.testBit_two_pow_sub_one]
  by_cases low : i < k
  · simp [low]
  · rw [if_neg low, if_neg low, if_neg low]
    by_cases high : i - k < 64 - k
    · simp [high]
    · have large : 2 ^ (64 - k) ≤ 2 ^ (i - k) := Nat.pow_le_pow_right (by decide) (Nat.not_lt.mp high)
      rw [Nat.testBit_lt_two_pow (Nat.lt_of_lt_of_le bound large), Bool.false_and]

/-! ## Pages of one slot -/

/-- The invariant of a pool with one slot in each page: every mapped page is full, and its
slot is a live item. -/
structure Single (k a : Nat) (s : State) : Prop where
  created : Created k a s.pool
  one : s.pool.slotsPerPage = 1
  none : s.pool.listPartiallyFull = none
  full : ∀ page header, s.pool.pages page = some header →
    header.prev = .full ∧ header.slots = .none ∧ header.allocatedCount = 1
  mapped : ∀ page header, s.pool.pages page = some header →
    s.pool.pageSize ∣ page ∧ page + s.pool.pageSize ≤ 2 ^ 64
  live : ∀ ptr, ptr ∈ s.live ↔ ∃ page header, s.pool.pages page = some header ∧
    ptr = page + firstSlot s.pool
  distinct : s.live.Nodup

theorem Created.same {k a : Nat} {pool pool' : Pool} (created : Created k a pool)
    (pageSize : pool'.pageSize = pool.pageSize) (itemAlign : pool'.itemAlign = pool.itemAlign)
    (itemSize : pool'.itemSize = pool.itemSize)
    (slotsPerPage : pool'.slotsPerPage = pool.slotsPerPage) : Created k a pool' := by
  obtain ⟨align, page, hasSize, hasAlign, positive, counted, fits, one⟩ := created
  exact ⟨align, page, pageSize.trans hasSize, itemAlign.trans hasAlign, itemSize ▸ positive,
    slotsPerPage ▸ counted, itemSize ▸ fits, by rw [slotsPerPage, itemSize]; exact one⟩

/-- A call maps a page and returns its slot. -/
theorem Single.get {k a : Nat} {s : State} {fresh : Nat} (single : Single k a s)
    (new : Fresh s.pool fresh) : ∃ pool ptr, PoolAlloc.get s.pool fresh = some (pool, ptr) ∧
      Placed pool s.live ptr ∧ Single k a ⟨pool, ptr :: s.live⟩ := by
  have returned := get_eq single.created single.none new
  simp only [single.one, if_true] at returned
  refine ⟨_, _, returned, ?_, ?_⟩
  · refine Created.placed (single.created.same rfl rfl rfl single.one.symm) (Function.update_self ..) new.1 ?_
    intro other member
    obtain ⟨page, header, mapped, rfl⟩ := (single.live other).mp member
    refine ⟨page, (single.mapped page header mapped).1, ?_, rfl⟩
    rintro rfl
    cases new.2.2.2.symm.trans mapped
  · have cases : ∀ page header, Function.update s.pool.pages fresh
        (some ⟨.full, s.pool.listFull, .none, 1⟩) page = some header →
        (page = fresh ∧ header = ⟨.full, s.pool.listFull, .none, 1⟩) ∨
          (page ≠ fresh ∧ s.pool.pages page = some header) := by
      intro page header mapped
      by_cases same : page = fresh
      · rw [same, Function.update_self] at mapped
        exact .inl ⟨same, (Option.some.inj mapped).symm⟩
      · rw [Function.update_of_ne same] at mapped
        exact .inr ⟨same, mapped⟩
    refine ⟨single.created.same rfl rfl rfl single.one.symm, rfl, rfl, ?_, ?_, ?_, ?_⟩
    · intro page header mapped
      rcases cases page header mapped with ⟨-, rfl⟩ | ⟨-, before⟩
      · exact ⟨rfl, rfl, rfl⟩
      · exact single.full page header before
    · intro page header mapped
      rcases cases page header mapped with ⟨rfl, -⟩ | ⟨-, before⟩
      · exact ⟨new.1, new.2.2.1⟩
      · exact single.mapped page header before
    · intro ptr
      rw [List.mem_cons, single.live]
      constructor
      · rintro (rfl | ⟨page, header, mapped, rfl⟩)
        · exact ⟨fresh, _, Function.update_self .., rfl⟩
        · have different : page ≠ fresh := by
            rintro rfl
            cases new.2.2.2.symm.trans mapped
          exact ⟨page, header, (Function.update_of_ne different ..).trans mapped, rfl⟩
      · rintro ⟨page, header, mapped, rfl⟩
        rcases cases page header mapped with ⟨rfl, -⟩ | ⟨-, before⟩
        · exact .inl rfl
        · exact .inr ⟨page, header, before, rfl⟩
    · refine List.nodup_cons.mpr ⟨fun member => ?_, single.distinct⟩
      obtain ⟨page, header, mapped, same⟩ := (single.live _).mp member
      obtain rfl := Nat.add_right_cancel same
      cases new.2.2.2.symm.trans mapped

/-- A live item is put back, and its page is unmapped. -/
theorem Single.put {k a : Nat} {s : State} {ptr : Nat} {pool : Pool} (single : Single k a s)
    (member : ptr ∈ s.live) (ran : PoolAlloc.put s.pool ptr = some pool) :
    Single k a ⟨pool, s.live.erase ptr⟩ := by
  obtain ⟨page, header, mapped, rfl⟩ := (single.live ptr).mp member
  obtain ⟨prev, -, count⟩ := single.full page header mapped
  obtain ⟨aligned, fits⟩ := single.mapped page header mapped
  have below : firstSlot s.pool < s.pool.pageSize := by
    have inside := single.created.fits
    rw [firstSlot, single.created.itemAlign, single.created.pageSize]
    omega
  have found : pageOf s.pool (page + firstSlot s.pool) = page :=
    pageOf_eq single.created.pageSize single.created.page aligned fits below
  simp only [PoolAlloc.put, found, mapped, Option.bind_eq_bind, Option.bind_some, count, prev,
    Nat.one_pos, if_true, Nat.sub_self, setHead] at ran
  cases ran
  have cases : ∀ page' header', Function.update s.pool.pages page .none page' = some header' ↔
      page' ≠ page ∧ s.pool.pages page' = some header' := by
    intro page' header'
    by_cases same : page' = page
    · rw [same, Function.update_self]
      exact ⟨nofun, fun ⟨different, _⟩ => absurd rfl different⟩
    · rw [Function.update_of_ne same]
      exact ⟨fun before => ⟨same, before⟩, And.right⟩
  refine ⟨single.created.same rfl rfl rfl rfl, single.one, single.none, ?_, ?_, ?_,
    single.distinct.erase _⟩
  · intro page' header' mapped'
    exact single.full page' header' ((cases page' header').mp mapped').2
  · intro page' header' mapped'
    exact single.mapped page' header' ((cases page' header').mp mapped').2
  · intro ptr
    rw [single.distinct.mem_erase_iff, single.live]
    constructor
    · rintro ⟨different, page', header', mapped', rfl⟩
      refine ⟨page', header', (cases page' header').mpr ⟨?_, mapped'⟩, rfl⟩
      rintro rfl
      exact different rfl
    · rintro ⟨page', header', mapped', rfl⟩
      obtain ⟨different, before⟩ := (cases page' header').mp mapped'
      exact ⟨fun same => different (Nat.add_right_cancel same), page', header', before, rfl⟩

theorem Single.sound {k a : Nat} {s : State} (single : Single k a s) : Sound s := by
  refine ⟨fun fresh new => ?_, fun page header mapped => ?_⟩
  · obtain ⟨pool, ptr, returned, placed, -⟩ := single.get new
    exact ⟨pool, ptr, returned, placed⟩
  · obtain ⟨-, slots, count⟩ := single.full page header mapped
    refine ⟨[], slots, List.nodup_nil, ?_⟩
    rw [count, single.one]
    rfl

theorem Single.next {k a itemSize : Nat} {s s' : State} {action : Action} (single : Single k a s)
    (moved : (pools (2 ^ k) itemSize (2 ^ a)).next s action = some s') : Single k a s' := by
  cases action with
  | get fresh =>
    simp only [pools] at moved
    split at moved
    · rename_i new
      obtain ⟨pool, ptr, returned, -, after⟩ := single.get new
      rw [returned] at moved
      cases moved
      exact after
    · cases moved
  | put ptr =>
    simp only [pools] at moved
    split at moved
    · rename_i member
      obtain ⟨pool, ran, rest⟩ := Option.bind_eq_some_iff.mp moved
      cases rest
      exact single.put member ran
    · cases moved
  | write ptr link =>
    simp only [pools] at moved
    split at moved
    · cases moved
      exact ⟨single.created.same rfl rfl rfl rfl, single.one, single.none, single.full,
        single.mapped, single.live, single.distinct⟩
    · cases moved

/-- The items of an accepted pool are sound in every run exactly when no second slot fits
behind the first one. -/
theorem sound_iff_one_slot_fits {k a itemSize : Nat} {pool : Pool} (page : k < 31) (align : a < 64)
    (accepted : create (2 ^ k) itemSize (2 ^ a) = some pool) :
    (∀ s, (pools (2 ^ k) itemSize (2 ^ a)).Reachable s → Sound s) ↔
      OneSlotFits (2 ^ k) itemSize (2 ^ a) := by
  obtain ⟨created, rfl, none, unmapped⟩ := create_spec page align accepted
  rw [← created.one]
  have begun : (pools (2 ^ k) pool.itemSize (2 ^ a)).Reachable ⟨pool, []⟩ := .start ⟨accepted, rfl⟩
  constructor
  · intro sound
    -- The first call leaves a page without free slots, whose count says that it has one left.
    have new : Fresh pool pool.pageSize := by
      have bound : 2 ^ k ≤ 2 ^ 30 := Nat.pow_le_pow_right (by decide) (by omega)
      refine ⟨Nat.dvd_refl _, ?_, ?_, by rw [unmapped]⟩
      · rw [created.pageSize]
        exact Nat.two_pow_pos k
      · rw [created.pageSize]
        omega
    by_contra more
    obtain ⟨after, moved, page, count⟩ : ∃ s, (pools (2 ^ k) pool.itemSize (2 ^ a)).next ⟨pool, []⟩
        (.get pool.pageSize) = some s ∧
        s.pool.pages pool.pageSize = some ⟨.partiallyFull, .none, .none, 1⟩ ∧
        s.pool.slotsPerPage = pool.slotsPerPage := by
      have returned := get_eq created none new
      simp only [if_neg more] at returned
      simp only [pools, if_pos new, returned, Option.bind_eq_bind, Option.bind_some]
      exact ⟨_, rfl, Function.update_self .., rfl⟩
    obtain ⟨slots, chain, -, length⟩ := (sound after (begun.step moved)).chains _ _ page
    cases slots with
    | nil =>
      rw [count] at length
      exact more length.symm
    | cons slot rest => cases chain.1
  · intro one s reached
    have single : Single k a s := by
      refine reached.invariant (fun s begins => ?_) fun s action s' _ single moved => single.next moved
      obtain ⟨same, live⟩ := begins
      cases accepted.symm.trans same
      refine ⟨created, one, none, ?_, ?_, ?_, by rw [live]; exact List.nodup_nil⟩
      · intro page header mapped
        rw [unmapped] at mapped
        cases mapped
      · intro page header mapped
        rw [unmapped] at mapped
        cases mapped
      · intro ptr
        rw [live, unmapped]
        exact ⟨nofun, fun ⟨_, _, mapped, _⟩ => nomatch mapped⟩
    exact single.sound

/-- Items of 3000 bytes, of which one fits in a page. -/
theorem sound_iff_one_slot_fits_applies : (create (2 ^ 12) 3000 (2 ^ 3)).isSome = true ∧
    ∀ s, (pools (2 ^ 12) 3000 (2 ^ 3)).Reachable s → Sound s := by
  have created : (create (2 ^ 12) 3000 (2 ^ 3)).isSome = true := by decide +kernel
  obtain ⟨pool, accepted⟩ := Option.isSome_iff_exists.mp created
  refine ⟨created, (sound_iff_one_slot_fits (by decide) (by decide) accepted).mpr ?_⟩
  unfold OneSlotFits
  decide

/-- A new pool for items of 1024 bytes, of which three fit in a page. -/
def kilobytes : Pool := ⟨none, none, 1024, 8, 3, 4096, fun _ => none, fun _ => none⟩

theorem kilobytes_created : create 4096 1024 8 = some kilobytes := by
  have counted : countSlots 4096 1024 8 (by decide) sizeofPageHeader = 3 := by decide +kernel
  simp [create, counted, kilobytes, sizeofPointer, sizeofPageHeader]

/-- The second call for an item of such a pool follows a null pointer. -/
theorem second_item_faults : ∃ s, (pools 4096 1024 8).Reachable s ∧ s.live = [8224] ∧
    get s.pool 12288 = none ∧ ¬ Sound s := by
  have begun : (pools 4096 1024 8).Reachable ⟨kilobytes, []⟩ := .start ⟨kilobytes_created, rfl⟩
  obtain ⟨s, reached, checked⟩ := begun.replay_check [.get 8192]
    (fun s => s.live = [8224] && (get s.pool 12288).isNone && decide (Fresh s.pool 12288))
    (by decide)
  obtain ⟨⟨live, faulted⟩, new⟩ : (s.live = [8224] ∧ get s.pool 12288 = none) ∧
      Fresh s.pool 12288 := by simpa using checked
  refine ⟨s, reached, live, faulted, fun sound => ?_⟩
  obtain ⟨pool, ptr, returned, -⟩ := sound.returns 12288 new
  rw [faulted] at returned
  cases returned

end Mysnips.PoolAlloc

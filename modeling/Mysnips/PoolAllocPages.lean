import Mysnips.PoolAlloc

/-! The two page lists of the pool allocator, and how `pool_alloc_delete` walks through
them. The `prev` of a page is set to one of the two list heads when the page is put in
front of that list, and nothing repairs it when another page is put in front of this one:
the lists stay right as long as there is at most one page. -/
namespace Mysnips.PoolAlloc
open Machine SinglyLinked Transition

/-- A loop of `pool_alloc_delete`: the pages that are left, and those given back in order.
Following a page that is not mapped is a fault. -/
def freeList : (fuel : Nat) → (pages : Nat → Option Page) → (cursor : Option Nat) →
    Option ((Nat → Option Page) × List Nat)
  | _, pages, none => some (pages, [])
  | 0, _, some _ => none
  | fuel + 1, pages, some page => do
    let header ← pages page
    let (pages, freed) ← freeList fuel (Function.update pages page none) header.next
    some (pages, page :: freed)

/-- `pool_alloc_delete`, with the pages that it has given back to the system. -/
def delete (fuel : Nat) (pool : Pool) : Option (Pool × List Nat) := do
  let cursor := pool.listPartiallyFull
  let pool := { pool with listPartiallyFull := none }
  let (pages, partiallyFull) ← freeList fuel pool.pages cursor
  let pool := { pool with pages }
  let cursor := pool.listFull
  let pool := { pool with listFull := none }
  let (pages, full) ← freeList fuel pool.pages cursor
  some ({ pool with pages }, partiallyFull ++ full)

/-- `*prev`. -/
def headOf (pool : Pool) : ListHead → Option Nat
  | .partiallyFull => pool.listPartiallyFull
  | .full => pool.listFull

/-- `page->next`. -/
def nextPage (pages : Nat → Option Page) (page : Nat) : Option Nat := (pages page).bind Page.next

/-- The lists hold the mapped pages, each once and by whether it has free slots, and every
page is referred to by what its `prev` points to. -/
structure PageLists (pool : Pool) (partiallyFull full : List Nat) : Prop where
  partiallyChain : Chain (nextPage pool.pages) pool.listPartiallyFull partiallyFull
  fullChain : Chain (nextPage pool.pages) pool.listFull full
  distinct : (partiallyFull ++ full).Nodup
  partially_iff : ∀ page, page ∈ partiallyFull ↔
    ∃ header, pool.pages page = some header ∧ header.allocatedCount ≠ pool.slotsPerPage
  full_iff : ∀ page, page ∈ full ↔
    ∃ header, pool.pages page = some header ∧ header.allocatedCount = pool.slotsPerPage
  back : ∀ page header, pool.pages page = some header → headOf pool header.prev = some page

/-- Deleting the pool returns, and gives back every mapped page once. -/
def DeletesAll (pool : Pool) : Prop :=
  ∃ fuel pool' freed, delete fuel pool = some (pool', freed) ∧ freed.Nodup ∧
    (∀ page, page ∈ freed ↔ ∃ header, pool.pages page = some header) ∧
    ∀ page, pool'.pages page = none

/-- The lists are in order, and the pool can be deleted. -/
def InOrder (pool : Pool) : Prop :=
  (∃ partiallyFull full, PageLists pool partiallyFull full) ∧ DeletesAll pool

/-- What the users of a pool may do next. -/
def Offered (s : State) : Action → Prop
  | .get fresh => Fresh s.pool fresh
  | .put ptr => ptr ∈ s.live
  | .write ptr _ => ptr ∈ s.live

/-- An item is only asked for while no item is live. -/
def AsksWhenEmpty (s : State) : Action → Prop
  | .get _ => s.live = []
  | _ => True

instance (s : State) (action : Action) : Decidable (AsksWhenEmpty s action) :=
  match action with
  | .get _ => inferInstanceAs (Decidable (s.live = []))
  | .put _ => inferInstanceAs (Decidable True)
  | .write _ _ => inferInstanceAs (Decidable True)

/-! ## Deleting a pool -/

/-- Giving back the pages of a list. -/
theorem freeList_chain {nodes : List Nat} {fuel : Nat} {pages : Nat → Option Page}
    {cursor : Option Nat} (chain : Chain (nextPage pages) cursor nodes) (distinct : nodes.Nodup)
    (mapped : ∀ page ∈ nodes, ∃ header, pages page = some header) (enough : nodes.length ≤ fuel) :
    freeList fuel pages cursor = some (fun page => if page ∈ nodes then none else pages page, nodes) := by
  induction nodes generalizing fuel pages cursor with
  | nil =>
    cases chain
    simp [freeList]
  | cons first rest ih =>
    obtain ⟨rfl, tail⟩ := chain
    obtain ⟨apart, distinctRest⟩ := List.nodup_cons.mp distinct
    obtain ⟨header, found⟩ := mapped first List.mem_cons_self
    have different : ∀ page ∈ rest, page ≠ first := by
      rintro page member rfl
      exact apart member
    obtain ⟨fuel, rfl⟩ : ∃ less, fuel = less + 1 := Nat.exists_eq_add_one.mpr (by simp at enough; omega)
    have next : nextPage pages first = header.next := by
      rw [nextPage, found]
      rfl
    have framed : Chain (nextPage (Function.update pages first none)) header.next rest := by
      rw [← next]
      apply tail.frame
      intro page member
      rw [nextPage, nextPage, Function.update_of_ne (different page member)]
    have left : ∀ page ∈ rest, ∃ header, Function.update pages first none page = some header := by
      intro page member
      rw [Function.update_of_ne (different page member)]
      exact mapped page (List.mem_cons_of_mem first member)
    rw [freeList, found]
    simp only [Option.bind_eq_bind, Option.bind_some]
    rw [ih framed distinctRest left (by simpa using enough)]
    simp only [Option.bind_some, Option.some.injEq, Prod.mk.injEq, and_true]
    funext page
    by_cases same : page = first
    · simp [same]
    · simp [same]

/-- When the lists are in order, deleting the pool gives back every page once. -/
theorem PageLists.deletesAll {pool : Pool} {partiallyFull full : List Nat}
    (lists : PageLists pool partiallyFull full) : DeletesAll pool := by
  obtain ⟨distinctFirst, distinctSecond, disjoint⟩ := List.nodup_append.mp lists.distinct
  have apart : ∀ page ∈ full, page ∉ partiallyFull := fun page inFull inFirst =>
    disjoint page inFirst page inFull rfl
  have mappedFirst : ∀ page ∈ partiallyFull, ∃ header, pool.pages page = some header := by
    intro page member
    obtain ⟨header, found, -⟩ := (lists.partially_iff page).mp member
    exact ⟨header, found⟩
  have mappedSecond : ∀ page ∈ full, ∃ header, pool.pages page = some header := by
    intro page member
    obtain ⟨header, found, -⟩ := (lists.full_iff page).mp member
    exact ⟨header, found⟩
  have first := freeList_chain lists.partiallyChain distinctFirst mappedFirst
    (Nat.le_add_right _ full.length)
  have framed : Chain (nextPage fun page => if page ∈ partiallyFull then none else pool.pages page)
      pool.listFull full := by
    apply lists.fullChain.frame
    intro page member
    rw [nextPage, nextPage, if_neg (apart page member)]
  have left : ∀ page ∈ full, ∃ header,
      (if page ∈ partiallyFull then none else pool.pages page) = some header := by
    intro page member
    rw [if_neg (apart page member)]
    exact mappedSecond page member
  have second := freeList_chain framed distinctSecond left (Nat.le_add_left _ partiallyFull.length)
  refine ⟨partiallyFull.length + full.length, { pool with
    listPartiallyFull := none
    listFull := none
    pages := fun page =>
      if page ∈ full then none else if page ∈ partiallyFull then none else pool.pages page },
    partiallyFull ++ full, ?_, lists.distinct, fun page => ?_, fun page => ?_⟩
  · simp only [delete, first, second, Option.bind_eq_bind, Option.bind_some]
  · rw [List.mem_append, lists.partially_iff, lists.full_iff]
    constructor
    · rintro (⟨header, found, -⟩ | ⟨header, found, -⟩)
      · exact ⟨header, found⟩
      · exact ⟨header, found⟩
    · rintro ⟨header, found⟩
      by_cases counted : header.allocatedCount = pool.slotsPerPage
      · exact .inr ⟨header, found, counted⟩
      · exact .inl ⟨header, found, counted⟩
  · simp only
    split
    · rfl
    split
    · rfl
    rename_i notFull notFirst
    cases found : pool.pages page with
    | none => rfl
    | some header =>
      by_cases counted : header.allocatedCount = pool.slotsPerPage
      · exact absurd ((lists.full_iff page).mpr ⟨header, found, counted⟩) notFull
      · exact absurd ((lists.partially_iff page).mpr ⟨header, found, counted⟩) notFirst

/-! ## One page at a time -/

/-- The only page of a pool, which has given out its only linked slot. -/
def onlyPage (pool : Pool) : Page :=
  if pool.slotsPerPage = 1 then ⟨.full, none, none, 1⟩ else ⟨.partiallyFull, none, none, 1⟩

/-- The invariant while items are only asked for when none is live: there is no page, or one
page with the live item. -/
structure AtMostOne (k a : Nat) (s : State) : Prop where
  created : Created k a s.pool
  content : (s.live = [] ∧ s.pool.listPartiallyFull = none ∧ s.pool.listFull = none ∧
      ∀ page, s.pool.pages page = none) ∨
    ∃ page, s.live = [page + firstSlot s.pool] ∧ s.pool.pageSize ∣ page ∧
      page + s.pool.pageSize ≤ 2 ^ 64 ∧
      s.pool.listPartiallyFull = (if s.pool.slotsPerPage = 1 then none else some page) ∧
      s.pool.listFull = (if s.pool.slotsPerPage = 1 then some page else none) ∧
      s.pool.pages = Function.update (fun _ => none) page (some (onlyPage s.pool))

theorem AtMostOne.lists {k a : Nat} {s : State} (few : AtMostOne k a s) :
    ∃ partiallyFull full, PageLists s.pool partiallyFull full := by
  rcases few.content with ⟨-, partially, full, unmapped⟩ | ⟨page, -, -, -, partially, full, pages⟩
  · refine ⟨[], [], partially, full, List.nodup_nil, ?_, ?_, ?_⟩
    · simp [unmapped]
    · simp [unmapped]
    · simp [unmapped]
  · have mapped : ∀ other header, s.pool.pages other = some header ↔
        other = page ∧ header = onlyPage s.pool := by
      intro other header
      rw [pages]
      by_cases same : other = page
      · rw [same, Function.update_self, Option.some.injEq, eq_comm]
        simp
      · rw [Function.update_of_ne same]
        simp [same]
    have next : nextPage s.pool.pages page = none := by
      rw [nextPage, pages, Function.update_self, onlyPage]
      split <;> rfl
    by_cases one : s.pool.slotsPerPage = 1
    · rw [if_pos one] at partially full
      refine ⟨[], [page], partially, ⟨full, next⟩, by simp, ?_, ?_, ?_⟩
      · simp [mapped, onlyPage, one]
      · simp [mapped, onlyPage, one]
      · simp [mapped, onlyPage, one, headOf, full]
    · rw [if_neg one] at partially full
      refine ⟨[page], [], ⟨partially, next⟩, full, by simp, ?_, ?_, ?_⟩
      · simp [mapped, onlyPage, one, Ne.symm one]
      · simp [mapped, onlyPage, one, Ne.symm one]
      · simp [mapped, onlyPage, one, headOf, partially]

theorem AtMostOne.inOrder {k a : Nat} {s : State} (few : AtMostOne k a s) : InOrder s.pool := by
  obtain ⟨partiallyFull, full, lists⟩ := few.lists
  exact ⟨⟨partiallyFull, full, lists⟩, lists.deletesAll⟩

/-- The first item of an empty pool. -/
theorem AtMostOne.get {k a : Nat} {s : State} {fresh : Nat} (few : AtMostOne k a s)
    (empty : s.live = []) (new : Fresh s.pool fresh) :
    ∃ pool ptr, PoolAlloc.get s.pool fresh = some (pool, ptr) ∧ AtMostOne k a ⟨pool, ptr :: s.live⟩ := by
  rcases few.content with ⟨-, partially, full, unmapped⟩ | ⟨page, live, -⟩
  · refine ⟨_, _, get_eq few.created partially new, few.created.same rfl rfl rfl rfl, .inr
      ⟨fresh, ?_, new.1, new.2.2.1, rfl, ?_, ?_⟩⟩
    · rw [empty]
      rfl
    · rw [full]
    · have none : s.pool.pages = fun _ => none := funext unmapped
      simp only [none, full, onlyPage]
  · cases empty.symm.trans live

/-- The live item is put back, and the only page is given back. -/
theorem AtMostOne.put {k a : Nat} {s : State} {ptr : Nat} (few : AtMostOne k a s)
    (member : ptr ∈ s.live) :
    ∃ pool, PoolAlloc.put s.pool ptr = some pool ∧ AtMostOne k a ⟨pool, s.live.erase ptr⟩ := by
  rcases few.content with ⟨empty, -⟩ | ⟨page, live, aligned, fits, partially, full, pages⟩
  · rw [empty] at member
    cases member
  rw [live, List.mem_singleton] at member
  subst member
  have below : firstSlot s.pool < s.pool.pageSize := by
    have inside := few.created.fits
    rw [firstSlot, few.created.itemAlign, few.created.pageSize]
    omega
  have found : pageOf s.pool (page + firstSlot s.pool) = page :=
    pageOf_eq few.created.pageSize few.created.page aligned fits below
  have mapped : s.pool.pages page = some (onlyPage s.pool) := by rw [pages, Function.update_self]
  have erased : s.live.erase (page + firstSlot s.pool) = [] := by rw [live, List.erase_cons_head]
  have unmapped : ∀ other, Function.update s.pool.pages page none other = none := by
    intro other
    rw [pages, Function.update_idem, Function.update_eq_self_iff.mpr rfl]
  by_cases one : s.pool.slotsPerPage = 1
  · rw [if_pos one] at partially
    simp only [PoolAlloc.put, found, mapped, onlyPage, if_pos one, Option.bind_eq_bind,
      Option.bind_some, Nat.one_pos, if_true, Nat.sub_self, setHead, Option.some.injEq,
      exists_eq_left']
    exact ⟨few.created.same rfl rfl rfl rfl, .inl ⟨erased, partially, rfl, unmapped⟩⟩
  · rw [if_neg one] at full
    simp only [PoolAlloc.put, found, mapped, onlyPage, if_neg one, Option.bind_eq_bind,
      Option.bind_some, Nat.one_pos, if_true, Nat.sub_self, setHead, Option.some.injEq,
      exists_eq_left']
    exact ⟨few.created.same rfl rfl rfl rfl, .inl ⟨erased, rfl, full, unmapped⟩⟩

/-- Whatever may be done next returns, if it asks for an item only when none is live. -/
theorem AtMostOne.next {k a itemSize : Nat} {s : State} {action : Action} (few : AtMostOne k a s)
    (offered : Offered s action) (asks : AsksWhenEmpty s action) :
    ∃ s', (pools (2 ^ k) itemSize (2 ^ a)).next s action = some s' ∧ AtMostOne k a s' := by
  cases action with
  | get fresh =>
    obtain ⟨pool, ptr, returned, after⟩ := few.get asks offered
    refine ⟨_, (if_pos offered).trans ?_, after⟩
    rw [returned]
    rfl
  | put ptr =>
    obtain ⟨pool, returned, after⟩ := few.put offered
    refine ⟨_, (if_pos offered).trans ?_, after⟩
    rw [returned]
    rfl
  | write ptr link =>
    refine ⟨_, if_pos offered, ?_⟩
    exact ⟨few.created.same rfl rfl rfl rfl, few.content⟩

/-- A second page: no list refers to the first one any more. In a page with more slots, the
second item is not even found. -/
theorem AtMostOne.second {k a itemSize fresh : Nat} {s s' : State} (few : AtMostOne k a s)
    (live : s.live ≠ [])
    (moved : (pools (2 ^ k) itemSize (2 ^ a)).next s (.get fresh) = some s') : ¬ InOrder s'.pool := by
  rintro ⟨⟨partiallyFull, full, lists⟩, -⟩
  simp only [pools] at moved
  split at moved
  swap
  · cases moved
  rename_i new
  rcases few.content with ⟨empty, -⟩ | ⟨page, -, -, -, partially, -, pages⟩
  · exact live empty
  have mapped : s.pool.pages page = some (onlyPage s.pool) := by rw [pages, Function.update_self]
  by_cases one : s.pool.slotsPerPage = 1
  · rw [if_pos one] at partially
    have returned := get_eq few.created partially new
    simp only [one, if_true] at returned
    rw [returned] at moved
    cases moved
    have different : page ≠ fresh := by
      rintro rfl
      cases new.2.2.2.symm.trans mapped
    have older := lists.back page (onlyPage s.pool)
      ((Function.update_of_ne different ..).trans mapped)
    have newer := lists.back fresh _ (Function.update_self ..)
    rw [onlyPage, if_pos one] at older
    exact different (Option.some.inj (older.symm.trans newer))
  · rw [if_neg one] at partially
    have same : ensurePartiallyFullPageAvailable s.pool fresh = s.pool := by
      rw [ensurePartiallyFullPageAvailable, if_neg (by simp [partially])]
    have faulted : PoolAlloc.get s.pool fresh = none := by
      simp only [PoolAlloc.get, same, partially, Option.bind_eq_bind, Option.bind_some, mapped,
        onlyPage, if_neg one, Option.bind_none]
    rw [faulted] at moved
    cases moved

theorem create_listFull {pageSize itemSize itemAlign : Nat} {pool : Pool}
    (accepted : create pageSize itemSize itemAlign = some pool) : pool.listFull = none := by
  unfold create at accepted
  split at accepted
  swap
  · cases accepted
  split at accepted
  swap
  · cases accepted
  simp only at accepted
  split at accepted
  · cases accepted
    rfl
  · cases accepted

/-- While items are only asked for when none is live, the page lists are in order; and whatever is
done next keeps them so exactly when it goes on like that. -/
theorem inOrder_while_asking_when_empty {k a itemSize : Nat} (page : k < 31) (align : a < 64)
    {s : State} (reached : ((pools (2 ^ k) itemSize (2 ^ a)).restrict AsksWhenEmpty).Reachable s) :
    InOrder s.pool ∧ ∀ action, Offered s action →
      ((∃ s', (pools (2 ^ k) itemSize (2 ^ a)).next s action = some s' ∧ InOrder s'.pool) ↔
        AsksWhenEmpty s action) := by
  have few : AtMostOne k a s := by
    refine reached.invariant (fun s begins => ?_) fun s action s' _ few moved => ?_
    · obtain ⟨accepted, live⟩ := begins
      obtain ⟨created, -, partially, unmapped⟩ := create_spec page align accepted
      exact ⟨created, .inl ⟨live, partially, create_listFull accepted, fun page => by rw [unmapped]⟩⟩
    · obtain ⟨asks, moved⟩ := System.restrict_next.mp moved
      have offered : Offered s action := by
        cases action with
        | get fresh => exact (Option.ite_none_right_eq_some.mp moved).1
        | put ptr => exact (Option.ite_none_right_eq_some.mp moved).1
        | write ptr link => exact (Option.ite_none_right_eq_some.mp moved).1
      obtain ⟨after, returned, kept⟩ := few.next offered asks
      cases moved.symm.trans returned
      exact kept
  refine ⟨few.inOrder, fun action offered => ⟨?_, fun asks => ?_⟩⟩
  · rintro ⟨s', moved, ordered⟩
    cases action with
    | get fresh =>
      by_contra live
      exact few.second live moved ordered
    | put ptr => trivial
    | write ptr link => trivial
  · obtain ⟨s', moved, kept⟩ := few.next offered asks
    exact ⟨s', moved, kept.inOrder⟩

/-- A new pool for items of 3000 bytes, of which one fits in a page. -/
def singles : Pool := ⟨none, none, 3000, 8, 1, 4096, fun _ => none, fun _ => none⟩

theorem singles_created : create (2 ^ 12) 3000 (2 ^ 3) = some singles := by
  have counted : countSlots 4096 3000 8 (by decide) sizeofPageHeader = 1 := by decide +kernel
  simp [create, counted, singles, sizeofPointer, sizeofPageHeader]

/-- An item of such a pool that is put back before the next one is asked for. -/
theorem inOrder_while_asking_when_empty_applies : ∃ s,
    ((pools (2 ^ 12) 3000 (2 ^ 3)).restrict AsksWhenEmpty).Reachable s ∧ s.live = [12320] ∧
      InOrder s.pool := by
  have begun : ((pools (2 ^ 12) 3000 (2 ^ 3)).restrict AsksWhenEmpty).Reachable ⟨singles, []⟩ :=
    .start ⟨singles_created, rfl⟩
  obtain ⟨s, reached, checked⟩ := begun.replay_check [.get 8192, .put 8224, .get 12288]
    (fun s => s.live = [12320]) (by decide)
  exact ⟨s, reached, of_decide_eq_true checked,
    (inOrder_while_asking_when_empty (by decide) (by decide) reached).1⟩

/-- Two items of such a pool. When the older one is put back, the page of the newer one is in no
list any more, and deleting the pool gives back no page. -/
theorem newer_page_lost : ∃ s, (pools (2 ^ 12) 3000 (2 ^ 3)).Reachable s ∧ s.live = [12320] ∧
    (s.pool.pages 12288).isSome = true ∧ (∀ fuel, (delete fuel s.pool).map Prod.snd = some []) ∧
      ¬ InOrder s.pool := by
  have begun : (pools (2 ^ 12) 3000 (2 ^ 3)).Reachable ⟨singles, []⟩ := .start ⟨singles_created, rfl⟩
  obtain ⟨s, reached, checked⟩ := begun.replay_check [.get 8192, .get 12288, .put 8224]
    (fun s => s.live = [12320] && (s.pool.pages 12288).isSome && s.pool.listPartiallyFull = none &&
      s.pool.listFull = none) (by decide)
  simp only [Bool.and_eq_true, decide_eq_true_eq] at checked
  obtain ⟨⟨⟨live, mapped⟩, partially⟩, full⟩ := checked
  refine ⟨s, reached, live, mapped, fun fuel => by simp [delete, partially, full, freeList], ?_⟩
  rintro ⟨⟨partiallyFull, fulls, lists⟩, -⟩
  obtain ⟨header, found⟩ := Option.isSome_iff_exists.mp mapped
  have back := lists.back 12288 header found
  cases prev : header.prev with
  | partiallyFull =>
    rw [prev, headOf, partially] at back
    cases back
  | full =>
    rw [prev, headOf, full] at back
    cases back

end Mysnips.PoolAlloc

import Mysnips.HashMapProbe

/-! The operations of the hash map on a sound table. Each of them keeps the open
addressing invariant and changes the stored pairs as its name says; a resize
moves every pair to a table twice as large, in which the inserts that it calls
back never resize again. -/
namespace Mysnips.HashMap
open Machine OpenAddressing Transition

/-- The number of slots in a state. -/
def countState (state : SlotState) (pool : List Item) : Nat :=
  pool.countP fun item => item.state = state

/-- A pool of `2 ^ n` slots that stores every key once, with the number of its
`USED` slots, at most one above the load that asks for a resize. -/
structure Valid (map : Map) (n : Nat) : Prop where
  low : 3 ≤ n
  high : n ≤ 28
  size : map.size = 2 ^ n
  length : map.pool.length = 2 ^ n
  sound : Sound (path (maskOf n)) (table map.pool)
  used : map.used = countState .used map.pool
  load : map.used * 10 < map.size * 7 + 10

/-- The map associates the value with the key. -/
def Map.Has (map : Map) (key value : Nat) : Prop := Stores (table map.pool) key value

variable {map map' : Map} {n key value : Nat}

namespace Valid

theorem size_bounds (valid : Valid map n) : 8 ≤ map.size ∧ map.size ≤ 2 ^ 28 := by
  have low : 2 ^ 3 ≤ 2 ^ n := Nat.pow_le_pow_right (by omega) valid.low
  have high : 2 ^ n ≤ 2 ^ 28 := Nat.pow_le_pow_right (by omega) valid.high
  have cast : map.size = ((2 ^ n : Nat) : Int) := by
    rw [valid.size]
    push_cast
    rfl
  omega

theorem lt_of_size (valid : Valid map n) (small : map.size < 2 ^ 28) : n < 28 := by
  by_contra large
  have full : n = 28 := Nat.le_antisymm valid.high (Nat.le_of_not_lt large)
  rw [valid.size, full] at small
  exact Int.lt_irrefl _ small

theorem mask_eq (valid : Valid map n) : mask map = maskOf n := by
  have bounds := valid.size_bounds
  rw [mask, int32_eq (by omega) (by omega), valid.size, maskOf]

theorem used_bounds (valid : Valid map n) : 0 ≤ map.used ∧ map.used ≤ map.size := by
  have bound : countState .used map.pool ≤ map.pool.length := List.countP_le_length
  rw [valid.used, valid.size]
  rw [valid.length] at bound
  exact ⟨by omega, by exact_mod_cast bound⟩

/-- The load test is exact. -/
theorem shouldResize_iff (valid : Valid map n) :
    shouldResize map = true ↔ map.size * 7 ≤ map.used * 10 := by
  have bounds := valid.size_bounds
  have used := valid.used_bounds
  have load := valid.load
  rw [shouldResize, int32_eq (by omega) (by omega), int32_eq (by omega) (by omega),
    decide_eq_true_eq]

/-- A key has one value. -/
theorem functional (valid : Valid map n) {other : Nat} (first : map.Has key value)
    (second : map.Has key other) : value = other := by
  obtain ⟨i, atI⟩ := first
  obtain ⟨j, atJ⟩ := second
  obtain rfl := valid.sound.unique i j key value other atI atJ
  rw [atI] at atJ
  cases atJ
  rfl

end Valid

/-! ### Writing one slot -/

theorem countState_set {pool : List Item} {i : Nat} {item : Item} (read : pool[i]? = some item)
    (state : SlotState) (new : Item) :
    countState state (pool.set i new) + (if item.state = state then 1 else 0) =
      countState state pool + (if new.state = state then 1 else 0) := by
  obtain ⟨inside, rfl⟩ := List.getElem?_eq_some_iff.mp read
  have counted := List.countP_set (p := fun item => item.state = state) (a := new) inside
  have least := List.boole_getElem_le_countP (p := fun item => item.state = state) inside
  simp only [decide_eq_true_eq] at counted least
  rw [countState, countState, counted]
  omega

theorem exists_unused {pool : List Item} (unused : countState .unused pool ≠ 0) :
    ∃ i < pool.length, table pool i = .empty := by
  obtain ⟨item, member, state⟩ := List.countP_pos_iff.mp (Nat.pos_of_ne_zero unused)
  obtain ⟨i, read⟩ := List.getElem?_of_mem member
  obtain ⟨inside, _⟩ := List.getElem?_eq_some_iff.mp read
  refine ⟨i, inside, ?_⟩
  rw [decide_eq_true_eq] at state
  simp [table_eq read, slotOf, state]

/-- What a slot of the table says about the item in it. -/
theorem item_of_table {pool : List Item} {i : Nat} (inside : i < pool.length) :
    ∃ item, pool[i]? = some item ∧ table pool i = slotOf item :=
  ⟨_, List.getElem?_eq_getElem inside, table_eq (List.getElem?_eq_getElem inside)⟩

theorem modify_eq_set {pool : List Item} {i : Nat} {item : Item} (read : pool[i]? = some item)
    (change : Item → Item) : pool.modify i change = pool.set i (change item) := by
  rw [List.modify_eq_set_getElem?, read]
  rfl

theorem full_of_slotOf {item : Item} (full : slotOf item = .full key value) :
    item = ⟨.used, value, key⟩ := by
  obtain ⟨state, _, _⟩ := item
  cases state <;> simp_all [slotOf]

/-! ### Insertion without a resize -/

/-- The insertion of the key takes no `UNUSED` slot: the key is there, or its path
meets a `DELETED` slot before any `UNUSED` one. -/
def Reuses (map : Map) (key : Nat) : Prop :=
  (∃ value, map.Has key value) ∨
    ∃ m, table map.pool (path (mask map) key m) = .deleted ∧
      ∀ j < m, table map.pool (path (mask map) key j) ≠ .empty

/-- What an insertion that does not resize has done: the pair is stored in place of
any other pair of its key, and at most one `UNUSED` slot is taken. -/
structure Placed (map map' : Map) (n key value : Nat) : Prop where
  valid : Valid map' n
  mutex : map'.mutex = map.mutex
  has : ∀ k w, map'.Has k w ↔ (k = key ∧ w = value) ∨ (k ≠ key ∧ map.Has k w)
  used : map'.used ≤ map.used + 1
  unused : countState .unused map.pool ≤ countState .unused map'.pool + 1
  reused : Reuses map key → countState .unused map'.pool = countState .unused map.pool

private theorem placed_update (valid : Valid map n) {i w : Nat}
    (inside : i < map.pool.length) (full : table map.pool i = .full key w) :
    Placed map { map with pool := map.pool.modify i fun item => { item with value := value } }
      n key value := by
  obtain ⟨item, read, slot⟩ := item_of_table inside
  obtain rfl := full_of_slotOf (slot.symm.trans full)
  rw [modify_eq_set read]
  have usedSame := countState_set read .used ⟨.used, value, key⟩
  have unusedSame := countState_set read .unused ⟨.used, value, key⟩
  simp only [if_true, Nat.add_right_cancel_iff] at usedSame
  simp only [reduceCtorEq, if_false, Nat.add_zero] at unusedSame
  have changed := table_set inside ⟨.used, value, key⟩
  refine ⟨⟨valid.low, valid.high, valid.size, ?_, ?_, ?_, valid.load⟩, rfl, ?_, ?_, ?_, ?_⟩
  · simpa using valid.length
  · rw [changed]
    exact valid.sound.overwrite full value
  · simp only [usedSame, valid.used]
  · intro k v
    simp only [Map.Has, changed, stores_update, stored_elsewhere valid.sound full]
    simp [slotOf, eq_comm]
  · exact Int.le_add_one (Int.le_refl _)
  · simp only [unusedSame]
    exact Nat.le_succ _
  · exact fun _ => unusedSame

private theorem placed_fresh (valid : Valid map n) (roomy : map.used * 10 < map.size * 7) {i : Nat}
    (chosen : Chosen map.pool (maskOf n) key (.fresh i)) :
    Placed map { map with pool := map.pool.set i ⟨.used, value, key⟩, used := int32 (map.used + 1) }
      n key value := by
  obtain ⟨⟨m, empty, passed⟩, j, rfl, inside, vacant, crossed⟩ := chosen
  have absent := fun value => valid.sound.absent empty (fun j before => (passed j before).2) value
  obtain ⟨item, read, slot⟩ := item_of_table inside
  have bounds := valid.size_bounds
  have usedBounds := valid.used_bounds
  have increment : int32 (map.used + 1) = map.used + 1 := int32_eq (by omega) (by omega)
  have notUsed : item.state ≠ .used := by
    rw [slot] at vacant
    cases state : item.state <;> simp_all [slotOf]
  have usedMore := countState_set read .used ⟨.used, value, key⟩
  have unusedLess := countState_set read .unused ⟨.used, value, key⟩
  simp only [if_true, reduceCtorEq, if_false, Nat.add_zero, notUsed] at usedMore unusedLess
  have changed := table_set inside ⟨.used, value, key⟩
  refine ⟨⟨valid.low, valid.high, valid.size, ?_, ?_, ?_, ?_⟩, rfl, ?_, ?_, ?_, ?_⟩
  · simpa using valid.length
  · rw [changed]
    exact valid.sound.put value absent fun l before => (crossed l before).1
  · show int32 (map.used + 1) = _
    rw [increment, usedMore, valid.used]
    exact (Int.natCast_succ _).symm
  · simp only [increment]
    omega
  · intro k v
    simp only [Map.Has, changed, stores_update]
    constructor
    · rintro (new | ⟨l, _, stored⟩)
      · simp only [slotOf, Slot.full.injEq] at new
        exact Or.inl ⟨new.1.symm, new.2.symm⟩
      · refine Or.inr ⟨?_, l, stored⟩
        rintro rfl
        exact absent v ⟨l, stored⟩
    · rintro (⟨rfl, rfl⟩ | ⟨_, l, stored⟩)
      · exact Or.inl rfl
      · refine Or.inr ⟨l, ?_, stored⟩
        rintro rfl
        rw [stored] at vacant
        simp at vacant
  · simp only [increment]
    exact Int.le_refl _
  · simp only
    split at unusedLess <;> omega
  · -- the chosen slot was `DELETED`: an `UNUSED` one would come first on the path
    rintro (⟨w, stored⟩ | ⟨l, deleted, before⟩)
    · exact absurd stored (absent w)
    · rw [valid.mask_eq] at deleted before
      have marked : table map.pool (path (maskOf n) key j) ≠ .empty := by
        rcases Nat.lt_trichotomy l j with lower | rfl | higher
        · exact absurd deleted (crossed l lower).2
        · simp [deleted]
        · exact before j higher
      have kept : item.state ≠ .unused := by
        rw [slot] at marked
        intro unused
        simp [slotOf, unused] at marked
      simp only [kept, if_false, Nat.add_zero] at unusedLess
      exact unusedLess

theorem place_spec {fuel : Nat} (valid : Valid map n) (roomy : map.used * 10 < map.size * 7)
    (placed : place fuel map key value = .ok map') : Placed map map' n key value := by
  rw [place, valid.mask_eq] at placed
  by_cases asserted : map.used < map.size ∧ isPow2 map.size = true
  · rw [if_pos asserted] at placed
    cases found : findTarget map.pool key (maskOf n) fuel (hashfunc key)
        (firstIndex (maskOf n) (hashfunc key)) none with
    | error fault => simp [found, bind, Except.bind] at placed
    | ok target =>
      have chosen := findTarget_spec found
      simp only [found, bind, Except.bind] at placed
      cases target with
      | update i =>
        cases placed
        obtain ⟨inside, w, full⟩ := chosen
        exact placed_update valid inside full
      | fresh i =>
        cases placed
        exact placed_fresh valid roomy chosen
  · simp [asserted] at placed

/-- An insertion that does not resize returns when some slot is `UNUSED`. -/
theorem place_returns (fuel : Nat) (valid : Valid map n) (roomy : map.used * 10 < map.size * 7)
    (unused : countState .unused map.pool ≠ 0) (enough : 13 + 2 ^ n ≤ fuel) (key value : Nat) :
    ∃ map', place fuel map key value = .ok map' := by
  obtain ⟨i, inside, empty⟩ := exists_unused unused
  obtain ⟨_, target, found⟩ :=
    probes_end valid.high valid.length (valid.length ▸ inside) empty enough key
  have bounds := valid.size_bounds
  have power : isPow2 map.size = true := by
    rw [valid.size]
    exact isPow2_two_pow valid.low valid.high
  rw [place, if_pos ⟨by omega, power⟩, valid.mask_eq]
  simp only [found, bind, Except.bind]
  cases target with
  | update i => exact ⟨_, rfl⟩
  | fresh i => exact ⟨_, rfl⟩

/-! ### The mutex -/

theorem lock_eq {mutex mutex' : Mutex} (locked : lock mutex = .ok mutex') :
    mutex' = { mutex with depth := mutex.depth + 1 } := by
  rw [lock] at locked
  by_cases free : mutex.depth = 0 ∨ mutex.reentrant = true
  · rw [if_pos free] at locked
    exact (Except.ok.inj locked).symm
  · simp [free] at locked

theorem unlock_lock {mutex mutex' : Mutex} (locked : lock mutex = .ok mutex') :
    unlock mutex' = mutex := by
  rw [lock_eq locked]
  rfl

theorem lock_free {mutex : Mutex} (free : mutex.depth = 0 ∨ mutex.reentrant = true) :
    lock mutex = .ok { mutex with depth := mutex.depth + 1 } := if_pos free

/-- Validity does not depend on the mutex. -/
theorem Valid.withMutex (valid : Valid map n) (mutex : Mutex) : Valid { map with mutex } n :=
  ⟨valid.low, valid.high, valid.size, valid.length, valid.sound, valid.used, valid.load⟩

/-! ### Insertion -/

/-- The parts of an insertion that returns. -/
private theorem insert_parts {fuel : Nat} (inserted : insert (fuel + 1) map key value = .ok map') :
    value ≠ 0 ∧ ∃ mutex middle last, lock map.mutex = .ok mutex ∧
      (if shouldResize map then
        resize (insert fuel) { map with mutex } (int32 (2 * map.size)) = .ok middle
        else middle = { map with mutex }) ∧
      place fuel middle key value = .ok last ∧ map' = { last with mutex := unlock last.mutex } := by
  rw [insert] at inserted
  cases locked : lock map.mutex with
  | error fault => simp [locked, bind, Except.bind] at inserted
  | ok mutex =>
    simp only [locked, bind, Except.bind] at inserted
    by_cases zero : value = 0
    · simp [zero] at inserted
    rw [if_pos zero] at inserted
    have test : shouldResize { map with mutex } = shouldResize map := rfl
    rw [test] at inserted
    by_cases full : shouldResize map = true
    · rw [if_pos full] at inserted
      cases resized : resize (insert fuel) { map with mutex } (int32 (2 * map.size)) with
      | error fault => simp [resized] at inserted
      | ok middle =>
        simp only [resized] at inserted
        cases placed : place fuel middle key value with
        | error fault => simp [placed] at inserted
        | ok last =>
          simp only [placed] at inserted
          exact ⟨zero, mutex, middle, last, rfl, by rw [if_pos full]; exact resized, placed,
            (Except.ok.inj inserted).symm⟩
    · rw [if_neg full] at inserted
      cases placed : place fuel { map with mutex } key value with
      | error fault => simp [placed] at inserted
      | ok last =>
        simp only [placed] at inserted
        exact ⟨zero, mutex, { map with mutex }, last, rfl, by rw [if_neg full], placed,
          (Except.ok.inj inserted).symm⟩

/-- Below the load that asks for a resize, an insertion is one placement. -/
theorem insert_placed {fuel : Nat} (valid : Valid map n) (roomy : map.used * 10 < map.size * 7)
    (inserted : insert fuel map key value = .ok map') : value ≠ 0 ∧ Placed map map' n key value := by
  cases fuel with
  | zero => simp [insert] at inserted
  | succ fuel =>
    obtain ⟨nonzero, mutex, middle, last, locked, resized, placed, rfl⟩ := insert_parts inserted
    have stays : ¬ shouldResize map = true := by
      rw [valid.shouldResize_iff]
      omega
    rw [if_neg stays] at resized
    subst resized
    have result := place_spec (valid.withMutex mutex) roomy placed
    refine ⟨nonzero, result.valid.withMutex _, ?_, result.has, result.used, result.unused,
      result.reused⟩
    have held : last.mutex = mutex := result.mutex
    simp only [held, unlock_lock locked]

theorem insert_returns {fuel : Nat} (valid : Valid map n) (roomy : map.used * 10 < map.size * 7)
    (free : map.mutex.depth = 0 ∨ map.mutex.reentrant = true)
    (unused : countState .unused map.pool ≠ 0) (enough : 13 + 2 ^ n < fuel) (key : Nat)
    (nonzero : value ≠ 0) : ∃ map', insert fuel map key value = .ok map' := by
  obtain ⟨fuel, rfl⟩ := Nat.exists_eq_add_of_lt (Nat.zero_lt_of_lt enough)
  have stays : ¬ shouldResize map = true := by
    rw [valid.shouldResize_iff]
    omega
  rw [Nat.zero_add] at enough ⊢
  obtain ⟨last, placed⟩ := place_returns fuel (valid.withMutex
    { map.mutex with depth := map.mutex.depth + 1 }) roomy unused (Nat.le_of_lt_succ enough) key value
  refine ⟨{ last with mutex := unlock last.mutex }, ?_⟩
  rw [insert, lock_free free]
  have test : ∀ mutex, shouldResize { map with mutex } = shouldResize map := fun _ => rfl
  simp only [bind, Except.bind, if_pos nonzero, test, if_neg stays, placed]

/-! ### Resizing -/

theorem has_iff_mem {k w : Nat} : map.Has k w ↔ ⟨.used, w, k⟩ ∈ map.pool := by
  constructor
  · rintro ⟨i, full⟩
    cases read : map.pool[i]? with
    | none => simp [table, read] at full
    | some item =>
      rw [table_eq read] at full
      exact List.mem_of_getElem? (full_of_slotOf full ▸ read)
  · intro member
    obtain ⟨i, read⟩ := List.getElem?_of_mem member
    exact ⟨i, by rw [table_eq read]; rfl⟩

/-- The callback of `resize`. -/
private def move (fuel : Nat) (map : Map) (item : Item) : Except Fault Map :=
  if item.state = .used then insert fuel map item.key item.value else .ok map

theorem roomy_of_few (valid : Valid map (n + 1)) {c : Nat} (used : map.used ≤ c)
    (few : c ≤ 2 ^ n) : map.used * 10 < map.size * 7 := by
  have size : map.size = 2 * (2 ^ n : Nat) := by
    rw [valid.size, pow_succ, Int.mul_comm]
    push_cast
    rfl
  have positive : 0 < 2 ^ n := Nat.two_pow_pos n
  omega

/-- Moving items into a pool of `2 ^ (n + 1)` slots, `c` of which may be taken: the
callbacks do not resize, and the pool ends up with the pairs of the items. -/
private theorem refill_spec {fuel c : Nat} (items : List Item)
    (valid : Valid map (n + 1)) (used : map.used ≤ c)
    (unused : 2 ^ (n + 1) ≤ countState .unused map.pool + c) (few : c + items.length ≤ 2 ^ n)
    (functional : ∀ k v w, map.Has k v ∨ ⟨.used, v, k⟩ ∈ items →
      map.Has k w ∨ ⟨.used, w, k⟩ ∈ items → v = w)
    (moved : items.foldlM (move fuel) map = .ok map') :
    Valid map' (n + 1) ∧ map'.mutex = map.mutex ∧ map'.used ≤ (2 ^ n : Nat) ∧
      2 ^ n ≤ countState .unused map'.pool ∧
      ∀ k w, map'.Has k w ↔ map.Has k w ∨ ⟨.used, w, k⟩ ∈ items := by
  induction items generalizing map c with
  | nil =>
    simp only [List.foldlM_nil] at moved
    cases moved
    have doubled : 2 ^ (n + 1) = 2 * 2 ^ n := by rw [Nat.pow_succ, Nat.mul_comm]
    simp only [List.length_nil] at few
    exact ⟨valid, rfl, by omega, by omega, by simp⟩
  | cons item rest ih =>
    simp only [List.length_cons] at few
    rw [List.foldlM_cons] at moved
    by_cases live : item.state = .used
    · cases inserted : insert fuel map item.key item.value with
      | error fault => simp [move, live, inserted, bind, Except.bind] at moved
      | ok next =>
        simp only [move, if_pos live, inserted, bind, Except.bind] at moved
        obtain ⟨_, placed⟩ := insert_placed valid (roomy_of_few valid used (by omega)) inserted
        have itemIs : item = ⟨.used, item.value, item.key⟩ := by rw [← live]
        -- the pair of the item joins the pairs of the map
        have joined : ∀ k w, next.Has k w ↔ map.Has k w ∨ (⟨.used, w, k⟩ : Item) = item := by
          intro k w
          rw [placed.has, itemIs, Item.mk.injEq]
          constructor
          · rintro (⟨rfl, rfl⟩ | ⟨_, stored⟩)
            · exact Or.inr ⟨rfl, rfl, rfl⟩
            · exact Or.inl stored
          · rintro (stored | ⟨_, sameValue, sameKey⟩)
            · by_cases same : k = item.key
              · have value := functional k w item.value (Or.inl stored)
                  (Or.inr (by rw [same, ← itemIs]; exact List.mem_cons_self))
                exact Or.inl ⟨same, value⟩
              · exact Or.inr ⟨same, stored⟩
            · exact Or.inl ⟨sameKey, sameValue⟩
        have both : ∀ k w, next.Has k w ∨ ⟨.used, w, k⟩ ∈ rest ↔
            map.Has k w ∨ ⟨.used, w, k⟩ ∈ item :: rest := by
          intro k w
          rw [joined, List.mem_cons, or_assoc]
        obtain ⟨valid', mutex, used', unused', has⟩ := ih (c := c + 1) placed.valid
          (by have := placed.used; omega) (by have := placed.unused; omega) (by omega)
          (fun k v w first second => functional k v w ((both k v).mp first) ((both k w).mp second))
          moved
        exact ⟨valid', mutex.trans placed.mutex, used', unused', fun k w => (has k w).trans (both k w)⟩
    · simp only [move, if_neg live, bind, Except.bind] at moved
      have skipped : ∀ k w, (⟨.used, w, k⟩ : Item) ∈ item :: rest ↔ ⟨.used, w, k⟩ ∈ rest := by
        intro k w
        rw [List.mem_cons, or_iff_right]
        rintro rfl
        exact live rfl
      simp only [skipped] at functional ⊢
      exact ih valid used unused (by omega) functional moved

/-- Refilling returns: every callback finds an `UNUSED` slot. -/
private theorem refill_returns {fuel c : Nat} (items : List Item)
    (valid : Valid map (n + 1)) (used : map.used ≤ c)
    (unused : 2 ^ (n + 1) ≤ countState .unused map.pool + c) (few : c + items.length ≤ 2 ^ n)
    (reentrant : map.mutex.reentrant = true) (enough : 13 + 2 ^ (n + 1) < fuel)
    (nonzero : ∀ item ∈ items, item.state = .used → item.value ≠ 0) :
    ∃ map', items.foldlM (move fuel) map = .ok map' := by
  induction items generalizing map c with
  | nil => exact ⟨map, rfl⟩
  | cons item rest ih =>
    simp only [List.length_cons] at few
    have doubled : 2 ^ (n + 1) = 2 * 2 ^ n := by rw [Nat.pow_succ, Nat.mul_comm]
    have later : ∀ item ∈ rest, item.state = .used → item.value ≠ 0 :=
      fun other member => nonzero other (List.mem_cons_of_mem _ member)
    rw [List.foldlM_cons]
    by_cases live : item.state = .used
    · have roomy := roomy_of_few valid used (by omega)
      obtain ⟨next, inserted⟩ := insert_returns valid roomy (Or.inr reentrant) (by omega) enough
        item.key (nonzero item List.mem_cons_self live)
      obtain ⟨_, placed⟩ := insert_placed valid roomy inserted
      simp only [move, if_pos live, inserted, bind, Except.bind]
      exact ih (c := c + 1) placed.valid (by have := placed.used; omega)
        (by have := placed.unused; omega) (by omega) (placed.mutex ▸ reentrant) later
    · simp only [move, if_neg live, bind, Except.bind]
      exact ih valid used unused (by omega) reentrant later

/-- A fresh pool is a valid one without pairs. -/
theorem fresh_valid (low : 3 ≤ n) (high : n ≤ 28) (mutex : Mutex) :
    Valid ⟨freshPool (2 ^ n), 2 ^ n, 0, mutex⟩ n ∧
      countState .unused (freshPool (2 ^ n)) = 2 ^ n ∧
      ∀ k w, ¬ Map.Has ⟨freshPool (2 ^ n), 2 ^ n, 0, mutex⟩ k w := by
  have length : ((2 : Int) ^ n).toNat = 2 ^ n := by
    rw [show ((2 : Int) ^ n) = ((2 ^ n : Nat) : Int) by push_cast; rfl, Int.toNat_natCast]
  have empty : table (freshPool (2 ^ n)) = fun _ => .empty := by
    funext i
    rw [table, freshPool, List.getElem?_replicate]
    split <;> rfl
  refine ⟨⟨low, high, rfl, ?_, ?_, ?_, ?_⟩, ?_, ?_⟩
  · rw [freshPool, List.length_replicate, length]
  · simp only [empty]
    exact Sound.start
  · simp [countState, freshPool, List.countP_replicate]
  · have : (0 : Int) < 2 ^ n := by positivity
    simp only
    omega
  · simp [countState, freshPool, List.countP_replicate, length]
  · rintro k w ⟨i, full⟩
    simp [empty] at full

/-- The target of a resize is twice the size. -/
private theorem resize_eq (valid : Valid map n) (small : n < 28) (fuel : Nat) :
    resize (insert fuel) map (int32 (2 * map.size)) =
      map.pool.foldlM (move fuel) ⟨freshPool (2 ^ (n + 1)), 2 ^ (n + 1), 0, map.mutex⟩ := by
  have bounds := valid.size_bounds
  have used := valid.used_bounds
  have doubled : 2 * map.size = ((2 ^ (n + 1) : Nat) : Int) := by
    rw [valid.size, Nat.pow_succ]
    push_cast
    ring
  have rounded : nextPow2 (2 * map.size) = 2 ^ (n + 1) := by
    rw [doubled, nextPow2_two_pow (by omega)]
    push_cast
    rfl
  have large : 8 ≤ 2 * map.size := by omega
  rw [resize, int32_eq (by omega) (by omega)]
  simp only [if_neg (show ¬ 2 * map.size < map.used by omega),
    if_neg (show ¬ 2 * map.size < 8 by omega), rounded]
  rfl

/-- A resize doubles the pool and keeps the pairs; half of the new pool stays
`UNUSED`. -/
theorem resize_spec {fuel : Nat} (valid : Valid map n) (small : n < 28)
    (resized : resize (insert fuel) map (int32 (2 * map.size)) = .ok map') :
    Valid map' (n + 1) ∧ map'.mutex = map.mutex ∧ map'.used ≤ (2 ^ n : Nat) ∧
      2 ^ n ≤ countState .unused map'.pool ∧ ∀ k w, map'.Has k w ↔ map.Has k w := by
  rw [resize_eq valid small] at resized
  obtain ⟨fresh, unused, none⟩ := fresh_valid (Nat.le_succ_of_le valid.low) small map.mutex
  obtain ⟨valid', mutex, used, unused', has⟩ := refill_spec map.pool fresh (c := 0) (Int.le_refl 0)
    (by rw [unused]; omega) (by rw [valid.length]; omega)
    (fun k v w first second => valid.functional (has_iff_mem.mpr (first.resolve_left (none k v)))
      (has_iff_mem.mpr (second.resolve_left (none k w)))) resized
  refine ⟨valid', mutex, used, unused', fun k w => ?_⟩
  rw [has, or_iff_right (none k w), has_iff_mem]

theorem resize_returns (fuel : Nat) (valid : Valid map n) (small : n < 28)
    (reentrant : map.mutex.reentrant = true) (enough : 13 + 2 ^ (n + 1) < fuel)
    (nonzero : ∀ k w, map.Has k w → w ≠ 0) :
    ∃ map', resize (insert fuel) map (int32 (2 * map.size)) = .ok map' := by
  rw [resize_eq valid small]
  obtain ⟨fresh, unused, _⟩ := fresh_valid (Nat.le_succ_of_le valid.low) small map.mutex
  refine refill_returns map.pool fresh (c := 0) (Int.le_refl 0) (by rw [unused]; omega)
    (by rw [valid.length]; omega) reentrant enough fun item member live => ?_
  have itemIs : item = ⟨.used, item.value, item.key⟩ := by rw [← live]
  exact nonzero item.key item.value (has_iff_mem.mpr (itemIs ▸ member))

/-! ### The operations -/

/-- `hashmap_insert` stores the pair in place of any other pair of its key. With
the load test it doubles the pool and leaves many `UNUSED` slots; without, it is
one placement. -/
theorem insert_spec {fuel : Nat} (valid : Valid map n) (small : shouldResize map = true → n < 28)
    (inserted : insert fuel map key value = .ok map') :
    value ≠ 0 ∧ map'.mutex = map.mutex ∧
    (∀ k w, map'.Has k w ↔ (k = key ∧ w = value) ∨ (k ≠ key ∧ map.Has k w)) ∧
    ((shouldResize map = false ∧ Placed map map' n key value) ∨
      (shouldResize map = true ∧ Valid map' (n + 1) ∧ 2 ^ n ≤ countState .unused map'.pool + 1)) := by
  by_cases full : shouldResize map = true
  · cases fuel with
    | zero => simp [insert] at inserted
    | succ fuel =>
      obtain ⟨nonzero, mutex, middle, last, locked, resized, placed, rfl⟩ := insert_parts inserted
      rw [if_pos full] at resized
      obtain ⟨valid', held, used, unused, same⟩ :=
        resize_spec (valid.withMutex mutex) (small full) resized
      have result := place_spec valid' (roomy_of_few valid' used (Nat.le_refl _)) placed
      refine ⟨nonzero, ?_, fun k w => ?_, Or.inr ⟨full, result.valid.withMutex _, ?_⟩⟩
      · have held : last.mutex = mutex := result.mutex.trans held
        simp only [held, unlock_lock locked]
      · refine (result.has k w).trans ?_
        rw [same k w]
        rfl
      · exact Nat.le_trans unused result.unused
  · have roomy : map.used * 10 < map.size * 7 := by
      rw [valid.shouldResize_iff] at full
      omega
    obtain ⟨nonzero, placed⟩ := insert_placed valid roomy inserted
    exact ⟨nonzero, placed.mutex, placed.has, Or.inl ⟨by simpa using full, placed⟩⟩

/-- The common part of `hashmap_remove` and `hashmap_select`. -/
private theorem find_valid {fuel : Nat} {found : Option Nat} (valid : Valid map n)
    (search : find map.pool key (maskOf n) fuel (hashfunc key)
      (firstIndex (maskOf n) (hashfunc key)) = .ok found) :
    (∃ i w, found = some i ∧ map.pool[i]? = some ⟨.used, w, key⟩) ∨
      (found = none ∧ ∀ w, ¬ map.Has key w) := by
  rcases find_spec search with ⟨i, w, rfl, inside, full⟩ | ⟨rfl, m, empty, passed⟩
  · obtain ⟨item, read, slot⟩ := item_of_table inside
    obtain rfl := full_of_slotOf (slot.symm.trans full)
    exact Or.inl ⟨i, w, rfl, read⟩
  · exact Or.inr ⟨rfl, valid.sound.absent empty fun j before => (passed j before).2⟩

theorem asserted (valid : Valid map n) : map.size ≠ 0 ∧ isPow2 map.size = true := by
  have bounds := valid.size_bounds
  refine ⟨by omega, ?_⟩
  rw [valid.size]
  exact isPow2_two_pow valid.low valid.high

theorem select_spec {fuel result : Nat} (valid : Valid map n)
    (selected : select fuel map key = .ok (map', result)) :
    map' = map ∧ (map.Has key result ∨ (result = 0 ∧ ∀ w, ¬ map.Has key w)) := by
  obtain ⟨nonzero, power⟩ := asserted valid
  rw [select, lookup] at selected
  cases locked : lock map.mutex with
  | error fault => simp [locked, bind, Except.bind] at selected
  | ok mutex =>
    have mask : mask { map with mutex } = maskOf n := valid.mask_eq
    simp only [locked, bind, Except.bind, if_neg nonzero, if_pos power, mask] at selected
    cases search : find map.pool key (maskOf n) fuel (hashfunc key)
        (firstIndex (maskOf n) (hashfunc key)) with
    | error fault => simp [search] at selected
    | ok found =>
      rcases find_valid valid search with ⟨i, w, rfl, read⟩ | ⟨rfl, absent⟩
      · simp only [search, read, Option.map_some, Option.getD_some, unlock_lock locked] at selected
        cases selected
        exact ⟨rfl, Or.inl ⟨i, by rw [table_eq read]; rfl⟩⟩
      · simp only [search, unlock_lock locked] at selected
        cases selected
        exact ⟨rfl, Or.inr ⟨rfl, absent⟩⟩

theorem remove_spec {fuel : Nat} {result : Bool} (valid : Valid map n)
    (removed : remove fuel map key = .ok (map', result)) :
    Valid map' n ∧ map'.mutex = map.mutex ∧ (result = true ↔ ∃ w, map.Has key w) ∧
    (∀ k w, map'.Has k w ↔ k ≠ key ∧ map.Has k w) ∧
    countState .unused map'.pool = countState .unused map.pool := by
  obtain ⟨nonzero, power⟩ := asserted valid
  rw [remove, lookup] at removed
  cases locked : lock map.mutex with
  | error fault => simp [locked, bind, Except.bind] at removed
  | ok mutex =>
    have mask : mask { map with mutex } = maskOf n := valid.mask_eq
    simp only [locked, bind, Except.bind, if_neg nonzero, if_pos power, mask] at removed
    cases search : find map.pool key (maskOf n) fuel (hashfunc key)
        (firstIndex (maskOf n) (hashfunc key)) with
    | error fault => simp [search] at removed
    | ok found =>
      rcases find_valid valid search with ⟨i, w, rfl, read⟩ | ⟨rfl, absent⟩
      · simp only [search, unlock_lock locked] at removed
        cases removed
        obtain ⟨inside, _⟩ := List.getElem?_eq_some_iff.mp read
        have full : table map.pool i = .full key w := by rw [table_eq read]; rfl
        have changed := table_set inside ⟨.deleted, 0, 2 ^ 64 - 1⟩
        have usedLess := countState_set read .used ⟨.deleted, 0, 2 ^ 64 - 1⟩
        have unusedSame := countState_set read .unused ⟨.deleted, 0, 2 ^ 64 - 1⟩
        simp only [if_true, reduceCtorEq, if_false, Nat.add_zero] at usedLess unusedSame
        have bounds := valid.size_bounds
        have usedBounds := valid.used_bounds
        have decrement : int32 (map.used - 1) = map.used - 1 := int32_eq (by omega) (by omega)
        have usedIs := valid.used
        have load := valid.load
        refine ⟨⟨valid.low, valid.high, valid.size, ?_, ?_, ?_, ?_⟩, rfl, ?_, ?_, unusedSame⟩
        · simpa using valid.length
        · simp only [changed]
          exact valid.sound.erase
        · simp only [decrement]
          omega
        · simp only [decrement]
          omega
        · exact ⟨fun _ => ⟨w, i, full⟩, fun _ => rfl⟩
        · intro k v
          simp only [Map.Has, changed, stores_update, stored_elsewhere valid.sound full]
          simp [slotOf]
      · simp only [search, unlock_lock locked] at removed
        cases removed
        refine ⟨valid, rfl, by simp [absent], fun k w => ?_, rfl⟩
        constructor
        · intro stored
          refine ⟨?_, stored⟩
          rintro rfl
          exact absent w stored
        · exact fun both => both.2

theorem count_spec {result : Int} (counted : count map = .ok (map', result)) :
    map' = map ∧ result = map.used := by
  rw [count] at counted
  cases locked : lock map.mutex with
  | error fault => simp [locked, bind, Except.bind] at counted
  | ok mutex =>
    simp only [locked, bind, Except.bind, unlock_lock locked] at counted
    cases counted
    exact ⟨rfl, rfl⟩

/-- What a call that returns can do: an insertion, a removal, or nothing to the map. -/
theorem perform_cases {call : Call} {fuel : Nat} {result : Result} (valid : Valid map n)
    (performed : map.perform fuel call = .ok (map', result)) :
    (∃ key value, call = .insert key value ∧ insert fuel map key value = .ok map') ∨
      (∃ key answer, call = .remove key ∧ remove fuel map key = .ok (map', answer)) ∨
      map' = map := by
  cases call with
  | insert key value =>
    obtain ⟨next, inserted, done⟩ := bind_ok performed
    cases done
    exact Or.inl ⟨key, value, rfl, inserted⟩
  | remove key =>
    obtain ⟨⟨next, answer⟩, removed, done⟩ := bind_ok performed
    cases done
    exact Or.inr (Or.inl ⟨key, answer, rfl, removed⟩)
  | select key =>
    obtain ⟨⟨next, answer⟩, selected, done⟩ := bind_ok performed
    cases done
    exact Or.inr (Or.inr (select_spec valid selected).1)
  | «exists» key =>
    obtain ⟨⟨next, answer⟩, existed, done⟩ := bind_ok performed
    cases done
    obtain ⟨⟨next, answer⟩, selected, done⟩ := bind_ok existed
    cases done
    exact Or.inr (Or.inr (select_spec valid selected).1)
  | count =>
    obtain ⟨⟨next, answer⟩, counted, done⟩ := bind_ok performed
    cases done
    exact Or.inr (Or.inr (count_spec counted).1)

/-- The size of a created map, folded into the range of an `int`. -/
theorem create_size (reentrant : Bool) {initSize : Int} (isInt : initSize < 2 ^ 31) :
    (create reentrant initSize).size =
      int32 (2 ^ PowersOfTwo.ceilLog (max initSize 8).toNat : Nat) := by
  have clamped : (if initSize < 8 then 8 else initSize) = ((max initSize 8).toNat : Int) := by
    split <;> omega
  show nextPow2 (if initSize < 8 then 8 else initSize) = _
  rw [clamped, nextPow2_eq (by omega) (by omega)]

/-- A created map whose size is in range is valid and empty. -/
theorem create_spec {reentrant : Bool} {initSize : Int} (isInt : initSize < 2 ^ 31)
    (positive : 0 < (create reentrant initSize).size)
    (small : (create reentrant initSize).size ≤ 2 ^ 28) :
    ∃ n, Valid (create reentrant initSize) n ∧
      countState .unused (create reentrant initSize).pool = 2 ^ n ∧
      ∀ k w, ¬ (create reentrant initSize).Has k w := by
  have rounded := create_size reentrant isInt
  have low : 3 ≤ PowersOfTwo.ceilLog (max initSize 8).toNat := by
    by_contra short
    have := (PowersOfTwo.ceilLog_le_iff (k := 2)
      (show 0 < (max initSize 8).toNat by omega)).mp (by omega)
    omega
  have high : PowersOfTwo.ceilLog (max initSize 8).toNat ≤ 31 :=
    (PowersOfTwo.ceilLog_le_iff (by omega)).mpr (by omega)
  generalize PowersOfTwo.ceilLog (max initSize 8).toNat = n at rounded low high
  have inRange : n ≤ 28 := by
    rw [rounded] at positive small
    by_contra large
    interval_cases n <;> revert positive small <;> decide
  have power : 2 ^ n ≤ 2 ^ 28 := Nat.pow_le_pow_right (by omega) inRange
  have size : (create reentrant initSize).size = 2 ^ n := by
    rw [rounded, int32_natCast (by omega)]
    push_cast
    rfl
  have created : create reentrant initSize = ⟨freshPool (2 ^ n), 2 ^ n, 0, ⟨reentrant, 0⟩⟩ := by
    rw [← size]
    rfl
  rw [created]
  exact ⟨n, fresh_valid low inRange _⟩

end Mysnips.HashMap

import Mysnips.HashMapTable

/-! Termination of the probe loops. The load test counts `USED` slots only, so
inserts and removals can turn every `UNUSED` slot into a `DELETED` one; from then
on no loop that looks for an absent key ends. As long as no insert takes the last
`UNUSED` slot, every call returns. -/
namespace Mysnips.HashMap
open Machine OpenAddressing Transition

/-- Any sequence of calls that return, after `hashmap_create`. -/
def maps (reentrant : Bool) (initSize : Int) : System Map (Call × Nat) where
  initial map := map = create reentrant initSize
  next map step :=
    match map.perform step.2 step.1 with
    | .error _ => none
    | .ok (map, _) => some map

/-- A step is a call that returns. -/
theorem maps_next {reentrant : Bool} {initSize : Int} {map map' : Map} {call : Call} {fuel : Nat}
    (moved : (maps reentrant initSize).next map (call, fuel) = some map') :
    ∃ result, map.perform fuel call = .ok (map', result) := by
  simp only [maps] at moved
  cases performed : map.perform fuel call with
  | error fault => simp [performed] at moved
  | ok outcome =>
    obtain ⟨next, result⟩ := outcome
    simp only [performed, Option.some.injEq] at moved
    subst moved
    exact ⟨result, rfl⟩

/-- The call leaves an `UNUSED` slot: an insert that resizes does so in the range
where the load test is exact, and one that does not either takes no `UNUSED` slot
or finds two of them. -/
def Spares (map : Map) : Call → Prop
  | .insert key _ =>
    if shouldResize map then map.size < 2 ^ 28
    else Reuses map key ∨ 2 ≤ countState .unused map.pool
  | _ => True

/-- A valid map with an `UNUSED` slot and nonzero values. -/
structure Responsive (reentrant : Bool) (map : Map) (n : Nat) : Prop where
  valid : Valid map n
  unused : countState .unused map.pool ≠ 0
  nonzero : ∀ k w, map.Has k w → w ≠ 0
  mutex : map.mutex = ⟨reentrant, 0⟩

variable {reentrant : Bool} {map map' : Map} {n : Nat}

namespace Responsive

theorem insert {fuel key value : Nat} (responsive : Responsive reentrant map n)
    (spared : Spares map (.insert key value))
    (inserted : insert fuel map key value = .ok map') : ∃ n', Responsive reentrant map' n' := by
  rw [Spares] at spared
  have small : shouldResize map = true → n < 28 := by
    intro full
    rw [if_pos full] at spared
    exact responsive.valid.lt_of_size spared
  obtain ⟨nonzero, mutex, has, outcome⟩ := insert_spec responsive.valid small inserted
  have nonzero' : ∀ k w, map'.Has k w → w ≠ 0 := by
    intro k w stored
    rcases (has k w).mp stored with ⟨_, rfl⟩ | ⟨_, stored⟩
    · exact nonzero
    · exact responsive.nonzero k w stored
  have mutex' := mutex.trans responsive.mutex
  rcases outcome with ⟨stays, placed⟩ | ⟨_, valid, unused⟩
  · rw [stays, if_neg (by simp)] at spared
    refine ⟨n, placed.valid, ?_, nonzero', mutex'⟩
    rcases spared with reused | two
    · rw [placed.reused reused]
      exact responsive.unused
    · have := placed.unused
      omega
  · have positive : 2 ^ 1 ≤ 2 ^ n :=
      Nat.pow_le_pow_right (by omega) (Nat.le_trans (by omega) responsive.valid.low)
    exact ⟨n + 1, valid, by omega, nonzero', mutex'⟩

theorem step {call : Call} {fuel : Nat} {result : Result} (responsive : Responsive reentrant map n)
    (spared : Spares map call) (performed : map.perform fuel call = .ok (map', result)) :
    ∃ n', Responsive reentrant map' n' := by
  rcases perform_cases responsive.valid performed with
    ⟨key, value, rfl, inserted⟩ | ⟨key, answer, rfl, removed⟩ | rfl
  · exact responsive.insert spared inserted
  · obtain ⟨valid, mutex, _, has, unused⟩ := remove_spec responsive.valid removed
    refine ⟨n, valid, ?_, fun k w stored => ?_, mutex.trans responsive.mutex⟩
    · rw [unused]
      exact responsive.unused
    · exact responsive.nonzero k w ((has k w).mp stored).2
  · exact ⟨n, responsive⟩

end Responsive

/-! ### Every call returns -/

namespace Responsive

private theorem free (responsive : Responsive reentrant map n) :
    map.mutex.depth = 0 ∨ map.mutex.reentrant = true := Or.inl (by rw [responsive.mutex])

private theorem find_returns (responsive : Responsive reentrant map n) (key : Nat) :
    ∃ result, find map.pool key (maskOf n) (13 + 2 ^ n) (hashfunc key)
      (firstIndex (maskOf n) (hashfunc key)) = .ok result := by
  obtain ⟨i, inside, empty⟩ := exists_unused responsive.unused
  exact (probes_end responsive.valid.high responsive.valid.length
    (responsive.valid.length ▸ inside) empty (Nat.le_refl _) key).1

theorem lookup_returns {Answer : Type} (responsive : Responsive reentrant map n) (key : Nat)
    (absent : Answer) (answer : Map → Nat → Map × Answer) :
    ∃ outcome, lookup (13 + 2 ^ n) map key absent answer = .ok outcome := by
  obtain ⟨found, search⟩ := responsive.find_returns key
  obtain ⟨nonzero, power⟩ := asserted responsive.valid
  have mask : ∀ mutex, mask { map with mutex } = maskOf n := fun _ => responsive.valid.mask_eq
  rw [lookup, lock_free responsive.free]
  simp only [bind, Except.bind, if_neg nonzero, if_pos power, mask, search]
  cases found with
  | none => exact ⟨_, rfl⟩
  | some i => exact ⟨_, rfl⟩

theorem insert_returns (responsive : Responsive reentrant map n) (key : Nat) {value : Nat}
    (nonzero : value ≠ 0)
    (resizes : shouldResize map = true → reentrant = true ∧ map.size < 2 ^ 28) :
    ∃ outcome, HashMap.insert (15 + 2 ^ (n + 1)) map key value = .ok outcome := by
  have doubled : 2 ^ (n + 1) = 2 * 2 ^ n := by rw [Nat.pow_succ, Nat.mul_comm]
  by_cases full : shouldResize map = true
  · obtain ⟨isReentrant, small⟩ := resizes full
    have locked := lock_free responsive.free
    have held : ({ map.mutex with depth := map.mutex.depth + 1 } : Mutex).reentrant = true := by
      rw [responsive.mutex]
      exact isReentrant
    generalize { map.mutex with depth := map.mutex.depth + 1 } = mutex at locked held
    have small := responsive.valid.lt_of_size small
    obtain ⟨middle, resized⟩ := resize_returns (14 + 2 ^ (n + 1))
      (responsive.valid.withMutex mutex) small held (by omega) responsive.nonzero
    obtain ⟨valid, _, used, unused, _⟩ := resize_spec (responsive.valid.withMutex mutex) small resized
    have positive : 0 < 2 ^ n := Nat.two_pow_pos n
    obtain ⟨last, placed⟩ := place_returns (14 + 2 ^ (n + 1)) valid
      (roomy_of_few valid used (Nat.le_refl _)) (by omega) (by omega) key value
    refine ⟨{ last with mutex := unlock last.mutex }, ?_⟩
    have test : ∀ mutex, shouldResize { map with mutex } = shouldResize map := fun _ => rfl
    rw [show 15 + 2 ^ (n + 1) = 14 + 2 ^ (n + 1) + 1 by omega, HashMap.insert, locked]
    simp only [bind, Except.bind, if_pos nonzero, test, if_pos full]
    have resized : resize (HashMap.insert (14 + 2 ^ (n + 1))) { map with mutex }
      (int32 (2 * map.size)) = .ok middle := resized
    simp only [resized, placed]
  · have roomy : map.used * 10 < map.size * 7 := by
      rw [responsive.valid.shouldResize_iff] at full
      omega
    exact HashMap.insert_returns responsive.valid roomy responsive.free responsive.unused (by omega)
      key nonzero

end Responsive

open Classical in
/-- As long as no insert takes the last `UNUSED` slot, an `UNUSED` slot remains and
the next call returns, whatever its key. (An insert that resizes takes the mutex
again, so it needs a re-entrant one, and room for the `int` arithmetic.) -/
theorem calls_return_while_unused_spared {initSize : Int} (isInt : initSize < 2 ^ 31)
    (positive : 0 < (create reentrant initSize).size)
    (small : (create reentrant initSize).size ≤ 2 ^ 28)
    (reached : ((maps reentrant initSize).restrict fun map step => Spares map step.1).Reachable map) :
    (∃ item ∈ map.pool, item.state = .unused) ∧
    ∀ key, (∃ fuel outcome, select fuel map key = .ok outcome) ∧
      (∃ fuel outcome, remove fuel map key = .ok outcome) ∧
      ∀ value ≠ 0, (shouldResize map = true → reentrant = true ∧ map.size < 2 ^ 28) →
        ∃ fuel outcome, insert fuel map key value = .ok outcome := by
  have kept : ∃ n, Responsive reentrant map n := by
    apply reached.invariant (P := fun map => ∃ n, Responsive reentrant map n)
    · rintro map rfl
      obtain ⟨n, valid, unused, none⟩ := create_spec isInt positive small
      refine ⟨n, valid, ?_, fun k w stored => absurd stored (none k w), rfl⟩
      rw [unused]
      exact Nat.ne_of_gt (Nat.two_pow_pos n)
    · rintro map ⟨call, fuel⟩ map' _ ⟨n, responsive⟩ moved
      obtain ⟨spared, moved⟩ := System.restrict_next.mp moved
      obtain ⟨result, performed⟩ := maps_next moved
      exact responsive.step spared performed
  obtain ⟨n, responsive⟩ := kept
  refine ⟨?_, fun key => ⟨⟨_, responsive.lookup_returns key 0 _⟩, ⟨_, responsive.lookup_returns key false _⟩,
    fun value nonzero resizes => ⟨_, responsive.insert_returns key nonzero resizes⟩⟩⟩
  obtain ⟨item, member, state⟩ := List.countP_pos_iff.mp (Nat.pos_of_ne_zero responsive.unused)
  exact ⟨item, member, by simpa using state⟩

/-- A key inserted and removed again. -/
theorem calls_return_while_unused_spared_applies :
    ∃ map : Map, map.pool.map Item.state =
        [.unused, .deleted, .unused, .unused, .unused, .unused, .unused, .unused] ∧
      (∃ item ∈ map.pool, item.state = .unused) ∧
      ∀ key, ∃ fuel outcome, insert fuel map key 1 = .ok outcome := by
  classical
  let kept := (maps false 8).restrict fun map step => Spares map step.1
  have created : kept.Reachable (create false 8) := System.Reachable.start rfl
  have spared : Spares (create false 8) (.insert 1 7) := by
    rw [Spares, if_neg (by decide)]
    exact Or.inr (by decide)
  have run : (((maps false 8).next (create false 8) (.insert 1 7, 9)).bind fun map =>
      (maps false 8).next map (.remove 1, 9)) =
        some ⟨(freshPool 8).set 1 ⟨.deleted, 0, 2 ^ 64 - 1⟩, 8, 0, ⟨false, 0⟩⟩ := by decide
  obtain ⟨middle, inserted, removed⟩ := Option.bind_eq_some_iff.mp run
  have second := created.step (System.restrict_next.mpr ⟨spared, inserted⟩)
  have spared' : Spares middle (.remove 1) := trivial
  have third := second.step (System.restrict_next.mpr ⟨spared', removed⟩)
  obtain ⟨unused, returns⟩ := calls_return_while_unused_spared (by decide) (by decide) (by decide) third
  refine ⟨_, by decide, unused, fun key => (returns key).2.2 1 (by decide) fun resizes => ?_⟩
  exact absurd resizes (by decide)

/-! ### Without `UNUSED` slots -/

/-- Without an `UNUSED` slot, the search for an absent key goes on for ever. -/
theorem find_runs_forever {pool : List Item} (high : n ≤ 28) (length : pool.length = 2 ^ n)
    (full : ∀ item ∈ pool, item.state ≠ .unused) {key : Nat}
    (absent : ∀ item ∈ pool, item.state = .used → item.key ≠ key) (fuel m : Nat) :
    find pool key (maskOf n) fuel (hashfunc key >>> (5 * m)) (path (maskOf n) key m) =
      .error .running := by
  induction fuel generalizing m with
  | zero => rfl
  | succ fuel ih =>
    have inside : path (maskOf n) key m < pool.length := length ▸ path_lt high key m
    obtain ⟨item, read⟩ : ∃ item, pool[path (maskOf n) key m]? = some item :=
      ⟨_, List.getElem?_eq_getElem inside⟩
    have member := List.mem_of_getElem? read
    have other : ¬ (item.state = .used ∧ item.key = key) := fun hit => absent item member hit.1 hit.2
    rw [find]
    simp only [read, if_neg (full item member), if_neg other, pert_step]
    exact ih (m + 1)

/-- Nor does the loop of an insert end. -/
theorem findTarget_runs_forever {pool : List Item} (high : n ≤ 28) (length : pool.length = 2 ^ n)
    (full : ∀ item ∈ pool, item.state ≠ .unused) {key : Nat}
    (absent : ∀ item ∈ pool, item.state = .used → item.key ≠ key) (fuel m : Nat)
    (insertIndex : Option Nat) :
    findTarget pool key (maskOf n) fuel (hashfunc key >>> (5 * m)) (path (maskOf n) key m)
      insertIndex = .error .running := by
  induction fuel generalizing m insertIndex with
  | zero => rfl
  | succ fuel ih =>
    have inside : path (maskOf n) key m < pool.length := length ▸ path_lt high key m
    obtain ⟨item, read⟩ : ∃ item, pool[path (maskOf n) key m]? = some item :=
      ⟨_, List.getElem?_eq_getElem inside⟩
    have member := List.mem_of_getElem? read
    rw [findTarget]
    simp only [read, pert_step]
    cases state : item.state with
    | unused => exact absurd state (full item member)
    | deleted =>
      simp only [or_true, if_true, reduceCtorEq, if_false]
      exact ih (m + 1) _
    | used =>
      simp only [reduceCtorEq, or_self, if_false, if_neg (absent item member state)]
      exact ih (m + 1) _

/-- The pool after eight keys with different home slots were inserted and removed. -/
def exhausted : Map := ⟨List.replicate 8 ⟨.deleted, 0, 2 ^ 64 - 1⟩, 8, 0, ⟨false, 0⟩⟩

/-- After that, no call that looks for a key returns. -/
theorem deleted_slots_exhaust_the_pool :
    (maps false 8).Reachable exhausted ∧ (∀ item ∈ exhausted.pool, item.state ≠ .unused) ∧
      ∀ fuel, select fuel exhausted 5 = .error .running ∧ remove fuel exhausted 5 = .error .running ∧
        insert fuel exhausted 5 1 = .error .running := by
  have replayed : (maps false 8).replay (create false 8)
      ([0, 1, 2, 3, 4, 6, 9, 12].flatMap fun key => [(.insert key 1, 9), (.remove key, 9)]) =
        some exhausted := by decide
  have full : ∀ item ∈ exhausted.pool, item.state ≠ .unused := by decide
  have absent : ∀ item ∈ exhausted.pool, item.state = .used → item.key ≠ 5 := by decide
  have search : ∀ fuel, find exhausted.pool 5 (mask exhausted) fuel (hashfunc 5)
      (firstIndex (mask exhausted) (hashfunc 5)) = .error .running := fun fuel =>
    find_runs_forever (n := 3) (by omega) rfl full absent fuel 0
  have target : ∀ fuel, findTarget exhausted.pool 5 (mask exhausted) fuel (hashfunc 5)
      (firstIndex (mask exhausted) (hashfunc 5)) none = .error .running := fun fuel =>
    findTarget_runs_forever (n := 3) (by omega) rfl full absent fuel 0 none
  have locked : lock exhausted.mutex = .ok ⟨false, 1⟩ := rfl
  have sameMask : ∀ mutex, mask { exhausted with mutex } = mask exhausted := fun _ => rfl
  have nonempty : exhausted.size ≠ 0 := by decide
  have power : isPow2 exhausted.size = true := by decide
  refine ⟨(System.Reachable.start rfl).replay _ replayed, full, fun fuel => ⟨?_, ?_, ?_⟩⟩
  · rw [select, lookup, locked]
    simp only [bind, Except.bind, sameMask, if_neg nonempty, if_pos power, search]
  · rw [remove, lookup, locked]
    simp only [bind, Except.bind, sameMask, if_neg nonempty, if_pos power, search]
  · cases fuel with
    | zero => rfl
    | succ fuel =>
      have test : shouldResize exhausted = false := by decide
      have stays : ∀ mutex, ¬ shouldResize { exhausted with mutex } = true := fun mutex => by
        rw [show shouldResize { exhausted with mutex } = shouldResize exhausted from rfl, test]
        exact Bool.false_ne_true
      have room : exhausted.used < exhausted.size ∧ isPow2 exhausted.size = true := by decide
      rw [insert, locked]
      simp only [bind, Except.bind, place, sameMask, if_neg (stays _), if_pos room, target,
        ne_eq, one_ne_zero, not_false_eq_true, if_true]

end Mysnips.HashMap

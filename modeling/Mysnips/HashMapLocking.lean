import Mysnips.HashMapTermination

/-! The mutex of the hash map. Every call takes it first and gives it back on every way out.
`hashmap_insert` holds it while it resizes, and `resize` inserts the stored items through
`hashmap_insert` again: a default `pthread` mutex is then taken by the thread that holds it. -/
namespace Mysnips.HashMap
open Machine Transition

/-- A call does not take the mutex while it holds it, and gives it back. -/
structure Disciplined (map : Map) (call : Call) : Prop where
  once : ∀ fuel, map.perform fuel call ≠ .error .deadlock
  free : ∀ fuel map' result, map.perform fuel call = .ok (map', result) → map'.mutex.depth = 0

/-- The call inserts at the load that asks for a resize, and there is an item to be moved. -/
def Reenters (map : Map) : Call → Prop
  | .insert _ value => value ≠ 0 ∧ shouldResize map = true ∧ ∃ item ∈ map.pool, item.state = .used
  | _ => False

variable {map map' : Map} {fuel key value : Nat}

/-! ## The loops -/

/-- The searches do not touch the mutex. -/
theorem find_no_deadlock (pool : List Item) (key : Nat) (mask : Int) (fuel pert i : Nat) :
    find pool key mask fuel pert i ≠ .error .deadlock := by
  induction fuel generalizing pert i with
  | zero => exact nofun
  | succ fuel ih =>
    unfold find
    split
    · exact nofun
    split
    · exact nofun
    split
    · exact nofun
    · exact ih _ _

theorem findTarget_no_deadlock (pool : List Item) (key : Nat) (mask : Int) (fuel pert i : Nat)
    (insertIndex : Option Nat) :
    findTarget pool key mask fuel pert i insertIndex ≠ .error .deadlock := by
  induction fuel generalizing pert i insertIndex with
  | zero => exact nofun
  | succ fuel ih =>
    unfold findTarget
    split
    · exact nofun
    simp only
    split
    · split
      · exact nofun
      · exact ih _ _ _
    split
    · exact nofun
    · exact ih _ _ _

theorem place_no_deadlock : place fuel map key value ≠ .error .deadlock := by
  unfold place
  split
  · intro stopped
    rcases bind_error stopped with lost | ⟨target, -, rest⟩
    · exact findTarget_no_deadlock _ _ _ _ _ _ _ lost
    · cases target <;> cases rest
  · exact nofun

theorem place_mutex (placed : place fuel map key value = .ok map') : map'.mutex = map.mutex := by
  unfold place at placed
  split at placed
  · obtain ⟨target, -, rest⟩ := bind_ok placed
    cases target with
    | update i =>
      cases rest
      rfl
    | fresh i =>
      cases rest
      rfl
  · cases placed

/-! ## Inserting while the mutex is held -/

/-- What a nested insert ends in. -/
def nestedFault (fuel : Nat) : Fault := if fuel = 0 then .running else .deadlock

theorem insert_held (held : map.mutex = ⟨false, 1⟩) :
    insert fuel map key value = .error (nestedFault fuel) := by
  cases fuel with
  | zero => rfl
  | succ fuel =>
    rw [insert, held]
    rfl

/-- Moving the items of a pool: it ends at the first one. -/
theorem refill_held (items : List Item) (held : map.mutex = ⟨false, 1⟩) :
    items.foldlM (fun map item =>
      if item.state = .used then insert fuel map item.key item.value else .ok map) map =
      if ∃ item ∈ items, item.state = .used then .error (nestedFault fuel) else .ok map := by
  induction items with
  | nil => simp [pure, Except.pure]
  | cons item items ih =>
    rw [List.foldlM_cons]
    by_cases used : item.state = .used
    · have here : ∃ other ∈ item :: items, other.state = .used := ⟨item, List.mem_cons_self, used⟩
      rw [if_pos used, insert_held held, if_pos here]
      rfl
    · rw [if_neg used]
      simp only [List.mem_cons, exists_eq_or_imp, used, false_or]
      exact ih

theorem resize_held (newSize : Int) (held : map.mutex = ⟨false, 1⟩) :
    (∃ item ∈ map.pool, item.state = .used) ∧
      resize (insert fuel) map newSize = .error (nestedFault fuel) ∨
    (¬ ∃ item ∈ map.pool, item.state = .used) ∧
      ∃ map', resize (insert fuel) map newSize = .ok map' ∧ map'.mutex = map.mutex := by
  unfold resize
  simp only
  rw [refill_held map.pool (by exact held)]
  by_cases stored : ∃ item ∈ map.pool, item.state = .used
  · exact .inl ⟨stored, if_pos stored⟩
  · exact .inr ⟨stored, _, if_neg stored, rfl⟩

/-! ## The calls -/

theorem lock_unlocked (free : map.mutex = ⟨false, 0⟩) : lock map.mutex = .ok ⟨false, 1⟩ := by
  rw [free]
  rfl

/-- An insert that begins with a free mutex. -/
theorem insert_cases (free : map.mutex = ⟨false, 0⟩) :
    (Reenters map (.insert key value) ∧
      insert (fuel + 1) map key value = .error (nestedFault fuel)) ∨
    (¬ Reenters map (.insert key value) ∧
      insert (fuel + 1) map key value ≠ .error .deadlock ∧
      ∀ map', insert (fuel + 1) map key value = .ok map' → map'.mutex = ⟨false, 0⟩) := by
  -- behind the resize, what is left places the item and gives the mutex back
  have ends : ∀ middle : Map, middle.mutex = ⟨false, 1⟩ →
      ((place fuel middle key value).bind fun last =>
        .ok { last with mutex := unlock last.mutex }) ≠ .error .deadlock ∧
      ∀ map', ((place fuel middle key value).bind fun last =>
        .ok { last with mutex := unlock last.mutex }) = .ok map' → map'.mutex = ⟨false, 0⟩ := by
    intro middle held
    constructor
    · intro stopped
      rcases bind_error stopped with lost | ⟨last, -, rest⟩
      · exact place_no_deadlock lost
      · cases rest
    · intro map' returned
      obtain ⟨last, placed, rest⟩ := bind_ok returned
      cases rest
      show unlock last.mutex = _
      rw [place_mutex placed, held]
      rfl
  rw [insert, lock_unlocked free]
  simp only [bind, Except.bind]
  by_cases zero : value = 0
  · refine .inr ⟨fun reenters => reenters.1 zero, ?_⟩
    rw [if_neg (not_not.mpr zero)]
    constructor
    · rintro ⟨⟩
    · rintro _ ⟨⟩
  rw [if_pos zero]
  have test : shouldResize { map with mutex := ⟨false, 1⟩ } = shouldResize map := rfl
  by_cases full : shouldResize map = true
  · rw [test, if_pos full]
    rcases @resize_held { map with mutex := ⟨false, 1⟩ } fuel (int32 (2 * map.size)) rfl with
      ⟨stored, stopped⟩ | ⟨empty, middle, resized, mutex⟩
    · refine .inl ⟨⟨zero, full, stored⟩, ?_⟩
      rw [stopped]
    · refine .inr ⟨fun reenters => empty reenters.2.2, ?_⟩
      rw [resized]
      exact ends middle mutex
  · refine .inr ⟨fun reenters => full reenters.2.1, ?_⟩
    rw [test, if_neg full]
    exact ends _ rfl

/-- A call that began with a free mutex leaves it free. -/
structure KeepsFree {α : Type} (mutexOf : α → Mutex) (outcome : Except Fault α) : Prop where
  once : outcome ≠ .error .deadlock
  back : ∀ result, outcome = .ok result → mutexOf result = ⟨false, 0⟩

section KeepsFree

variable {α β : Type} {mutexOf : α → Mutex} {mutexOf' : β → Mutex}

theorem KeepsFree.ok {result : α} (free : mutexOf result = ⟨false, 0⟩) :
    KeepsFree mutexOf (.ok result) := by
  refine ⟨nofun, fun other returned => ?_⟩
  cases returned
  exact free

theorem KeepsFree.assertion : KeepsFree mutexOf (.error .assertion) := ⟨nofun, nofun⟩

/-- A search, and what follows it. -/
theorem KeepsFree.search {pool : List Item} {mask : Int} {pert i : Nat}
    {rest : Option Nat → Except Fault α} (each : ∀ slot, KeepsFree mutexOf (rest slot)) :
    KeepsFree mutexOf ((find pool key mask fuel pert i).bind rest) := by
  constructor
  · intro stopped
    rcases bind_error stopped with lost | ⟨slot, -, behind⟩
    · exact find_no_deadlock _ _ _ _ _ _ lost
    · exact (each slot).once behind
  · intro result returned
    obtain ⟨slot, -, behind⟩ := bind_ok returned
    exact (each slot).back result behind

/-- A result that is only looked at. -/
theorem KeepsFree.before {outcome : Except Fault α} {rest : α → β} (kept : KeepsFree mutexOf outcome)
    (same : ∀ result, mutexOf' (rest result) = mutexOf result) :
    KeepsFree mutexOf' (outcome.bind fun result => .ok (rest result)) := by
  constructor
  · intro stopped
    rcases bind_error stopped with lost | ⟨result, -, behind⟩
    · exact kept.once lost
    · cases behind
  · intro result returned
    obtain ⟨inner, ran, behind⟩ := bind_ok returned
    cases behind
    rw [same, kept.back inner ran]

/-- A call that looks a key up while it holds the mutex, and unlocks it in every outcome. -/
theorem KeepsFree.lookup {empty inRange : Prop} [Decidable empty] [Decidable inRange] {none : α}
    {pool : List Item} {mask : Int} {pert i : Nat} {rest : Option Nat → Except Fault α}
    (early : mutexOf none = ⟨false, 0⟩) (each : ∀ slot, KeepsFree mutexOf (rest slot)) :
    KeepsFree mutexOf (if empty then .ok none
      else if inRange then (find pool key mask fuel pert i).bind rest else .error .assertion) := by
  split
  · exact .ok early
  split
  · exact .search each
  · exact .assertion

end KeepsFree

/-- A look-up whose use of the slot leaves the mutex alone. -/
theorem lookup_keepsFree {Answer : Type} {absent : Answer} {found : Map → Nat → Map × Answer}
    (free : map.mutex = ⟨false, 0⟩) (same : ∀ map i, (found map i).1.mutex = map.mutex) :
    KeepsFree (fun result => result.1.mutex) (lookup fuel map key absent found) := by
  unfold lookup
  rw [lock_unlocked free]
  refine KeepsFree.lookup rfl fun slot => ?_
  cases slot with
  | none => exact .ok rfl
  | some i => exact .ok (congrArg unlock (same _ i))

/-- Every call but the insert that re-enters. -/
theorem perform_keepsFree {call : Call} (free : map.mutex = ⟨false, 0⟩)
    (enters : ¬ Reenters map call) :
    KeepsFree (fun result => result.1.mutex) (map.perform fuel call) := by
  cases call with
  | insert key value =>
    have kept : KeepsFree Map.mutex (insert fuel map key value) := by
      cases fuel with
      | zero => exact ⟨nofun, nofun⟩
      | succ fuel =>
        rcases @insert_cases map fuel key value free with ⟨reenters, -⟩ | ⟨-, once, back⟩
        · exact absurd reenters enters
        · exact ⟨once, back⟩
    exact kept.before fun _ => rfl
  | remove key => exact (lookup_keepsFree free fun _ _ => rfl).before fun _ => rfl
  | select key => exact (lookup_keepsFree free fun _ _ => rfl).before fun _ => rfl
  | «exists» key =>
    have looked : KeepsFree (fun result => result.1.mutex) («exists» fuel map key) :=
      (lookup_keepsFree free fun _ _ => rfl).before fun _ => rfl
    exact looked.before fun _ => rfl
  | count =>
    simp only [Map.perform, count, lock_unlocked free, bind, Except.bind]
    exact .ok rfl

theorem reachable_free {initSize : Int} (reached : (maps false initSize).Reachable map) :
    map.mutex = ⟨false, 0⟩ := by
  apply reached.invariant
  · rintro map rfl
    rfl
  · rintro map ⟨call, fuel⟩ map' - free moved
    obtain ⟨result, returned⟩ := maps_next moved
    by_cases enters : Reenters map call
    · cases call with
      | insert key value =>
        obtain ⟨inserted, insertion, -⟩ := bind_ok returned
        cases fuel with
        | zero => cases insertion
        | succ fuel =>
          rcases @insert_cases map fuel key value free with ⟨-, stopped⟩ | ⟨no, -⟩
          · cases stopped.symm.trans insertion
          · exact absurd enters no
      | _ => cases enters
    · exact (perform_keepsFree free enters).back _ returned

/-- On a `pthread` mutex, every call on a reachable map takes the mutex once and gives it back,
except for an insert at the load that asks for a resize, and with an item to be moved. -/
theorem disciplined_iff_not_reenters {initSize : Int} (reached : (maps false initSize).Reachable map)
    (call : Call) : map.mutex = ⟨false, 0⟩ ∧ (Disciplined map call ↔ ¬ Reenters map call) := by
  have free := reachable_free reached
  refine ⟨free, fun disciplined enters => ?_, fun enters => ⟨fun fuel => ?_, ?_⟩⟩
  · cases call with
    | insert key value =>
      apply disciplined.once 2
      rcases @insert_cases map 1 key value free with ⟨-, stopped⟩ | ⟨no, -⟩
      · simp only [Map.perform, stopped]
        rfl
      · exact absurd enters no
    | _ => exact enters
  · exact (perform_keepsFree free enters).once
  · intro fuel map' result returned
    have back := (perform_keepsFree free enters).back _ returned
    exact congrArg Mutex.depth back

/-- Looking up a key of a map with one item. -/
theorem disciplined_iff_not_reenters_applies : ∃ map : Map, (maps false 8).Reachable map ∧
    map.used = 1 ∧ Disciplined map (.insert 1 9) ∧ Disciplined map (.select 1) := by
  have begun : (maps false 8).Reachable (create false 8) := .start rfl
  obtain ⟨map, reached, checked⟩ := begun.replay_check [(.insert 1 7, 9)]
    (fun map => map.used = 1 && !shouldResize map) (by decide)
  simp only [Bool.and_eq_true, decide_eq_true_eq, Bool.not_eq_true'] at checked
  refine ⟨map, reached, checked.1, ?_, ?_⟩
  · apply (disciplined_iff_not_reenters reached _).2.mpr
    rintro ⟨-, full, -⟩
    cases checked.2.symm.trans full
  · exact (disciplined_iff_not_reenters reached _).2.mpr id

/-- The seventh insert into a map of eight slots resizes it and stops at its own mutex. -/
theorem seventh_insert_deadlocks : ∃ map : Map, (maps false 8).Reachable map ∧ map.used = 6 ∧
    map.mutex = ⟨false, 0⟩ ∧ map.perform 20 (.insert 7 1) = .error .deadlock ∧
    ¬ Disciplined map (.insert 7 1) := by
  have begun : (maps false 8).Reachable (create false 8) := .start rfl
  obtain ⟨map, reached, checked⟩ := begun.replay_check
    [(.insert 1 1, 20), (.insert 2 1, 20), (.insert 3 1, 20), (.insert 4 1, 20), (.insert 5 1, 20),
      (.insert 6 1, 20)]
    (fun map => map.used = 6 && map.mutex = ⟨false, 0⟩ &&
      (match map.perform 20 (.insert 7 1) with
        | .error fault => decide (fault = .deadlock)
        | .ok _ => false)) (by decide +kernel)
  simp only [Bool.and_eq_true, decide_eq_true_eq] at checked
  obtain ⟨⟨used, free⟩, after⟩ := checked
  have stopped : map.perform 20 (.insert 7 1) = .error .deadlock := by
    split at after
    · rename_i fault failed
      rw [failed, of_decide_eq_true after]
    · cases after
  exact ⟨map, reached, used, free, stopped, fun disciplined => disciplined.once 20 stopped⟩

end Mysnips.HashMap

import Mathlib.Tactic.IntervalCases
import Mysnips.FullPeriod
import Mysnips.HashMap
import Mysnips.OpenAddressing
import Mysnips.PowersOfTwo

/-! The probe loops of the hash map. A loop walks the path of its key; what it
returns says what the slots on the way held. The path covers the pool, because
the perturbation runs out after 13 steps and leaves a recurrence of full period,
so a loop ends whenever some slot is `UNUSED`. -/
namespace Mysnips.HashMap
open Machine OpenAddressing PowersOfTwo

/-! ### Sizes -/

private theorem smear_step {x : BitVec 32} {v : Nat} (s : Nat) (value : x.toNat = v)
    (positive : v < 2 ^ 31) :
    (x ||| x.sshiftRight s).toNat = v ||| v >>> s ∧ v ||| v >>> s < 2 ^ 31 := by
  have sign : x.msb = false := by
    rw [BitVec.msb_eq_decide, value, decide_eq_false_iff_not]
    omega
  constructor
  · rw [BitVec.toNat_or, BitVec.toNat_sshiftRight_of_msb_false sign, value]
  · refine Nat.or_lt_two_pow positive ?_
    rw [Nat.shiftRight_eq_div_pow]
    exact Nat.lt_of_le_of_lt (Nat.div_le_self _ _) positive

/-- The word that `next_pow2` increments last. -/
def smear (v : Int) : BitVec 32 :=
  let v := BitVec.ofInt 32 v - 1
  let v := v ||| v.sshiftRight 1
  let v := v ||| v.sshiftRight 2
  let v := v ||| v.sshiftRight 4
  let v := v ||| v.sshiftRight 8
  v ||| v.sshiftRight 16

theorem nextPow2_smear (v : Int) : nextPow2 v = (smear v + 1).toInt := rfl

theorem smear_toNat {v : Nat} (positive : 0 < v) (small : v < 2 ^ 31) :
    (smear v).toNat = 2 ^ ceilLog v - 1 := by
  have start : (BitVec.ofInt 32 v - 1).toNat = v - 1 := by
    rw [BitVec.toNat_sub, BitVec.toNat_ofInt, show (1 : BitVec 32).toNat = 1 from rfl]
    omega
  obtain ⟨value₁, small₁⟩ := smear_step 1 start (by omega)
  obtain ⟨value₂, small₂⟩ := smear_step 2 value₁ small₁
  obtain ⟨value₃, small₃⟩ := smear_step 4 value₂ small₂
  obtain ⟨value₄, small₄⟩ := smear_step 8 value₃ small₃
  obtain ⟨value₅, small₅⟩ := smear_step 16 value₄ small₄
  have smeared := (smeared_one (v - 1)).double.double.double.double.double
  have mask := smeared.eq_mask (by omega)
  norm_num at mask
  rw [mask] at value₅
  exact value₅

/-- `next_pow2` rounds up to a power of two, which past `2 ^ 30` is out of range
of an `int`. -/
theorem nextPow2_eq {v : Nat} (positive : 0 < v) (small : v < 2 ^ 31) :
    nextPow2 v = int32 (2 ^ ceilLog v : Nat) := by
  have power : 2 ^ ceilLog v - 1 + 1 = 2 ^ ceilLog v := Nat.sub_add_cancel (Nat.two_pow_pos _)
  rw [nextPow2_smear, BitVec.toInt_eq_toNat_bmod, BitVec.toNat_add, smear_toNat positive small,
    show (1 : BitVec 32).toNat = 1 from rfl, power, Int.natCast_mod, Int.emod_bmod, int32]

/-- In range, it leaves a power of two as it is. -/
theorem nextPow2_two_pow {n : Nat} (high : n ≤ 30) : nextPow2 ((2 ^ n : Nat) : Int) = (2 ^ n : Nat) := by
  have power : 2 ^ n ≤ 2 ^ 30 := Nat.pow_le_pow_right (by decide) high
  have ceil : ceilLog (2 ^ n) = n := by
    apply Nat.le_antisymm
    · exact (ceilLog_le_iff (Nat.two_pow_pos _)).mpr (Nat.le_refl _)
    · exact (Nat.pow_le_pow_iff_right (by decide)).mp (le_pow_ceilLog (Nat.two_pow_pos n))
  rw [nextPow2_eq (Nat.two_pow_pos _) (by omega), ceil, int32_natCast (by omega)]

theorem isPow2_two_pow {n : Nat} (low : 3 ≤ n) (high : n ≤ 28) : isPow2 (2 ^ n) = true := by
  interval_cases n <;> decide

/-! ### The path of a key -/

/-- The slots that the probe loops visit for a hash, in order. -/
def probe (mask : Int) (hash : Nat) : Nat → Nat
  | 0 => firstIndex mask hash
  | k + 1 => nextIndex mask (probe mask hash k) (hash >>> (5 * (k + 1)))

/-- The slots that the probe loops visit for a key, in order. -/
def path (mask : Int) (key : Nat) : Nat → Nat := probe mask (hashfunc key)

/-- The mask of a pool of `2 ^ n` slots. -/
def maskOf (n : Nat) : Int := 2 ^ n - 1

private theorem ofInt_maskOf {n : Nat} (high : n ≤ 28) : ofInt (maskOf n) = 2 ^ n - 1 := by
  have power : 2 ^ n ≤ 2 ^ 28 := Nat.pow_le_pow_right (by omega) high
  have positive : 0 < 2 ^ n := Nat.two_pow_pos n
  have cast : maskOf n = ((2 ^ n - 1 : Nat) : Int) := by
    rw [maskOf]
    push_cast [positive]
    ring
  rw [cast, ofInt_eq (by omega) (by omega), Int.toNat_natCast]

theorem probe_lt {n : Nat} (high : n ≤ 28) (hash k : Nat) : probe (maskOf n) hash k < 2 ^ n := by
  have masked : ∀ x, x &&& ofInt (maskOf n) < 2 ^ n := fun x => by
    rw [ofInt_maskOf high, Nat.and_two_pow_sub_one_eq_mod]
    exact Nat.mod_lt _ (Nat.two_pow_pos n)
  cases k with
  | zero => exact masked _
  | succ k => exact masked _

theorem path_lt {n : Nat} (high : n ≤ 28) (key k : Nat) : path (maskOf n) key k < 2 ^ n :=
  probe_lt high (hashfunc key) k

theorem hashfunc_lt (key : Nat) : hashfunc key < 2 ^ 64 := by
  rw [hashfunc]
  apply Nat.xor_lt_two_pow
  · exact Nat.mod_lt _ (Nat.two_pow_pos 64)
  · rw [Nat.shiftRight_eq_div_pow]
    exact Nat.lt_of_le_of_lt (Nat.div_le_self _ _) (Nat.mod_lt _ (Nat.two_pow_pos 64))

theorem probe_zero {n : Nat} (high : n ≤ 28) (hash : Nat) :
    probe (maskOf n) hash 0 = hash % 2 ^ n := by
  rw [probe, firstIndex, ofInt_maskOf high, Nat.and_two_pow_sub_one_eq_mod]

/-- The `int` product does not overflow, so that a step is the recurrence with the
perturbation added. -/
theorem probe_succ {n : Nat} (high : n ≤ 28) (hash k : Nat) :
    probe (maskOf n) hash (k + 1) =
      (5 * probe (maskOf n) hash k + hash >>> (5 * (k + 1)) + 1) % 2 ^ n := by
  have inside := probe_lt high hash k
  have power : 2 ^ n ≤ 2 ^ 28 := Nat.pow_le_pow_right (by omega) high
  rw [probe, nextIndex, ofInt_maskOf high, Nat.and_two_pow_sub_one_eq_mod]
  generalize probe (maskOf n) hash k = i at inside
  have product : ofInt (int32 ((i : Int) * 5)) = 5 * i := by
    rw [int32_eq (by omega) (by omega), ofInt_eq (by omega) (by omega)]
    omega
  rw [product, add64, add64, Nat.mod_add_mod,
    Nat.mod_mod_of_dvd _ (Nat.pow_dvd_pow 2 (show n ≤ 64 by omega))]

/-- The probes visit every slot: from step 13 on the perturbation is gone. -/
theorem probe_covers {n : Nat} (high : n ≤ 28) {hash : Nat} (word : hash < 2 ^ 64) {target : Nat}
    (inside : target < 2 ^ n) : ∃ k < 13 + 2 ^ n, probe (maskOf n) hash k = target := by
  have settled : ∀ d, probe (maskOf n) hash (13 + d) =
      FullPeriod.orbit (probe (maskOf n) hash 13) d % 2 ^ n := by
    intro d
    induction d with
    | zero => exact (Nat.mod_eq_of_lt (probe_lt high hash 13)).symm
    | succ d ih =>
      have gone : hash >>> (5 * (13 + d + 1)) = 0 := by
        rw [Nat.shiftRight_eq_div_pow]
        apply Nat.div_eq_of_lt
        exact Nat.lt_of_lt_of_le word (Nat.pow_le_pow_right (by omega) (by omega))
      rw [← Nat.add_assoc, probe_succ high, gone, ih, FullPeriod.orbit, Nat.add_zero]
      simp [Nat.add_mod, Nat.mul_mod]
  obtain ⟨d, bound, visited⟩ := FullPeriod.orbit_surjective n (probe (maskOf n) hash 13) inside
  exact ⟨13 + d, by omega, by rw [settled, visited]⟩

/-! ### Slots -/

/-- What a slot holds. -/
def slotOf (item : Item) : Slot Nat Nat :=
  match item.state with
  | .unused => .empty
  | .used => .full item.key item.value
  | .deleted => .deleted

/-- The pool as a table. -/
def table (pool : List Item) (i : Nat) : Slot Nat Nat := (pool[i]?.map slotOf).getD .empty

theorem table_eq {pool : List Item} {i : Nat} {item : Item} (read : pool[i]? = some item) :
    table pool i = slotOf item := by
  simp [table, read]

theorem table_set {pool : List Item} {i : Nat} (inside : i < pool.length) (item : Item) :
    table (pool.set i item) = Function.update (table pool) i (slotOf item) := by
  funext j
  by_cases same : j = i
  · subst same
    simp [table, inside]
  · rw [Function.update_of_ne same, table, table, List.getElem?_set_ne (Ne.symm same)]

/-- The loop has passed `m` slots of the path without meeting the key or an
`UNUSED` slot. -/
def Passed (pool : List Item) (mask : Int) (key m : Nat) : Prop :=
  ∀ j < m, table pool (path mask key j) ≠ .empty ∧
    ∀ value, table pool (path mask key j) ≠ .full key value

theorem Passed.step {pool : List Item} {mask : Int} {key m : Nat} (passed : Passed pool mask key m)
    (other : table pool (path mask key m) ≠ .empty)
    (different : ∀ value, table pool (path mask key m) ≠ .full key value) :
    Passed pool mask key (m + 1) := by
  intro j before
  rcases Nat.lt_succ_iff_lt_or_eq.mp before with before | rfl
  · exact passed j before
  · exact ⟨other, different⟩

theorem pert_step (hash m : Nat) : hash >>> (5 * m) >>> 5 = hash >>> (5 * (m + 1)) := by
  rw [← Nat.shiftRight_add]
  rfl

/-! ### The loop of `hashmap_remove` and `hashmap_select` -/

section Find

variable {pool : List Item} {key : Nat} {mask : Int}

/-- The loop returns the slot of the key, or has walked to an `UNUSED` slot without
meeting the key. -/
private theorem find_walk {m : Nat} {result : Option Nat} (fuel : Nat)
    (passed : Passed pool mask key m)
    (found : find pool key mask fuel (hashfunc key >>> (5 * m)) (path mask key m) = .ok result) :
    (∃ i value, result = some i ∧ i < pool.length ∧ table pool i = .full key value) ∨
      (result = none ∧ ∃ m, table pool (path mask key m) = .empty ∧ Passed pool mask key m) := by
  induction fuel generalizing m with
  | zero => simp [find] at found
  | succ fuel ih =>
    rw [find] at found
    cases read : pool[path mask key m]? with
    | none => simp [read] at found
    | some item =>
      have slot := table_eq read
      simp only [read, pert_step] at found
      by_cases empty : item.state = .unused
      · rw [if_pos empty] at found
        cases found
        exact Or.inr ⟨rfl, m, by simp [slot, slotOf, empty], passed⟩
      · rw [if_neg empty] at found
        by_cases hit : item.state = .used ∧ item.key = key
        · rw [if_pos hit] at found
          cases found
          obtain ⟨inside, _⟩ := List.getElem?_eq_some_iff.mp read
          exact Or.inl ⟨_, item.value, rfl, inside, by simp [slot, slotOf, hit.1, hit.2]⟩
        · rw [if_neg hit] at found
          refine ih (passed.step ?_ ?_) found
          · rw [slot]
            cases state : item.state <;> simp_all [slotOf]
          · intro value
            rw [slot]
            cases state : item.state <;> simp_all [slotOf]

theorem find_spec {fuel : Nat} {result : Option Nat}
    (found : find pool key mask fuel (hashfunc key) (firstIndex mask (hashfunc key)) = .ok result) :
    (∃ i value, result = some i ∧ i < pool.length ∧ table pool i = .full key value) ∨
      (result = none ∧ ∃ m, table pool (path mask key m) = .empty ∧ Passed pool mask key m) :=
  find_walk (m := 0) fuel (by intro j; omega) found

/-- Some slot that is probed is `UNUSED`, so the loop ends. -/
private theorem find_ends {hash m d : Nat} (fuel : Nat)
    (inside : ∀ k, probe mask hash k < pool.length)
    (empty : table pool (probe mask hash (m + d)) = .empty) (enough : d < fuel) :
    ∃ result, find pool key mask fuel (hash >>> (5 * m)) (probe mask hash m) = .ok result := by
  induction fuel generalizing m d with
  | zero => omega
  | succ fuel ih =>
    obtain ⟨item, read⟩ : ∃ item, pool[probe mask hash m]? = some item :=
      ⟨_, List.getElem?_eq_getElem (inside m)⟩
    have slot := table_eq read
    rw [find]
    simp only [read, pert_step]
    by_cases unused : item.state = .unused
    · exact ⟨none, if_pos unused⟩
    · rw [if_neg unused]
      by_cases hit : item.state = .used ∧ item.key = key
      · exact ⟨_, if_pos hit⟩
      · rw [if_neg hit]
        cases d with
        | zero =>
          rw [Nat.add_zero, slot] at empty
          cases state : item.state <;> simp_all [slotOf]
        | succ d => exact ih (m := m + 1) (d := d) (by rwa [Nat.add_right_comm]) (by omega)

end Find

/-! ### The loop of `hashmap_insert` -/

section FindTarget

variable {pool : List Item} {key : Nat} {mask : Int}

/-- The first `DELETED` slot among the first `m` of the path, if there is one. -/
def FirstDeleted (pool : List Item) (mask : Int) (key m : Nat) : Option Nat → Prop
  | none => ∀ j < m, table pool (path mask key j) ≠ .deleted
  | some i => ∃ j < m, i = path mask key j ∧ table pool i = .deleted ∧
      ∀ l < j, table pool (path mask key l) ≠ .deleted

/-- The slot that the loop of `hashmap_insert` chooses: the one of the key, or for
an absent key the first slot of the path that holds no key. -/
def Chosen (pool : List Item) (mask : Int) (key : Nat) : Target → Prop
  | .update i => i < pool.length ∧ ∃ value, table pool i = .full key value
  | .fresh i => (∃ m, table pool (path mask key m) = .empty ∧ Passed pool mask key m) ∧
      ∃ j, i = path mask key j ∧ i < pool.length ∧ (table pool i = .deleted ∨ table pool i = .empty) ∧
        ∀ l < j, table pool (path mask key l) ≠ .empty ∧ table pool (path mask key l) ≠ .deleted

private theorem chosen_fresh {m : Nat} {insertIndex : Option Nat}
    (passed : Passed pool mask key m) (first : FirstDeleted pool mask key m insertIndex)
    (inside : path mask key m < pool.length) (empty : table pool (path mask key m) = .empty) :
    Chosen pool mask key (.fresh (insertIndex.getD (path mask key m))) := by
  refine ⟨⟨m, empty, passed⟩, ?_⟩
  cases insertIndex with
  | none =>
    exact ⟨m, rfl, inside, Or.inr empty, fun l before => ⟨(passed l before).1, first l before⟩⟩
  | some i =>
    obtain ⟨j, before, rfl, deleted, earlier⟩ := first
    have stored : path mask key j < pool.length := by
      by_contra outside
      rw [Nat.not_lt, ← List.getElem?_eq_none_iff] at outside
      simp [table, outside] at deleted
    exact ⟨j, rfl, stored, Or.inl deleted, fun l lower =>
      ⟨(passed l (Nat.lt_trans lower before)).1, earlier l lower⟩⟩

private theorem findTarget_walk {m : Nat} {insertIndex : Option Nat} {result : Target} (fuel : Nat)
    (passed : Passed pool mask key m) (first : FirstDeleted pool mask key m insertIndex)
    (found : findTarget pool key mask fuel (hashfunc key >>> (5 * m)) (path mask key m)
      insertIndex = .ok result) : Chosen pool mask key result := by
  induction fuel generalizing m insertIndex with
  | zero => simp [findTarget] at found
  | succ fuel ih =>
    rw [findTarget] at found
    cases read : pool[path mask key m]? with
    | none => simp [read] at found
    | some item =>
      have slot := table_eq read
      obtain ⟨inside, _⟩ := List.getElem?_eq_some_iff.mp read
      simp only [read, pert_step] at found
      cases state : item.state with
      | unused =>
        simp only [state, true_or, if_true] at found
        cases found
        exact chosen_fresh passed first inside (by simp [slot, slotOf, state])
      | deleted =>
        have deleted : table pool (path mask key m) = .deleted := by simp [slot, slotOf, state]
        simp only [state, or_true, if_true, reduceCtorEq, if_false] at found
        refine ih (passed.step (by simp [deleted]) (by simp [deleted])) ?_ found
        cases insertIndex with
        | none => exact ⟨m, Nat.lt_succ_self m, rfl, deleted, first⟩
        | some i =>
          obtain ⟨j, before, rest⟩ := first
          exact ⟨j, Nat.lt_succ_of_lt before, rest⟩
      | used =>
        have full : table pool (path mask key m) = .full item.key item.value := by
          simp [slot, slotOf, state]
        simp only [state, reduceCtorEq, or_self, if_false] at found
        by_cases hit : item.key = key
        · rw [if_pos hit] at found
          cases found
          exact ⟨inside, item.value, by rw [full, hit]⟩
        · rw [if_neg hit] at found
          refine ih (passed.step (by simp [full]) (by simp [full, hit])) ?_ found
          cases insertIndex with
          | none =>
            intro j before
            rcases Nat.lt_succ_iff_lt_or_eq.mp before with before | rfl
            · exact first j before
            · simp [full]
          | some i =>
            obtain ⟨j, before, rest⟩ := first
            exact ⟨j, Nat.lt_succ_of_lt before, rest⟩

theorem findTarget_spec {fuel : Nat} {result : Target}
    (found : findTarget pool key mask fuel (hashfunc key) (firstIndex mask (hashfunc key)) none =
      .ok result) : Chosen pool mask key result := by
  refine findTarget_walk (m := 0) fuel ?_ ?_ found
  · intro j before
    omega
  · intro j before
    omega

private theorem findTarget_ends {hash m d : Nat} {insertIndex : Option Nat} (fuel : Nat)
    (inside : ∀ k, probe mask hash k < pool.length)
    (empty : table pool (probe mask hash (m + d)) = .empty) (enough : d < fuel) :
    ∃ result, findTarget pool key mask fuel (hash >>> (5 * m)) (probe mask hash m)
      insertIndex = .ok result := by
  induction fuel generalizing m d insertIndex with
  | zero => omega
  | succ fuel ih =>
    obtain ⟨item, read⟩ : ∃ item, pool[probe mask hash m]? = some item :=
      ⟨_, List.getElem?_eq_getElem (inside m)⟩
    have slot := table_eq read
    rw [findTarget]
    simp only [read, pert_step]
    -- past a slot that is not `UNUSED`, the `UNUSED` one is a step closer
    have goesOn : item.state ≠ .unused → ∀ insertIndex, ∃ result, findTarget pool key mask fuel
        (hash >>> (5 * (m + 1))) (probe mask hash (m + 1)) insertIndex = .ok result := by
      intro kept insertIndex
      cases d with
      | zero =>
        rw [Nat.add_zero, slot] at empty
        cases state : item.state <;> simp_all [slotOf]
      | succ d => exact ih (m := m + 1) (d := d) (by rwa [Nat.add_right_comm]) (by omega)
    cases state : item.state with
    | unused => exact ⟨_, by simp; rfl⟩
    | deleted =>
      simp only [or_true, if_true, reduceCtorEq, if_false]
      exact goesOn (by simp [state]) _
    | used =>
      simp only [reduceCtorEq, or_self, if_false]
      by_cases hit : item.key = key
      · exact ⟨_, if_pos hit⟩
      · rw [if_neg hit]
        exact goesOn (by simp [state]) _

end FindTarget

/-! ### Both loops end -/

/-- With one `UNUSED` slot in the pool, the loops end within `13 + 2 ^ n` steps, whatever the
hash is. -/
theorem hash_probes_end {pool : List Item} {n i fuel hash : Nat} (high : n ≤ 28)
    (word : hash < 2 ^ 64) (length : pool.length = 2 ^ n) (inside : i < 2 ^ n)
    (empty : table pool i = .empty) (enough : 13 + 2 ^ n ≤ fuel) (key : Nat) :
    (∃ result, find pool key (maskOf n) fuel hash (firstIndex (maskOf n) hash) = .ok result) ∧
    ∃ result, findTarget pool key (maskOf n) fuel hash (firstIndex (maskOf n) hash) none =
      .ok result := by
  obtain ⟨k, bound, reached⟩ := probe_covers high word inside
  have within : ∀ k, probe (maskOf n) hash k < pool.length := fun k => length ▸ probe_lt high hash k
  constructor
  · exact find_ends (m := 0) (d := k) fuel within (by rw [Nat.zero_add, reached, empty]) (by omega)
  · exact findTarget_ends (m := 0) (d := k) fuel within (by rw [Nat.zero_add, reached, empty])
      (by omega)

/-- With one `UNUSED` slot in the pool, the loops end within `13 + 2 ^ n` steps. -/
theorem probes_end {pool : List Item} {n i fuel : Nat} (high : n ≤ 28) (length : pool.length = 2 ^ n)
    (inside : i < 2 ^ n) (empty : table pool i = .empty) (enough : 13 + 2 ^ n ≤ fuel) (key : Nat) :
    (∃ result, find pool key (maskOf n) fuel (hashfunc key) (firstIndex (maskOf n) (hashfunc key)) =
      .ok result) ∧
    ∃ result, findTarget pool key (maskOf n) fuel (hashfunc key)
      (firstIndex (maskOf n) (hashfunc key)) none = .ok result :=
  hash_probes_end high (hashfunc_lt key) length inside empty enough key

end Mysnips.HashMap

import Mysnips.HashMapProbe

/-! What the probes of the hash map cover. The result is about the recurrence on words, for any
hash: what a hash function makes of the keys does not matter. -/
namespace Mysnips.HashMap
open Machine

/-- The perturbation after that many steps. -/
def pertAt (hash : Nat) : Nat → Nat
  | 0 => hash
  | k + 1 => pertAt hash k >>> 5

/-- The index after that many steps: `(5*i + pert + 1) & mask`. -/
def indexAt (mask hash : Nat) : Nat → Nat
  | 0 => hash &&& mask
  | k + 1 => (5 * indexAt mask hash k + pertAt hash (k + 1) + 1) &&& mask

theorem pertAt_eq (hash k : Nat) : pertAt hash k = hash >>> (5 * k) := by
  induction k with
  | zero => rfl
  | succ k ih => rw [pertAt, ih, pert_step]

/-- The loops follow the recurrence. -/
theorem probe_eq_indexAt {n : Nat} (high : n ≤ 28) (hash k : Nat) :
    probe (maskOf n) hash k = indexAt (2 ^ n - 1) hash k := by
  induction k with
  | zero => rw [probe_zero high, indexAt, Nat.and_two_pow_sub_one_eq_mod]
  | succ k ih =>
    rw [probe_succ high, indexAt, Nat.and_two_pow_sub_one_eq_mod, pertAt_eq, ih]

theorem mask_of_size {map : Map} {n : Nat} (high : n ≤ 28) (size : map.size = 2 ^ n) :
    mask map = maskOf n := by
  have power : (2 : Int) ^ n ≤ 2 ^ 28 := pow_le_pow_right₀ (by decide) high
  have positive : (0 : Int) < 2 ^ n := pow_pos (by decide) n
  rw [mask, size, int32_eq (by omega) (by omega), maskOf]

/-- For every hash of 64 bits and every size of the pool, the probes follow the recurrence and
visit every slot within `13 + 2 ^ n` steps, so that the loops of all calls end if some slot is
`UNUSED`. -/
theorem probes_cover_the_pool {n hash : Nat} (low : 3 ≤ n) (high : n ≤ 28) (word : hash < 2 ^ 64) :
    (∀ slot < 2 ^ n, ∃ k < 13 + 2 ^ n, indexAt (2 ^ n - 1) hash k = slot) ∧
    ∀ map : Map, map.size = 2 ^ n → map.pool.length = 2 ^ n →
      (∃ item ∈ map.pool, item.state = .unused) →
      isPow2 map.size = true ∧
      (∀ k, probe (mask map) hash k = indexAt (2 ^ n - 1) hash k) ∧
      ∀ key fuel, 13 + 2 ^ n ≤ fuel →
        (∃ result,
          find map.pool key (mask map) fuel hash (firstIndex (mask map) hash) = .ok result) ∧
        ∃ result, findTarget map.pool key (mask map) fuel hash (firstIndex (mask map) hash) none =
          .ok result := by
  refine ⟨fun slot inside => ?_, fun map size length unused => ?_⟩
  · obtain ⟨k, bound, reached⟩ := probe_covers high word inside
    exact ⟨k, bound, by rw [← probe_eq_indexAt high, reached]⟩
  · rw [mask_of_size high size]
    obtain ⟨item, member, state⟩ := unused
    obtain ⟨i, inside, rfl⟩ := List.mem_iff_getElem.mp member
    have empty : table map.pool i = .empty := by
      rw [table_eq (List.getElem?_eq_getElem inside), slotOf, state]
    refine ⟨?_, probe_eq_indexAt high hash, fun key fuel enough => ?_⟩
    · rw [size]
      exact isPow2_two_pow low high
    · exact hash_probes_end high word length (length ▸ inside) empty enough key

/-- A pool of eight slots of which the last one is `UNUSED`. -/
theorem probes_cover_the_pool_applies :
    (∀ slot < 8, ∃ k < 21, indexAt 7 (2 ^ 64 - 1) k = slot) ∧
    ∃ result, find (List.replicate 7 ⟨.deleted, 0, 0⟩ ++ [⟨.unused, 0, 0⟩]) 5 7 21 (2 ^ 64 - 1)
      (firstIndex 7 (2 ^ 64 - 1)) = .ok result := by
  obtain ⟨covers, ends⟩ := probes_cover_the_pool (n := 3) (Nat.le_refl 3) (by decide)
    (show 2 ^ 64 - 1 < 2 ^ 64 by decide)
  obtain ⟨-, -, loops⟩ := ends ⟨List.replicate 7 ⟨.deleted, 0, 0⟩ ++ [⟨.unused, 0, 0⟩], 8, 0, ⟨true, 0⟩⟩
    rfl rfl ⟨⟨.unused, 0, 0⟩, by decide, rfl⟩
  exact ⟨covers, (loops 5 21 (Nat.le_refl 21)).1⟩

end Mysnips.HashMap

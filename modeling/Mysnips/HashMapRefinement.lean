import Mathlib.Data.List.Nodup
import Mathlib.Data.List.Perm.Basic
import Mysnips.HashMapTable

/-! The hash map refines the association list of `hash_map_ref.c`: run side by
side on the same calls, the two give the same results, whatever the pattern of
resizes and `DELETED` slots. The two hold the same pairs after every call. -/
namespace Mysnips.HashMap
open OpenAddressing Transition

/-! ### The reference map -/

namespace Ref

variable {ref : Ref} {key value : Nat}

/-- The reference map associates the value with the key. -/
def Has (ref : Ref) (key value : Nat) : Prop := ⟨key, value⟩ ∈ ref.entries

/-- No key has two entries. -/
def Distinct (ref : Ref) : Prop := (ref.entries.map Entry.key).Nodup

theorem functional (distinct : ref.Distinct) {other : Nat} (first : ref.Has key value)
    (second : ref.Has key other) : value = other := by
  have same := List.inj_on_of_nodup_map distinct first second rfl
  exact congrArg Entry.value same

/-- The search of the reference map finds the entry of the key, if there is one. -/
theorem indexOf_spec (ref : Ref) (key : Nat) :
    (∃ value, ref.entries[ref.indexOf key]? = some ⟨key, value⟩) ∨
      (ref.indexOf key = ref.entries.length ∧ ∀ value, ¬ ref.Has key value) := by
  by_cases inside : ref.indexOf key < ref.entries.length
  · have found : decide ((ref.entries.get ⟨ref.indexOf key, inside⟩).key = key) = true :=
      List.findIdx_getElem (w := inside)
    rw [decide_eq_true_eq] at found
    refine Or.inl ⟨(ref.entries.get ⟨ref.indexOf key, inside⟩).value, ?_⟩
    rw [List.getElem?_eq_getElem inside, Option.some.injEq]
    exact congrArg (fun k => (⟨k, _⟩ : Entry)) found
  · have all : ref.indexOf key = ref.entries.length :=
      Nat.le_antisymm List.findIdx_le_length (Nat.le_of_not_lt inside)
    refine Or.inr ⟨all, fun value stored => ?_⟩
    have missed := List.findIdx_eq_length.mp all _ stored
    simp at missed

/-- The reference map around the entry of a key: up to the order of the entries, an
insertion replaces it and a removal drops it. -/
private theorem entry_split {old : Nat} (read : ref.entries[ref.indexOf key]? = some ⟨key, old⟩)
    (value : Nat) :
    ∃ rest, ref.entries.Perm (⟨key, old⟩ :: rest) ∧
      (ref.insert key value).entries.Perm (⟨key, value⟩ :: rest) ∧
      (ref.remove key).1.entries.Perm rest ∧ (ref.remove key).2 = true := by
  obtain ⟨inside, entry⟩ := List.getElem?_eq_some_iff.mp read
  refine ⟨ref.entries.eraseIdx (ref.indexOf key), ?_, ?_, ?_⟩
  · rw [← entry]
    exact (List.getElem_cons_eraseIdx_perm inside).symm
  · simp only [insert, if_pos inside]
    rw [List.modify_eq_set_getElem?, read]
    exact List.set_perm_cons_eraseIdx inside _
  · rw [remove]
    simp only [if_neg (Nat.ne_of_lt inside)]
    refine ⟨?_, trivial⟩
    generalize ref.indexOf key = i at inside read
    rcases List.eq_nil_or_concat ref.entries with empty | ⟨front, last, shape⟩
    · simp [empty] at inside
    rw [shape, List.concat_eq_append] at inside ⊢
    rw [List.length_append, List.length_singleton] at inside
    rw [List.getLast?_concat, List.modify_eq_set_getElem?]
    by_cases isLast : i = front.length
    · subst isLast
      simp [List.eraseIdx_append_of_length_le]
    · have early : i < front.length := by omega
      rw [List.getElem?_append_left early, List.getElem?_eq_getElem early]
      simp only [Option.map_eq_map, Option.map_some, Option.getD_some,
        List.set_append_left _ _ early, List.dropLast_concat, List.eraseIdx_append_of_lt_length early]
      exact (List.set_perm_cons_eraseIdx early last).trans (List.perm_append_singleton _ _).symm

private theorem absent_spec (all : ref.indexOf key = ref.entries.length) (value : Nat) :
    (ref.insert key value).entries = ref.entries ++ [⟨key, value⟩] ∧
      ref.remove key = (ref, false) := by
  simp [insert, remove, all]

/-- What the changing calls of the reference map do to its pairs. -/
theorem changes_spec (distinct : ref.Distinct) (key value : Nat) :
    (ref.insert key value).Distinct ∧ (ref.remove key).1.Distinct ∧
    (∀ k w, (ref.insert key value).Has k w ↔ (k = key ∧ w = value) ∨ (k ≠ key ∧ ref.Has k w)) ∧
    (∀ k w, (ref.remove key).1.Has k w ↔ k ≠ key ∧ ref.Has k w) ∧
    ((ref.remove key).2 = true ↔ ∃ w, ref.Has key w) := by
  rcases indexOf_spec ref key with ⟨old, read⟩ | ⟨all, absent⟩
  · obtain ⟨rest, whole, inserted, removed, answer⟩ := entry_split read value
    have keys := (whole.map Entry.key).nodup_iff.mp distinct
    rw [List.map_cons, List.nodup_cons] at keys
    have others : ∀ k w, (⟨k, w⟩ : Entry) ∈ rest ↔ k ≠ key ∧ ref.Has k w := by
      intro k w
      rw [Has, whole.mem_iff, List.mem_cons, Entry.mk.injEq]
      constructor
      · intro member
        refine ⟨?_, Or.inr member⟩
        rintro rfl
        exact keys.1 (List.mem_map.mpr ⟨_, member, rfl⟩)
      · rintro ⟨different, ⟨same, _⟩ | member⟩
        · exact absurd same different
        · exact member
    refine ⟨?_, ?_, fun k w => ?_, fun k w => ?_, ?_⟩
    · rw [Distinct, (inserted.map Entry.key).nodup_iff, List.map_cons, List.nodup_cons]
      exact keys
    · rw [Distinct, (removed.map Entry.key).nodup_iff]
      exact keys.2
    · rw [Has, inserted.mem_iff, List.mem_cons, Entry.mk.injEq, others]
    · rw [Has, removed.mem_iff, others]
    · exact ⟨fun _ => ⟨old, List.mem_of_getElem? read⟩, fun _ => answer⟩
  · obtain ⟨inserted, removed⟩ := absent_spec all value
    have other : ∀ k w, ref.Has k w → k ≠ key := by
      rintro k w stored rfl
      exact absent w stored
    refine ⟨?_, by rw [removed]; exact distinct, fun k w => ?_, fun k w => ?_, ?_⟩
    · rw [Distinct, inserted, List.map_append, List.nodup_append]
      refine ⟨distinct, by simp, ?_⟩
      intro k member k' single
      obtain ⟨⟨_, w⟩, stored, rfl⟩ := List.mem_map.mp member
      simp only [List.map_cons, List.map_nil, List.mem_singleton] at single
      exact single ▸ other _ w stored
    · rw [Has, inserted, List.mem_append, List.mem_singleton, Entry.mk.injEq]
      constructor
      · rintro (stored | pair)
        · exact Or.inr ⟨other k w stored, stored⟩
        · exact Or.inl pair
      · rintro (pair | ⟨_, stored⟩)
        · exact Or.inr pair
        · exact Or.inl stored
    · rw [removed]
      exact ⟨fun stored => ⟨other k w stored, stored⟩, fun both => both.2⟩
    · simp [removed, absent]

theorem select_spec (ref : Ref) (key : Nat) :
    ref.Has key (ref.select key) ∨ (ref.select key = 0 ∧ ∀ w, ¬ ref.Has key w) := by
  rcases indexOf_spec ref key with ⟨value, read⟩ | ⟨all, absent⟩
  · left
    rw [select, read]
    exact List.mem_of_getElem? read
  · exact Or.inr ⟨by simp [select, all], absent⟩

end Ref

/-! ### Both maps side by side -/

/-- The two maps after the same calls, and what each of them has returned. -/
structure Session where
  map : Map
  ref : Ref
  results : List Result
  refResults : List Result

/-- One call on both maps. It is offered when the hash map returns within the fuel
and its pool stays below `2 ^ 28` slots. -/
def Session.perform (s : Session) (call : Call) (fuel : Nat) : Option Session :=
  match s.map.perform fuel call with
  | .error _ => none
  | .ok (map, result) =>
    if map.size < 2 ^ 28 then
      let (ref, refResult) := s.ref.perform call
      some ⟨map, ref, s.results ++ [result], s.refResults ++ [refResult]⟩
    else none

/-- Any sequence of calls that return, after `hashmap_create`. -/
def sessions (reentrant : Bool) (initSize : Int) : System Session (Call × Nat) where
  initial s := s = ⟨create reentrant initSize, Ref.create, [], []⟩
  next s step := s.perform step.1 step.2

/-- The maps hold the same pairs and have given the same answers. -/
structure Session.Agree (s : Session) (n : Nat) : Prop where
  valid : Valid s.map n
  small : s.map.size < 2 ^ 28
  distinct : s.ref.Distinct
  nonzero : ∀ k w, s.ref.Has k w → w ≠ 0
  has : ∀ k w, s.map.Has k w ↔ s.ref.Has k w
  results : s.results = s.refResults

/-- The keys in the `USED` slots, slot by slot. -/
def Map.keys (map : Map) : List Nat :=
  (map.pool.filter fun item => item.state = .used).map Item.key

variable {map : Map} {n : Nat} {s s' : Session}

theorem mem_keys {k : Nat} : k ∈ map.keys ↔ ∃ w, map.Has k w := by
  simp only [Map.keys, List.mem_map, List.mem_filter, decide_eq_true_eq, has_iff_mem]
  constructor
  · rintro ⟨⟨_, value, _⟩, ⟨member, rfl⟩, rfl⟩
    exact ⟨value, member⟩
  · rintro ⟨w, member⟩
    exact ⟨_, ⟨member, rfl⟩, rfl⟩

theorem used_eq_keys (valid : Valid map n) : map.used = map.keys.length := by
  rw [valid.used, Map.keys, List.length_map, countState, List.countP_eq_length_filter]

theorem keys_nodup (valid : Valid map n) : map.keys.Nodup := by
  rw [Map.keys, List.Nodup, List.pairwise_map, List.pairwise_filter, List.pairwise_iff_getElem]
  intro i j iInside jInside before first second sameKey
  rw [decide_eq_true_eq] at first second
  have atI := table_eq (List.getElem?_eq_getElem iInside)
  have atJ := table_eq (List.getElem?_eq_getElem jInside)
  rw [slotOf, first] at atI
  rw [slotOf, second, ← sameKey] at atJ
  have := valid.sound.unique i j _ _ _ atI atJ
  omega

theorem keys_perm {ref : Ref} (valid : Valid map n) (distinct : ref.Distinct)
    (has : ∀ k w, map.Has k w ↔ ref.Has k w) : map.keys.Perm (ref.entries.map Entry.key) := by
  rw [List.perm_ext_iff_of_nodup (keys_nodup valid) distinct]
  intro k
  rw [mem_keys, List.mem_map]
  constructor
  · rintro ⟨w, stored⟩
    exact ⟨⟨k, w⟩, (has k w).mp stored, rfl⟩
  · rintro ⟨⟨_, w⟩, stored, rfl⟩
    exact ⟨w, (has _ w).mpr stored⟩

private theorem selects_agree {map' : Map} {key fuel answer : Nat} (agree : s.Agree n)
    (selected : select fuel s.map key = .ok (map', answer)) :
    map' = s.map ∧ answer = s.ref.select key := by
  obtain ⟨same, found⟩ := select_spec agree.valid selected
  refine ⟨same, ?_⟩
  rcases found with stored | ⟨rfl, absent⟩
  · rw [agree.has] at stored
    rcases s.ref.select_spec key with refStored | ⟨_, refAbsent⟩
    · exact Ref.functional agree.distinct stored refStored
    · exact absurd stored (refAbsent answer)
  · rcases s.ref.select_spec key with refStored | ⟨zero, _⟩
    · exact absurd ((agree.has key _).mpr refStored) (absent _)
    · exact zero.symm

private theorem perform_parts {call : Call} {fuel : Nat} (moved : s.perform call fuel = some s') :
    ∃ map result, s.map.perform fuel call = .ok (map, result) ∧ map.size < 2 ^ 28 ∧
      s' = ⟨map, (s.ref.perform call).1, s.results ++ [result],
        s.refResults ++ [(s.ref.perform call).2]⟩ := by
  rw [Session.perform] at moved
  cases performed : s.map.perform fuel call with
  | error fault => simp [performed] at moved
  | ok outcome =>
    obtain ⟨map, result⟩ := outcome
    simp only [performed] at moved
    by_cases small : map.size < 2 ^ 28
    · rw [if_pos small] at moved
      exact ⟨map, result, rfl, small, (Option.some.inj moved).symm⟩
    · rw [if_neg small] at moved
      cases moved

/-- A call that returns keeps the maps in agreement. -/
theorem Session.Agree.step (agree : s.Agree n) {call : Call} {fuel : Nat}
    (moved : s.perform call fuel = some s') : ∃ n', s'.Agree n' := by
  obtain ⟨map, result, performed, small, rfl⟩ := perform_parts moved
  -- a call that changes nothing keeps everything but the results
  have unchanged : map = s.map → s.ref.perform call = (s.ref, result) →
      Session.Agree ⟨map, (s.ref.perform call).1, s.results ++ [result],
        s.refResults ++ [(s.ref.perform call).2]⟩ n := by
    rintro rfl answered
    rw [answered]
    exact ⟨agree.valid, small, agree.distinct, agree.nonzero, agree.has, by rw [agree.results]⟩
  cases call with
  | insert key value =>
    obtain ⟨map', inserted, done⟩ := bind_ok performed
    cases done
    obtain ⟨nonzero, _, has, outcome⟩ :=
      insert_spec agree.valid (fun _ => agree.valid.lt_of_size agree.small) inserted
    obtain ⟨distinct, _, refHas, _⟩ := Ref.changes_spec agree.distinct key value
    have valid : ∃ n', Valid map n' := by
      rcases outcome with ⟨_, placed⟩ | ⟨_, valid, _⟩
      · exact ⟨n, placed.valid⟩
      · exact ⟨n + 1, valid⟩
    obtain ⟨n', valid⟩ := valid
    refine ⟨n', valid, small, distinct, fun k w stored => ?_, fun k w => ?_, by rw [agree.results]; rfl⟩
    · rcases (refHas k w).mp stored with ⟨_, rfl⟩ | ⟨_, stored⟩
      · exact nonzero
      · exact agree.nonzero k w stored
    · exact (has k w).trans (by rw [agree.has, ← refHas]; rfl)
  | remove key =>
    obtain ⟨⟨map', answer⟩, removed, done⟩ := bind_ok performed
    cases done
    obtain ⟨valid, _, answered, has, _⟩ := remove_spec agree.valid removed
    obtain ⟨_, distinct, _, refHas, refAnswered⟩ := Ref.changes_spec agree.distinct key 0
    have same : answer = (s.ref.remove key).2 := by
      rw [Bool.eq_iff_iff, answered, refAnswered]
      simp only [agree.has]
    refine ⟨n, valid, small, distinct, fun k w stored => ?_, fun k w => ?_, ?_⟩
    · exact agree.nonzero k w ((refHas k w).mp stored).2
    · exact (has k w).trans (by rw [agree.has, ← refHas]; rfl)
    · rw [agree.results, same]
      rfl
  | select key =>
    obtain ⟨⟨map', answer⟩, selected, done⟩ := bind_ok performed
    cases done
    obtain ⟨same, answered⟩ := selects_agree agree selected
    exact ⟨n, unchanged same (by rw [answered]; rfl)⟩
  | «exists» key =>
    obtain ⟨⟨map', answer⟩, existed, done⟩ := bind_ok performed
    cases done
    obtain ⟨⟨map', value⟩, selected, done⟩ := bind_ok existed
    cases done
    obtain ⟨same, answered⟩ := selects_agree agree selected
    exact ⟨n, unchanged same (by rw [answered]; rfl)⟩
  | count =>
    obtain ⟨⟨map', answer⟩, counted, done⟩ := bind_ok performed
    cases done
    obtain ⟨same, answered⟩ := count_spec counted
    refine ⟨n, unchanged same ?_⟩
    have length := (keys_perm agree.valid agree.distinct agree.has).length_eq
    rw [answered, used_eq_keys agree.valid, length, List.length_map]
    rfl

/-- Every result of the hash map is the one of the reference map. The hash map
counts the distinct keys, and no key is in two `USED` slots. -/
theorem hash_map_refines_reference {reentrant : Bool} {initSize : Int} (isInt : initSize < 2 ^ 31)
    (positive : 0 < (create reentrant initSize).size)
    (small : (create reentrant initSize).size < 2 ^ 28)
    (reached : (sessions reentrant initSize).Reachable s) :
    s.results = s.refResults ∧ s.map.used = s.map.keys.length ∧ s.map.keys.Nodup ∧
      s.map.keys.Perm (s.ref.entries.map Entry.key) := by
  have agreed : ∃ n, s.Agree n := by
    apply reached.invariant (P := fun s => ∃ n, s.Agree n)
    · rintro s rfl
      obtain ⟨n, valid, _, none⟩ := create_spec isInt positive (Int.le_of_lt small)
      refine ⟨n, valid, small, List.nodup_nil, ?_, ?_, rfl⟩
      · exact fun k w stored => absurd stored List.not_mem_nil
      · exact fun k w => ⟨fun stored => absurd stored (none k w), fun stored =>
          absurd stored List.not_mem_nil⟩
    · rintro s ⟨call, fuel⟩ s' _ ⟨n, agree⟩ moved
      exact agree.step moved
  obtain ⟨n, agree⟩ := agreed
  exact ⟨agree.results, used_eq_keys agree.valid, keys_nodup agree.valid,
    keys_perm agree.valid agree.distinct agree.has⟩

/-- Inserts with a resize, a removal and queries. -/
theorem hash_map_refines_reference_applies :
    ∃ s, (sessions true 5).Reachable s ∧ s.map.size = 16 ∧
      s.results.drop 8 = [.nothing, .value 21, .flag false, .count 6] ∧ s.results = s.refResults := by
  have run : ((sessions true 5).replay ⟨create true 5, Ref.create, [], []⟩
      ([.insert 1 11, .insert 2 12, .insert 3 13, .remove 3, .insert 4 14, .insert 5 15, .insert 6 16,
        .insert 7 17, .insert 1 21, .select 1, .exists 3, .count].map fun call => (call, 40))).map
          (fun s => (s.map.size, s.results.drop 8)) =
      some (16, [.nothing, .value 21, .flag false, .count 6]) := by decide
  obtain ⟨s, replayed, shape⟩ := Option.map_eq_some_iff.mp run
  rw [Prod.mk.injEq] at shape
  have reached := (System.Reachable.start (M := sessions true 5) rfl).replay _ replayed
  exact ⟨s, reached, shape.1, shape.2,
    (hash_map_refines_reference (by decide) (by decide) (by decide) reached).1⟩

end Mysnips.HashMap

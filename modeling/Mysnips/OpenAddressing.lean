import Mathlib.Logic.Function.Basic
import Mathlib.Tactic.Common

/-! Hash tables with open addressing and deletion marks, over any probe path.

The path of a key lists the slots where it may be stored. A table is sound when
no key is stored twice and the path of every stored key reaches it without
crossing an empty slot. Deletion marks keep paths intact, so a search may give up
at the first empty slot, and an insertion may reuse the first mark it meets. -/
namespace Mysnips.OpenAddressing

/-- A slot: never used, given up, or holding a key with its value. -/
inductive Slot (Key Value : Type*) where
  | empty
  | deleted
  | full (key : Key) (value : Value)

variable {Key Value Index : Type*}

/-- The key is stored with the value. -/
def Stores (table : Index → Slot Key Value) (key : Key) (value : Value) : Prop :=
  ∃ i, table i = .full key value

/-- Every key is stored once, where its path finds it. -/
structure Sound (path : Key → Nat → Index) (table : Index → Slot Key Value) : Prop where
  unique : ∀ i j key value other, table i = .full key value → table j = .full key other → i = j
  found : ∀ i key value, table i = .full key value →
    ∃ m, path key m = i ∧ ∀ j < m, table (path key j) ≠ .empty

namespace Sound

variable {path : Key → Nat → Index} {table : Index → Slot Key Value} {key : Key} {m : Nat}
  {i : Index}

theorem start : Sound path (fun _ => (.empty : Slot Key Value)) :=
  ⟨fun _ _ _ _ _ full => by simp at full, fun _ _ _ full => by simp at full⟩

/-- A search that met an empty slot, and not the key before it, has shown that the
key is absent. -/
theorem absent (sound : Sound path table) (ended : table (path key m) = .empty)
    (missed : ∀ j < m, ∀ value, table (path key j) ≠ .full key value) (value : Value) :
    ¬ Stores table key value := by
  rintro ⟨i, full⟩
  obtain ⟨reached, rfl, crossed⟩ := sound.found i key value full
  rcases Nat.lt_trichotomy reached m with before | rfl | behind
  · exact missed reached before value full
  · rw [ended] at full
    cases full
  · exact crossed m behind ended

variable [DecidableEq Index]

/-- Changing a slot that is not emptied leaves every path intact. -/
private theorem found_update (sound : Sound path table) (slot : Slot Key Value)
    (kept : slot ≠ .empty) {other : Key} {j : Index} {value : Value}
    (full : table j = .full other value) :
    ∃ m, path other m = j ∧ ∀ l < m, Function.update table i slot (path other l) ≠ .empty := by
  obtain ⟨m, reached, crossed⟩ := sound.found j other value full
  refine ⟨m, reached, fun l before => ?_⟩
  by_cases hit : path other l = i
  · rw [hit, Function.update_self]
    exact kept
  · rw [Function.update_of_ne hit]
    exact crossed l before

/-- Store an absent key in a slot on its path that holds no key, when no slot
before is empty. -/
theorem put (sound : Sound path table) (value : Value) (absent : ∀ value, ¬ Stores table key value)
    (crossed : ∀ j < m, table (path key j) ≠ .empty) :
    Sound path (Function.update table (path key m) (.full key value)) := by
  have kept : (.full key value : Slot Key Value) ≠ .empty := by simp
  constructor
  · intro i j stored first second
    by_cases isI : i = path key m <;> by_cases isJ : j = path key m
    · exact fun _ _ => isI.trans isJ.symm
    · rw [isI, Function.update_self, Function.update_of_ne isJ]
      rintro new old
      cases new
      exact absurd ⟨j, old⟩ (absent second)
    · rw [isJ, Function.update_self, Function.update_of_ne isI]
      rintro old new
      cases new
      exact absurd ⟨i, old⟩ (absent first)
    · rw [Function.update_of_ne isI, Function.update_of_ne isJ]
      exact sound.unique i j stored first second
  · intro i stored other full
    by_cases isI : i = path key m
    · rw [isI, Function.update_self] at full
      cases full
      refine ⟨m, isI.symm, fun j before => ?_⟩
      by_cases hit : path key j = path key m
      · rw [hit, Function.update_self]
        exact kept
      · rw [Function.update_of_ne hit]
        exact crossed j before
    · rw [Function.update_of_ne isI] at full
      exact sound.found_update _ kept full

/-- Give a stored key another value. -/
theorem overwrite (sound : Sound path table) {value : Value} (full : table i = .full key value)
    (value' : Value) : Sound path (Function.update table i (.full key value')) := by
  have kept : (.full key value' : Slot Key Value) ≠ .empty := by simp
  -- the keys of the slots do not change
  have keys : ∀ j other w, Function.update table i (.full key value') j = .full other w →
      ∃ w', table j = .full other w' := by
    intro j other w stored
    by_cases same : j = i
    · rw [same, Function.update_self] at stored
      cases stored
      exact ⟨value, same ▸ full⟩
    · rw [Function.update_of_ne same] at stored
      exact ⟨w, stored⟩
  constructor
  · intro j l other w w' first second
    obtain ⟨v, first⟩ := keys j other w first
    obtain ⟨v', second⟩ := keys l other w' second
    exact sound.unique j l other v v' first second
  · intro j other w stored
    obtain ⟨v, stored⟩ := keys j other w stored
    exact sound.found_update _ kept stored

/-- Replace a stored key by a deletion mark. -/
theorem erase (sound : Sound path table) : Sound path (Function.update table i .deleted) := by
  have kept : (.deleted : Slot Key Value) ≠ .empty := by simp
  -- what is still stored was stored before
  have others : ∀ j other w, Function.update table i .deleted j = .full other w →
      table j = .full other w := by
    intro j other w stored
    by_cases same : j = i
    · rw [same, Function.update_self] at stored
      cases stored
    · rwa [Function.update_of_ne same] at stored
  constructor
  · intro j l other w w' first second
    exact sound.unique j l other w w' (others _ _ _ first) (others _ _ _ second)
  · intro j other w stored
    exact sound.found_update _ kept (others j other w stored)

end Sound

/-! ### What is stored after a change -/

section Stores

variable {table : Index → Slot Key Value} {key : Key} {i : Index}

/-- The new content of a slot is stored, and everything that was stored elsewhere. -/
theorem stores_update [DecidableEq Index] (slot : Slot Key Value) {other : Key} {w : Value} :
    Stores (Function.update table i slot) other w ↔
      slot = .full other w ∨ ∃ j, j ≠ i ∧ table j = .full other w := by
  constructor
  · rintro ⟨j, stored⟩
    by_cases same : j = i
    · rw [same, Function.update_self] at stored
      exact Or.inl stored
    · rw [Function.update_of_ne same] at stored
      exact Or.inr ⟨j, same, stored⟩
  · rintro (new | ⟨j, away, stored⟩)
    · exact ⟨i, by rw [Function.update_self, new]⟩
    · exact ⟨j, by rw [Function.update_of_ne away, stored]⟩

/-- Everything stored elsewhere than in the slot of a key is stored under another
key. -/
theorem stored_elsewhere {path : Key → Nat → Index} (sound : Sound path table) {value : Value}
    (full : table i = .full key value) {other : Key} {w : Value} :
    (∃ j, j ≠ i ∧ table j = .full other w) ↔ other ≠ key ∧ Stores table other w := by
  constructor
  · rintro ⟨j, away, stored⟩
    refine ⟨?_, j, stored⟩
    rintro rfl
    exact away (sound.unique j i other w value stored full)
  · rintro ⟨different, j, stored⟩
    refine ⟨j, ?_, stored⟩
    rintro rfl
    rw [full] at stored
    cases stored
    exact different rfl

end Stores

end Mysnips.OpenAddressing

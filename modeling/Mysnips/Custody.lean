import Mathlib.Data.List.Nodup
import Mathlib.Data.List.Perm.Basic

/-! Things that are kept at places, each at one place and once at most. A step that
reorders the places, or that moves one thing from a place to another, keeps it so. -/
namespace Mysnips.Custody

/-- No thing is at two places, or twice at one. -/
structure Separate {Place Thing : Type*} (kept : Place → List Thing) : Prop where
  once : ∀ place, (kept place).Nodup
  one : ∀ place other thing, thing ∈ kept place → thing ∈ kept other → place = other

variable {Place Thing : Type*} {before after : Place → List Thing}

theorem Separate.reorder (separate : Separate before)
    (same : ∀ place, (after place).Perm (before place)) : Separate after where
  once place := (same place).nodup_iff.mpr (separate.once place)
  one place other thing := by
    rw [(same place).mem_iff, (same other).mem_iff]
    exact separate.one place other thing

/-- One thing goes from a place to another. -/
theorem Separate.move (separate : Separate before) (thing : Thing) (source target : Place)
    (apart : source ≠ target) (lost : (before source).Perm (thing :: after source))
    (gained : (after target).Perm (thing :: before target))
    (others : ∀ place, place ≠ source → place ≠ target → (after place).Perm (before place)) :
    Separate after := by
  have there : thing ∈ before source := lost.mem_iff.mpr List.mem_cons_self
  obtain ⟨left, once⟩ := List.nodup_cons.mp (lost.nodup_iff.mp (separate.once source))
  have absent : thing ∉ before target := by
    intro member
    exact apart (separate.one source target thing there member)
  -- Whatever is at a place afterwards is the thing at its target, or was there before.
  have was : ∀ place other, other ∈ after place →
      (other = thing ∧ place = target) ∨ (other ≠ thing ∧ other ∈ before place) := by
    intro place other member
    by_cases isSource : place = source
    · subst isSource
      refine .inr ⟨?_, lost.mem_iff.mpr (List.mem_cons_of_mem thing member)⟩
      rintro rfl
      exact left member
    by_cases isTarget : place = target
    · subst isTarget
      rcases List.mem_cons.mp (gained.mem_iff.mp member) with rfl | earlier
      · exact .inl ⟨rfl, rfl⟩
      · refine .inr ⟨?_, earlier⟩
        rintro rfl
        exact absent earlier
    · have earlier := (others place isSource isTarget).mem_iff.mp member
      refine .inr ⟨?_, earlier⟩
      rintro rfl
      exact isSource (separate.one place source other earlier there)
  refine ⟨fun place => ?_, fun place place' other first second => ?_⟩
  · by_cases isSource : place = source
    · rw [isSource]
      exact once
    by_cases isTarget : place = target
    · rw [isTarget]
      exact gained.nodup_iff.mpr (List.nodup_cons.mpr ⟨absent, separate.once target⟩)
    · exact (others place isSource isTarget).nodup_iff.mpr (separate.once place)
  · rcases was place other first with ⟨moved, rfl⟩ | ⟨stayed, first⟩
    · rcases was place' other second with ⟨-, rfl⟩ | ⟨stayed, -⟩
      · rfl
      · exact absurd moved stayed
    · rcases was place' other second with ⟨moved, -⟩ | ⟨-, second⟩
      · exact absurd moved stayed
      · exact separate.one place place' other first second

/-- One thing comes to a place from outside. -/
theorem Separate.gain (separate : Separate before) (thing : Thing) (target : Place)
    (absent : ∀ place, thing ∉ before place)
    (gained : (after target).Perm (thing :: before target))
    (others : ∀ place, place ≠ target → (after place).Perm (before place)) : Separate after := by
  have was : ∀ place other, other ∈ after place →
      (other = thing ∧ place = target) ∨ (other ≠ thing ∧ other ∈ before place) := by
    intro place other member
    by_cases here : place = target
    · subst here
      rcases List.mem_cons.mp (gained.mem_iff.mp member) with rfl | earlier
      · exact .inl ⟨rfl, rfl⟩
      · exact .inr ⟨fun same => absent place (same ▸ earlier), earlier⟩
    · have earlier := (others place here).mem_iff.mp member
      exact .inr ⟨fun same => absent place (same ▸ earlier), earlier⟩
  refine ⟨fun place => ?_, fun place place' other first second => ?_⟩
  · by_cases here : place = target
    · rw [here]
      exact gained.nodup_iff.mpr (List.nodup_cons.mpr ⟨absent target, separate.once target⟩)
    · exact (others place here).nodup_iff.mpr (separate.once place)
  · rcases was place other first with ⟨rfl, rfl⟩ | ⟨different, first⟩
    · rcases was place' other second with ⟨-, rfl⟩ | ⟨different, -⟩
      · rfl
      · exact absurd rfl different
    · rcases was place' other second with ⟨same, -⟩ | ⟨-, second⟩
      · exact absurd same different
      · exact separate.one place place' other first second

/-- One thing leaves its place, and is nowhere then. -/
theorem Separate.lose (separate : Separate before) (thing : Thing) (source : Place)
    (lost : (before source).Perm (thing :: after source))
    (others : ∀ place, place ≠ source → (after place).Perm (before place)) :
    Separate after ∧ ∀ place, thing ∉ after place := by
  have once := lost.nodup_iff.mp (separate.once source)
  have there : thing ∈ before source := lost.mem_iff.mpr List.mem_cons_self
  have subset : ∀ place other, other ∈ after place → other ∈ before place := by
    intro place other member
    by_cases here : place = source
    · rw [here] at member ⊢
      exact lost.mem_iff.mpr (List.mem_cons_of_mem thing member)
    · exact (others place here).mem_iff.mp member
  refine ⟨⟨fun place => ?_, fun place place' other first second => ?_⟩, fun place member => ?_⟩
  · by_cases here : place = source
    · rw [here]
      exact (List.nodup_cons.mp once).2
    · exact (others place here).nodup_iff.mpr (separate.once place)
  · exact separate.one place place' other (subset place other first) (subset place' other second)
  · have here := separate.one place source thing (subset place thing member) there
    rw [here] at member
    exact (List.nodup_cons.mp once).1 member

end Mysnips.Custody

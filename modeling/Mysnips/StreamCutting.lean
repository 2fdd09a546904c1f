import Mathlib.Data.List.Basic
import Mathlib.Tactic.Common

/-! Streams that are cut into items. A cutter reads the first item of a stream once it
is there as a whole; more of the stream does not change it. What was cut off while the
stream arrived in parts is then the beginning of what the whole stream holds. -/
namespace Mysnips.StreamCutting

/-- Reads the first item of a stream, with its length. -/
structure Cutter (α β : Type*) where
  item : List α → Option (β × Nat)
  positive : ∀ {stream b n}, item stream = some (b, n) → 0 < n
  inside : ∀ {stream b n}, item stream = some (b, n) → n ≤ stream.length
  stable : ∀ {stream b n} (more : List α), item stream = some (b, n) →
    item (stream ++ more) = some (b, n)

variable {α β : Type*}

/-- The items of a stream. -/
def Cutter.items (p : Cutter α β) (stream : List α) : List β :=
  match _found : p.item stream with
  | none => []
  | some (b, n) => b :: p.items (stream.drop n)
termination_by stream.length
decreasing_by
  have := p.positive _found
  have := p.inside _found
  rw [List.length_drop]
  omega

/-- The items that were cut off a stream one after the other, and the rest. -/
inductive Cut (p : Cutter α β) (stream : List α) : List β → List α → Prop where
  | start : Cut p stream [] stream
  | next {done : List β} {rest : List α} {b : β} {n : Nat} (before : Cut p stream done rest)
      (found : p.item rest = some (b, n)) : Cut p stream (done ++ [b]) (rest.drop n)

variable {p : Cutter α β} {stream rest : List α} {done : List β}

theorem items_none (missing : p.item stream = none) : p.items stream = [] := by
  rw [Cutter.items]
  split
  · rfl
  · rename_i found
    rw [missing] at found
    cases found

theorem items_some {b : β} {n : Nat} (found : p.item stream = some (b, n)) :
    p.items stream = b :: p.items (stream.drop n) := by
  rw [Cutter.items]
  split
  · rename_i missing
    rw [missing] at found
    cases found
  · rename_i found'
    rw [found] at found'
    cases found'
    rfl

/-- The stream goes on. -/
theorem Cut.append (cut : Cut p stream done rest) (more : List α) :
    Cut p (stream ++ more) done (rest ++ more) := by
  induction cut with
  | start => exact .start
  | next before found ih =>
    have cut := ih.next (p.stable more found)
    rwa [List.drop_append_of_le_length (p.inside found)] at cut

/-- What was cut off, and the items of the rest, are the items of the stream. -/
theorem Cut.items_eq (cut : Cut p stream done rest) : p.items stream = done ++ p.items rest := by
  induction cut with
  | start => rfl
  | next before found ih =>
    rw [ih, items_some found, List.append_assoc, List.singleton_append]

end Mysnips.StreamCutting

import Mysnips.HttpParse
import Mysnips.HttpPath
import Mysnips.Memory

/-! Sanitized paths are a normal form. The pieces of a path are resolved on a stack, what is left
is written back piece by piece, and a path that was written back is left as it is. -/
namespace Mysnips.HttpPath
open HttpParse Memory

/-- The pieces between separators. Nothing follows a separator at the end. -/
def pieces (rest : List UInt8) : List (List UInt8) :=
  if (rest.splitOn pathSep).getLast? = some [] then (rest.splitOn pathSep).dropLast
  else rest.splitOn pathSep

/-- The part of a path behind the separator at its start, if there is one. -/
def relative (src : List UInt8) : List UInt8 :=
  if src.head? = some pathSep then src.tail else src

/-- A piece that names something. -/
def isName (piece : List UInt8) : Bool := piece != dot && piece != dotDot

/-- Somewhere on the way there are more steps up than names. -/
def Climbs (all : List (List UInt8)) : Prop :=
  ∃ k, (all.take k).countP isName < (all.take k).count dotDot

/-- The copying loop of `sanitize_path`: the number of bytes written, and the memory. -/
def writeComponents : List (List UInt8) → (mem : List UInt8) → (n : Nat) → Option (Nat × List UInt8)
  | [], mem, n => some (n, mem)
  | comp :: comps, mem, n => do
    let mem ← store mem n [pathSep]
    let mem ← store mem (n + 1) comp
    writeComponents comps mem (n + 1 + comp.length)

/-- `sanitize_path` with the memory it writes to: its result and the memory afterwards. -/
def sanitizePathInto (src mem : List UInt8) (max : Nat) : Option (Nat × List UInt8) :=
  match splitPathComponents src maxComps false with
  | none => some (sizeMax, mem)
  | some stack =>
    if stack.length + (stack.map List.length).sum ≥ max then some (sizeMax, mem)
    else do
      let (n, mem) ← writeComponents stack mem 0
      let mem ← store mem n [0]
      some (n, mem)

/-! ## Pieces -/

theorem pieces_last {piece : List UInt8} (plain : pathSep ∉ piece) (nonempty : piece ≠ []) :
    pieces piece = [piece] := by
  rw [pieces, List.splitOn_eq_singleton plain, if_neg]
  simpa using nonempty

theorem pieces_cons {piece : List UInt8} (plain : pathSep ∉ piece) (tail : List UInt8) :
    pieces (piece ++ pathSep :: tail) = piece :: pieces tail := by
  obtain ⟨first, others, cut⟩ := List.exists_cons_of_ne_nil (List.splitOn_ne_nil pathSep tail)
  have whole : (piece ++ pathSep :: tail).splitOn pathSep = piece :: tail.splitOn pathSep := by
    rw [List.splitOn_append_cons_self, List.splitOn_eq_singleton plain]
    rfl
  rw [pieces, pieces, whole, cut, List.getLast?_cons_cons, List.dropLast_cons_cons]
  split
  · rfl
  · rfl

/-- A component is in front of the end, or of a byte that does not belong to one. -/
theorem component_parts (rest : List UInt8) :
    rest = rest.takeWhile (inComponent false) ++ rest.dropWhile (inComponent false) ∧
      (∀ c ∈ rest.takeWhile (inComponent false), isPcomp c = true) ∧
      pathSep ∉ rest.takeWhile (inComponent false) := by
  have chars : ∀ c ∈ rest.takeWhile (inComponent false), isPcomp c = true := by
    intro c member
    have inside := List.mem_takeWhile_imp member
    rwa [inComponent, Bool.false_and, Bool.or_false] at inside
  refine ⟨List.takeWhile_append_dropWhile.symm, chars, fun member => ?_⟩
  exact absurd (chars pathSep member) (by decide)

/-- What a split tells about the bytes it went through. -/
structure Splits (stack : List (List UInt8)) (rest : List UInt8) (comps : List (List UInt8)) :
    Prop where
  resolved : (pieces rest).foldlM resolve stack = some comps
  full : [] ∉ pieces rest
  legal : ∀ c ∈ rest, c = pathSep ∨ isPcomp c = true

theorem splitFrom_splits {limit : Nat} {stack comps : List (List UInt8)} {rest : List UInt8}
    (done : splitFrom limit false stack rest = some comps) : Splits stack rest comps := by
  fun_induction splitFrom limit false stack rest with
  | case1 stack =>
    cases done
    exact ⟨rfl, List.not_mem_nil, List.forall_mem_nil _⟩
  | case2 | case3 | case4 | case6 => cases done
  | case5 stack rest _ _ nonempty stack' pushed last =>
    cases done
    obtain ⟨whole, chars, plain⟩ := component_parts rest
    rw [last, List.append_nil] at whole
    rw [← whole] at nonempty chars plain pushed
    have one := pieces_last plain nonempty
    refine ⟨?_, ?_, fun c member => .inr (chars c member)⟩
    · rw [one, List.foldlM_cons, pushed]
      rfl
    · rw [one, List.mem_singleton]
      exact Ne.symm nonempty
  | case7 stack rest _ _ nonempty stack' pushed c tail behind separator ih =>
    obtain ⟨whole, chars, plain⟩ := component_parts rest
    have slash : c = pathSep := by simpa using separator
    rw [behind, slash] at whole
    have further := ih done
    have cut := pieces_cons plain tail
    rw [← whole] at cut
    refine ⟨?_, ?_, ?_⟩
    · rw [cut, List.foldlM_cons, pushed]
      exact further.resolved
    · rw [cut, List.mem_cons, not_or]
      exact ⟨Ne.symm nonempty, further.full⟩
    · intro d member
      rw [whole] at member
      rcases List.mem_append.mp member with inside | later
      · exact .inr (chars d inside)
      · rcases List.mem_cons.mp later with same | inside
        · exact .inl same
        · exact further.legal d inside

/-! ## The stack -/

/-- The stack holds the names less the steps up. -/
theorem resolve_count {stack stack' : List (List UInt8)} {piece : List UInt8}
    (done : resolve stack piece = some stack') :
    stack'.length + [piece].count dotDot = stack.length + [piece].countP isName := by
  rcases resolve_cases done with ⟨rfl, filled, rfl⟩ | ⟨rfl, rfl⟩ | ⟨notDotDot, notDot, rfl⟩
  · have positive := List.length_pos_iff.mpr filled
    have counts : [dotDot].count dotDot = 1 ∧ [dotDot].countP isName = 0 := ⟨rfl, rfl⟩
    rw [List.length_dropLast, counts.1, counts.2]
    omega
  · have counts : [dot].count dotDot = 0 ∧ [dot].countP isName = 0 := ⟨rfl, rfl⟩
    rw [counts.1, counts.2]
  · have noStep : [piece].count dotDot = 0 := by
      rw [List.count_eq_zero, List.mem_singleton]
      exact Ne.symm notDotDot
    have named : isName piece = true := by simp [isName, notDotDot, notDot]
    rw [noStep, List.countP_singleton, if_pos named, List.length_append, List.length_singleton]

theorem resolves_count {all stack comps : List (List UInt8)}
    (done : all.foldlM resolve stack = some comps) :
    comps.length + all.count dotDot = stack.length + all.countP isName := by
  induction all generalizing stack with
  | nil =>
    cases done
    rfl
  | cons piece all ih =>
    rw [List.foldlM_cons] at done
    obtain ⟨next, pushed, further⟩ := Option.bind_eq_some_iff.mp done
    have one := resolve_count pushed
    have others := ih further
    rw [← List.singleton_append, List.count_append, List.countP_append]
    omega

/-- Pieces that climb are not resolved. -/
theorem Climbs.unresolved {all comps : List (List UInt8)} (climbs : Climbs all) :
    all.foldlM resolve [] ≠ some comps := by
  obtain ⟨k, more⟩ := climbs
  intro done
  rw [← List.take_append_drop k all, List.foldlM_append] at done
  obtain ⟨middle, first, -⟩ := Option.bind_eq_some_iff.mp done
  have counted := resolves_count first
  rw [List.length_nil] at counted
  omega

/-- The stack never outgrows its limit. -/
theorem splitFrom_depth {limit : Nat} {stack comps : List (List UInt8)} {rest : List UInt8}
    (within : stack.length ≤ limit) (done : splitFrom limit false stack rest = some comps) :
    comps.length ≤ limit := by
  have deeper : ∀ {stack stack' : List (List UInt8)} {piece : List UInt8},
      resolve stack piece = some stack' → stack'.length ≤ stack.length + 1 := by
    intro stack stack' piece pushed
    have counted := resolve_count pushed
    have one : [piece].countP isName ≤ 1 := List.countP_le_length
    omega
  fun_induction splitFrom limit false stack rest with
  | case1 stack =>
    cases done
    exact within
  | case2 | case3 | case4 | case6 => cases done
  | case5 stack rest _ room nonempty stack' pushed last =>
    cases done
    have bound := deeper pushed
    omega
  | case7 stack rest _ room nonempty stack' pushed c tail behind separator ih =>
    have bound := deeper pushed
    exact ih (by omega) done

/-! ## Written paths -/

theorem Resolved.resolve {comp : List UInt8} (resolved : Resolved comp) (stack : List (List UInt8)) :
    resolve stack comp = some (stack ++ [comp]) := by
  rw [HttpPath.resolve, if_neg resolved.notDotDot, if_neg resolved.notDot]

/-- A component at the front, with the end or a separator behind it. -/
theorem splitFrom_component {limit : Nat} {stack : List (List UInt8)} {comp : List UInt8}
    (resolved : Resolved comp) (room : stack.length ≠ limit) (tail : List UInt8) :
    splitFrom limit false stack comp = some (stack ++ [comp]) ∧
      splitFrom limit false stack (comp ++ pathSep :: tail) =
        splitFrom limit false (stack ++ [comp]) tail := by
  have inside : ∀ c ∈ comp, inComponent false c = true := by
    intro c member
    rw [inComponent, resolved.chars c member, Bool.true_or]
  have stops : ¬ inComponent false pathSep = true := by decide
  have whole : comp.takeWhile (inComponent false) = comp := List.takeWhile_eq_self_iff.mpr inside
  have front : (comp ++ pathSep :: tail).takeWhile (inComponent false) = comp := by
    rw [List.takeWhile_append_of_pos inside, List.takeWhile_cons_of_neg stops, List.append_nil]
  have behind : (comp ++ pathSep :: tail).dropWhile (inComponent false) = pathSep :: tail := by
    rw [List.dropWhile_append_of_pos inside, List.dropWhile_cons_of_neg stops]
  constructor
  · unfold splitFrom
    rw [if_neg resolved.nonempty, if_neg room, whole, if_neg resolved.nonempty, resolved.resolve]
    dsimp only
    split
    · rfl
    · next c more rest =>
      rw [List.dropWhile_eq_nil_iff.mpr inside] at rest
      cases rest
  · conv_lhs => unfold splitFrom
    rw [if_neg (List.append_ne_nil_of_left_ne_nil resolved.nonempty _), if_neg room, front,
      if_neg resolved.nonempty, resolved.resolve]
    dsimp only
    split
    · next rest =>
      rw [behind] at rest
      cases rest
    · next c more rest =>
      rw [behind] at rest
      cases rest
      rw [if_neg (by simp)]

/-- A path that was written is split into the components it was written from. -/
theorem splitFrom_render {limit : Nat} {stack comps : List (List UInt8)} {comp : List UInt8}
    (first : Resolved comp) (resolved : ∀ c ∈ comps, Resolved c)
    (room : stack.length + comps.length < limit) :
    splitFrom limit false stack (comp ++ render comps) = some (stack ++ comp :: comps) := by
  induction comps generalizing stack comp with
  | nil =>
    rw [render, List.flatMap_nil, List.append_nil]
    exact (splitFrom_component first (by omega) []).1
  | cons next comps ih =>
    obtain ⟨second, others⟩ := List.forall_mem_cons.mp resolved
    have written : render (next :: comps) = pathSep :: (next ++ render comps) := rfl
    rw [List.length_cons] at room
    rw [written, (splitFrom_component first (by omega) _).2, ih second others]
    · rw [List.append_assoc, List.singleton_append]
    · rw [List.length_append, List.length_singleton]
      omega

theorem splitPathComponents_render {comps : List (List UInt8)} {limit : Nat}
    (resolved : ∀ c ∈ comps, Resolved c) (room : comps.length ≤ limit) :
    splitPathComponents (render comps) limit false = some comps := by
  cases comps with
  | nil =>
    unfold splitPathComponents splitFrom
    rfl
  | cons comp comps =>
    obtain ⟨first, others⟩ := List.forall_mem_cons.mp resolved
    have written : render (comp :: comps) = pathSep :: (comp ++ render comps) := rfl
    rw [splitPathComponents, written, List.head?_cons, if_pos rfl, List.tail_cons,
      splitFrom_render first others]
    · rfl
    · rw [List.length_cons] at room
      rw [List.length_nil]
      omega

/-! ## The memory -/

theorem render_length (comps : List (List UInt8)) :
    (render comps).length = comps.length + (comps.map List.length).sum := by
  induction comps with
  | nil => rfl
  | cons comp comps ih =>
    have written : render (comp :: comps) = pathSep :: (comp ++ render comps) := rfl
    rw [written, List.length_cons, List.length_append, ih, List.map_cons, List.sum_cons,
      List.length_cons]
    omega

theorem store_front (front mem cells : List UInt8) (room : cells.length ≤ mem.length) :
    store (front ++ mem) front.length cells = some (front ++ cells ++ mem.drop cells.length) := by
  rw [store_eq, List.take_left, List.drop_length_add_append]
  rw [List.length_append]
  omega

/-- The loop writes the path behind what is there already. -/
theorem writeComponents_eq (front mem : List UInt8) (comps : List (List UInt8))
    (room : (render comps).length ≤ mem.length) :
    writeComponents comps (front ++ mem) front.length =
      some (front.length + (render comps).length,
        front ++ render comps ++ mem.drop (render comps).length) := by
  induction comps generalizing front mem with
  | nil =>
    rw [writeComponents, render, List.flatMap_nil, List.append_nil]
    rfl
  | cons comp comps ih =>
    have written : render (comp :: comps) = pathSep :: (comp ++ render comps) := rfl
    rw [written, List.length_cons, List.length_append] at room
    have separator := store_front front mem [pathSep] (by rw [List.length_singleton]; omega)
    have component := store_front (front ++ [pathSep]) (mem.drop 1) comp
      (by rw [List.length_drop]; omega)
    have others := ih (front ++ [pathSep] ++ comp) ((mem.drop 1).drop comp.length)
      (by rw [List.length_drop, List.length_drop]; omega)
    have lengths : (front ++ [pathSep]).length = front.length + 1 ∧
        (front ++ [pathSep] ++ comp).length = front.length + 1 + comp.length := by
      simp only [List.length_append, List.length_singleton, and_self]
    rw [lengths.1] at component
    rw [lengths.2] at others
    rw [writeComponents, separator, Option.bind_eq_bind, Option.bind_some, List.length_singleton,
      component, Option.bind_some, others, written]
    simp only [List.length_cons, List.length_append, List.drop_drop, List.append_assoc,
      List.cons_append, List.nil_append, Option.some.injEq, Prod.mk.injEq]
    have order : 1 + comp.length + (render comps).length = comp.length + (render comps).length + 1 := by
      omega
    exact ⟨by omega, by rw [order]⟩

/-- What `sanitize_path` returns and leaves in the memory is told by the path it sanitizes to. -/
theorem sanitizePathInto_eq (src : List UInt8) {mem : List UInt8} {max : Nat}
    (room : max ≤ mem.length) :
    sanitizePathInto src mem max =
      some (match sanitizePath src max with
        | none => (sizeMax, mem)
        | some clean => (clean.length, clean ++ 0 :: mem.drop (clean.length + 1))) := by
  rw [sanitizePathInto, sanitizePath]
  cases splitPathComponents src maxComps false with
  | none => rfl
  | some comps =>
    dsimp only
    rw [← render_length]
    by_cases large : (render comps).length ≥ max
    · rw [if_pos large, if_pos large]
    · have written := writeComponents_eq [] mem comps (by omega)
      rw [List.nil_append, List.nil_append, List.length_nil, Nat.zero_add] at written
      have ended := store_front (render comps) (mem.drop (render comps).length) [0]
        (by rw [List.length_drop, List.length_singleton]; omega)
      rw [if_neg large, if_neg large, written, Option.bind_eq_bind, Option.bind_some]
      dsimp only
      rw [ended, Option.bind_eq_bind, Option.bind_some, List.drop_drop, List.length_singleton,
        List.append_assoc, List.singleton_append]

/-- A path that was sanitized is left as it is. -/
theorem sanitizePath_again {src clean : List UInt8} {max : Nat}
    (sanitized : sanitizePath src max = some clean) :
    clean.length < max ∧ sanitizePath clean max = some clean := by
  obtain ⟨comps, split, rfl, resolved⟩ := sanitizePath_eq sanitized
  have few : comps.length ≤ maxComps := splitFrom_depth (Nat.zero_le _) split
  rw [sanitizePath, split] at sanitized
  dsimp only at sanitized
  rw [← render_length] at sanitized
  have short : ¬ (render comps).length ≥ max := by
    intro large
    rw [if_pos large] at sanitized
    cases sanitized
  refine ⟨Nat.lt_of_not_le short, ?_⟩
  rw [sanitizePath, splitPathComponents_render resolved few]
  dsimp only
  rw [← render_length, if_neg short]

/-! ## The normal form -/

/-- A path was sanitized: its resolved components, written to the memory with a terminator behind
them, and sanitized to themselves from then on. -/
structure Sanitized (src mem : List UInt8) (max n : Nat) (after : List UInt8)
    (comps : List (List UInt8)) : Prop where
  resolved : (pieces (relative src)).foldlM resolve [] = some comps
  clean : ∀ comp ∈ comps, Resolved comp
  length : n = (render comps).length
  short : n < max
  written : after = render comps ++ 0 :: mem.drop (n + 1)
  again : ∀ other : List UInt8, max ≤ other.length →
    sanitizePathInto (render comps) other max = some (n, render comps ++ 0 :: other.drop (n + 1))

/-- A path that must not be accepted: it leaves its root, has nothing between two separators, or
has a byte that does not belong into a path. -/
def Illegal (src : List UInt8) : Prop :=
  Climbs (pieces (relative src)) ∨ [] ∈ pieces (relative src) ∨
    ∃ c ∈ src, c ≠ pathSep ∧ isPcomp c = false

theorem Illegal.refused {src : List UInt8} (illegal : Illegal src) (max : Nat) :
    sanitizePath src max = none := by
  apply Option.eq_none_iff_forall_ne_some.mpr
  intro clean sanitized
  obtain ⟨comps, split, -, -⟩ := sanitizePath_eq sanitized
  have splits : Splits [] (relative src) comps := splitFrom_splits split
  rcases illegal with climbs | empty | ⟨c, member, notSep, notPcomp⟩
  · exact climbs.unresolved splits.resolved
  · exact splits.full empty
  · have inside : c ∈ relative src := by
      unfold relative
      split
      · next start =>
        obtain ⟨rest, rfl⟩ := List.head?_eq_some_iff.mp start
        exact (List.mem_cons.mp member).resolve_left notSep
      · exact member
    rcases splits.legal c inside with same | pcomp
    · exact notSep same
    · rw [notPcomp] at pcomp
      cases pcomp

/-- `sanitize_path` refuses a path and leaves the memory alone, or it writes the normal form of
the path. It refuses everything that must not be accepted. -/
theorem sanitize_path_normal_form (src : List UInt8) {mem : List UInt8} {max : Nat}
    (room : max ≤ mem.length) :
    ∃ n after, sanitizePathInto src mem max = some (n, after) ∧
      ((n = sizeMax ∧ after = mem) ∨ ∃ comps, Sanitized src mem max n after comps) ∧
      (Illegal src → n = sizeMax ∧ after = mem) := by
  have ran := sanitizePathInto_eq src room
  cases sanitized : sanitizePath src max with
  | none =>
    rw [sanitized] at ran
    exact ⟨sizeMax, mem, ran, .inl ⟨rfl, rfl⟩, fun _ => ⟨rfl, rfl⟩⟩
  | some clean =>
    rw [sanitized] at ran
    obtain ⟨comps, split, rfl, resolved⟩ := sanitizePath_eq sanitized
    obtain ⟨short, same⟩ := sanitizePath_again sanitized
    refine ⟨_, _, ran, .inr ⟨comps, ?_⟩, ?_⟩
    · refine ⟨(splitFrom_splits split).resolved, resolved, rfl, short, rfl, ?_⟩
      intro other space
      rw [sanitizePathInto_eq _ space, same]
    · intro illegal
      rw [illegal.refused max] at sanitized
      cases sanitized

/-- A path with steps in it, and one that leaves its root. -/
theorem sanitize_path_normal_form_applies :
    (∃ comps, Sanitized (ascii "/a/./b/../c/") (List.replicate 8 1) 8 4 (ascii "/a/c" ++ [0, 1, 1, 1])
      comps) ∧
    sanitizePathInto (ascii "/a/../..") (List.replicate 8 1) 8 = some (sizeMax, List.replicate 8 1) := by
  constructor
  · obtain ⟨n, after, ran, outcome, -⟩ := sanitize_path_normal_form (ascii "/a/./b/../c/")
      (show 8 ≤ (List.replicate 8 (1 : UInt8)).length by decide)
    have result : sanitizePathInto (ascii "/a/./b/../c/") (List.replicate 8 1) 8 =
        some (4, ascii "/a/c" ++ [0, 1, 1, 1]) := by decide +kernel
    rw [result] at ran
    cases ran
    rcases outcome with ⟨refused, -⟩ | sanitized
    · exact absurd refused (by decide)
    · exact sanitized
  · obtain ⟨n, after, ran, -, refuses⟩ := sanitize_path_normal_form (ascii "/a/../..")
      (show 8 ≤ (List.replicate 8 (1 : UInt8)).length by decide)
    have climbs : Climbs (pieces (relative (ascii "/a/../.."))) := ⟨3, by decide +kernel⟩
    obtain ⟨rfl, rfl⟩ := refuses (.inl climbs)
    exact ran

end Mysnips.HttpPath

import Mathlib.Algebra.GroupWithZero.Nat
import Mathlib.Data.List.TakeWhile
import Mathlib.Tactic.Common

/-! Paths of the HTTP module. A path is split into components, `.` and `..` are
resolved with a stack, and the components left are written back with one `/`
before each. -/
namespace Mysnips.HttpPath

/-- `PATH_SEP`. -/
def pathSep : UInt8 := '/'.toUInt8

/-- `is_print`. -/
def isPrint (c : UInt8) : Bool := 32 ≤ c && c < 127

/-- `is_pcomp`. -/
def isPcomp (c : UInt8) : Bool := c != '/'.toUInt8 && c != ':'.toUInt8 && isPrint c

/-- The characters of a component; `:` only where `allow_ddots` is set. -/
def inComponent (allowDdots : Bool) (c : UInt8) : Bool :=
  isPcomp c || (allowDdots && c == ':'.toUInt8)

def dot : List UInt8 := ['.'.toUInt8]

def dotDot : List UInt8 := ['.'.toUInt8, '.'.toUInt8]

/-- The stack after one component. -/
def resolve (stack : List (List UInt8)) (comp : List UInt8) : Option (List (List UInt8)) :=
  if comp = dotDot then
    if stack = [] then none else some stack.dropLast
  else if comp = dot then some stack
  else some (stack ++ [comp])

private theorem behind_component {p : UInt8 → Bool} {rest tail : List UInt8} {c : UInt8}
    (behind : rest.dropWhile p = c :: tail) : tail.length < rest.length := by
  have shorter := (List.dropWhile_sublist p (l := rest)).length_le
  rw [behind, List.length_cons] at shorter
  exact shorter

/-- The loop of `split_path_components` from `rest` on. -/
def splitFrom (limit : Nat) (allowDdots : Bool) (stack : List (List UInt8)) (rest : List UInt8) :
    Option (List (List UInt8)) :=
  if rest = [] then some stack
  else if stack.length = limit then none
  else if rest.takeWhile (inComponent allowDdots) = [] then none
  else
    match resolve stack (rest.takeWhile (inComponent allowDdots)) with
    | none => none
    | some stack =>
      match _behind : rest.dropWhile (inComponent allowDdots) with
      | [] => some stack
      | c :: tail => if c != pathSep then none else splitFrom limit allowDdots stack tail
termination_by rest.length
decreasing_by exact behind_component _behind

/-- `split_path_components`: the components left on the stack, or nothing where the
function returns -1. -/
def splitPathComponents (src : List UInt8) (limit : Nat) (allowDdots : Bool) :
    Option (List (List UInt8)) :=
  splitFrom limit allowDdots [] (if src.head? = some pathSep then src.tail else src)

/-- `MAX_COMPS`. -/
def maxComps : Nat := 64

/-- The components with one `/` before each. -/
def render (comps : List (List UInt8)) : List UInt8 := comps.flatMap (pathSep :: ·)

/-- `sanitize_path`: the string written to `mem`, or nothing where the function
returns -1. The string and its terminator take at most `max` bytes. -/
def sanitizePath (src : List UInt8) (max : Nat) : Option (List UInt8) :=
  match splitPathComponents src maxComps false with
  | none => none
  | some stack =>
    if stack.length + (stack.map List.length).sum ≥ max then none else some (render stack)

/-- What the resolved components are: not empty, free of separators, and neither `.`
nor `..`. -/
structure Resolved (comp : List UInt8) : Prop where
  nonempty : comp ≠ []
  chars : ∀ c ∈ comp, isPcomp c = true
  notDot : comp ≠ dot
  notDotDot : comp ≠ dotDot

/-- What one component does to the stack. -/
theorem resolve_cases {stack stack' : List (List UInt8)} {comp : List UInt8}
    (done : resolve stack comp = some stack') :
    (comp = dotDot ∧ stack ≠ [] ∧ stack' = stack.dropLast) ∨ (comp = dot ∧ stack' = stack) ∨
      (comp ≠ dotDot ∧ comp ≠ dot ∧ stack' = stack ++ [comp]) := by
  unfold resolve at done
  split at done
  · next up =>
    split at done
    · cases done
    · next filled =>
      cases done
      exact .inl ⟨up, filled, rfl⟩
  · next notDotDot =>
    split at done
    · next here =>
      cases done
      exact .inr (.inl ⟨here, rfl⟩)
    · next notDot =>
      cases done
      exact .inr (.inr ⟨notDotDot, notDot, rfl⟩)

private theorem resolve_spec {stack stack' : List (List UInt8)} {comp : List UInt8}
    (resolved : ∀ c ∈ stack, Resolved c) (nonempty : comp ≠ [])
    (chars : ∀ c ∈ comp, isPcomp c = true) (done : resolve stack comp = some stack') :
    ∀ c ∈ stack', Resolved c := by
  intro c member
  rcases resolve_cases done with ⟨-, -, rfl⟩ | ⟨-, rfl⟩ | ⟨notDotDot, notDot, rfl⟩
  · exact resolved c (List.dropLast_subset _ member)
  · exact resolved c member
  · rcases List.mem_append.mp member with old | new
    · exact resolved c old
    · cases List.mem_singleton.mp new
      exact ⟨nonempty, chars, notDot, notDotDot⟩

private theorem splitFrom_spec (limit : Nat) (stack : List (List UInt8)) (rest : List UInt8)
    {comps : List (List UInt8)} (resolved : ∀ c ∈ stack, Resolved c)
    (done : splitFrom limit false stack rest = some comps) : ∀ c ∈ comps, Resolved c := by
  have component : ∀ (rest : List UInt8), ∀ c ∈ rest.takeWhile (inComponent false),
      isPcomp c = true := by
    intro rest c member
    simpa [inComponent] using List.mem_takeWhile_imp member
  fun_induction splitFrom limit false stack rest with
  | case1 stack =>
    cases done
    exact resolved
  | case2 | case3 | case4 | case6 => cases done
  | case5 stack rest _ _ nonempty stack' pushed last =>
    cases done
    exact resolve_spec resolved nonempty (component rest) pushed
  | case7 stack rest _ _ nonempty stack' pushed c tail behind separator ih =>
    exact ih (resolve_spec resolved nonempty (component rest) pushed) done

/-- The components that the splitter leaves are resolved. -/
theorem splitPathComponents_resolved {src : List UInt8} {limit : Nat} {comps : List (List UInt8)}
    (split : splitPathComponents src limit false = some comps) : ∀ c ∈ comps, Resolved c :=
  splitFrom_spec limit [] _ (by simp) split

/-- A sanitized path is its resolved components. -/
theorem sanitizePath_eq {src clean : List UInt8} {max : Nat}
    (sanitized : sanitizePath src max = some clean) :
    ∃ comps, splitPathComponents src maxComps false = some comps ∧ clean = render comps ∧
      ∀ c ∈ comps, Resolved c := by
  unfold sanitizePath at sanitized
  split at sanitized
  · cases sanitized
  · rename_i comps split
    split at sanitized
    · cases sanitized
    · cases sanitized
      exact ⟨comps, split, rfl, splitPathComponents_resolved split⟩

theorem Resolved.no_separator {comp : List UInt8} (resolved : Resolved comp) : pathSep ∉ comp := by
  intro member
  exact absurd (resolved.chars pathSep member) (by decide)

/-- Splitting a written path at the separators gives its components back. -/
theorem splitOn_render {comp : List UInt8} {comps : List (List UInt8)} (plain : pathSep ∉ comp)
    (resolved : ∀ c ∈ comps, Resolved c) :
    (comp ++ render comps).splitOn pathSep = comp :: comps := by
  induction comps generalizing comp with
  | nil =>
    rw [render, List.flatMap_nil, List.append_nil]
    exact List.splitOn_eq_singleton plain
  | cons c comps ih =>
    have first := resolved c List.mem_cons_self
    have rest : (c ++ render comps).splitOn pathSep = c :: comps :=
      ih first.no_separator (fun d member => resolved d (List.mem_cons_of_mem _ member))
    have written : render (c :: comps) = pathSep :: (c ++ render comps) := rfl
    rw [written, List.splitOn_append_cons_self, rest, List.splitOn_eq_singleton plain]
    rfl

/-- A written path can be cut before a separator or at its end only between
components. -/
theorem cut_between_components {cut rest : List UInt8} {comps : List (List UInt8)}
    (resolved : ∀ c ∈ comps, Resolved c) (joined : render comps = cut ++ rest)
    (boundary : rest = [] ∨ rest.head? = some pathSep) :
    ∃ k, cut = render (comps.take k) := by
  induction comps generalizing cut with
  | nil =>
    have empty : cut = [] := by
      have both := joined.symm
      simp only [render, List.flatMap_nil, List.append_eq_nil_iff] at both
      exact both.1
    exact ⟨0, by simp [empty, render]⟩
  | cons c comps ih =>
    have written : render (c :: comps) = pathSep :: (c ++ render comps) := rfl
    rw [written] at joined
    cases cut with
    | nil => exact ⟨0, rfl⟩
    | cons x cut =>
      simp only [List.cons_append, List.cons.injEq] at joined
      obtain ⟨rfl, joined⟩ := joined
      rcases List.append_eq_append_iff.mp joined with ⟨more, longer, rest'⟩ | ⟨more, shorter, tail⟩
      · -- The cut runs past this component: go on with the ones behind it.
        obtain ⟨k, known⟩ := ih (fun d member => resolved d (List.mem_cons_of_mem _ member)) rest'
        refine ⟨k + 1, ?_⟩
        rw [longer, known, List.take_succ_cons]
        rfl
      · -- The cut ends in this component, so what follows starts inside it or behind it.
        cases more with
        | nil =>
          refine ⟨1, ?_⟩
          rw [List.append_nil] at shorter
          rw [shorter]
          simp [render]
        | cons y more =>
          have inside : y ∈ c := by simp [shorter]
          have head : rest.head? = some y := by rw [tail]; rfl
          rcases boundary with empty | separator
          · rw [empty] at head
            cases head
          · rw [separator] at head
            cases head
            exact absurd inside (resolved c List.mem_cons_self).no_separator

end Mysnips.HttpPath

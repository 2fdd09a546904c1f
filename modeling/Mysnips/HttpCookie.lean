import Mysnips.HttpLookup

/-! Cookies of a request. The scanner goes through a header value pair by pair; it is given the
value and what stands behind the value in memory, and a read that leaves both is a fault
(`none`). The header that is scanned is looked up under the name of the cookie. -/
namespace Mysnips.HttpCookie
open HttpParse TextRuns
open Memory (ascii)

/-- `is_cookie_name`. -/
def isCookieName (c : UInt8) : Bool :=
  ('a'.toUInt8 ≤ c && c ≤ 'z'.toUInt8) || ('A'.toUInt8 ≤ c && c ≤ 'Z'.toUInt8) ||
    ('0'.toUInt8 ≤ c && c ≤ '9'.toUInt8) || c == '_'.toUInt8 || c == '-'.toUInt8

/-- `is_cookie_value`. -/
def isCookieValue (c : UInt8) : Bool :=
  ('a'.toUInt8 ≤ c && c ≤ 'z'.toUInt8) || ('A'.toUInt8 ≤ c && c ≤ 'Z'.toUInt8) ||
    ('0'.toUInt8 ≤ c && c ≤ '9'.toUInt8) || c == '_'.toUInt8 || c == '-'.toUInt8

/-- What one round of the loop of `get_cookie` comes to: the function returns, with the slice of
the value if it returns true, or the loop goes on. -/
inductive Round where
  | stop (found : Option Slice)
  | next (cur : Nat)
  deriving DecidableEq

/-- The second half of a round, behind the `=`. -/
def valueRound (src after name cookieName : List UInt8) (cur : Nat) : Option Round := do
  let cur := skipWhile isSpace src cur
  -- The source does not compare `cur` with `len` here.
  let c ← (src ++ after)[cur]?
  if !isCookieValue c then some (.stop none)
  else
    let start := cur
    let cur := skipWhile isCookieValue src (cur + 1)
    let value : Slice := ⟨start, cur - start⟩
    let cur := skipWhile isSpace src cur
    if cur < src.length ∧ src[cur]? ≠ some ';'.toUInt8 then some (.stop none)
    else
      let cur := if cur < src.length then cur + 1 else cur
      if cookieName = name then some (.stop (some value)) else some (.next cur)

/-- One round of the loop of `get_cookie`. -/
def cookieRound (src after name : List UInt8) (cur : Nat) : Option Round :=
  let cur := skipWhile isSpace src cur
  if cur = src.length then some (.stop none)
  else if src[cur]?.any isCookieName = false then some (.stop none)
  else
    let start := cur
    let cur := skipWhile isCookieName src (cur + 1)
    let cookieName := (src.drop start).take (cur - start)
    let cur := skipWhile isSpace src cur
    if cur = src.length ∨ src[cur]? ≠ some '='.toUInt8 then some (.stop none)
    else valueRound src after name cookieName (cur + 1)

/-- The loop of `get_cookie`. -/
def scanCookies (src after name : List UInt8) : Nat → Nat → Option (Option Slice)
  | 0, _ => none
  | fuel + 1, cur =>
    if cur < src.length then
      match cookieRound src after name cur with
      | none => none
      | some (.stop found) => some found
      | some (.next cur) => scanCookies src after name fuel cur
    else some none

/-- `get_cookie`: the bytes of `out` where it returns true. The header is found by the name of
the cookie. -/
def getCookie (src : List UInt8) (r : Request) (name : List UInt8) : Option (Option (List UInt8)) :=
  match r.hs.find? (fun h => matchHeaderName (h.name.bytes src) name) with
  | none => some none
  | some h => do
    let value := h.value.bytes src
    let found ← scanCookies value (src.drop (h.value.start + h.value.size)) name (value.length + 1) 0
    some (found.map (Slice.bytes (src.drop h.value.start)))

/-! ## Lists of pairs -/

/-- A pair of a cookie list up to its value: the name and the `=`, with white space around
them. -/
structure CookieStart where
  before : List UInt8
  name : List UInt8
  afterName : List UInt8
  beforeValue : List UInt8
  spacesBefore : ∀ c ∈ before, isSpace c = true
  named : name ≠ []
  nameChars : ∀ c ∈ name, isCookieName c = true
  spacesAfter : ∀ c ∈ afterName, isSpace c = true
  spacesValue : ∀ c ∈ beforeValue, isSpace c = true

def CookieStart.bytes (start : CookieStart) : List UInt8 :=
  start.before ++ (start.name ++ (start.afterName ++ '='.toUInt8 :: start.beforeValue))

/-- A pair of a cookie list. -/
structure CookiePair extends CookieStart where
  value : List UInt8
  behind : List UInt8
  valued : value ≠ []
  valueChars : ∀ c ∈ value, isCookieValue c = true
  spacesBehind : ∀ c ∈ behind, isSpace c = true

def CookiePair.bytes (pair : CookiePair) : List UInt8 :=
  pair.toCookieStart.bytes ++ (pair.value ++ pair.behind)

/-- The pairs joined with `;`. -/
def cookieList (pairs : List CookiePair) : List UInt8 :=
  List.intercalate [';'.toUInt8] (pairs.map CookiePair.bytes)

/-- The value of the first pair with a name. -/
def firstValue (pairs : List CookiePair) (name : List UInt8) : Option (List UInt8) :=
  (pairs.find? fun pair => pair.name == name).map (·.value)

/-- The pairs with a `;` behind each. -/
def passedPairs (pairs : List CookiePair) : List UInt8 :=
  pairs.flatMap fun pair => pair.bytes ++ [';'.toUInt8]

/-- The value starts with pairs of which the first with the name has the value `v`. -/
def Offers (src name v : List UInt8) : Prop :=
  ∃ (passed : List CookiePair) (pair : CookiePair) (rest : List UInt8),
    src = passedPairs passed ++ (pair.bytes ++ rest) ∧ (∀ c ∈ rest.head?, c = ';'.toUInt8) ∧
    (∀ other ∈ passed, other.name ≠ name) ∧ pair.name = name ∧ pair.value = v

/-- The value ends behind the `=` of a pair, and no pair before has the name. -/
def EndsAtEquals (src name : List UInt8) : Prop :=
  ∃ (passed : List CookiePair) (start : CookieStart),
    src = passedPairs passed ++ start.bytes ∧ ∀ other ∈ passed, other.name ≠ name

/-! ## Runs -/

theorem not_space_of_cookieName {c : UInt8} (inName : isCookieName c = true) : isSpace c = false := by
  by_contra space
  simp only [Bool.not_eq_false, isSpace, Bool.or_eq_true, beq_iff_eq] at space
  rcases space with ((rfl | rfl) | rfl) | rfl
  · cases inName
  · cases inName
  · cases inName
  · cases inName

variable {src after name run tail : List UInt8} {p : UInt8 → Bool} {cur : Nat}

/-- Skipping a run. -/
theorem skipWhile_run (here : src.drop cur = run ++ tail) (inside : ∀ c ∈ run, p c = true)
    (stops : ∀ c ∈ tail.head?, p c = false) :
    skipWhile p src cur = cur + run.length ∧ src.drop (cur + run.length) = tail :=
  skip_run here inside stops

/-- The `do` loop: one character of the run is taken before the rest is skipped. -/
theorem skipWhile_behind_first (here : src.drop cur = run ++ tail) (nonempty : run ≠ [])
    (inside : ∀ c ∈ run, p c = true) (stops : ∀ c ∈ tail.head?, p c = false) :
    skipWhile p src (cur + 1) = cur + run.length ∧ src.drop (cur + run.length) = tail := by
  cases run with
  | nil => exact absurd rfl nonempty
  | cons c run =>
    have next : src.drop (cur + 1) = run ++ tail := by
      rw [← List.drop_drop, here]
      rfl
    obtain ⟨skipped, behind⟩ := skipWhile_run next (List.forall_mem_cons.mp inside).2 stops
    rw [List.length_cons, ← Nat.add_assoc, Nat.add_right_comm]
    exact ⟨skipped, behind⟩

/-- A run of name characters ends at white space. -/
theorem stops_at_spaces {spaces : List UInt8} (blank : ∀ c ∈ spaces, isSpace c = true)
    (stops : spaces = [] → ∀ c ∈ tail.head?, isCookieName c = false) :
    ∀ c ∈ (spaces ++ tail).head?, isCookieName c = false := by
  intro c first
  cases spaces with
  | nil => exact stops rfl c first
  | cons d more =>
    have space := blank d List.mem_cons_self
    cases first
    by_contra inName
    rw [not_space_of_cookieName ((Bool.not_eq_false _).mp inName)] at space
    cases space

/-! ## Rounds -/

/-- A round that finds a name and an `=` goes on behind them. -/
theorem cookieRound_start (start : CookieStart) (here : src.drop cur = start.bytes ++ tail) :
    ∃ cur', cur < cur' ∧ cur' ≤ src.length ∧ src.drop cur' = start.beforeValue ++ tail ∧
      ∀ after name, cookieRound src after name cur = valueRound src after name start.name cur' := by
  have equals : src.drop cur = start.before ++ (start.name ++ (start.afterName ++
      '='.toUInt8 :: (start.beforeValue ++ tail))) := by
    rw [here, CookieStart.bytes]
    simp only [List.append_assoc, List.cons_append]
  have nameFirst : ∀ c ∈ start.name.head?, isCookieName c = true := fun c first =>
    start.nameChars c (List.mem_of_mem_head? first)
  obtain ⟨c, rest, same⟩ := List.exists_cons_of_ne_nil start.named
  rw [same] at nameFirst
  obtain ⟨skipped₁, at₁⟩ := skipWhile_run equals start.spacesBefore (by
    rw [same]
    rintro _ ⟨⟩
    exact not_space_of_cookieName (nameFirst c rfl))
  obtain ⟨skipped₂, at₂⟩ := skipWhile_behind_first at₁ start.named start.nameChars
    (stops_at_spaces start.spacesAfter fun _ => by rintro _ ⟨⟩; rfl)
  obtain ⟨skipped₃, at₃⟩ := skipWhile_run at₂ start.spacesAfter (by rintro _ ⟨⟩; rfl)
  have inside₁ := length_at at₁ (by simp [same])
  have inside₃ := length_at at₃ (by simp)
  have here₁ : src[cur + start.before.length]? = some c := by
    rw [at_cursor at₁, same]
    rfl
  have nameBytes : (src.drop (cur + start.before.length)).take start.name.length = start.name := by
    rw [at₁, List.take_left]
  simp only [List.length_append, List.length_cons] at inside₁ inside₃
  refine ⟨cur + start.before.length + start.name.length + start.afterName.length + 1, by omega,
    by omega, by rw [← List.drop_drop, at₃]; rfl, ?_⟩
  intro after name
  unfold cookieRound
  simp only [skipped₁, skipped₂, skipped₃, Nat.add_sub_cancel_left, nameBytes]
  rw [if_neg (by omega), here₁, if_neg (by simp [nameFirst c rfl]), if_neg]
  rintro (ended | other)
  · omega
  · exact other (by rw [at_cursor at₃]; rfl)

/-- A round that finds a value looks at what is behind it: the end, a `;` or something that
does not belong there. -/
theorem valueRound_pair (pair : CookiePair)
    (here : src.drop cur = pair.beforeValue ++ (pair.value ++ (pair.behind ++ tail)))
    (stops : ∀ c ∈ tail.head?, isSpace c = false ∧ (pair.behind = [] → isCookieValue c = false))
    (cookieName : List UInt8) :
    ∃ start, src.drop start = pair.value ++ (pair.behind ++ tail) ∧ cur ≤ start ∧
      valueRound src after name cookieName cur = some
        (if tail.head?.any (· != ';'.toUInt8) then .stop none
        else if cookieName = name then .stop (some ⟨start, pair.value.length⟩)
        else .next (start + pair.value.length + pair.behind.length +
          if tail = [] then 0 else 1)) := by
  obtain ⟨c, rest, same⟩ := List.exists_cons_of_ne_nil pair.valued
  have first : isCookieValue c = true := pair.valueChars c (by rw [same]; exact List.mem_cons_self)
  obtain ⟨skipped₁, at₁⟩ := skipWhile_run here pair.spacesValue (by
    rw [same]
    rintro _ ⟨⟩
    exact not_space_of_cookieName first)
  obtain ⟨skipped₂, at₂⟩ := skipWhile_behind_first at₁ pair.valued pair.valueChars
    (stops_at_spaces pair.spacesBehind fun none d head => (stops d head).2 none)
  obtain ⟨skipped₃, at₃⟩ := skipWhile_run at₂ pair.spacesBehind fun d head => (stops d head).1
  refine ⟨_, at₁, by omega, ?_⟩
  have inside := length_at at₁ (by simp [same])
  simp only [List.length_append] at inside
  have here₁ : (src ++ after)[cur + pair.beforeValue.length]? = some c := by
    have positive := List.length_pos_iff.mpr pair.valued
    rw [List.getElem?_append_left (by omega), at_cursor at₁, same]
    rfl
  unfold valueRound
  simp only [skipped₁, here₁, Option.bind_eq_bind, Option.bind_some, first, skipped₂, skipped₃,
    Nat.add_sub_cancel_left, Bool.not_true, Bool.false_eq_true, if_false, at_cursor at₃]
  cases tail with
  | nil =>
    simp only [List.length_nil, Nat.add_zero] at inside
    have ended : ¬ cur + pair.beforeValue.length + pair.value.length + pair.behind.length < src.length := by
      omega
    rw [if_neg fun both => ended both.1]
    simp only [if_neg ended, if_true, Nat.add_zero, List.head?_nil, Option.any_none,
      Bool.false_eq_true, if_false]
    split <;> rfl
  | cons d tail =>
    rw [List.length_cons] at inside
    have more : cur + pair.beforeValue.length + pair.value.length + pair.behind.length < src.length := by
      omega
    simp only [more, true_and, List.head?_cons, ne_eq, Option.some.injEq,
      Option.any_some, bne_iff_ne, reduceCtorEq, if_false]
    split
    · rfl
    · split <;> rfl

/-- Behind the `=` the value is looked at without a check for the end. -/
theorem valueRound_end {spaces : List UInt8} (here : src.drop cur = spaces) (inside : cur ≤ src.length)
    (blank : ∀ c ∈ spaces, isSpace c = true) (cookieName : List UInt8) :
    (after = [] → valueRound src after name cookieName cur = none) ∧
      ∀ c ∈ after.head?, isCookieValue c = false →
        valueRound src after name cookieName cur = some (.stop none) := by
  obtain ⟨skipped, -⟩ := skipWhile_run (here.trans (List.append_nil _).symm) blank (by simp)
  have ended : cur + spaces.length = src.length := by
    rw [← here, List.length_drop]
    omega
  unfold valueRound
  simp only [skipped, ended]
  constructor
  · rintro rfl
    simp
  · intro c next refused
    rw [getElem?_behind, next]
    simp [refused]

theorem valueRound_refused {spaces : List UInt8} {c : UInt8} (here : src.drop cur = spaces ++ c :: tail)
    (blank : ∀ c ∈ spaces, isSpace c = true) (notSpace : isSpace c = false)
    (refused : isCookieValue c = false) (cookieName : List UInt8) :
    valueRound src after name cookieName cur = some (.stop none) := by
  obtain ⟨skipped, behind⟩ := skipWhile_run here blank (by rintro _ ⟨⟩; exact notSpace)
  have inside := length_at behind (by simp)
  have found : (src ++ after)[cur + spaces.length]? = some c := by
    rw [List.length_cons] at inside
    rw [List.getElem?_append_left (by omega), at_cursor behind]
    rfl
  unfold valueRound
  simp [skipped, found, refused]

theorem cookieRound_spaces (blank : ∀ c ∈ src.drop cur, isSpace c = true) (inside : cur ≤ src.length) :
    cookieRound src after name cur = some (.stop none) := by
  obtain ⟨skipped, -⟩ := skipWhile_run (List.append_nil _).symm blank (by simp)
  have ended : cur + (src.drop cur).length = src.length := by
    rw [List.length_drop]
    omega
  unfold cookieRound
  rw [skipped, if_pos ended]

theorem cookieRound_badName {spaces : List UInt8} {c : UInt8} (here : src.drop cur = spaces ++ c :: tail)
    (blank : ∀ c ∈ spaces, isSpace c = true) (notSpace : isSpace c = false)
    (refused : isCookieName c = false) : cookieRound src after name cur = some (.stop none) := by
  obtain ⟨skipped, behind⟩ := skipWhile_run here blank (by rintro _ ⟨⟩; exact notSpace)
  unfold cookieRound
  simp [skipped, at_cursor behind, refused]

theorem cookieRound_noEquals {before cookieName between : List UInt8}
    (here : src.drop cur = before ++ (cookieName ++ (between ++ tail)))
    (blankBefore : ∀ c ∈ before, isSpace c = true) (named : cookieName ≠ [])
    (nameChars : ∀ c ∈ cookieName, isCookieName c = true) (blank : ∀ c ∈ between, isSpace c = true)
    (stops : ∀ c ∈ tail.head?, isSpace c = false ∧ (between = [] → isCookieName c = false))
    (other : tail.head? ≠ some '='.toUInt8) : cookieRound src after name cur = some (.stop none) := by
  obtain ⟨c, rest, same⟩ := List.exists_cons_of_ne_nil named
  obtain ⟨skipped₁, at₁⟩ := skipWhile_run here blankBefore (by
    rw [same]
    rintro _ ⟨⟩
    exact not_space_of_cookieName (nameChars c (by rw [same]; exact List.mem_cons_self)))
  obtain ⟨skipped₂, at₂⟩ := skipWhile_behind_first at₁ named nameChars
    (stops_at_spaces blank fun none d head => (stops d head).2 none)
  obtain ⟨skipped₃, at₃⟩ := skipWhile_run at₂ blank fun d head => (stops d head).1
  unfold cookieRound
  simp only [skipped₁, skipped₂, skipped₃, at_cursor at₃, if_pos (Or.inr other)]
  split
  · rfl
  · split <;> rfl

/-! ## Walks -/

/-- How a scan ends. -/
inductive Ending where
  | found (value : List UInt8)
  | refused
  | truncated

/-- The ways through a header value, by its shape alone. -/
inductive Walk (name : List UInt8) : List UInt8 → Ending → Prop where
  | spaces {rest : List UInt8} (blank : ∀ c ∈ rest, isSpace c = true) : Walk name rest .refused
  | badName {before tail : List UInt8} {c : UInt8} (blank : ∀ c ∈ before, isSpace c = true)
      (notSpace : isSpace c = false) (notName : isCookieName c = false) :
      Walk name (before ++ c :: tail) .refused
  | noEquals {before cookieName between tail : List UInt8}
      (blankBefore : ∀ c ∈ before, isSpace c = true) (named : cookieName ≠ [])
      (nameChars : ∀ c ∈ cookieName, isCookieName c = true)
      (blank : ∀ c ∈ between, isSpace c = true)
      (stops : ∀ c ∈ tail.head?, isSpace c = false ∧ (between = [] → isCookieName c = false))
      (other : tail.head? ≠ some '='.toUInt8) :
      Walk name (before ++ (cookieName ++ (between ++ tail))) .refused
  | truncated (start : CookieStart) : Walk name start.bytes .truncated
  | badValue (start : CookieStart) {tail : List UInt8} {c : UInt8} (notSpace : isSpace c = false)
      (notValue : isCookieValue c = false) : Walk name (start.bytes ++ c :: tail) .refused
  | badSeparator (pair : CookiePair) {tail : List UInt8} {c : UInt8} (notSpace : isSpace c = false)
      (other : c ≠ ';'.toUInt8) (stops : pair.behind = [] → isCookieValue c = false) :
      Walk name (pair.bytes ++ c :: tail) .refused
  | found (pair : CookiePair) {tail : List UInt8} (same : pair.name = name)
      (separated : ∀ c ∈ tail.head?, c = ';'.toUInt8) :
      Walk name (pair.bytes ++ tail) (.found pair.value)
  | last (pair : CookiePair) (other : pair.name ≠ name) : Walk name pair.bytes .refused
  | pass (pair : CookiePair) {tail : List UInt8} {ending : Ending} (other : pair.name ≠ name)
      (walk : Walk name tail ending) : Walk name (pair.bytes ++ ';'.toUInt8 :: tail) ending

/-- A value either is refused before the value of its first cookie or has one that starts. -/
theorem start_split (name rest : List UInt8) : (∃ ending, Walk name rest ending) ∨
    ∃ (start : CookieStart) (c : UInt8) (tail : List UInt8), rest = start.bytes ++ c :: tail ∧
      isCookieValue c = true := by
  obtain ⟨before, rest₁, rfl, blankBefore, stops₁⟩ := run_split isSpace rest
  cases rest₁ with
  | nil => exact .inl ⟨_, .spaces (by simpa using blankBefore)⟩
  | cons c rest₁ =>
    cases inName : isCookieName c with
    | false => exact .inl ⟨_, .badName blankBefore (stops₁ c rfl) inName⟩
    | true =>
      obtain ⟨cookieName, rest₂, split, named, nameChars, stops₂⟩ := run_split_first inName rest₁
      obtain ⟨between, rest₃, rfl, blank, stops₃⟩ := run_split isSpace rest₂
      rw [split]
      by_cases other : rest₃.head? ≠ some '='.toUInt8
      · refine .inl ⟨_, .noEquals blankBefore named nameChars blank ?_ other⟩
        intro c head
        refine ⟨stops₃ c head, ?_⟩
        rintro rfl
        exact stops₂ c head
      obtain ⟨rest₄, rfl⟩ := List.head?_eq_some_iff.mp (not_not.mp other)
      obtain ⟨beforeValue, rest₅, rfl, blankValue, stops₅⟩ := run_split isSpace rest₄
      let start : CookieStart := ⟨before, cookieName, between, beforeValue, blankBefore, named,
        nameChars, blank, blankValue⟩
      have startBytes : before ++ (cookieName ++ (between ++ '='.toUInt8 :: (beforeValue ++ rest₅))) =
          start.bytes ++ rest₅ := by
        simp only [start, CookieStart.bytes, List.append_assoc, List.cons_append]
      rw [startBytes]
      cases rest₅ with
      | nil =>
        rw [List.append_nil]
        exact .inl ⟨_, .truncated start⟩
      | cons d rest₅ =>
        cases inValue : isCookieValue d with
        | false => exact .inl ⟨_, .badValue start (stops₅ d rfl) inValue⟩
        | true => exact .inr ⟨start, d, rest₅, rfl, inValue⟩

/-- The pair that a started value belongs to. -/
theorem pair_split (start : CookieStart) {c : UInt8} (inValue : isCookieValue c = true)
    (tail : List UInt8) : ∃ (pair : CookiePair) (rest : List UInt8),
      start.bytes ++ c :: tail = pair.bytes ++ rest ∧
        ∀ d ∈ rest.head?, isSpace d = false ∧ (pair.behind = [] → isCookieValue d = false) := by
  obtain ⟨value, rest₁, split, valued, valueChars, stops₁⟩ := run_split_first inValue tail
  obtain ⟨behind, rest₂, rfl, blank, stops₂⟩ := run_split isSpace rest₁
  refine ⟨⟨start, value, behind, valued, valueChars, blank⟩, rest₂, ?_, ?_⟩
  · rw [split]
    simp only [CookiePair.bytes, List.append_assoc]
  · intro d head
    refine ⟨stops₂ d head, ?_⟩
    intro (none : behind = [])
    subst none
    exact stops₁ d head

/-- Every value can be walked. -/
theorem walk_total (name rest : List UInt8) : ∃ ending, Walk name rest ending := by
  induction size : rest.length using Nat.strong_induction_on generalizing rest with
  | _ n ih =>
    rcases start_split name rest with walk | ⟨start, c, tail, rfl, inValue⟩
    · exact walk
    obtain ⟨pair, tail, split, stops⟩ := pair_split start inValue tail
    rw [split] at size ⊢
    cases tail with
    | nil =>
      by_cases same : pair.name = name
      · exact ⟨_, .found pair same (by simp)⟩
      · rw [List.append_nil]
        exact ⟨_, .last pair same⟩
    | cons d tail =>
      obtain ⟨notSpace, notValue⟩ := stops d rfl
      by_cases separator : d = ';'.toUInt8
      · subst separator
        by_cases same : pair.name = name
        · exact ⟨_, .found pair same (by rintro _ ⟨⟩; rfl)⟩
        · have shorter : tail.length < n := by
            rw [← size, List.length_append, List.length_cons]
            omega
          obtain ⟨ending, walk⟩ := ih tail.length shorter tail rfl
          exact ⟨ending, .pass pair same walk⟩
      · exact ⟨_, .badSeparator pair notSpace separator notValue⟩

/-- What a scan gives at the end of a walk, with `after` behind the value. -/
def Ending.Gives (src after : List UInt8) : Ending → Option (Option Slice) → Prop
  | .found v, result => ∃ value : Slice, result = some (some value) ∧ value.bytes src = v ∧
      value.start + value.size ≤ src.length
  | .refused, result => result = some none
  | .truncated, result => (after = [] → result = none) ∧
      ∀ c ∈ after.head?, isCookieValue c = false → result = some none

theorem scanCookies_ended {fuel : Nat} (positive : 0 < fuel) (ended : src.length ≤ cur) :
    scanCookies src after name fuel cur = some none := by
  cases fuel with
  | zero => omega
  | succ fuel => rw [scanCookies, if_neg (Nat.not_lt.mpr ended)]

theorem scanCookies_stop {fuel : Nat} {found : Option Slice} (positive : 0 < fuel)
    (more : cur < src.length) (round : cookieRound src after name cur = some (.stop found)) :
    scanCookies src after name fuel cur = some found := by
  cases fuel with
  | zero => omega
  | succ fuel => rw [scanCookies, if_pos more, round]

theorem separated_stops {behind : List UInt8} (separated : ∀ c ∈ tail.head?, c = ';'.toUInt8) :
    ∀ c ∈ tail.head?, isSpace c = false ∧ (behind = [] → isCookieValue c = false) := by
  intro c head
  rw [separated c head]
  exact ⟨rfl, fun _ => rfl⟩

theorem separated_passes (separated : ∀ c ∈ tail.head?, c = ';'.toUInt8) :
    ¬ tail.head?.any (· != ';'.toUInt8) = true := by
  cases tail with
  | nil => exact Bool.false_ne_true
  | cons c tail => simp [separated c rfl]

theorem CookiePair.bytes_ne_nil (pair : CookiePair) : pair.bytes ≠ [] := by
  simp [CookiePair.bytes, pair.valued]

/-- The round of a pair that can be read: its value, or the cursor behind it. -/
theorem cookieRound_pair (pair : CookiePair) (here : src.drop cur = pair.bytes ++ tail)
    (stops : ∀ c ∈ tail.head?, isSpace c = false ∧ (pair.behind = [] → isCookieValue c = false)) :
    ∃ start, src.drop start = pair.value ++ (pair.behind ++ tail) ∧ cur < start ∧
      cookieRound src after name cur = some
        (if tail.head?.any (· != ';'.toUInt8) then .stop none
        else if pair.name = name then .stop (some ⟨start, pair.value.length⟩)
        else .next (start + pair.value.length + pair.behind.length +
          if tail = [] then 0 else 1)) := by
  rw [CookiePair.bytes, List.append_assoc, List.append_assoc] at here
  obtain ⟨cur', onward, -, behind, round⟩ := cookieRound_start _ here
  obtain ⟨start, value, later, result⟩ := valueRound_pair pair behind stops pair.name
  exact ⟨start, value, by omega, (round after name).trans result⟩

theorem scan_walk (after : List UInt8) {rest : List UInt8} {ending : Ending} {fuel : Nat}
    (walk : Walk name rest ending) (here : src.drop cur = rest) (inside : cur ≤ src.length)
    (enough : rest.length < fuel) :
    ending.Gives src after (scanCookies src after name fuel cur) := by
  have more : rest ≠ [] → cur < src.length := by
    intro nonempty
    have whole := length_at here nonempty
    have positive := List.length_pos_iff.mpr nonempty
    omega
  induction walk generalizing cur fuel with
  | spaces blank =>
    by_cases nonempty : cur < src.length
    · exact scanCookies_stop (by omega) nonempty
        (cookieRound_spaces (by rw [here]; exact blank) inside)
    · exact scanCookies_ended (by omega) (by omega)
  | badName blank notSpace notName =>
    exact scanCookies_stop (by omega) (more (by simp))
      (cookieRound_badName here blank notSpace notName)
  | noEquals blankBefore named nameChars blank stops other =>
    exact scanCookies_stop (by omega) (more (by simp [named]))
      (cookieRound_noEquals here blankBefore named nameChars blank stops other)
  | truncated start =>
    have nonempty := more (by simp [CookieStart.bytes])
    rw [← List.append_nil start.bytes] at here
    obtain ⟨cur', -, within, behind, round⟩ := cookieRound_start start here
    rw [List.append_nil] at behind
    obtain ⟨fault, stop⟩ := valueRound_end behind within start.spacesValue start.name
    cases fuel with
    | zero => omega
    | succ fuel =>
      rw [scanCookies, if_pos nonempty, round]
      constructor
      · intro none
        rw [fault none]
      · intro c next notValue
        rw [stop c next notValue]
  | badValue start notSpace notValue =>
    obtain ⟨cur', -, -, behind, round⟩ := cookieRound_start start here
    have stop := (round after name).trans
      (valueRound_refused behind start.spacesValue notSpace notValue start.name)
    exact scanCookies_stop (by omega) (more (by simp)) stop
  | @badSeparator pair tail c notSpace other stops =>
    obtain ⟨start, -, -, round⟩ := cookieRound_pair pair here
      (by rintro _ ⟨⟩; exact ⟨notSpace, stops⟩)
    have refused : (c :: tail).head?.any (· != ';'.toUInt8) = true := bne_iff_ne.mpr other
    rw [if_pos refused] at round
    exact scanCookies_stop (by omega) (more (by simp)) round
  | @found pair tail same separated =>
    obtain ⟨start, value, -, round⟩ := cookieRound_pair pair here (separated_stops separated)
    rw [if_neg (separated_passes separated), if_pos same] at round
    refine ⟨⟨start, pair.value.length⟩, ?_, ?_, ?_⟩
    · exact scanCookies_stop (by omega) (more (by simp [pair.bytes_ne_nil])) round
    · rw [Slice.bytes, value, List.take_left]
    · have whole := length_at value (by simp [pair.valued])
      rw [List.length_append] at whole
      change start + pair.value.length ≤ src.length
      omega
  | last pair other =>
    have nonempty := more pair.bytes_ne_nil
    have positive := List.length_pos_iff.mpr pair.bytes_ne_nil
    rw [← List.append_nil pair.bytes] at here
    obtain ⟨start, value, -, round⟩ := cookieRound_pair pair here (by simp)
    rw [if_neg (by simp), if_neg other, if_pos rfl] at round
    have whole := length_at value (by simp [pair.valued])
    rw [List.append_nil, List.length_append] at whole
    cases fuel with
    | zero => omega
    | succ fuel =>
      rw [scanCookies, if_pos nonempty, round]
      exact scanCookies_ended (by omega) (by omega)
  | @pass pair tail ending other walk ih =>
    have nonempty := more (by simp)
    have separated : ∀ c ∈ (';'.toUInt8 :: tail).head?, c = ';'.toUInt8 := by
      rintro _ ⟨⟩
      rfl
    obtain ⟨start, value, -, round⟩ := cookieRound_pair pair here (separated_stops separated)
    rw [if_neg (separated_passes separated), if_neg other, if_neg (by simp)] at round
    have whole := length_at value (by simp [pair.valued])
    have next : src.drop (start + pair.value.length + pair.behind.length + 1) = tail := by
      rw [Nat.add_assoc start, Nat.add_assoc start, ← List.drop_drop, value, ← List.append_assoc,
        ← List.drop_drop, ← List.length_append, List.drop_left]
      rfl
    rw [List.length_append, List.length_append, List.length_cons] at whole
    rw [List.length_append, List.length_cons] at enough
    cases fuel with
    | zero => omega
    | succ fuel =>
      rw [scanCookies, if_pos nonempty, round]
      refine ih next (by omega) (by omega) ?_
      intro nonempty
      have positive := List.length_pos_iff.mpr nonempty
      omega

theorem Walk.passed {passed : List CookiePair} {rest : List UInt8} {ending : Ending}
    (others : ∀ other ∈ passed, other.name ≠ name) (walk : Walk name rest ending) :
    Walk name (passedPairs passed ++ rest) ending := by
  induction passed with
  | nil => exact walk
  | cons pair passed ih =>
    obtain ⟨other, others⟩ := List.forall_mem_cons.mp others
    have bytes : passedPairs (pair :: passed) ++ rest =
        pair.bytes ++ ';'.toUInt8 :: (passedPairs passed ++ rest) := by
      simp [passedPairs]
    rw [bytes]
    exact .pass pair other (ih others)

/-- What a walk says about the shape of the value. -/
theorem Walk.shape {rest : List UInt8} {ending : Ending} (walk : Walk name rest ending) :
    (∀ v, ending = .found v → Offers rest name v) ∧ (ending = .truncated → EndsAtEquals rest name) := by
  induction walk with
  | spaces | badName | noEquals | badValue | badSeparator | last =>
    exact ⟨fun v wrong => (by cases wrong), fun wrong => (by cases wrong)⟩
  | truncated start =>
    exact ⟨fun v wrong => (by cases wrong), fun _ => ⟨[], start, rfl, by simp⟩⟩
  | @found pair tail same separated =>
    refine ⟨?_, fun wrong => (by cases wrong)⟩
    rintro v ⟨⟩
    exact ⟨[], pair, tail, rfl, separated, by simp, same, rfl⟩
  | @pass pair tail ending other walk ih =>
    obtain ⟨offers, ends⟩ := ih
    constructor
    · intro v found
      obtain ⟨passed, last, rest, rfl, separated, others, same, value⟩ := offers v found
      exact ⟨pair :: passed, last, rest, by simp [passedPairs], separated,
        List.forall_mem_cons.mpr ⟨other, others⟩, same, value⟩
    · intro truncated
      obtain ⟨passed, start, rfl, others⟩ := ends truncated
      exact ⟨pair :: passed, start, by simp [passedPairs],
        List.forall_mem_cons.mpr ⟨other, others⟩⟩

theorem Offers.walk {v : List UInt8} (offers : Offers src name v) : Walk name src (.found v) := by
  obtain ⟨passed, pair, rest, rfl, separated, others, same, rfl⟩ := offers
  exact Walk.passed others (.found pair same separated)

theorem EndsAtEquals.walk (ends : EndsAtEquals src name) : Walk name src .truncated := by
  obtain ⟨passed, start, rfl, others⟩ := ends
  exact Walk.passed others (.truncated start)

/-- The scan of a whole value. -/
theorem scan_value (after : List UInt8) {ending : Ending} (walk : Walk name src ending) :
    ending.Gives src after (scanCookies src after name (src.length + 1) 0) :=
  scan_walk after walk (List.drop_zero) (Nat.zero_le _) (Nat.lt_succ_self _)

/-- Two walks of a value end alike: the scan ends in one way. -/
theorem walk_unique {rest : List UInt8} {ending other : Ending} (walk : Walk name rest ending)
    (also : Walk name rest other) : ending = other := by
  have gives := scan_value [] walk
  have gives' := scan_value [] also
  generalize scanCookies rest [] name (rest.length + 1) 0 = result at gives gives'
  have result_of : ∀ {e : Ending}, e.Gives rest [] result →
      result.map (Option.map (Slice.bytes rest)) =
        match e with | .found v => some (some v) | .refused => some none | .truncated => none := by
    intro e given
    cases e with
    | found v =>
      obtain ⟨value, rfl, bytes, -⟩ := given
      rw [← bytes]
      rfl
    | refused =>
      rw [given]
      rfl
    | truncated =>
      rw [given.1 rfl]
      rfl
  have same := (result_of gives).symm.trans (result_of gives')
  cases ending <;> cases other <;> simp_all

/-- The loop ends, with every read inside the value, exactly if the value does not end behind
the `=` of a pair that is reached: the character of the value is looked at without a check. -/
theorem cookie_scan_in_bounds_iff (src name : List UInt8) :
    (scanCookies src [] name (src.length + 1) 0).isSome = true ↔ ¬ EndsAtEquals src name := by
  constructor
  · intro some ends
    have gives := scan_value [] ends.walk
    rw [gives.1 rfl] at some
    cases some
  · intro complete
    obtain ⟨ending, walk⟩ := walk_total name src
    have gives := scan_value [] walk
    cases ending with
    | found v =>
      obtain ⟨value, found, -, -⟩ := gives
      rw [found]
      rfl
    | refused =>
      rw [gives]
      rfl
    | truncated => exact absurd (walk.shape.2 rfl) complete

/-- The value `a=`: the third byte of two is read. -/
theorem cookie_scan_reads_behind :
    cookieRound (ascii "a=") [] (ascii "a") 0 = none ∧
      ¬ (scanCookies (ascii "a=") [] (ascii "a") ((ascii "a=").length + 1) 0).isSome = true := by
  decide +kernel

/-! ## Requests -/

theorem le_skipWhile (p : UInt8 → Bool) (src : List UInt8) (cur : Nat) : cur ≤ skipWhile p src cur :=
  Nat.le_add_right _ _

theorem skipWhile_stops (p : UInt8 → Bool) (src : List UInt8) (cur : Nat) :
    ∀ c ∈ src[skipWhile p src cur]?, p c = false := by
  rw [skipWhile, at_cursor (drop_skipped p src cur)]
  exact dropWhile_stops p _

/-- Behind the value of every header stands the end of its line. -/
theorem runHeaders_ends {fuel : Nat} {hs : List Header} {run : Option Nat × List Header}
    (ends : ∀ h ∈ hs, src[h.value.start + h.value.size]? = some '\r'.toUInt8)
    (done : runHeaders src fuel cur hs = some run) :
    ∀ h ∈ run.2, src[h.value.start + h.value.size]? = some '\r'.toUInt8 := by
  induction fuel generalizing cur hs with
  | zero => cases done
  | succ fuel ih =>
    rw [runHeaders] at done
    split at done
    · cases done
      exact ends
    dsimp only at done
    split at done
    · cases done
      exact ends
    split at done
    · cases done
      exact ends
    obtain ⟨c, next, done⟩ := Option.bind_eq_some_iff.mp done
    split at done
    · cases done
      exact ends
    apply ih _ done
    split
    · intro h member
      rcases List.mem_append.mp member with old | new
      · exact ends h old
      · cases List.mem_singleton.mp new
        have stops := skipWhile_stops (· != '\r'.toUInt8) src
          (skipWhile (· != ':'.toUInt8) src cur + 1)
        have inside := (List.getElem?_eq_some_iff.mp next).1
        rw [List.getElem?_eq_getElem (Nat.lt_of_succ_lt inside)] at stops
        have found := stops _ rfl
        rw [bne_eq_false_iff_eq] at found
        dsimp only
        rw [Nat.add_sub_cancel' (le_skipWhile _ src _),
          List.getElem?_eq_getElem (Nat.lt_of_succ_lt inside), found]
    · exact ends

theorem parseRequestHead_headers {r : Request} (parsed : parseRequestHead src = some (.ok r)) :
    ∃ cur run, runHeaders src (src.length + 1) cur [] = some run ∧ run.2 = r.hs := by
  obtain ⟨parse, ran, result⟩ := Option.map_eq_some_iff.mp parsed
  unfold runRequestHead at ran
  split at ran
  · cases ran
    cases result
  dsimp only at ran
  split at ran
  · cases ran
    cases result
  split at ran
  · cases ran
    cases result
  obtain ⟨version, -, ran⟩ := Option.bind_eq_some_iff.mp ran
  split at ran
  · cases ran
    cases result
  split at ran
  · cases ran
    cases result
  obtain ⟨run, headers, ran⟩ := Option.bind_eq_some_iff.mp ran
  split at ran
  · cases ran
    cases result
  · cases ran
    cases result
    exact ⟨_, _, headers, rfl⟩

/-- A part of a value is the same part of the buffer. -/
theorem slice_in_value {value after : List UInt8} {part : Slice}
    (inside : part.start + part.size ≤ value.length) :
    part.bytes (value ++ after) = part.bytes value := by
  rw [Slice.bytes, Slice.bytes, List.drop_append_of_le_length (by omega),
    List.take_append_of_le_length (by rw [List.length_drop]; omega)]

/-- In a parsed request the lookup ends, and it finds what the header under the cookie's name
offers. -/
theorem getCookie_offers {r : Request} (parsed : parseRequestHead src = some (.ok r))
    (name : List UInt8) :
    ∃ result, getCookie src r name = some result ∧
      ∀ v, result = some v ↔ ∃ value, findHeader src r name = some value ∧ Offers value name v := by
  unfold getCookie findHeader
  cases found : r.hs.find? (fun h => matchHeaderName (h.name.bytes src) name) with
  | none => exact ⟨none, rfl, by simp⟩
  | some h =>
    obtain ⟨cur, run, headers, stored⟩ := parseRequestHead_headers parsed
    have ends := runHeaders_ends (by simp) headers h (stored ▸ List.mem_of_find?_eq_some found)
    obtain ⟨ending, walk⟩ := walk_total name (h.value.bytes src)
    have gives := scan_value (src.drop (h.value.start + h.value.size)) walk
    have offered : ∀ v, Offers (h.value.bytes src) name v ↔ ending = .found v := by
      intro v
      constructor
      · intro offers
        exact walk_unique walk offers.walk
      · exact walk.shape.1 v
    have only : ∀ v, (∃ value, (some h).map (·.value.bytes src) = some value ∧ Offers value name v) ↔
        ending = .found v := by
      intro v
      rw [← offered v]
      simp
    simp only [only]
    cases ending with
    | found v =>
      obtain ⟨part, scanned, bytes, inside⟩ := gives
      refine ⟨some v, ?_, by simp⟩
      have split : src.drop h.value.start =
          h.value.bytes src ++ src.drop (h.value.start + h.value.size) := by
        rw [← List.drop_drop]
        exact (List.take_append_drop _ _).symm
      simp only [scanned, Option.bind_eq_bind, Option.bind_some, Option.map_some]
      rw [split, slice_in_value inside, bytes]
    | refused =>
      refine ⟨none, ?_, by simp⟩
      rw [gives]
      rfl
    | truncated =>
      have next : (src.drop (h.value.start + h.value.size)).head? = some '\r'.toUInt8 := by
        rw [List.head?_drop]
        exact ends
      refine ⟨none, ?_, by simp⟩
      rw [gives.2 _ next rfl]
      rfl

/-- The value of the first Cookie header of a request. -/
def cookieHeader (src : List UInt8) (r : Request) : Option (List UInt8) :=
  (r.hs.find? fun h => SameUpToCase (h.name.bytes src) (ascii "Cookie")).map (·.value.bytes src)

/-- The list of the Cookie header decides the lookup exactly if the header that has the name of
the cookie itself offers the same: that header is the one consulted. -/
theorem get_cookie_first_value_iff {r : Request} (parsed : parseRequestHead src = some (.ok r))
    {pairs : List CookiePair} (_held : cookieHeader src r = some (cookieList pairs))
    (name : List UInt8) :
    getCookie src r name = some (firstValue pairs name) ↔
      ∀ v, firstValue pairs name = some v ↔
        ∃ value, findHeader src r name = some value ∧ Offers value name v := by
  obtain ⟨result, done, offers⟩ := getCookie_offers parsed name
  rw [done, Option.some.injEq]
  constructor
  · rintro rfl
    exact offers
  · intro same
    apply Option.ext
    intro v
    exact (offers v).trans (same v).symm

/-- The pair ` a=b`. -/
def plainPair : CookiePair where
  before := ascii " "
  name := ascii "a"
  afterName := []
  beforeValue := []
  value := ascii "b"
  behind := []
  spacesBefore := by decide +kernel
  named := by decide +kernel
  nameChars := by decide +kernel
  spacesAfter := by decide +kernel
  spacesValue := by decide +kernel
  valued := by decide +kernel
  valueChars := by decide +kernel
  spacesBehind := by decide +kernel

def plainRequest : Request := ⟨.get, ⟨4, 1⟩, 1, 1, [⟨⟨16, 6⟩, ⟨23, 4⟩⟩], ⟨0, 0⟩⟩

theorem get_cookie_first_value_iff_applies :
    getCookie (ascii "GET / HTTP/1.1\r\nCookie: a=b\r\n\r\n") plainRequest (ascii "c") =
        some (firstValue [plainPair] (ascii "c")) ↔
      ∀ v, firstValue [plainPair] (ascii "c") = some v ↔
        ∃ value, findHeader (ascii "GET / HTTP/1.1\r\nCookie: a=b\r\n\r\n") plainRequest (ascii "c") =
          some value ∧ Offers value (ascii "c") v := by
  apply get_cookie_first_value_iff
  · decide +kernel
  · decide +kernel

/-- The only cookie of a request is not found. -/
theorem get_cookie_misses_pair :
    parseRequestHead (ascii "GET / HTTP/1.1\r\nCookie: a=b\r\n\r\n") = some (.ok plainRequest) ∧
      cookieHeader (ascii "GET / HTTP/1.1\r\nCookie: a=b\r\n\r\n") plainRequest =
        some (cookieList [plainPair]) ∧
      firstValue [plainPair] (ascii "a") = some (ascii "b") ∧
      getCookie (ascii "GET / HTTP/1.1\r\nCookie: a=b\r\n\r\n") plainRequest (ascii "a") =
        some none := by
  decide +kernel

end Mysnips.HttpCookie

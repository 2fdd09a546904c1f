import Mathlib.Data.List.TakeDrop
import Mysnips.Machine
import Mysnips.TextRuns

/-! Prepared statements of `misc/sqlite3_utils.c`. `vprep` takes a statement in which the types
of the parameters stand in the place of the parameters, and the arguments that go with them. A
cursor is what is left of the format, and the text buffer the bytes that were copied into it.
What sqlite answers to a call is an input. -/
namespace Mysnips.Sqlite
open Machine TextRuns

/-- A string without its terminator. -/
structure CString where
  bytes : List UInt8
  noNul : ∀ c ∈ bytes, c ≠ 0

inductive Fault where
  | assertion
  | overflow
  | badArgument
  deriving DecidableEq, Repr

def colon : UInt8 := ':'.toUInt8

def question : UInt8 := '?'.toUInt8

/-- `'i'`, `'s'` and `'x'`. -/
def typeInt : UInt8 := 'i'.toUInt8

def typeStr : UInt8 := 's'.toUInt8

def typeBlob : UInt8 := 'x'.toUInt8

/-- The size of the text buffer. -/
abbrev bufferSize : Nat := 2 ^ 10

/-- `COUNT(params)`. -/
abbrev maxParams : Nat := 8

/-- What a variadic call passes. -/
inductive Word where
  | int (value : Int)
  | pointer (address : Nat)
  | size (value : Nat)
  deriving DecidableEq, Repr

/-- The calls of sqlite: what the text pointer leads to, and the arguments. -/
inductive Call where
  | prepare (memory : List UInt8) (nByte : Int)
  | bindInt (index : Nat) (value : Int)
  | bindText (index address : Nat) (n : Int)
  | bindBlob (index address : Nat) (n : Int)
  | finalize
  deriving DecidableEq, Repr

/-- `memcpy` to the end of what the text buffer holds. -/
def put (buffer bytes : List UInt8) : Except Fault (List UInt8) :=
  if buffer.length + bytes.length ≤ bufferSize then .ok (buffer ++ bytes) else .error .overflow

/-- The `do` loop over the specifiers, from a cursor at a colon. It ends without a result where
`NULL` is returned. -/
def expand (rest buffer params : List UInt8) : Except Fault (Option (List UInt8 × List UInt8)) :=
  match rest with
  | [] => .error .assertion
  | c :: rest =>
    if c ≠ colon then .error .assertion
    else
      match rest with
      | [] => .ok none
      | t :: rest =>
        if t ≠ typeInt ∧ t ≠ typeStr ∧ t ≠ typeBlob then .ok none
        else if params.length = maxParams then .ok none
        else if buffer.length + 1 ≥ bufferSize then .ok none
        else do
          let buffer ← put buffer [question]
          let copying := rest.takeWhile (· != colon)
          if buffer.length + copying.length ≥ bufferSize then .ok none
          else
            let buffer ← put buffer copying
            let behind := rest.dropWhile (· != colon)
            if behind = [] then .ok (some (buffer, params ++ [t]))
            else expand behind buffer (params ++ [t])
termination_by rest.length
decreasing_by
  have shorter := (List.dropWhile_sublist (l := rest) (p := (· != colon))).length_le
  simp only [List.length_cons]
  omega

/-- What is passed to sqlite: what `stmt_str` leads to, `stmt_len` and the parameters. -/
structure Statement where
  memory : List UInt8
  length : Nat
  params : List UInt8
  deriving DecidableEq, Repr

/-- The first part of `vprep`. -/
def statement (fmt : CString) : Except Fault (Option Statement) :=
  let first := fmt.bytes.takeWhile (· != colon)
  let behind := fmt.bytes.dropWhile (· != colon)
  if behind = [] then .ok (some ⟨fmt.bytes ++ [0], fmt.bytes.length, []⟩)
  else if first.length ≥ bufferSize then .ok none
  else do
    let buffer ← put [] first
    match ← expand behind buffer [] with
    | none => .ok none
    | some (buffer, params) =>
      if buffer.length < bufferSize then
        let memory ← put buffer [0]
        .ok (some ⟨memory, buffer.length, params⟩)
      else .error .assertion

/-- The argument of a parameter, and its call. -/
def bindCall (t : UInt8) (index : Nat) (args : List Word) : Except Fault (Call × List Word) :=
  if t = typeInt then
    match args with
    | .int v :: args => .ok (.bindInt index v, args)
    | _ => .error .badArgument
  else if t = typeStr then
    match args with
    | .pointer str :: args => .ok (.bindText index str (-1), args)
    | _ => .error .badArgument
  else
    match args with
    | .pointer ptr :: .size len :: args => .ok (.bindBlob index ptr (int32 len), args)
    | _ => .error .badArgument

/-- The loop over the parameters, and whether the statement is returned. -/
def bindParams (ok : Call → Bool) : (params : List UInt8) → (i : Nat) → List Word →
    Except Fault (List Call × Bool)
  | [], _, _ => .ok ([], true)
  | t :: params, i, args => do
    let (call, args) ← bindCall t (i + 1) args
    if ok call then
      let (calls, bound) ← bindParams ok params (i + 1) args
      .ok (call :: calls, bound)
    else .ok ([call, .finalize], false)

/-- `vprep`: the calls it makes of sqlite, and whether it returns a statement. -/
def vprep (ok : Call → Bool) (fmt : CString) (args : List Word) :
    Except Fault (List Call × Bool) := do
  match ← statement fmt with
  | none => .ok ([], false)
  | some stmt =>
    let call := .prepare stmt.memory (int32 stmt.length)
    if ok call then
      let (calls, bound) ← bindParams ok stmt.params 0 args
      .ok (call :: calls, bound)
    else .ok ([call], false)

/-! ## What is meant -/

/-- A byte is the type of a parameter. -/
def IsSpecifier (t : UInt8) : Prop := t = typeInt ∨ t = typeStr ∨ t = typeBlob

instance (t : UInt8) : Decidable (IsSpecifier t) := inferInstanceAs (Decidable (_ ∨ _ ∨ _))

/-- Every colon is followed by the type of a parameter. -/
def WellFormed : List UInt8 → Prop
  | [] => True
  | [c] => c ≠ colon
  | c :: t :: rest => (c = colon → IsSpecifier t) ∧ WellFormed (t :: rest)

instance : (text : List UInt8) → Decidable (WellFormed text)
  | [] => isTrue trivial
  | [c] => inferInstanceAs (Decidable (c ≠ colon))
  | c :: t :: rest =>
    have : Decidable (WellFormed (t :: rest)) := instDecidableWellFormed (t :: rest)
    inferInstanceAs (Decidable ((c = colon → IsSpecifier t) ∧ WellFormed (t :: rest)))

/-- The text with a question mark for every colon and the type behind it. -/
def rewrite : List UInt8 → List UInt8
  | [] => []
  | [c] => [c]
  | c :: t :: rest =>
    if c = colon ∧ IsSpecifier t then question :: rewrite rest else c :: rewrite (t :: rest)

/-- The types of the parameters, in their order. -/
def specifiers : List UInt8 → List UInt8
  | [] => []
  | [_] => []
  | c :: t :: rest =>
    if c = colon ∧ IsSpecifier t then t :: specifiers rest else specifiers (t :: rest)

/-- The formats from which a statement is made. -/
def Accepted (text : List UInt8) : Prop :=
  WellFormed text ∧ (specifiers text).length ≤ 8 ∧
    (specifiers text ≠ [] → (rewrite text).length ≤ 1023)

instance (text : List UInt8) : Decidable (Accepted text) := inferInstanceAs (Decidable (_ ∧ _ ∧ _))

/-- An argument of `sqlite3UtilsPrepare`. -/
inductive Arg where
  | int (value : Int)
  | str (address : Nat)
  | blob (address length : Nat)
  deriving DecidableEq, Repr

def Arg.type : Arg → UInt8
  | .int _ => typeInt
  | .str _ => typeStr
  | .blob _ _ => typeBlob

def Arg.words : Arg → List Word
  | .int value => [.int value]
  | .str address => [.pointer address]
  | .blob address length => [.pointer address, .size length]

/-- The call that binds an argument: a string up to its end, a blob with its length. -/
def Arg.bind (index : Nat) : Arg → Call
  | .int value => .bindInt index value
  | .str address => .bindText index address (-1)
  | .blob address length => .bindBlob index address length

/-- The calls that bind the arguments behind the first ones. -/
def binds : Nat → List Arg → List Call
  | _, [] => []
  | i, arg :: args => arg.bind (i + 1) :: binds (i + 1) args

/-- Calls that are made in turn. The statement is dropped at the first one that fails. -/
def attempt (ok : Call → Bool) : List Call → List Call × Bool
  | [] => ([], true)
  | call :: calls =>
    if ok call then (call :: (attempt ok calls).1, (attempt ok calls).2)
    else ([call, .finalize], false)

/-- The text that sqlite reads: up to a NUL, and no more than `nByte` bytes unless that is
negative. -/
def textRead (memory : List UInt8) (nByte : Int) : List UInt8 :=
  (if nByte < 0 then memory else memory.take nByte.toNat).takeWhile (· != 0)

/-- A statement is made from the formats that are meant, and from no other one. Sqlite gets the
rewritten text, and the arguments as they are. -/
structure PreparesFaithfully (fmt : CString) (args : List Arg) : Prop where
  early : ∀ ok words, vprep ok fmt words = .ok ([], false) ↔ ¬ Accepted fmt.bytes
  passes : Accepted fmt.bytes → args.map Arg.type = specifiers fmt.bytes → ∀ ok,
    ∃ memory nByte, textRead memory nByte = rewrite fmt.bytes ∧
      (specifiers fmt.bytes ≠ [] →
        memory = rewrite fmt.bytes ++ [0] ∧ memory.length ≤ 1024) ∧
      vprep ok fmt (args.flatMap Arg.words) = .ok (
        if ok (.prepare memory nByte) then
          (.prepare memory nByte :: (attempt ok (binds 0 args)).1, (attempt ok (binds 0 args)).2)
        else ([.prepare memory nByte], false))

/-- The lengths survive their conversion to `int`. -/
structure LengthsFit (fmt : CString) (args : List Arg) : Prop where
  blobs : ∀ address length, .blob address length ∈ args → length < 2 ^ 31
  format : specifiers fmt.bytes = [] →
    fmt.bytes.length < 2 ^ 31 ∨ 2 ^ 31 ≤ fmt.bytes.length % 2 ^ 32

section Formats

variable {run behind rest buffer params : List UInt8} {t : UInt8}

theorem rewrite_cons {c : UInt8} (plain : c ≠ colon) (rest : List UInt8) :
    rewrite (c :: rest) = c :: rewrite rest := by
  cases rest with
  | nil => rfl
  | cons t rest => rw [rewrite, if_neg fun both => plain both.1]

theorem specifiers_cons {c : UInt8} (plain : c ≠ colon) (rest : List UInt8) :
    specifiers (c :: rest) = specifiers rest := by
  cases rest with
  | nil => rfl
  | cons t rest => rw [specifiers, if_neg fun both => plain both.1]

theorem wellFormed_cons {c : UInt8} (plain : c ≠ colon) (rest : List UInt8) :
    WellFormed (c :: rest) ↔ WellFormed rest := by
  cases rest with
  | nil => exact iff_of_true plain trivial
  | cons t rest => exact and_iff_right fun colon => absurd colon plain

/-- A run of text without a colon is left as it is. -/
theorem rewrite_run (inside : ∀ c ∈ run, c ≠ colon) : rewrite (run ++ behind) = run ++ rewrite behind := by
  induction run with
  | nil => rfl
  | cons c run ih =>
    obtain ⟨plain, others⟩ := List.forall_mem_cons.mp inside
    rw [List.cons_append, rewrite_cons plain, ih others, List.cons_append]

theorem specifiers_run (inside : ∀ c ∈ run, c ≠ colon) :
    specifiers (run ++ behind) = specifiers behind := by
  induction run with
  | nil => rfl
  | cons c run ih =>
    obtain ⟨plain, others⟩ := List.forall_mem_cons.mp inside
    rw [List.cons_append, specifiers_cons plain, ih others]

theorem wellFormed_run (inside : ∀ c ∈ run, c ≠ colon) :
    WellFormed (run ++ behind) ↔ WellFormed behind := by
  induction run with
  | nil => rfl
  | cons c run ih =>
    obtain ⟨plain, others⟩ := List.forall_mem_cons.mp inside
    rw [List.cons_append, wellFormed_cons plain, ih others]

theorem specifier_ne_colon (specifier : IsSpecifier t) : t ≠ colon := by
  rcases specifier with rfl | rfl | rfl
  · decide
  · decide
  · decide

theorem takeWhile_plain (text : List UInt8) : ∀ c ∈ text.takeWhile (· != colon), c ≠ colon := by
  intro c member
  simpa using List.mem_takeWhile_imp member

/-- A specifier, the run behind it and what follows that. -/
theorem split_specifier (rest : List UInt8) :
    rest = rest.takeWhile (· != colon) ++ rest.dropWhile (· != colon) :=
  List.takeWhile_append_dropWhile.symm

theorem rewrite_specifier (specifier : IsSpecifier t) (rest : List UInt8) :
    rewrite (colon :: t :: rest) =
      question :: (rest.takeWhile (· != colon) ++ rewrite (rest.dropWhile (· != colon))) := by
  rw [rewrite, if_pos ⟨rfl, specifier⟩]
  nth_rewrite 1 [split_specifier rest]
  rw [rewrite_run (takeWhile_plain rest)]

theorem specifiers_specifier (specifier : IsSpecifier t) (rest : List UInt8) :
    specifiers (colon :: t :: rest) = t :: specifiers (rest.dropWhile (· != colon)) := by
  rw [specifiers, if_pos ⟨rfl, specifier⟩]
  nth_rewrite 1 [split_specifier rest]
  rw [specifiers_run (takeWhile_plain rest)]

theorem wellFormed_specifier (specifier : IsSpecifier t) (rest : List UInt8) :
    WellFormed (colon :: t :: rest) ↔ WellFormed (rest.dropWhile (· != colon)) := by
  have plain : ∀ c ∈ t :: rest.takeWhile (· != colon), c ≠ colon :=
    List.forall_mem_cons.mpr ⟨specifier_ne_colon specifier, takeWhile_plain rest⟩
  have skipped := @wellFormed_run _ (rest.dropWhile (· != colon)) plain
  rw [List.cons_append, ← split_specifier] at skipped
  rw [WellFormed, ← skipped]
  exact and_iff_right fun _ => specifier

/-- What follows a run is empty or starts at a colon. -/
theorem behind_colon (text : List UInt8) (more : text.dropWhile (· != colon) ≠ []) :
    ∃ rest, text.dropWhile (· != colon) = colon :: rest := by
  have stops := dropWhile_stops (· != colon) text
  cases behind : text.dropWhile (· != colon) with
  | nil => exact absurd behind more
  | cons c rest =>
    rw [behind] at stops
    have same := stops c rfl
    simp only [bne_eq_false_iff_eq] at same
    exact ⟨rest, by rw [same]⟩

theorem put_ok (room : buffer.length + rest.length ≤ bufferSize) :
    put buffer rest = .ok (buffer ++ rest) := if_pos room

/-- The loop copies the rewritten text and collects the specifiers, if all of it is well formed and
fits. -/
theorem expand_spec (rest buffer params : List UInt8) (few : params.length ≤ maxParams)
    (room : buffer.length < bufferSize) :
    expand (colon :: rest) buffer params = .ok (
      if WellFormed (colon :: rest) ∧ params.length + (specifiers (colon :: rest)).length ≤ maxParams ∧
          buffer.length + (rewrite (colon :: rest)).length < bufferSize then
        some (buffer ++ rewrite (colon :: rest), params ++ specifiers (colon :: rest))
      else none) := by
  induction long : rest.length using Nat.strong_induction_on generalizing rest buffer params with
  | _ size ih =>
  unfold expand
  simp only [ne_eq, not_true_eq_false, if_false]
  cases rest with
  | nil => simp [WellFormed]
  | cons t rest =>
    simp only
    by_cases specifier : IsSpecifier t
    · have known : ¬ (¬ t = typeInt ∧ ¬ t = typeStr ∧ ¬ t = typeBlob) := by
        unfold IsSpecifier at specifier
        tauto
      simp only [rewrite_specifier specifier, specifiers_specifier specifier,
        wellFormed_specifier specifier, if_neg known,
        List.length_cons, List.length_append]
      by_cases full : params.length = maxParams
      · rw [if_pos full, if_neg (by omega)]
      rw [if_neg full]
      by_cases cut : buffer.length + 1 ≥ bufferSize
      · rw [if_pos cut, if_neg (by omega)]
      have first : put buffer [question] = .ok (buffer ++ [question]) := put_ok (by simp; omega)
      rw [if_neg cut, first]
      simp only [bind, Except.bind, List.length_append, List.length_singleton]
      by_cases overflows : buffer.length + 1 + (rest.takeWhile (· != colon)).length ≥ bufferSize
      · rw [if_pos overflows, if_neg (by omega)]
      have second : put (buffer ++ [question]) (rest.takeWhile (· != colon)) =
          .ok (buffer ++ [question] ++ rest.takeWhile (· != colon)) := put_ok (by simp; omega)
      rw [if_neg overflows, second]
      simp only
      by_cases last : rest.dropWhile (· != colon) = []
      · rw [if_pos last, last, if_pos]
        · simp [rewrite, specifiers]
        · refine ⟨trivial, ?_, ?_⟩
          · simp only [specifiers, List.length_nil]
            omega
          · simp only [rewrite, List.length_nil]
            omega
      · rw [if_neg last]
        obtain ⟨more, behind⟩ := behind_colon rest last
        have shorter := (List.dropWhile_sublist (l := rest) (p := (· != colon))).length_le
        rw [behind, List.length_cons] at shorter
        rw [List.length_cons] at long
        rw [behind]
        rw [ih more.length (by omega) more _ _ (by simp; omega) (by simp; omega) rfl]
        simp only [List.length_append, List.length_singleton, List.append_assoc, List.cons_append,
          List.nil_append, Nat.add_assoc, Nat.add_comm 1]
        refine congrArg Except.ok (if_congr ?_ rfl rfl)
        refine and_congr_right fun _ => and_congr_right fun _ => ?_
        rw [List.length_cons]
        omega
    · have unknown : ¬ t = typeInt ∧ ¬ t = typeStr ∧ ¬ t = typeBlob := by
        unfold IsSpecifier at specifier
        tauto
      rw [if_pos unknown, if_neg]
      rintro ⟨formed, -⟩
      exact specifier (formed.1 rfl)

/-- A well formed text with a colon has a specifier. -/
theorem specifiers_colon (formed : WellFormed (colon :: rest)) : specifiers (colon :: rest) ≠ [] := by
  cases rest with
  | nil => exact absurd rfl formed
  | cons t rest =>
    rw [specifiers_specifier (formed.1 rfl)]
    nofun

/-- A text without a colon is passed as it is. -/
theorem statement_plain (fmt : CString) (plain : ∀ c ∈ fmt.bytes, c ≠ colon) :
    statement fmt = .ok (some ⟨fmt.bytes ++ [0], fmt.bytes.length, []⟩) ∧ WellFormed fmt.bytes ∧
      specifiers fmt.bytes = [] ∧ rewrite fmt.bytes = fmt.bytes := by
  have none : fmt.bytes.dropWhile (· != colon) = [] := by simpa using plain
  have formed := @wellFormed_run _ [] plain
  have types := @specifiers_run _ [] plain
  have text := @rewrite_run _ [] plain
  rw [List.append_nil] at formed types text
  refine ⟨?_, formed.mpr trivial, types, ?_⟩
  · unfold statement
    rw [if_pos none]
  · rw [text]
    exact List.append_nil _

/-- What is made of a format. -/
theorem statement_spec (fmt : CString) : statement fmt = .ok (
    if Accepted fmt.bytes then
      some ⟨rewrite fmt.bytes ++ [0], (rewrite fmt.bytes).length, specifiers fmt.bytes⟩
    else none) := by
  by_cases none : fmt.bytes.dropWhile (· != colon) = []
  · obtain ⟨made, formed, types, text⟩ := statement_plain fmt (by simpa using none)
    have accepted : Accepted fmt.bytes := by
      refine ⟨formed, ?_, fun some => absurd types some⟩
      rw [types]
      exact Nat.zero_le _
    rw [made, if_pos accepted, types, text]
  obtain ⟨rest, behind⟩ := behind_colon fmt.bytes none
  have plain := takeWhile_plain fmt.bytes
  have split := split_specifier fmt.bytes
  have text := @rewrite_run _ (colon :: rest) plain
  have types := @specifiers_run _ (colon :: rest) plain
  have formed := @wellFormed_run _ (colon :: rest) plain
  rw [← behind, ← split, behind] at text types formed
  have length : (rewrite fmt.bytes).length =
      (fmt.bytes.takeWhile (· != colon)).length + (rewrite (colon :: rest)).length := by
    rw [text, List.length_append]
  have accepted : Accepted fmt.bytes ↔ WellFormed (colon :: rest) ∧
      ([] : List UInt8).length + (specifiers (colon :: rest)).length ≤ maxParams ∧
      (fmt.bytes.takeWhile (· != colon)).length + (rewrite (colon :: rest)).length < bufferSize := by
    rw [Accepted, formed, types, length]
    refine and_congr_right fun formed => ?_
    have some := specifiers_colon formed
    simp only [ne_eq, some, not_false_eq_true, true_implies, List.length_nil, Nat.zero_add,
      maxParams, bufferSize]
    omega
  unfold statement
  rw [if_neg none, behind]
  by_cases long : (fmt.bytes.takeWhile (· != colon)).length ≥ bufferSize
  · rw [if_pos long, if_neg]
    intro fits
    have room := (accepted.mp fits).2.2
    omega
  have first : put [] (fmt.bytes.takeWhile (· != colon)) = .ok (fmt.bytes.takeWhile (· != colon)) :=
    put_ok (by simp only [List.length_nil]; omega)
  rw [if_neg long, first]
  simp only [bind, Except.bind]
  rw [expand_spec rest _ [] (Nat.zero_le _) (Nat.not_le.mp long)]
  by_cases fits : Accepted fmt.bytes
  · have room := (accepted.mp fits).2.2
    rw [← length] at room
    have last : put (rewrite fmt.bytes) [0] = .ok (rewrite fmt.bytes ++ [0]) :=
      put_ok (by rw [List.length_singleton]; omega)
    rw [if_pos fits, if_pos (accepted.mp fits), List.nil_append, ← text, ← types]
    simp only [if_pos room, last]
  · rw [if_neg fits, if_neg (mt accepted.mpr fits)]

end Formats

/-! ## Binding -/

/-- The call that is made for an argument. -/
def Arg.bound (index : Nat) : Arg → Call
  | .int value => .bindInt index value
  | .str address => .bindText index address (-1)
  | .blob address length => .bindBlob index address (int32 length)

/-- The calls that are made for the arguments behind the first ones. -/
def bounds : Nat → List Arg → List Call
  | _, [] => []
  | i, arg :: args => arg.bound (i + 1) :: bounds (i + 1) args

section Binding

variable {ok : Call → Bool} {fmt : CString}

theorem bindCall_arg (arg : Arg) (index : Nat) (args : List Word) :
    bindCall arg.type index (arg.words ++ args) = .ok (arg.bound index, args) := by
  cases arg with
  | int value => rfl
  | str address => rfl
  | blob address length => rfl

/-- Arguments of the right types are taken one by one. -/
theorem bindParams_spec (args : List Arg) (i : Nat) :
    bindParams ok (args.map Arg.type) i (args.flatMap Arg.words) =
      .ok (attempt ok (bounds i args)) := by
  induction args generalizing i with
  | nil => rfl
  | cons arg args ih =>
    rw [List.map_cons, List.flatMap_cons, bindParams, bindCall_arg]
    simp only [bind, Except.bind, ih]
    rw [bounds, attempt]
    by_cases succeeds : ok (arg.bound (i + 1)) = true
    · rw [if_pos succeeds, if_pos succeeds]
    · rw [if_neg succeeds, if_neg succeeds]

theorem vprep_rejected (rejected : ¬ Accepted fmt.bytes) (words : List Word) :
    vprep ok fmt words = .ok ([], false) := by
  unfold vprep
  rw [statement_spec, if_neg rejected]
  rfl

theorem vprep_accepted (accepted : Accepted fmt.bytes) {args : List Arg}
    (types : args.map Arg.type = specifiers fmt.bytes) :
    vprep ok fmt (args.flatMap Arg.words) = .ok (
      if ok (.prepare (rewrite fmt.bytes ++ [0]) (int32 (rewrite fmt.bytes).length)) then
        (.prepare (rewrite fmt.bytes ++ [0]) (int32 (rewrite fmt.bytes).length) ::
          (attempt ok (bounds 0 args)).1, (attempt ok (bounds 0 args)).2)
      else ([.prepare (rewrite fmt.bytes ++ [0]) (int32 (rewrite fmt.bytes).length)], false)) := by
  unfold vprep
  rw [statement_spec, if_pos accepted]
  simp only [bind, Except.bind, ← types, bindParams_spec]
  split
  · rfl
  · rfl

/-- `NULL` is returned before sqlite is called for what is rejected, and only for that. -/
theorem vprep_early (words : List Word) :
    vprep ok fmt words = .ok ([], false) ↔ ¬ Accepted fmt.bytes := by
  refine ⟨fun early accepted => ?_, fun rejected => vprep_rejected rejected words⟩
  unfold vprep at early
  rw [statement_spec, if_pos accepted] at early
  simp only [bind, Except.bind] at early
  split at early
  · split at early
    · cases early
    · cases early
  · cases early

theorem attempt_all (calls : List Call) : attempt (fun _ => true) calls = (calls, true) := by
  induction calls with
  | nil => rfl
  | cons call calls ih => rw [attempt, if_pos rfl, ih]

/-- A blob is bound with its length as an `int`. -/
theorem bounds_eq_iff (args : List Arg) (i : Nat) :
    bounds i args = binds i args ↔
      ∀ address length, .blob address length ∈ args → length < 2 ^ 31 := by
  induction args generalizing i with
  | nil => simp [bounds, binds]
  | cons arg args ih =>
    rw [bounds, binds, List.cons.injEq, ih]
    cases arg with
    | int value => simp [Arg.bound, Arg.bind]
    | str address => simp [Arg.bound, Arg.bind]
    | blob address length =>
      simp only [Arg.bound, Arg.bind, Call.bindBlob.injEq, true_and, int32_natCast_iff,
        List.mem_cons, Arg.blob.injEq]
      constructor
      · rintro ⟨first, others⟩ a n (⟨-, rfl⟩ | member)
        · exact first
        · exact others a n member
      · exact fun all => ⟨all _ _ (.inl ⟨rfl, rfl⟩), fun a n member => all a n (.inr member)⟩

/-- What sqlite reads of a terminated text. -/
theorem textRead_eq {text : List UInt8} (plain : ∀ c ∈ text, c ≠ 0) (nByte : Int) :
    textRead (text ++ [0]) nByte = if nByte < 0 then text else text.take nByte.toNat := by
  have stops : ∀ {run tail : List UInt8}, (∀ c ∈ run, c ≠ 0) → (∀ c ∈ tail.head?, c = 0) →
      (run ++ tail).takeWhile (· != 0) = run := by
    intro run tail inside ends
    refine takeWhile_run (fun c member => ?_) fun c first => ?_
    · simpa using inside c member
    · simpa using ends c first
  unfold textRead
  split
  · exact stops plain (by simp)
  · rw [List.take_append]
    refine stops (fun c member => plain c (List.mem_of_mem_take member)) fun c first => ?_
    have member := List.mem_of_mem_take (List.mem_of_mem_head? first)
    exact List.mem_singleton.mp member

/-- Sqlite reads all of a text whose length is negative or the right one as an `int`. -/
theorem textRead_all_iff {text : List UInt8} (plain : ∀ c ∈ text, c ≠ 0) :
    textRead (text ++ [0]) (int32 text.length) = text ↔
      text.length < 2 ^ 31 ∨ 2 ^ 31 ≤ text.length % 2 ^ 32 := by
  rw [textRead_eq plain]
  have value : int32 text.length = if text.length % 2 ^ 32 < 2 ^ 31 then
      ((text.length % 2 ^ 32 : Nat) : Int) else ((text.length % 2 ^ 32 : Nat) : Int) - 2 ^ 32 := by
    unfold int32
    rw [Int.bmod_def]
    split <;> split <;> omega
  by_cases low : text.length % 2 ^ 32 < 2 ^ 31
  · rw [value, if_pos low, if_neg (by omega), Int.toNat_natCast, List.take_eq_self_iff]
    omega
  · rw [value, if_neg low, if_pos (by omega)]
    exact ⟨fun _ => .inr (Nat.not_lt.mp low), fun _ => rfl⟩

/-- A text without a specifier is left as it is. -/
theorem rewrite_none {text : List UInt8} (none : specifiers text = []) : rewrite text = text := by
  induction text using rewrite.induct with
  | case1 => rfl
  | case2 c => rfl
  | case3 c t rest both ih =>
    rw [specifiers, if_pos both] at none
    cases none
  | case4 c t rest other ih =>
    rw [specifiers, if_neg other] at none
    rw [rewrite, if_neg other, ih none]

/-- The rewritten text has no NUL either. -/
theorem rewrite_noNul {text : List UInt8} (plain : ∀ c ∈ text, c ≠ 0) : ∀ c ∈ rewrite text, c ≠ 0 := by
  induction text using rewrite.induct with
  | case1 => exact plain
  | case2 c => exact plain
  | case3 c t rest both ih =>
    rw [rewrite, if_pos both]
    obtain ⟨-, -, others⟩ := (List.forall_mem_cons.mp plain).imp_right List.forall_mem_cons.mp
    exact List.forall_mem_cons.mpr ⟨by decide, ih others⟩
  | case4 c t rest other ih =>
    rw [rewrite, if_neg other]
    obtain ⟨first, others⟩ := List.forall_mem_cons.mp plain
    exact List.forall_mem_cons.mpr ⟨first, ih others⟩

end Binding

/-- For every format and its arguments, `vprep` refuses what it should and passes to sqlite the
rewritten text and the arguments, if and only if all lengths that it passes survive their
conversion to `int`. -/
theorem prepares_faithfully_iff_lengths_fit (fmt : CString) (args : List Arg) :
    PreparesFaithfully fmt args ↔
      (Accepted fmt.bytes → args.map Arg.type = specifiers fmt.bytes → LengthsFit fmt args) := by
  have plain := rewrite_noNul fmt.noNul
  constructor
  · intro faithful accepted types
    obtain ⟨memory, nByte, text, -, same⟩ := faithful.passes accepted types fun _ => true
    rw [vprep_accepted accepted types, if_pos rfl, if_pos rfl, attempt_all, attempt_all] at same
    obtain ⟨prepared, bound⟩ := List.cons.inj (Prod.mk.inj (Except.ok.inj same)).1
    cases prepared
    refine ⟨(bounds_eq_iff args 0).mp bound, fun none => ?_⟩
    rw [← rewrite_none none]
    exact (textRead_all_iff plain).mp text
  · intro fit
    refine ⟨fun ok words => vprep_early words, fun accepted types ok => ?_⟩
    obtain ⟨blobs, format⟩ := fit accepted types
    refine ⟨_, _, (textRead_all_iff plain).mpr ?_, fun some => ⟨rfl, ?_⟩, ?_⟩
    · by_cases some : specifiers fmt.bytes = []
      · rw [rewrite_none some]
        exact format some
      · exact .inl (Nat.lt_of_le_of_lt (accepted.2.2 some) (by decide))
    · rw [List.length_append, List.length_singleton]
      exact Nat.succ_le_succ (accepted.2.2 some)
    · rw [vprep_accepted accepted types, (bounds_eq_iff args 0).mpr blobs]

/-- Of a blob of `2 ^ 32 + 1` bytes, one byte is bound. -/
theorem long_blob_is_cut : ∃ fmt : CString, fmt.bytes = [colon, typeBlob] ∧
    vprep (fun _ => true) fmt [.pointer 64, .size (2 ^ 32 + 1)] =
      .ok ([.prepare [question, 0] 1, .bindBlob 1 64 1], true) ∧
    ¬ PreparesFaithfully fmt [.blob 64 (2 ^ 32 + 1)] := by
  let fmt : CString := ⟨[colon, typeBlob],
    List.forall_mem_cons.mpr ⟨by decide, List.forall_mem_singleton.mpr (by decide)⟩⟩
  have accepted : Accepted fmt.bytes := by decide
  have types : [Arg.blob 64 (2 ^ 32 + 1)].map Arg.type = specifiers fmt.bytes := by decide
  have cut : int32 ((2 ^ 32 + 1 : Nat) : Int) = 1 := by decide
  have ran : vprep (fun _ => true) fmt [.pointer 64, .size (2 ^ 32 + 1)] =
      .ok ([.prepare [question, 0] 1, .bindBlob 1 64 1], true) := by
    refine (@vprep_accepted (fun _ => true) fmt accepted _ types).trans ?_
    have text : rewrite fmt.bytes = [question] := by decide
    have one : int32 (([question].length : Nat) : Int) = 1 := by decide
    rw [if_pos rfl, attempt_all, bounds, bounds, Arg.bound, cut, text, one]
    rfl
  refine ⟨fmt, rfl, ran, fun faithful => ?_⟩
  obtain ⟨memory, nByte, -, -, same⟩ := faithful.passes accepted types fun _ => true
  rw [if_pos rfl, attempt_all, binds, binds, Arg.bind] at same
  have calls := (Prod.mk.inj (Except.ok.inj (ran.symm.trans same))).1
  cases (Call.bindBlob.inj (List.cons.inj (List.cons.inj calls).2).1).2.2

end Mysnips.Sqlite

import Mysnips.QueryStringRoundTrip
import Mathlib.Data.List.TakeWhile

/-! The two readers of encoded text. One decodes a name or a value into the caller's buffer, the
other passes over it, and both are to stop at the same byte. What they read is described by
positions: the text ends at a separator or at a byte that is not printable, and every `%` in it
has two hex digits behind it. -/
namespace Mysnips.QueryString
open Memory TextRuns

/-- A character that does not end a name or a value. -/
def inText (c : UInt8) : Bool := c != '='.toUInt8 && c != '&'.toUInt8 && isPrint c

/-- The bytes up to the first `=`, `&`, unprintable byte or the end. -/
def text (rest : List UInt8) : List UInt8 := rest.takeWhile inText

def isHex (c : UInt8) : Bool := (digitValue c).isSome

/-- Every `%` of the text is followed by two hex digits. -/
def Escaped (rest : List UInt8) : Prop :=
  ∀ k < (text rest).length, rest[k]? = some '%'.toUInt8 →
    rest[k + 1]?.any isHex = true ∧ rest[k + 2]?.any isHex = true

instance (rest : List UInt8) : Decidable (Escaped rest) := by
  unfold Escaped
  infer_instance

/-- The text holds something that stands for another byte. -/
def NeedsDecoding (rest : List UInt8) : Prop :=
  '%'.toUInt8 ∈ text rest ∨ '+'.toUInt8 ∈ text rest

/-- How many bytes a text encodes: the two digits behind a `%` do not count. -/
def decodedLength (rest : List UInt8) : Nat :=
  (text rest).length - 2 * (text rest).count '%'.toUInt8

/-! ## Texts, byte by byte -/

theorem hexToNum_isSome (c : UInt8) : (hexToNum c).isSome = isHex c := by
  simp only [hexToNum, isHex, digitValue]
  repeat' split <;> simp_all

theorem hex_facts {c : UInt8} (hex : isHex c = true) :
    inText c = true ∧ c ≠ '%'.toUInt8 ∧ c ≠ '+'.toUInt8 := by
  obtain ⟨v, known⟩ := Option.isSome_iff_exists.mp hex
  have range := digitValue_cases known
  have differs : ∀ d : UInt8, d.toNat < 48 ∨ d.toNat = 61 → c ≠ d := by
    rintro d other rfl
    omega
  have printable : isPrint c = true := by
    simp only [isPrint, Bool.and_eq_true, decide_eq_true_eq, UInt8.le_iff_toNat_le,
      UInt8.lt_iff_toNat_lt]
    have ends : (32 : UInt8).toNat = 32 ∧ (127 : UInt8).toNat = 127 := ⟨rfl, rfl⟩
    omega
  have equals := differs '='.toUInt8 (.inr rfl)
  have ampersand := differs '&'.toUInt8 (.inl (by decide))
  refine ⟨?_, differs _ (.inl (by decide)), differs _ (.inl (by decide))⟩
  simp only [inText, printable, bne_iff_ne.mpr equals, bne_iff_ne.mpr ampersand, Bool.and_self]

theorem text_cons {c : UInt8} (inside : inText c = true) (rest : List UInt8) :
    text (c :: rest) = c :: text rest :=
  List.takeWhile_cons_of_pos inside

theorem text_stop {c : UInt8} (outside : inText c = false) (rest : List UInt8) :
    text (c :: rest) = [] :=
  List.takeWhile_cons_of_neg (Bool.not_eq_true _ ▸ outside)

theorem Escaped.stop {rest : List UInt8} (empty : text rest = []) : Escaped rest := by
  intro k bound
  rw [empty] at bound
  exact absurd bound (Nat.not_lt_zero k)

/-- A byte in front of a text adds one position. -/
theorem escaped_cons {c : UInt8} (inside : inText c = true) (rest : List UInt8) :
    Escaped (c :: rest) ↔
      (c = '%'.toUInt8 → rest[0]?.any isHex = true ∧ rest[1]?.any isHex = true) ∧ Escaped rest := by
  unfold Escaped
  rw [text_cons inside, List.length_cons]
  constructor
  · intro all
    refine ⟨fun percent => all 0 (by omega) (by rw [percent]; rfl), fun k bound here => ?_⟩
    exact all (k + 1) (by omega) here
  · rintro ⟨first, all⟩ k bound here
    cases k with
    | zero => exact first (by simpa using here)
    | succ k => exact all k (by omega) here

/-- Behind a `%` the two digits are part of the text. -/
theorem escaped_percent (rest : List UInt8) :
    Escaped ('%'.toUInt8 :: rest) ↔
      ∃ x y tail, rest = x :: y :: tail ∧ isHex x = true ∧ isHex y = true ∧ Escaped tail := by
  rw [escaped_cons rfl]
  constructor
  · rintro ⟨digits, escaped⟩
    obtain ⟨first, second⟩ := digits rfl
    match rest, first, second, escaped with
    | x :: y :: tail, first, second, escaped =>
      have first : isHex x = true := first
      have second : isHex y = true := second
      refine ⟨x, y, tail, rfl, first, second, ?_⟩
      have behind := ((escaped_cons (hex_facts first).1 _).mp escaped).2
      exact ((escaped_cons (hex_facts second).1 _).mp behind).2
  · rintro ⟨x, y, tail, rfl, first, second, escaped⟩
    refine ⟨fun _ => ⟨first, second⟩, ?_⟩
    rw [escaped_cons (hex_facts first).1, escaped_cons (hex_facts second).1]
    exact ⟨fun percent => absurd percent (hex_facts first).2.1,
      fun percent => absurd percent (hex_facts second).2.1, escaped⟩

theorem text_percent {x y : UInt8} (first : isHex x = true) (second : isHex y = true)
    (tail : List UInt8) :
    text ('%'.toUInt8 :: x :: y :: tail) = '%'.toUInt8 :: x :: y :: text tail := by
  rw [text_cons rfl, text_cons (hex_facts first).1, text_cons (hex_facts second).1]

/-- There is room for the digits of every `%`. -/
theorem Escaped.count_le (rest : List UInt8) (escaped : Escaped rest) :
    2 * (text rest).count '%'.toUInt8 ≤ (text rest).length := by
  induction size : rest.length using Nat.strong_induction_on generalizing rest with
  | _ n ih =>
    cases rest with
    | nil => exact Nat.zero_le _
    | cons c rest =>
      by_cases inside : inText c = true
      · by_cases percent : c = '%'.toUInt8
        · subst percent
          obtain ⟨x, y, tail, rfl, first, second, escaped⟩ := (escaped_percent rest).mp escaped
          have bound := ih tail.length (by rw [← size]; simp only [List.length_cons]; omega) tail
            escaped rfl
          rw [text_percent first second, List.count_cons_self,
            List.count_cons_of_ne (hex_facts first).2.1, List.count_cons_of_ne (hex_facts second).2.1]
          simp only [List.length_cons]
          omega
        · have bound := ih rest.length (by rw [← size, List.length_cons]; omega) rest
            ((escaped_cons inside rest).mp escaped).2 rfl
          rw [text_cons inside, List.count_cons_of_ne percent, List.length_cons]
          omega
      · rw [text_stop (Bool.not_eq_true _ ▸ inside)]
        exact Nat.zero_le _

theorem decodedLength_percent {x y : UInt8} (first : isHex x = true) (second : isHex y = true)
    {tail : List UInt8} (escaped : Escaped tail) :
    decodedLength ('%'.toUInt8 :: x :: y :: tail) = decodedLength tail + 1 := by
  have bound := escaped.count_le
  unfold decodedLength
  rw [text_percent first second, List.count_cons_self,
    List.count_cons_of_ne (hex_facts first).2.1, List.count_cons_of_ne (hex_facts second).2.1]
  simp only [List.length_cons]
  omega

theorem decodedLength_cons {c : UInt8} (inside : inText c = true) (other : c ≠ '%'.toUInt8)
    {rest : List UInt8} (escaped : Escaped rest) :
    decodedLength (c :: rest) = decodedLength rest + 1 := by
  have bound := escaped.count_le
  unfold decodedLength
  rw [text_cons inside, List.count_cons_of_ne other, List.length_cons]
  omega

/-! ## Runs of plain characters -/

theorem isPlain_iff (c : UInt8) :
    isPlain c = true ↔ inText c = true ∧ c ≠ '%'.toUInt8 ∧ c ≠ '+'.toUInt8 := by
  simp only [isPlain, inText, Bool.and_eq_true, bne_iff_ne]
  tauto

theorem text_run {run : List UInt8} (plain : ∀ c ∈ run, isPlain c = true) (tail : List UInt8) :
    text (run ++ tail) = run ++ text tail :=
  List.takeWhile_append_of_pos fun c member => ((isPlain_iff c).mp (plain c member)).1

theorem escaped_run {run : List UInt8} (plain : ∀ c ∈ run, isPlain c = true) (tail : List UInt8) :
    Escaped (run ++ tail) ↔ Escaped tail := by
  induction run with
  | nil => rfl
  | cons c run ih =>
    obtain ⟨first, plain⟩ := List.forall_mem_cons.mp plain
    obtain ⟨inside, percent, -⟩ := (isPlain_iff c).mp first
    rw [List.cons_append, escaped_cons inside, ih plain]
    exact and_iff_right fun wrong => absurd wrong percent

theorem decodedLength_run {run : List UInt8} (plain : ∀ c ∈ run, isPlain c = true)
    {tail : List UInt8} (escaped : Escaped tail) :
    decodedLength (run ++ tail) = run.length + decodedLength tail := by
  induction run with
  | nil => exact (Nat.zero_add _).symm
  | cons c run ih =>
    obtain ⟨first, plain⟩ := List.forall_mem_cons.mp plain
    obtain ⟨inside, percent, -⟩ := (isPlain_iff c).mp first
    rw [List.cons_append, decodedLength_cons inside percent ((escaped_run plain tail).mpr escaped),
      ih plain, List.length_cons]
    omega

/-- Where skipping stops: behind the leading run. -/
theorem skipPlain_spec (src : List UInt8) (cur : Nat) :
    ∃ run, (∀ c ∈ run, isPlain c = true) ∧ skipPlain src cur = cur + run.length ∧
      src.drop cur = run ++ src.drop (skipPlain src cur) ∧
      run = (src.drop cur).takeWhile isPlain ∧
      ∀ c ∈ (src.drop (skipPlain src cur)).head?, isPlain c = false := by
  have behind : src.drop (skipPlain src cur) = (src.drop cur).dropWhile isPlain :=
    drop_skipped isPlain src cur
  refine ⟨_, fun c member => List.mem_takeWhile_imp member, rfl, ?_, rfl, ?_⟩
  · rw [behind, List.takeWhile_append_dropWhile]
  · rw [behind]
    exact dropWhile_stops isPlain _

/-! ## The loops -/

variable {src : List UInt8} {cur : Nat}

theorem atEncoded_head : atEncoded src cur = true ↔
    (src.drop cur).head? = some '+'.toUInt8 ∨ (src.drop cur).head? = some '%'.toUInt8 := by
  rw [List.head?_drop]
  simp [atEncoded]

/-- Where the loops stop, the text has ended. -/
theorem text_ended (stopped : ∀ c ∈ (src.drop cur).head?, isPlain c = false)
    (here : ¬ atEncoded src cur = true) : text (src.drop cur) = [] := by
  rw [atEncoded_head] at here
  cases rest : src.drop cur with
  | nil => rfl
  | cons c tail =>
    rw [rest] at stopped here
    apply text_stop
    by_contra inside
    have plain := (isPlain_iff c).mpr
      ⟨(Bool.not_eq_false _).mp inside, fun wrong => here (.inr (by rw [wrong]; rfl)),
        fun wrong => here (.inl (by rw [wrong]; rfl))⟩
    rw [stopped c rfl] at plain
    cases plain

theorem percentByte_isSome (src : List UInt8) (cur : Nat) :
    (percentByte src cur).isSome = true ↔
      src[cur + 1]?.any isHex = true ∧ src[cur + 2]?.any isHex = true := by
  unfold percentByte
  cases first : src[cur + 1]? with
  | none => simp
  | some x =>
    cases second : src[cur + 2]? with
    | none => cases hexToNum x <;> simp
    | some y =>
      simp only [Option.any_some, ← hexToNum_isSome]
      cases high : hexToNum x <;> cases low : hexToNum y <;> simp [high, low]

/-- One encoded byte: the escape is broken, or the rest of the text decides. -/
theorem encodedByte_spec (here : atEncoded src cur = true) :
    (encodedByte src cur = none ∧ ¬ Escaped (src.drop cur)) ∨
      ∃ byte used, encodedByte src cur = some (byte, cur + used) ∧ 0 < used ∧
        cur + used ≤ src.length ∧
        (text (src.drop cur)).length = used + (text (src.drop (cur + used))).length ∧
        (Escaped (src.drop cur) ↔ Escaped (src.drop (cur + used))) ∧
        (Escaped (src.drop (cur + used)) →
          decodedLength (src.drop cur) = 1 + decodedLength (src.drop (cur + used))) := by
  have inside : cur < src.length := by
    by_contra outside
    rw [atEncoded_head, List.drop_of_length_le (Nat.not_lt.mp outside)] at here
    simp at here
  have cell : src[cur]? = (src.drop cur).head? := List.head?_drop.symm
  by_cases plus : src[cur]? = some '+'.toUInt8
  · right
    have rest : src.drop cur = '+'.toUInt8 :: src.drop (cur + 1) := drop_at plus
    refine ⟨' '.toUInt8, 1, by rw [encodedByte, if_pos plus], Nat.one_pos, inside, ?_, ?_, ?_⟩
    · rw [rest, text_cons rfl, List.length_cons, Nat.add_comm]
    · rw [rest, escaped_cons rfl]
      exact and_iff_right fun wrong => absurd wrong (by decide)
    · intro escaped
      rw [rest, decodedLength_cons rfl (by decide) escaped, Nat.add_comm]
  · have percent : src[cur]? = some '%'.toUInt8 := by
      rw [cell]
      exact (atEncoded_head.mp here).resolve_left (by rw [← cell]; exact plus)
    have rest : src.drop cur = '%'.toUInt8 :: src.drop (cur + 1) := drop_at percent
    have digits := percentByte_isSome src cur
    rw [encodedByte, if_neg plus, rest]
    cases byte : percentByte src cur with
    | none =>
      left
      refine ⟨rfl, fun escaped => ?_⟩
      obtain ⟨both, -⟩ := (escaped_cons rfl _).mp escaped
      have both := both rfl
      rw [List.getElem?_drop, List.getElem?_drop] at both
      rw [byte] at digits
      exact Bool.false_ne_true (digits.mpr both)
    | some b =>
      right
      obtain ⟨first, second⟩ := digits.mp (by rw [byte]; rfl)
      obtain ⟨x, found, hexX⟩ := (Option.any_eq_true _ _).mp first
      obtain ⟨y, found', hexY⟩ := (Option.any_eq_true _ _).mp second
      have tail : src.drop (cur + 1) = x :: y :: src.drop (cur + 3) := by
        rw [drop_at found, drop_at found']
      have bound := (List.getElem?_eq_some_iff.mp found').1
      refine ⟨b, 3, rfl, by omega, by omega, ?_, ?_, ?_⟩
      · rw [tail, text_percent hexX hexY]
        simp only [List.length_cons]
        omega
      · rw [tail, escaped_percent]
        constructor
        · rintro ⟨x', y', tail', same, -, -, escaped⟩
          cases same
          exact escaped
        · exact fun escaped => ⟨x, y, _, rfl, hexX, hexY, escaped⟩
      · intro escaped
        rw [tail, decodedLength_percent hexX hexY escaped, Nat.add_comm]

/-- One round of either loop: an encoded byte and the run of plain characters behind it. -/
theorem round_spec (here : atEncoded src cur = true) :
    (encodedByte src cur = none ∧ ¬ Escaped (src.drop cur)) ∨
      ∃ byte start run, encodedByte src cur = some (byte, start) ∧ cur < start ∧
        start ≤ src.length ∧ skipPlain src start = start + run.length ∧
        (src.drop start).take run.length = run ∧
        (∀ c ∈ (src.drop (skipPlain src start)).head?, isPlain c = false) ∧
        cur + (text (src.drop cur)).length =
          skipPlain src start + (text (src.drop (skipPlain src start))).length ∧
        (Escaped (src.drop cur) ↔ Escaped (src.drop (skipPlain src start))) ∧
        (Escaped (src.drop cur) → decodedLength (src.drop cur) =
          1 + run.length + decodedLength (src.drop (skipPlain src start))) := by
  rcases encodedByte_spec here with broken | ⟨byte, used, one, pos, inside, length, escaped, decoded⟩
  · exact .inl broken
  · right
    obtain ⟨run, plain, skipped, behind, -, stops⟩ := skipPlain_spec src (cur + used)
    have same : Escaped (src.drop (cur + used)) ↔
        Escaped (src.drop (skipPlain src (cur + used))) := by
      rw [behind]
      exact escaped_run plain _
    refine ⟨byte, cur + used, run, one, by omega, inside, skipped, ?_, stops, ?_,
      escaped.trans same, ?_⟩
    · rw [behind, List.take_left]
    · rw [length, behind, text_run plain, List.length_append, skipped]
      omega
    · intro fine
      have fine := escaped.mp fine
      rw [decoded fine, behind, decodedLength_run plain (same.mp fine)]
      omega

/-- The loop that passes over a text finds its end, or a broken escape. -/
theorem skipEncoded_spec (fuel : Nat) (enough : src.length - cur < fuel)
    (stopped : ∀ c ∈ (src.drop cur).head?, isPlain c = false) :
    skipEncoded src fuel cur = some
      (if Escaped (src.drop cur) then some (cur + (text (src.drop cur)).length) else none) := by
  induction fuel generalizing cur with
  | zero => omega
  | succ fuel ih =>
    rw [skipEncoded]
    by_cases here : atEncoded src cur = true
    · rw [if_pos here]
      rcases round_spec here with ⟨none, broken⟩ |
        ⟨byte, start, run, one, onward, inside, skipped, -, stops, length, escaped, -⟩
      · rw [none, if_neg broken]
      · rw [one]
        simp only
        rw [ih (by omega) stops]
        simp only [escaped, length]
    · have ended := text_ended stopped here
      rw [if_neg here, if_pos (Escaped.stop ended), ended]
      rfl

/-- The loop that decodes: it stays inside the buffer and gives up where an escape is broken or
the decoded bytes do not fit. -/
theorem decodeRuns_spec {max copied : Nat} {dst : List UInt8} (fuel : Nat)
    (enough : src.length - cur < fuel) (here : atEncoded src cur = true) (room : copied ≤ max)
    (size : dst.length = max) :
    ∃ dst', dst'.length = max ∧ decodeRuns src max fuel cur copied dst = some (dst',
      if Escaped (src.drop cur) ∧ copied + decodedLength (src.drop cur) ≤ max then
        some (cur + (text (src.drop cur)).length, copied + decodedLength (src.drop cur))
      else none) := by
  induction fuel generalizing cur copied dst with
  | zero => omega
  | succ fuel ih =>
    rw [decodeRuns]
    rcases round_spec here with ⟨none, broken⟩ |
      ⟨byte, start, run, one, onward, inside, skipped, bytes, stops, length, escaped, decoded⟩
    · refine ⟨dst, size, ?_⟩
      rw [none, if_neg fun both => broken both.1]
    · rw [one]
      simp only
      by_cases full : copied = max
      · refine ⟨dst, size, ?_⟩
        rw [if_pos full, if_neg]
        rintro ⟨fine, fits⟩
        have total := decoded fine
        omega
      obtain ⟨dst₁, stored⟩ : ∃ dst₁, store dst copied [byte] = some dst₁ :=
        ⟨_, store_eq (by simp only [List.length_singleton]; omega)⟩
      have length₁ := store_length stored
      rw [if_neg full, stored, Option.bind_eq_bind, Option.bind_some]
      by_cases long : copied + 1 + skipPlain src start - start > max
      · refine ⟨dst₁, by omega, ?_⟩
        rw [if_pos long, if_neg]
        rintro ⟨fine, fits⟩
        have total := decoded fine
        omega
      have lengthRun : skipPlain src start - start = run.length := by omega
      obtain ⟨dst₂, stored₂⟩ : ∃ dst₂, store dst₁ (copied + 1) run = some dst₂ :=
        ⟨_, store_eq (by omega)⟩
      have length₂ := store_length stored₂
      rw [if_neg long, lengthRun, bytes, stored₂, Option.bind_some]
      by_cases more : atEncoded src (skipPlain src start) = true
      · have room' : copied + 1 + run.length ≤ max := by omega
        obtain ⟨dst', size', done⟩ := ih (by omega) more room'
          (length₂.trans (length₁.trans size))
        refine ⟨dst', size', ?_⟩
        rw [if_pos more, done]
        by_cases fine : Escaped (src.drop cur)
        · rw [decoded fine, length]
          simp only [escaped.mp fine, fine, true_and, Nat.add_assoc]
        · simp only [fine, escaped.not.mp fine, false_and, if_false]
      · have ended := text_ended stops more
        have fine := escaped.mpr (Escaped.stop ended)
        have none : decodedLength (src.drop (skipPlain src start)) = 0 := by
          rw [decodedLength, ended]
          rfl
        have total := decoded fine
        refine ⟨dst₂, by omega, ?_⟩
        rw [if_neg more, if_pos ⟨fine, by omega⟩, total, length, ended, none]
        simp only [List.length_nil, Nat.add_zero, Nat.add_assoc]

/-! ## The readers -/

/-- The leading run ends at an encoded byte exactly if there is one in the text. -/
theorem atEncoded_iff_needsDecoding (src : List UInt8) (start : Nat) :
    atEncoded src (skipPlain src start) = true ↔ NeedsDecoding (src.drop start) := by
  obtain ⟨run, plain, -, behind, -, stops⟩ := skipPlain_spec src start
  have texts : text (src.drop start) = run ++ text (src.drop (skipPlain src start)) := by
    nth_rewrite 1 [behind]
    exact text_run plain _
  unfold NeedsDecoding
  rw [texts]
  constructor
  · intro here
    rcases atEncoded_head.mp here with plus | percent
    · obtain ⟨tail, rest⟩ := List.head?_eq_some_iff.mp plus
      right
      rw [rest, text_cons rfl]
      exact List.mem_append_right _ List.mem_cons_self
    · obtain ⟨tail, rest⟩ := List.head?_eq_some_iff.mp percent
      left
      rw [rest, text_cons rfl]
      exact List.mem_append_right _ List.mem_cons_self
  · intro needs
    by_contra here
    rw [text_ended stops here, List.append_nil] at needs
    rcases needs with percent | plus
    · exact absurd (plain _ percent) (by decide)
    · exact absurd (plain _ plus) (by decide)

/-- The length that a slice records. -/
def Slice.size : Slice → Nat
  | source _ size => size
  | buffer size => size
  | literal => 0

/-- What a parse from `start` on is to give with a buffer of `max` bytes. -/
structure DecodedFrom (src : List UInt8) (max start : Nat) (p : Parsed) : Prop where
  accepts : p.ok = true ↔ Escaped (src.drop start) ∧
    (¬ NeedsDecoding (src.drop start) ∨ decodedLength (src.drop start) ≤ max)
  cursor : p.ok = true → p.cur = start + (text (src.drop start)).length
  size : p.ok = true → p.out.size = decodedLength (src.drop start)

/-- The plain start of the text fits the buffer, or it is not copied. -/
def StartFits (src : List UInt8) (max start : Nat) : Prop :=
  NeedsDecoding (src.drop start) → ((src.drop start).takeWhile isPlain).length ≤ max

theorem skipPercentEncodedSubstr_eq (src : List UInt8) (start : Nat) :
    skipPercentEncodedSubstr src start = some
      (if Escaped (src.drop start) then some (start + (text (src.drop start)).length) else none) := by
  obtain ⟨run, plain, skipped, behind, -, stops⟩ := skipPlain_spec src start
  rw [skipPercentEncodedSubstr, skipEncoded_spec _ (by omega) stops]
  have same := escaped_run plain (src.drop (skipPlain src start))
  have texts := text_run plain (src.drop (skipPlain src start))
  rw [← behind] at same texts
  simp only [same, texts, skipped, List.length_append, Nat.add_assoc]

theorem parsePercentEncodedSubstr_fits {src dst : List UInt8} {max start : Nat}
    (size : dst.length = max) (fits : StartFits src max start) :
    ∃ p, parsePercentEncodedSubstr src dst max start = some p ∧ DecodedFrom src max start p := by
  obtain ⟨run, plain, skipped, behind, leading, stops⟩ := skipPlain_spec src start
  have needs := atEncoded_iff_needsDecoding src start
  have same := escaped_run plain (src.drop (skipPlain src start))
  have texts := text_run plain (src.drop (skipPlain src start))
  have decoded : Escaped (src.drop (skipPlain src start)) → decodedLength (src.drop start) =
      run.length + decodedLength (src.drop (skipPlain src start)) := by
    intro fine
    rw [behind]
    exact decodedLength_run plain fine
  rw [← behind] at same texts
  have lengthRun : skipPlain src start - start = run.length := by omega
  have runBytes : (src.drop start).take run.length = run := by
    rw [behind, List.take_left]
  rw [parsePercentEncodedSubstr]
  simp only [lengthRun, runBytes]
  by_cases here : atEncoded src (skipPlain src start) = true
  · have short : run.length ≤ max := leading ▸ fits (needs.mp here)
    obtain ⟨dst₁, stored⟩ : ∃ dst₁, store dst 0 run = some dst₁ := ⟨_, store_eq (by omega)⟩
    have length₁ := store_length stored
    obtain ⟨dst', size', done⟩ := decodeRuns_spec (src.length + 1) (by omega) here short
      (length₁.trans size)
    rw [if_pos here, if_neg (by omega), stored, Option.bind_eq_bind, Option.bind_some, done,
      Option.bind_eq_bind, Option.bind_some]
    by_cases good : Escaped (src.drop (skipPlain src start)) ∧
        run.length + decodedLength (src.drop (skipPlain src start)) ≤ max
    · rw [if_pos good]
      refine ⟨_, rfl, ?_, fun _ => ?_, fun _ => ?_⟩
      · exact iff_of_true rfl ⟨same.mpr good.1, .inr (by rw [decoded good.1]; exact good.2)⟩
      · change skipPlain src start + (text (src.drop (skipPlain src start))).length = _
        rw [texts, List.length_append]
        omega
      · exact (decoded good.1).symm
    · rw [if_neg good]
      refine ⟨_, rfl, ?_, fun wrong => (by cases wrong), fun wrong => (by cases wrong)⟩
      refine iff_of_false Bool.false_ne_true ?_
      rintro ⟨fine, plainOnly | room⟩
      · exact plainOnly (needs.mp here)
      · exact good ⟨same.mp fine, by rw [← decoded (same.mp fine)]; exact room⟩
  · have ended := text_ended stops here
    have fine := Escaped.stop ended
    rw [ended, List.append_nil] at texts
    have none : decodedLength (src.drop (skipPlain src start)) = 0 := by
      rw [decodedLength, ended]
      rfl
    rw [if_neg here]
    refine ⟨_, rfl, iff_of_true rfl ⟨same.mpr fine, .inl (needs.not.mp here)⟩, fun _ => ?_,
      fun _ => ?_⟩
    · rw [texts, skipped]
    · rw [decoded fine, none]
      rfl

/-- Where the plain start does not fit, the function returns -1, which is true, and the cursor
stays. -/
theorem parsePercentEncodedSubstr_long {src : List UInt8} (dst : List UInt8) {max start : Nat}
    (long : ¬ StartFits src max start) :
    ∃ p, parsePercentEncodedSubstr src dst max start = some p ∧ p.ok = true ∧ p.cur = start := by
  obtain ⟨needs, above⟩ := Classical.not_imp.mp long
  have here := (atEncoded_iff_needsDecoding src start).mpr needs
  obtain ⟨run, plain, skipped, -, leading, -⟩ := skipPlain_spec src start
  rw [← leading] at above
  rw [parsePercentEncodedSubstr, if_pos here, if_pos (by omega)]
  exact ⟨_, rfl, rfl, rfl⟩

/-- Decoding into a buffer of `max` bytes stays inside it and gives what it should exactly if the
plain start of the text fits. -/
theorem parse_percent_encoded_substr_decodes_iff (src : List UInt8) {dst : List UInt8}
    {max : Nat} (start : Nat) (size : dst.length = max) :
    (∃ p, parsePercentEncodedSubstr src dst max start = some p ∧ DecodedFrom src max start p) ↔
      StartFits src max start := by
  constructor
  · rintro ⟨p, parsed, decoded⟩
    by_contra long
    obtain ⟨p', parsed', ok, -⟩ := parsePercentEncodedSubstr_long dst long
    rw [parsed] at parsed'
    cases parsed'
    obtain ⟨needs, above⟩ := Classical.not_imp.mp long
    obtain ⟨fine, plainOnly | room⟩ := decoded.accepts.mp ok
    · exact plainOnly needs
    · -- The plain start alone is longer than the buffer.
      obtain ⟨run, plain, -, behind, leading, -⟩ := skipPlain_spec src start
      rw [behind, escaped_run plain] at fine
      rw [behind, decodedLength_run plain fine] at room
      rw [← leading] at above
      omega
  · exact parsePercentEncodedSubstr_fits size

theorem parse_percent_encoded_substr_decodes_iff_applies :
    (∃ p, parsePercentEncodedSubstr "a+b%31=x".toUTF8.toList (List.replicate 4 0) 4 0 = some p ∧
        DecodedFrom "a+b%31=x".toUTF8.toList 4 0 p) ↔
      StartFits "a+b%31=x".toUTF8.toList 4 0 :=
  parse_percent_encoded_substr_decodes_iff _ 0 rfl

/-- With one byte of room the name `ab+c` is accepted, with the cursor where it was. -/
theorem parse_percent_encoded_substr_long_start :
    parsePercentEncodedSubstr "ab+c".toUTF8.toList [0] 1 0 = some ⟨true, 0, [0], .source 0 2⟩ ∧
      decodedLength "ab+c".toUTF8.toList = 4 ∧
      ¬ ∃ p, parsePercentEncodedSubstr "ab+c".toUTF8.toList [0] 1 0 = some p ∧
        DecodedFrom "ab+c".toUTF8.toList 1 0 p := by
  have accepted : parsePercentEncodedSubstr "ab+c".toUTF8.toList [0] 1 0 =
      some ⟨true, 0, [0], .source 0 2⟩ := by
    decide +kernel
  refine ⟨accepted, by decide +kernel, ?_⟩
  rintro ⟨p, parsed, decoded⟩
  rw [accepted] at parsed
  cases parsed
  exact absurd (decoded.cursor rfl) (by decide +kernel)

/-- Passing over a text agrees with decoding it into a buffer that is long enough. -/
theorem skip_agrees_with_parse (src : List UInt8) {dst : List UInt8} {max : Nat} (start : Nat)
    (size : dst.length = max) (room : src.length ≤ max) :
    ∃ p skipped, parsePercentEncodedSubstr src dst max start = some p ∧
      skipPercentEncodedSubstr src start = some skipped ∧ skipped.isSome = p.ok ∧
      ∀ cur, skipped = some cur → p.cur = cur := by
  have shorter : ∀ {p : UInt8 → Bool}, ((src.drop start).takeWhile p).length ≤ max := by
    intro p
    have inside := (List.takeWhile_sublist p (l := src.drop start)).length_le
    rw [List.length_drop] at inside
    omega
  have fits : StartFits src max start := fun _ => shorter
  obtain ⟨p, parsed, decoded⟩ := parsePercentEncodedSubstr_fits size fits
  have whole : decodedLength (src.drop start) ≤ max := (Nat.sub_le _ _).trans shorter
  have same : p.ok = true ↔ Escaped (src.drop start) :=
    decoded.accepts.trans (and_iff_left (.inr whole))
  refine ⟨p, _, parsed, skipPercentEncodedSubstr_eq src start, ?_⟩
  by_cases fine : Escaped (src.drop start)
  · have ok := same.mpr fine
    rw [if_pos fine]
    refine ⟨ok.symm, fun cur found => ?_⟩
    cases found
    exact decoded.cursor ok
  · have refused := same.not.mpr fine
    rw [if_neg fine]
    exact ⟨((Bool.not_eq_true _).mp refused).symm, fun cur found => by cases found⟩

theorem skip_agrees_with_parse_applies :
    ∃ p skipped, parsePercentEncodedSubstr "a+b%31=x".toUTF8.toList (List.replicate 8 0) 8 0 = some p ∧
      skipPercentEncodedSubstr "a+b%31=x".toUTF8.toList 0 = some skipped ∧ skipped.isSome = p.ok ∧
      ∀ cur, skipped = some cur → p.cur = cur :=
  skip_agrees_with_parse _ 0 rfl (by decide +kernel)

end Mysnips.QueryString

import Mysnips.QueryString
import Mysnips.TextRuns
import Mathlib.Algebra.GroupWithZero.Nat
import Mathlib.Algebra.Order.BigOperators.Group.List
import Mathlib.Algebra.Order.Group.Nat
import Mathlib.Data.List.Perm.Subperm

/-! Encoded query strings and what the reader makes of them. An encoding is a list of
tokens, each the text of one byte; the reader finds the tokens of every name and
value where the encoder put them, but it reads the hex digits `A` to `F` as 0 to 5.
So a byte is read back exactly when its token has no letter digit. -/
namespace Mysnips.QueryString
open Memory TextRuns

/-- The value of a hex digit. -/
def digitValue (x : UInt8) : Option Nat :=
  if '0'.toUInt8 ≤ x && x ≤ '9'.toUInt8 then some (x.toNat - 48)
  else if 'A'.toUInt8 ≤ x && x ≤ 'F'.toUInt8 then some (x.toNat - 65 + 10)
  else if 'a'.toUInt8 ≤ x && x ≤ 'f'.toUInt8 then some (x.toNat - 97 + 10)
  else none

/-- A hex digit of either case. -/
structure HexDigit where
  char : UInt8
  digit : (digitValue char).isSome
  deriving DecidableEq

def HexDigit.value (d : HexDigit) : Nat := (digitValue d.char).get d.digit

/-- The digit is one of `A` to `F` or `a` to `f`. -/
def HexDigit.isLetter (d : HexDigit) : Bool := 10 ≤ d.value

/-- A character that stands for itself. -/
def standsForItself (c : UInt8) : Bool :=
  isPrint c && c != ' '.toUInt8 && c != '='.toUInt8 && c != '&'.toUInt8 && c != '%'.toUInt8 &&
    c != '+'.toUInt8 && c != '?'.toUInt8

/-- The text of one encoded byte. -/
inductive Token where
  | plain (c : UInt8) (allowed : standsForItself c)
  | plus
  | percent (hi lo : HexDigit)
  deriving DecidableEq

namespace Token

def text : Token → List UInt8
  | plain c _ => [c]
  | plus => ['+'.toUInt8]
  | percent hi lo => ['%'.toUInt8, hi.char, lo.char]

/-- The byte that the token encodes. -/
def byte : Token → UInt8
  | plain c _ => c
  | plus => ' '.toUInt8
  | percent hi lo => UInt8.ofNat (16 * hi.value + lo.value)

/-- The token is a `%XX` with a letter digit. -/
def hasLetter : Token → Bool
  | percent hi lo => hi.isLetter || lo.isLetter
  | _ => false

end Token

/-- A pair of the query, encoded: the name is not empty. -/
structure Pair where
  name : List Token
  value : List Token
  named : name ≠ []

/-- The text of encoded bytes. -/
def encoded (tokens : List Token) : List UInt8 := tokens.flatMap Token.text

/-- The pairs joined with `=` and `&`. -/
def joined : List Pair → List UInt8
  | [] => []
  | [p] => encoded p.name ++ '='.toUInt8 :: encoded p.value
  | p :: q :: rest =>
    encoded p.name ++ '='.toUInt8 :: (encoded p.value ++ '&'.toUInt8 :: joined (q :: rest))

/-- The query string, with its optional leading `?`. -/
def queryString (marked : Bool) (pairs : List Pair) : List UInt8 :=
  (if marked then ['?'.toUInt8] else []) ++ joined pairs

/-- The value of the first pair with a given name, where `meaning` says which byte a
token stands for. -/
def firstValue (meaning : Token → UInt8) (key : List UInt8) : List Pair → Option (List UInt8)
  | [] => none
  | p :: rest =>
    if p.name.map meaning = key then some (p.value.map meaning)
    else firstValue meaning key rest

/-! The bytes that `hex_to_num` gives. -/

/-- The digit as `hex_to_num` takes it. -/
def HexDigit.read (d : HexDigit) : Nat := (hexToNum d.char).getD 0

/-- The byte that the reader makes of a token. -/
def Token.read : Token → UInt8
  | percent hi lo => UInt8.ofNat (16 * hi.read + lo.read)
  | token => token.byte

/-- A hex digit is in one of three ranges. -/
theorem digitValue_cases {x : UInt8} {v : Nat} (known : digitValue x = some v) :
    (48 ≤ x.toNat ∧ x.toNat ≤ 57 ∧ v = x.toNat - 48) ∨
      (65 ≤ x.toNat ∧ x.toNat ≤ 70 ∧ v = x.toNat - 65 + 10) ∨
      (97 ≤ x.toNat ∧ x.toNat ≤ 102 ∧ v = x.toNat - 97 + 10) := by
  simp only [digitValue, Bool.and_eq_true, decide_eq_true_eq, UInt8.le_iff_toNat_le] at known
  split at known
  · rename_i range
    cases known
    exact .inl ⟨range.1, range.2, rfl⟩
  · split at known
    · rename_i range
      cases known
      exact .inr (.inl ⟨range.1, range.2, rfl⟩)
    · split at known
      · rename_i range
        cases known
        exact .inr (.inr ⟨range.1, range.2, rfl⟩)
      · cases known

private theorem HexDigit.cases (d : HexDigit) :
    (48 ≤ d.char.toNat ∧ d.char.toNat ≤ 57 ∧ d.value = d.char.toNat - 48) ∨
      (65 ≤ d.char.toNat ∧ d.char.toNat ≤ 70 ∧ d.value = d.char.toNat - 65 + 10) ∨
      (97 ≤ d.char.toNat ∧ d.char.toNat ≤ 102 ∧ d.value = d.char.toNat - 97 + 10) :=
  digitValue_cases (Option.some_get d.digit).symm

private theorem HexDigit.value_lt (d : HexDigit) : d.value < 16 := by
  rcases d.cases with range | range | range <;> omega

/-- A letter digit is read ten too low. -/
private theorem HexDigit.hexToNum_char (d : HexDigit) :
    hexToNum d.char = some (if 10 ≤ d.value then d.value - 10 else d.value) := by
  simp only [hexToNum, Bool.and_eq_true, decide_eq_true_eq, UInt8.le_iff_toNat_le]
  have upper : 'A'.toUInt8.toNat = 65 ∧ 'F'.toUInt8.toNat = 70 ∧ 'A'.toNat = 65 := ⟨rfl, rfl, rfl⟩
  have lower : 'a'.toUInt8.toNat = 97 ∧ 'f'.toUInt8.toNat = 102 ∧ 'a'.toNat = 97 := ⟨rfl, rfl, rfl⟩
  have decimal : '0'.toUInt8.toNat = 48 ∧ '9'.toUInt8.toNat = 57 ∧ '0'.toNat = 48 := ⟨rfl, rfl, rfl⟩
  rcases d.cases with range | range | range
  · rw [if_neg (by omega), if_neg (by omega), if_pos (by omega), if_neg (by omega)]
    congr 1
    omega
  · rw [if_pos (by omega), if_pos (by omega)]
    congr 1
    omega
  · rw [if_neg (by omega), if_pos (by omega), if_pos (by omega)]
    congr 1
    omega

private theorem HexDigit.hexToNum_read (d : HexDigit) : hexToNum d.char = some d.read := by
  rw [HexDigit.read, d.hexToNum_char, Option.getD_some]

private theorem HexDigit.read_cases (d : HexDigit) :
    (d.isLetter = true ∧ d.read + 10 = d.value) ∨ (d.isLetter = false ∧ d.read = d.value) := by
  rw [HexDigit.read, d.hexToNum_char, Option.getD_some, HexDigit.isLetter]
  by_cases high : 10 ≤ d.value
  · left
    rw [if_pos high]
    exact ⟨decide_eq_true high, by omega⟩
  · right
    rw [if_neg high]
    exact ⟨decide_eq_false high, rfl⟩

private theorem Token.percent_toNat {hi lo : Nat} (high : hi < 16) (low : lo < 16) :
    (UInt8.ofNat (16 * hi + lo)).toNat = 16 * hi + lo := by
  rw [UInt8.toNat_ofNat']
  exact Nat.mod_eq_of_lt (by omega)

/-- A token is never read as a larger byte, and it is read as its own byte exactly
when it has no letter digit. -/
private theorem Token.read_le (t : Token) :
    t.read.toNat ≤ t.byte.toNat ∧ (t.read = t.byte ↔ t.hasLetter = false) := by
  cases t with
  | plain c allowed => simp [Token.read, Token.hasLetter]
  | plus => simp [Token.read, Token.hasLetter]
  | percent hi lo =>
    have high := hi.value_lt
    have low := lo.value_lt
    have readHigh := hi.read_cases
    have readLow := lo.read_cases
    simp only [Token.hasLetter, Bool.or_eq_false_iff]
    rw [← UInt8.toNat_inj]
    simp only [Token.read, Token.byte]
    rw [Token.percent_toNat high low, Token.percent_toNat (by omega) (by omega)]
    refine ⟨by omega, ?_⟩
    constructor
    · intro same
      rcases readHigh with letter | plain
      · omega
      · rcases readLow with letter | plain'
        · omega
        · exact ⟨plain.1, plain'.1⟩
    · rintro ⟨plain, plain'⟩
      rw [plain] at readHigh
      rw [plain'] at readLow
      simp only [Bool.false_eq_true, false_and, true_and, false_or] at readHigh readLow
      omega

/-! The cursor over an encoded text. -/

/-- The token is not copied as it stands. -/
def Token.isEncoded : Token → Bool
  | plain _ _ => false
  | _ => true

/-- What may follow an encoded name or value: the end, `=` or `&`. -/
def Ends (after : List UInt8) : Prop :=
  ∀ c ∈ after.head?, c = '='.toUInt8 ∨ c = '&'.toUInt8

private theorem isPlain_of_standsForItself {c : UInt8} (allowed : standsForItself c = true) :
    isPlain c = true := by
  simp only [standsForItself, Bool.and_eq_true] at allowed
  simp only [isPlain, Bool.and_eq_true]
  exact ⟨⟨⟨⟨allowed.1.1.1.1.2, allowed.1.1.1.2⟩, allowed.1.1.2⟩, allowed.1.2⟩,
    allowed.1.1.1.1.1.1⟩

/-- An encoded text is a run of plain characters followed by nothing or by a token
that is not plain. -/
private theorem leading_run (tokens : List Token) :
    ∃ run rest, encoded tokens = run ++ encoded rest ∧ (∀ c ∈ run, isPlain c = true) ∧
      tokens.map Token.read = run ++ rest.map Token.read ∧
      tokens.length = run.length + rest.length ∧
      (∀ t ∈ rest.head?, t.isEncoded = true) := by
  induction tokens with
  | nil => exact ⟨[], [], by simp, by simp, by simp, by simp, by simp⟩
  | cons t tokens ih =>
    obtain ⟨run, rest, text, plain, read, length, start⟩ := ih
    cases t with
    | plain c allowed =>
      refine ⟨c :: run, rest, ?_, ?_, ?_, ?_, start⟩
      · simp only [encoded, List.flatMap_cons, Token.text] at text ⊢
        simp [text]
      · intro d member
        rcases List.mem_cons.mp member with rfl | member
        · exact isPlain_of_standsForItself allowed
        · exact plain d member
      · simp [read, Token.read, Token.byte]
      · simp only [List.length_cons]
        omega
    | plus =>
      exact ⟨[], .plus :: tokens, by simp, by simp, by simp, by simp, by simp [Token.isEncoded]⟩
    | percent hi lo =>
      exact ⟨[], .percent hi lo :: tokens, by simp, by simp, by simp, by simp,
        by simp [Token.isEncoded]⟩

/-- The first character of a text that starts with a token that is not plain. -/
private theorem encoded_head {t : Token} (isEncoded : t.isEncoded = true) (rest : List Token)
    (after : List UInt8) :
    (encoded (t :: rest) ++ after).head? = some '+'.toUInt8 ∨
      (encoded (t :: rest) ++ after).head? = some '%'.toUInt8 := by
  cases t with
  | plain c allowed => cases isEncoded
  | plus => exact .inl rfl
  | percent hi lo => exact .inr rfl

private theorem head_not_plain {rest : List Token} {after : List UInt8}
    (start : ∀ t ∈ rest.head?, t.isEncoded = true) (ends : Ends after) :
    ∀ c ∈ (encoded rest ++ after).head?, isPlain c = false := by
  intro c head
  cases rest with
  | nil =>
    rcases ends c (by simpa [encoded] using head) with rfl | rfl <;> rfl
  | cons t rest =>
    rcases encoded_head (start t rfl) rest after with known | known <;>
    · rw [known] at head
      cases head
      rfl

variable {src : List UInt8} {cur : Nat}

private theorem at_head (src : List UInt8) (cur : Nat) : src[cur]? = (src.drop cur).head? :=
  List.head?_drop.symm

/-- The cursor is at an encoded byte exactly when there are tokens left. -/
private theorem atEncoded_iff {rest : List Token} {after : List UInt8}
    (here : src.drop cur = encoded rest ++ after)
    (start : ∀ t ∈ rest.head?, t.isEncoded = true) (ends : Ends after) :
    atEncoded src cur = true ↔ rest ≠ [] := by
  simp only [atEncoded, at_head, here, Bool.or_eq_true, beq_iff_eq]
  cases rest with
  | nil =>
    simp only [encoded, List.flatMap_nil, List.nil_append, ne_eq, not_true, iff_false, not_or]
    constructor <;>
    · intro head
      rcases ends _ head with same | same <;> exact absurd same (by decide)
  | cons t rest => simpa using encoded_head (start t rfl) rest after

/-- Skipping stops behind the leading run, at the first token that is not plain. -/
private theorem skipPlain_tokens {tokens : List Token} {after : List UInt8}
    (here : src.drop cur = encoded tokens ++ after) (ends : Ends after) :
    ∃ run rest, encoded tokens = run ++ encoded rest ∧
      tokens.map Token.read = run ++ rest.map Token.read ∧
      tokens.length = run.length + rest.length ∧ (∀ t ∈ rest.head?, t.isEncoded = true) ∧
      skipPlain src cur = cur + run.length ∧ (src.drop cur).take run.length = run ∧
      src.drop (cur + run.length) = encoded rest ++ after ∧
      (atEncoded src (cur + run.length) = true ↔ rest ≠ []) := by
  obtain ⟨run, rest, text, plain, read, length, start⟩ := leading_run tokens
  rw [text, List.append_assoc] at here
  obtain ⟨skipped, next⟩ := skip_run here plain (head_not_plain start ends)
  refine ⟨run, rest, text, read, length, start, skipped, ?_, next, atEncoded_iff next start ends⟩
  rw [here, List.take_left]

private theorem percentByte_percent {hi lo : HexDigit} {tail : List UInt8}
    (here : src.drop cur = '%'.toUInt8 :: hi.char :: lo.char :: tail) :
    percentByte src cur = some (Token.percent hi lo).read := by
  have first : src[cur + 1]? = some hi.char := by
    rw [← List.getElem?_drop, here]
    rfl
  have second : src[cur + 2]? = some lo.char := by
    rw [← List.getElem?_drop, here]
    rfl
  have bound : lo.read < 2 ^ 4 := by
    have below := lo.value_lt
    rcases lo.read_cases with letter | plain <;> omega
  have packed : hi.read <<< 4 ||| lo.read = 16 * hi.read + lo.read := by
    rw [← Nat.shiftLeft_add_eq_or_of_lt bound, Nat.shiftLeft_eq]
    omega
  simp only [percentByte, first, second, hi.hexToNum_read, lo.hexToNum_read, packed, Token.read,
    Option.bind_eq_bind, Option.bind_some, Option.pure_def]

/-- An encoded byte is read where its token stands, and the cursor ends behind it. -/
private theorem encodedByte_token {t : Token} {rest : List Token} {after : List UInt8}
    (here : src.drop cur = encoded (t :: rest) ++ after) (isEncoded : t.isEncoded = true) :
    encodedByte src cur = some (t.read, cur + t.text.length) ∧
      src.drop (cur + t.text.length) = encoded rest ++ after := by
  have split : src.drop cur = t.text ++ (encoded rest ++ after) := by
    simpa [encoded, List.append_assoc] using here
  refine ⟨?_, by rw [← List.drop_drop, split, List.drop_left]⟩
  cases t with
  | plain c allowed => cases isEncoded
  | plus =>
    have head : src[cur]? = some '+'.toUInt8 := by
      rw [at_head, split]
      rfl
    rw [encodedByte, if_pos head]
    rfl
  | percent hi lo =>
    have head : src[cur]? = some '%'.toUInt8 := by
      rw [at_head, split]
      rfl
    rw [encodedByte, head, if_neg (by decide), percentByte_percent split]
    rfl

private theorem text_pos (t : Token) : 0 < t.text.length := by
  cases t <;> simp [Token.text]

/-- Texts are at least as long as what they encode. -/
private theorem length_le_encoded (tokens : List Token) :
    tokens.length ≤ (encoded tokens).length := by
  induction tokens with
  | nil => simp [encoded]
  | cons t tokens ih =>
    have pos := text_pos t
    simp only [encoded, List.flatMap_cons, List.length_cons, List.length_append] at ih ⊢
    omega

/-- The loop decodes the tokens from the cursor on, behind what is already copied. -/
private theorem decodeRuns_tokens (max : Nat) {after : List UInt8} (ends : Ends after) :
    ∀ (fuel : Nat) {cur copied : Nat} {dst before : List UInt8} {t : Token} {tokens : List Token},
      src.drop cur = encoded (t :: tokens) ++ after → t.isEncoded = true → tokens.length < fuel →
      load dst 0 copied = some before → copied + (tokens.length + 1) ≤ max → max ≤ dst.length →
      ∃ dst', decodeRuns src max fuel cur copied dst =
          some (dst', some (cur + (encoded (t :: tokens)).length, copied + (tokens.length + 1))) ∧
        dst'.length = dst.length ∧
        load dst' 0 (copied + (tokens.length + 1)) =
          some (before ++ (t :: tokens).map Token.read) := by
  intro fuel
  induction fuel with
  | zero => intro _ _ _ _ _ _ _ _ short; omega
  | succ fuel ih =>
    intro cur copied dst before t tokens here isEncoded enough loaded room fits
    obtain ⟨byte, behind⟩ := encodedByte_token here isEncoded
    obtain ⟨run, rest, text, read, length, start, skipped, copiedRun, next, more⟩ :=
      skipPlain_tokens behind ends
    obtain ⟨dst₁, stored⟩ : ∃ dst₁, store dst copied [t.read] = some dst₁ :=
      ⟨_, store_eq (by simp only [List.length_singleton]; omega)⟩
    have length₁ := store_length stored
    have loaded₁ := load_store_behind loaded (by rw [Nat.zero_add]; exact stored)
    obtain ⟨dst₂, stored₂⟩ : ∃ dst₂, store dst₁ (copied + 1) run = some dst₂ :=
      ⟨_, store_eq (by omega)⟩
    have length₂ := store_length stored₂
    have loaded₂ := load_store_behind loaded₁ (by rw [Nat.zero_add]; exact stored₂)
    rw [decodeRuns, byte]
    simp only
    rw [if_neg (by omega), stored, Option.bind_eq_bind, Option.bind_some, skipped,
      if_neg (by omega), Nat.add_sub_cancel_left, copiedRun, stored₂, Option.bind_some]
    have texts : (encoded (t :: tokens)).length =
        t.text.length + (run.length + (encoded rest).length) := by
      simp only [encoded, List.flatMap_cons, List.length_append] at text ⊢
      rw [text, List.length_append]
    have reads : (t :: tokens).map Token.read = t.read :: (run ++ rest.map Token.read) := by
      rw [List.map_cons, read]
    cases rest with
    | nil =>
      rw [if_neg (mt more.mp (not_not.mpr rfl))]
      refine ⟨dst₂, ?_, by omega, ?_⟩
      · rw [texts, length]
        simp [encoded, Nat.add_comm, Nat.add_left_comm]
      · rw [reads, length]
        simpa [Nat.add_assoc, Nat.add_comm, Nat.add_left_comm] using loaded₂
    | cons t' rest =>
      rw [if_pos (more.mpr (List.cons_ne_nil _ _))]
      rw [List.length_cons] at length
      rw [List.length_singleton] at loaded₂
      obtain ⟨dst₃, decoded, same, loaded₃⟩ := ih next (start t' rfl) (by omega) loaded₂
        (by omega) (by omega)
      refine ⟨dst₃, ?_, by omega, ?_⟩
      · rw [decoded, texts, length]
        simp [Nat.add_assoc, Nat.add_comm, Nat.add_left_comm]
      · rw [reads, length]
        simpa [Nat.add_assoc, Nat.add_comm, Nat.add_left_comm] using loaded₃

private theorem length_le_source {tokens : List Token} {after : List UInt8}
    (here : src.drop cur = encoded tokens ++ after) : tokens.length ≤ src.length := by
  have short := length_le_encoded tokens
  have total := congrArg List.length here
  rw [List.length_drop, List.length_append] at total
  omega

/-- Parsing an encoded text that fits the buffer gives the bytes as they are read, and
leaves the cursor behind the text. -/
private theorem parse_tokens {max : Nat} {dst after : List UInt8} {tokens : List Token}
    (here : src.drop cur = encoded tokens ++ after) (ends : Ends after)
    (room : src.length ≤ max) (fits : max ≤ dst.length) :
    ∃ p, parsePercentEncodedSubstr src dst max cur = some p ∧ p.ok = true ∧
      p.cur = cur + (encoded tokens).length ∧ p.dst.length = dst.length ∧
      p.out.bytes src p.dst = tokens.map Token.read := by
  obtain ⟨run, rest, text, read, length, start, skipped, copiedRun, next, more⟩ :=
    skipPlain_tokens here ends
  have short := length_le_source here
  rw [parsePercentEncodedSubstr, skipped]
  simp only [Nat.add_sub_cancel_left]
  cases rest with
  | nil =>
    rw [if_neg (mt more.mp (not_not.mpr rfl))]
    refine ⟨_, rfl, rfl, ?_, rfl, ?_⟩
    · rw [text]
      simp [encoded]
    · rw [read, Slice.bytes, copiedRun]
      simp
  | cons t rest =>
    rw [List.length_cons] at length
    obtain ⟨dst₁, stored⟩ : ∃ dst₁, store dst 0 run = some dst₁ := ⟨_, store_eq (by omega)⟩
    have length₁ := store_length stored
    obtain ⟨dst₂, decoded, length₂, loaded⟩ := decodeRuns_tokens max ends (src.length + 1) next
      (start t rfl) (by omega) (load_store_same stored) (by omega) (by omega)
    rw [if_pos (more.mpr (List.cons_ne_nil _ _)), if_neg (by omega), copiedRun, stored,
      Option.bind_eq_bind, Option.bind_some, decoded]
    refine ⟨⟨true, _, dst₂, .buffer _⟩, rfl, rfl, ?_, length₂.trans length₁, ?_⟩
    · rw [text, List.length_append, Nat.add_assoc]
    · rw [load_eq (load_inside loaded)] at loaded
      simp only [List.drop_zero, Option.some.injEq] at loaded
      rw [read, ← loaded, Slice.bytes]

/-- The loop of the skipping version passes over all tokens. -/
private theorem skipEncoded_tokens {after : List UInt8} (ends : Ends after) :
    ∀ (fuel : Nat) {cur : Nat} {tokens : List Token}, src.drop cur = encoded tokens ++ after →
      (∀ t ∈ tokens.head?, t.isEncoded = true) → tokens.length < fuel →
      skipEncoded src fuel cur = some (some (cur + (encoded tokens).length)) := by
  intro fuel
  induction fuel with
  | zero => intro _ _ _ _ short; omega
  | succ fuel ih =>
    intro cur tokens here start enough
    cases tokens with
    | nil =>
      have stop : ¬ atEncoded src cur = true := by
        rw [atEncoded_iff here start ends]
        simp
      rw [skipEncoded, if_neg stop]
      simp [encoded]
    | cons t tokens =>
      have go : atEncoded src cur = true := by
        rw [atEncoded_iff here start ends]
        simp
      obtain ⟨byte, behind⟩ := encodedByte_token here (start t rfl)
      obtain ⟨run, rest, text, -, length, start', skipped, -, next, -⟩ :=
        skipPlain_tokens behind ends
      rw [List.length_cons] at enough
      rw [skipEncoded, if_pos go, byte]
      simp only
      rw [skipped, ih next start' (by omega)]
      simp only [encoded, List.flatMap_cons, List.length_append] at text ⊢
      rw [text, List.length_append]
      simp [Nat.add_assoc]

/-- Skipping leaves the cursor where parsing does. -/
private theorem skip_tokens {after : List UInt8} {tokens : List Token}
    (here : src.drop cur = encoded tokens ++ after) (ends : Ends after) :
    skipPercentEncodedSubstr src cur = some (some (cur + (encoded tokens).length)) := by
  obtain ⟨run, rest, text, -, length, start, skipped, -, next, -⟩ := skipPlain_tokens here ends
  have short := length_le_source here
  rw [skipPercentEncodedSubstr, skipped, skipEncoded_tokens ends _ next start (by omega), text,
    List.length_append]
  simp [Nat.add_assoc]

/-! The loop over the pairs. -/

/-- What follows a pair. -/
private def behindPair : List Pair → List UInt8
  | [] => []
  | p :: rest => '&'.toUInt8 :: joined (p :: rest)

private theorem joined_cons (p : Pair) (rest : List Pair) :
    joined (p :: rest) =
      encoded p.name ++ '='.toUInt8 :: (encoded p.value ++ behindPair rest) := by
  cases rest <;> simp [joined, behindPair]

private theorem behindPair_ends (rest : List Pair) : Ends (behindPair rest) := by
  cases rest with
  | nil => simp [behindPair, Ends]
  | cons p rest => simp [behindPair, Ends]

/-- The search looks the key up among the pairs as they are read. -/
private theorem searchParam_pairs (key : List UInt8) {max : Nat} (room : src.length ≤ max)
    (pairs : List Pair) : ∀ (fuel : Nat) {cur : Nat} {dst : List UInt8},
      src.drop cur = joined pairs → pairs.length < fuel → max ≤ dst.length →
      ∃ dst' out, searchParam src key max fuel cur dst = some (dst', out) ∧
        out.map (Slice.bytes src dst') = firstValue Token.read key pairs := by
  induction pairs with
  | nil =>
    intro fuel cur dst here enough fits
    have done : src.length ≤ cur := List.drop_eq_nil_iff.mp here
    cases fuel with
    | zero => omega
    | succ fuel => exact ⟨dst, none, by rw [searchParam, if_neg (by omega)], rfl⟩
  | cons p rest ih =>
    intro fuel cur dst here enough fits
    cases fuel with
    | zero => omega
    | succ fuel =>
      rw [joined_cons] at here
      have inside : cur < src.length := by
        by_contra outside
        rw [List.drop_eq_nil_of_le (by omega)] at here
        simp at here
      obtain ⟨name, parsed, ok, at', length, read⟩ := parse_tokens here (by simp [Ends]) room fits
      have behind : src.drop name.cur = '='.toUInt8 :: (encoded p.value ++ behindPair rest) := by
        rw [at', ← List.drop_drop, here, List.drop_left]
      have equals : src[name.cur]? = some '='.toUInt8 := by
        rw [at_head, behind]
        rfl
      have value : src.drop (name.cur + 1) = encoded p.value ++ behindPair rest := by
        rw [← List.drop_drop, behind]
        rfl
      rw [searchParam, if_pos inside, parsed, Option.bind_eq_bind, Option.bind_some, ok, equals]
      simp only [Bool.not_true, Bool.false_eq_true, if_false, Option.any_some, if_true]
      rw [if_neg (by decide), read, firstValue]
      by_cases found : p.name.map Token.read = key
      · obtain ⟨v, parsed', ok', -, -, read'⟩ :=
          parse_tokens value (behindPair_ends rest) room (length.symm ▸ fits)
        rw [if_pos found, if_pos found, parsed']
        exact ⟨v.dst, some v.out, by simp [ok'], by simp [read']⟩
      · rw [if_neg found, if_neg found, skip_tokens value (behindPair_ends rest)]
        have next : src.drop (name.cur + 1 + (encoded p.value).length) = behindPair rest := by
          rw [← List.drop_drop, value, List.drop_left]
        have separated : src[name.cur + 1 + (encoded p.value).length]?.any (· != '&'.toUInt8) =
            false := by
          rw [at_head, next]
          cases rest <;> simp [behindPair]
        have here' : src.drop (name.cur + 1 + (encoded p.value).length + 1) = joined rest := by
          rw [← List.drop_drop, next]
          cases rest <;> simp [behindPair, joined]
        rw [List.length_cons] at enough
        rw [Option.bind_eq_bind, Option.bind_some]
        simp only [separated, Bool.false_eq_true, if_false]
        exact ih fuel here' (by omega) (length.symm ▸ fits)

private theorem length_le_joined (pairs : List Pair) : pairs.length ≤ (joined pairs).length := by
  induction pairs with
  | nil => simp
  | cons p rest ih =>
    rw [joined_cons]
    cases rest with
    | nil =>
      simp only [List.length_append, List.length_cons, List.length_nil]
      omega
    | cons q rest =>
      simp only [behindPair, List.length_append, List.length_cons] at ih ⊢
      omega

/-- Without its mark the query does not start with `?`. -/
private theorem joined_head (pairs : List Pair) : (joined pairs).head? ≠ some '?'.toUInt8 := by
  cases pairs with
  | nil => simp [joined]
  | cons p rest =>
    rw [joined_cons]
    cases known : p.name with
    | nil => exact absurd known p.named
    | cons t tokens =>
      cases t with
      | plain c allowed =>
        intro head
        cases head
        exact absurd allowed (by decide)
      | plus =>
        intro head
        exact absurd (Option.some.inj head) (by decide)
      | percent hi lo =>
        intro head
        exact absurd (Option.some.inj head) (by decide)

/-- The reader answers every lookup from the pairs as it reads them. -/
private theorem param_read (marked : Bool) (pairs : List Pair) (key : List UInt8) {max : Nat}
    {dst : List UInt8} (room : (queryString marked pairs).length ≤ max)
    (fits : max ≤ dst.length) :
    ∃ dst' out, getQueryStringParam (queryString marked pairs) key dst max = some (dst', out) ∧
      out.map (Slice.bytes (queryString marked pairs) dst') =
        firstValue Token.read key pairs := by
  have short := length_le_joined pairs
  rw [getQueryStringParam]
  cases marked with
  | true =>
    have head : (queryString true pairs)[0]? = some '?'.toUInt8 := rfl
    rw [if_pos head]
    refine searchParam_pairs key room pairs _ rfl ?_ fits
    simp only [queryString, if_true, List.length_append]
    omega
  | false =>
    have head : (queryString false pairs)[0]? ≠ some '?'.toUInt8 := by
      rw [at_head]
      exact joined_head pairs
    rw [if_neg head]
    refine searchParam_pairs key room pairs _ rfl ?_ fits
    simp only [queryString, List.length_append]
    omega

/-- The query answers a key as the pairs that were encoded do, whatever buffer of
sufficient size it is given. -/
def RoundTrips (marked : Bool) (pairs : List Pair) (key : List UInt8) : Prop :=
  ∀ (dst : List UInt8) (max : Nat), (queryString marked pairs).length ≤ max → max ≤ dst.length →
    ∃ dst' out, getQueryStringParam (queryString marked pairs) key dst max = some (dst', out) ∧
      out.map (Slice.bytes (queryString marked pairs) dst') = firstValue Token.byte key pairs

/-- No `%XX` of the query has a letter digit. -/
def NoLetters (pairs : List Pair) : Prop :=
  ∀ p ∈ pairs, ∀ t ∈ p.name ++ p.value, t.hasLetter = false

/-- The names that were encoded are distinct. -/
def DistinctNames (pairs : List Pair) : Prop := (pairs.map (·.name.map Token.byte)).Nodup

private theorem roundTrips_iff (marked : Bool) (pairs : List Pair) (key : List UInt8) :
    RoundTrips marked pairs key ↔
      firstValue Token.read key pairs = firstValue Token.byte key pairs := by
  constructor
  · intro trips
    have fits : (queryString marked pairs).length ≤
        (List.replicate (queryString marked pairs).length (0 : UInt8)).length := by simp
    obtain ⟨dst', out, result, value⟩ := trips _ _ (Nat.le_refl _) fits
    obtain ⟨dst'', out', result', value'⟩ :=
      param_read marked pairs key (Nat.le_refl _) fits
    cases result.symm.trans result'
    rw [← value', value]
  · intro agree dst max room fits
    rw [← agree]
    exact param_read marked pairs key room fits

private theorem map_read_eq_iff (tokens : List Token) :
    tokens.map Token.read = tokens.map Token.byte ↔ ∀ t ∈ tokens, t.hasLetter = false := by
  rw [List.map_inj_left]
  exact forall₂_congr (fun t _ => t.read_le.2)

private theorem firstValue_of_noLetters {pairs : List Pair} (clean : NoLetters pairs)
    (key : List UInt8) : firstValue Token.read key pairs = firstValue Token.byte key pairs := by
  induction pairs with
  | nil => rfl
  | cons p rest ih =>
    have tokens := clean p List.mem_cons_self
    have name := (map_read_eq_iff p.name).mpr (fun t member => tokens t (by simp [member]))
    have value := (map_read_eq_iff p.value).mpr (fun t member => tokens t (by simp [member]))
    rw [firstValue, firstValue, name, value, ih (fun q member => clean q (by simp [member]))]

private theorem firstValue_mem {meaning : Token → UInt8} {key value : List UInt8}
    {pairs : List Pair} (found : firstValue meaning key pairs = some value) :
    key ∈ pairs.map (·.name.map meaning) := by
  induction pairs with
  | nil => cases found
  | cons p rest ih =>
    rw [firstValue] at found
    split at found
    · rename_i same
      simp [same]
    · rw [List.map_cons]
      exact List.mem_cons_of_mem _ (ih found)

/-- Among distinct names every pair is the first with its name. -/
private theorem firstValue_of_nodup {meaning : Token → UInt8} {pairs : List Pair} {p : Pair}
    (distinct : (pairs.map (·.name.map meaning)).Nodup) (member : p ∈ pairs) :
    firstValue meaning (p.name.map meaning) pairs = some (p.value.map meaning) := by
  induction pairs with
  | nil => cases member
  | cons q rest ih =>
    rw [List.map_cons, List.nodup_cons] at distinct
    rw [firstValue]
    rcases List.mem_cons.mp member with rfl | later
    · exact if_pos rfl
    · have other : q.name.map meaning ≠ p.name.map meaning := by
        intro same
        exact distinct.1 (same ▸ List.mem_map_of_mem later)
      rw [if_neg other]
      exact ih distinct.2 later

/-- Sums that agree although every summand is at most the other agree summand by
summand. -/
private theorem eq_of_sum_eq {α : Type*} {f g : α → Nat} (le : ∀ x, f x ≤ g x) :
    ∀ {xs : List α}, (xs.map f).sum = (xs.map g).sum → ∀ x ∈ xs, f x = g x := by
  intro xs
  have sums : ∀ ys : List α, (ys.map f).sum ≤ (ys.map g).sum :=
    fun ys => List.sum_le_sum (fun x _ => le x)
  induction xs with
  | nil => simp
  | cons y ys ih =>
    intro total x member
    simp only [List.map_cons, List.sum_cons] at total
    have rest := sums ys
    have here := le y
    rcases List.mem_cons.mp member with rfl | later
    · omega
    · exact ih (by omega) x later

/-- The weight of a byte string, for comparing what was encoded with what is read. -/
private def weight (meaning : Token → UInt8) (tokens : List Token) : Nat :=
  (tokens.map (fun t => (meaning t).toNat)).sum

private theorem weight_read_le (tokens : List Token) :
    weight Token.read tokens ≤ weight Token.byte tokens :=
  List.sum_le_sum (fun t _ => t.read_le.1)

private theorem noLetter_of_weight {tokens : List Token}
    (same : weight Token.read tokens = weight Token.byte tokens) :
    ∀ t ∈ tokens, t.hasLetter = false := by
  intro t member
  have bytes := eq_of_sum_eq (fun t => t.read_le.1) same t member
  exact t.read_le.2.mp (UInt8.toNat_inj.mp bytes)

/-- Distinct names that are all still found are read as they were encoded: the names
read are the encoded ones in some order, and none of them got heavier. -/
private theorem names_read {pairs : List Pair} (distinct : DistinctNames pairs)
    (agree : ∀ key, firstValue Token.read key pairs = firstValue Token.byte key pairs) :
    ∀ p ∈ pairs, ∀ t ∈ p.name, t.hasLetter = false := by
  have found : pairs.map (·.name.map Token.byte) ⊆ pairs.map (·.name.map Token.read) := by
    intro key member
    obtain ⟨p, inPairs, rfl⟩ := List.mem_map.mp member
    exact firstValue_mem ((agree _).trans (firstValue_of_nodup distinct inPairs))
  have reordered := (distinct.subperm found).perm_of_length_le (by simp)
  have total := (reordered.map (fun bytes => (bytes.map UInt8.toNat).sum)).sum_nat
  simp only [List.map_map, Function.comp_def] at total
  intro p member
  apply noLetter_of_weight
  exact eq_of_sum_eq (f := fun p => weight Token.read p.name)
    (g := fun p => weight Token.byte p.name) (fun p => weight_read_le p.name) total.symm p member

/-- A key is answered as it was encoded exactly when reading the digits `A` to `F` as
0 to 5 does not change the value first found for it. So every query without letter
digits round-trips, and a query with distinct names round-trips for all keys only
without letter digits. -/
theorem query_round_trips_iff (marked : Bool) (pairs : List Pair) :
    (∀ key, RoundTrips marked pairs key ↔
        firstValue Token.read key pairs = firstValue Token.byte key pairs) ∧
      (NoLetters pairs → ∀ key, RoundTrips marked pairs key) ∧
      (DistinctNames pairs → ((∀ key, RoundTrips marked pairs key) ↔ NoLetters pairs)) := by
  have enough : NoLetters pairs → ∀ key, RoundTrips marked pairs key :=
    fun clean key => (roundTrips_iff marked pairs key).mpr (firstValue_of_noLetters clean key)
  refine ⟨roundTrips_iff marked pairs, enough, fun distinct => ⟨fun trips => ?_, enough⟩⟩
  have agree := fun key => (roundTrips_iff marked pairs key).mp (trips key)
  have names := names_read distinct agree
  have readNames : ∀ p ∈ pairs, p.name.map Token.read = p.name.map Token.byte :=
    fun p member => (map_read_eq_iff p.name).mpr (names p member)
  have distinctRead : (pairs.map (·.name.map Token.read)).Nodup := by
    rw [List.map_congr_left readNames]
    exact distinct
  intro p member t inPair
  rcases List.mem_append.mp inPair with inName | inValue
  · exact names p member t inName
  · have values : some (p.value.map Token.read) = some (p.value.map Token.byte) := by
      rw [← firstValue_of_nodup distinctRead member, ← firstValue_of_nodup distinct member,
        readNames p member]
      exact agree _
    exact (map_read_eq_iff p.value).mp (Option.some.inj values) t inValue

/-- The query `a=%4A`. -/
def letterQuery : List Pair :=
  [⟨[.plain 'a'.toUInt8 (by decide)],
    [.percent ⟨'4'.toUInt8, by decide⟩ ⟨'A'.toUInt8, by decide⟩], by simp⟩]

/-- The value of `a` in `a=%4A` is `J`, and the reader returns `@`. -/
theorem letter_digit_misread :
    queryString false letterQuery = "a=%4A".toUTF8.toList ∧
      firstValue Token.byte ['a'.toUInt8] letterQuery = some ['J'.toUInt8] ∧
      getQueryStringParam (queryString false letterQuery) ['a'.toUInt8] [0, 0, 0, 0, 0] 5 =
        some (['@'.toUInt8, 0, 0, 0, 0], some (.buffer 1)) ∧
      ¬ RoundTrips false letterQuery ['a'.toUInt8] := by
  have result : getQueryStringParam (queryString false letterQuery) ['a'.toUInt8] [0, 0, 0, 0, 0] 5 =
      some (['@'.toUInt8, 0, 0, 0, 0], some (.buffer 1)) := by decide +kernel
  refine ⟨by decide +kernel, by decide +kernel, result, fun trips => ?_⟩
  obtain ⟨dst, out, found, value⟩ := trips [0, 0, 0, 0, 0] 5 (by decide +kernel) (by decide)
  cases result.symm.trans found
  exact absurd value (by decide +kernel)

end Mysnips.QueryString

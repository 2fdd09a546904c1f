import Mathlib.Data.Set.List
import Mysnips.GapBufferUtf8

/-! Runes and the symbols that stand for them. The decoder undoes the encoder of the tests, but
it is wider than UTF-8: it also takes the encodings of surrogates, and, because the mask of the
first of four bytes drops one bit too many, encodings whose first byte is eight too large. -/
namespace Mysnips.GapBuffer

/-- The encoding in `generateUTF8String`: one to four bytes, by the range of the rune. -/
def encodeRune (rune : Nat) : List UInt8 :=
  if rune ≤ 0x7f then [UInt8.ofNat rune]
  else if rune ≤ 0x7ff then
    [UInt8.ofNat ((rune >>> 6 &&& 0x1f) ||| 0xc0), UInt8.ofNat ((rune >>> 0 &&& 0x3f) ||| 0x80)]
  else if rune ≤ 0xffff then
    [UInt8.ofNat ((rune >>> 12 &&& 0x0f) ||| 0xe0), UInt8.ofNat ((rune >>> 6 &&& 0x3f) ||| 0x80),
      UInt8.ofNat ((rune >>> 0 &&& 0x3f) ||| 0x80)]
  else
    [UInt8.ofNat ((rune >>> 18 &&& 0x07) ||| 0xf0), UInt8.ofNat ((rune >>> 12 &&& 0x3f) ||| 0x80),
      UInt8.ofNat ((rune >>> 6 &&& 0x3f) ||| 0x80), UInt8.ofNat ((rune >>> 0 &&& 0x3f) ||| 0x80)]

/-- Some number of calls of `getSymbolRune`, each on what the one before has left: the lengths
and runes, and what is left at the end. -/
def decodeRunes : (num : Nat) → List UInt8 → Option (List (Nat × Nat) × List UInt8)
  | 0, str => some ([], str)
  | num + 1, str => do
    let (n, rune) ← getSymbolRune str
    let (decoded, rest) ← decodeRunes num (str.drop n)
    some ((n, rune) :: decoded, rest)

/-! ### Bits -/

theorem or_eq_add {k y : Nat} (a : Nat) (small : y < 2 ^ k) : a * 2 ^ k ||| y = a * 2 ^ k + y := by
  rw [Nat.mul_comm, Nat.two_pow_add_eq_or_of_lt small]

theorem pack_two {a b : Nat} (hb : b < 64) : a <<< 6 ||| b = a * 64 + b := by
  rw [Nat.shiftLeft_eq]
  exact or_eq_add a hb

theorem pack_three {a b c : Nat} (hb : b < 64) (hc : c < 64) :
    a <<< 12 ||| b <<< 6 ||| c = (a * 64 + b) * 64 + c := by
  have first : a <<< 12 ||| b <<< 6 = (a * 64 + b) * 2 ^ 6 := by
    rw [Nat.shiftLeft_eq, Nat.shiftLeft_eq, or_eq_add a (by omega)]
    omega
  rw [first]
  exact or_eq_add _ hc

theorem pack_four {a b c d : Nat} (hb : b < 64) (hc : c < 64) (hd : d < 64) :
    a <<< 18 ||| b <<< 12 ||| c <<< 6 ||| d = ((a * 64 + b) * 64 + c) * 64 + d := by
  have first : a <<< 18 ||| b <<< 12 = (a * 64 + b) * 2 ^ 12 := by
    rw [Nat.shiftLeft_eq, Nat.shiftLeft_eq, or_eq_add a (by omega)]
    omega
  have second : (a * 64 + b) * 2 ^ 12 ||| c <<< 6 = ((a * 64 + b) * 64 + c) * 2 ^ 6 := by
    rw [Nat.shiftLeft_eq, or_eq_add _ (by omega)]
    omega
  rw [first, second]
  exact or_eq_add _ hd

theorem low_six (x : Nat) : x &&& 0x3f = x % 64 := Nat.and_two_pow_sub_one_eq_mod x 6

theorem low_five (x : Nat) : x &&& 0x1f = x % 32 := Nat.and_two_pow_sub_one_eq_mod x 5

theorem low_four (x : Nat) : x &&& 0x0f = x % 16 := Nat.and_two_pow_sub_one_eq_mod x 4

theorem low_three (x : Nat) : x &&& 0x07 = x % 8 := Nat.and_two_pow_sub_one_eq_mod x 3

/-- An auxiliary byte made of six bits. -/
theorem auxiliary_byte : ∀ y < 64, isSymbolAuxiliaryByte (UInt8.ofNat (y ||| 0x80)) = true ∧
    (UInt8.ofNat (y ||| 0x80)).toNat % 64 = y := by decide

theorem lead_two : ∀ y < 32, (UInt8.ofNat (y ||| 0xc0) &&& 0x80 ≠ 0) ∧
    (UInt8.ofNat (y ||| 0xc0) ≥ 0xc0) ∧ ¬ (UInt8.ofNat (y ||| 0xc0) ≥ 0xe0) ∧
    ¬ (UInt8.ofNat (y ||| 0xc0) ≥ 0xf0) ∧ (UInt8.ofNat (y ||| 0xc0)).toNat % 32 = y := by decide

theorem lead_three : ∀ y < 16, (UInt8.ofNat (y ||| 0xe0) &&& 0x80 ≠ 0) ∧
    (UInt8.ofNat (y ||| 0xe0) ≥ 0xe0) ∧ ¬ (UInt8.ofNat (y ||| 0xe0) ≥ 0xf0) ∧
    (UInt8.ofNat (y ||| 0xe0)).toNat % 16 = y := by decide

theorem lead_four : ∀ y < 8, (UInt8.ofNat (y ||| 0xf0) &&& 0x80 ≠ 0) ∧
    (UInt8.ofNat (y ||| 0xf0) ≥ 0xf0) ∧ (UInt8.ofNat (y ||| 0xf0)).toNat % 8 = y := by decide

theorem ascii_byte : ∀ y < 128, ¬ (UInt8.ofNat y &&& 0x80 ≠ 0) ∧ (UInt8.ofNat y).toNat = y := by
  decide

/-! ### Symbols of two to four bytes -/

section Symbols

variable {a b c d : UInt8} {rest : List UInt8}

theorem getSymbolRune_two (high : a &&& 0x80 ≠ 0) (notFour : ¬ a ≥ 0xf0) (notThree : ¬ a ≥ 0xe0)
    (two : a ≥ 0xc0) (second : isSymbolAuxiliaryByte b = true) :
    getSymbolRune (a :: b :: rest) =
      if a.toNat % 32 * 64 + b.toNat % 64 < 0x80 ∨ a.toNat % 32 * 64 + b.toNat % 64 > 0x7ff then none
      else some (2, a.toNat % 32 * 64 + b.toNat % 64) := by
  simp only [getSymbolRune, if_pos high, if_neg notFour, if_neg notThree, if_pos two, if_pos second,
    low_five, low_six, pack_two (Nat.mod_lt b.toNat (show 0 < 64 by decide))]

theorem getSymbolRune_three (high : a &&& 0x80 ≠ 0) (notFour : ¬ a ≥ 0xf0) (three : a ≥ 0xe0)
    (second : isSymbolAuxiliaryByte b = true) (third : isSymbolAuxiliaryByte c = true) :
    getSymbolRune (a :: b :: c :: rest) =
      if (a.toNat % 16 * 64 + b.toNat % 64) * 64 + c.toNat % 64 < 0x0800 ∨
          (a.toNat % 16 * 64 + b.toNat % 64) * 64 + c.toNat % 64 > 0xffff then none
      else some (3, (a.toNat % 16 * 64 + b.toNat % 64) * 64 + c.toNat % 64) := by
  have auxiliary : (isSymbolAuxiliaryByte b && isSymbolAuxiliaryByte c) = true := by
    rw [second, third]
    rfl
  simp only [getSymbolRune, if_pos high, if_neg notFour, if_pos three, if_pos auxiliary, low_four,
    low_six, pack_three (Nat.mod_lt b.toNat (show 0 < 64 by decide))
      (Nat.mod_lt c.toNat (show 0 < 64 by decide))]

theorem getSymbolRune_four (high : a &&& 0x80 ≠ 0) (four : a ≥ 0xf0)
    (second : isSymbolAuxiliaryByte b = true) (third : isSymbolAuxiliaryByte c = true)
    (fourth : isSymbolAuxiliaryByte d = true) :
    getSymbolRune (a :: b :: c :: d :: rest) =
      if ((a.toNat % 8 * 64 + b.toNat % 64) * 64 + c.toNat % 64) * 64 + d.toNat % 64 < 0x010000 ∨
          ((a.toNat % 8 * 64 + b.toNat % 64) * 64 + c.toNat % 64) * 64 + d.toNat % 64 > 0x10ffff then
        none
      else some (4, ((a.toNat % 8 * 64 + b.toNat % 64) * 64 + c.toNat % 64) * 64 + d.toNat % 64) := by
  have auxiliary : (isSymbolAuxiliaryByte b && isSymbolAuxiliaryByte c && isSymbolAuxiliaryByte d) =
      true := by
    rw [second, third, fourth]
    rfl
  simp only [getSymbolRune, if_pos high, if_pos four, if_pos auxiliary, low_three, low_six,
    pack_four (Nat.mod_lt b.toNat (show 0 < 64 by decide))
      (Nat.mod_lt c.toNat (show 0 < 64 by decide)) (Nat.mod_lt d.toNat (show 0 < 64 by decide))]

end Symbols

/-! ### Decoding what was encoded -/

/-- The bytes of an encoded rune, as quotients and remainders. -/
theorem encodeRune_eq (rune : Nat) : encodeRune rune =
    if rune ≤ 0x7f then [UInt8.ofNat rune]
    else if rune ≤ 0x7ff then
      [UInt8.ofNat (rune / 64 % 32 ||| 0xc0), UInt8.ofNat (rune % 64 ||| 0x80)]
    else if rune ≤ 0xffff then
      [UInt8.ofNat (rune / 4096 % 16 ||| 0xe0), UInt8.ofNat (rune / 64 % 64 ||| 0x80),
        UInt8.ofNat (rune % 64 ||| 0x80)]
    else
      [UInt8.ofNat (rune / 262144 % 8 ||| 0xf0), UInt8.ofNat (rune / 4096 % 64 ||| 0x80),
        UInt8.ofNat (rune / 64 % 64 ||| 0x80), UInt8.ofNat (rune % 64 ||| 0x80)] := by
  simp only [encodeRune, low_three, low_four, low_five, low_six, Nat.shiftRight_eq_div_pow,
    Nat.reducePow, Nat.div_one]

/-- The first byte of a symbol, eight larger. -/
def widened : List UInt8 → List UInt8
  | [] => []
  | first :: rest => (first + 8) :: rest

theorem widened_lead : ∀ y < 8, (UInt8.ofNat (y ||| 0xf0) + 8 &&& 0x80 ≠ 0) ∧
    (UInt8.ofNat (y ||| 0xf0) + 8 ≥ 0xf0) ∧ (UInt8.ofNat (y ||| 0xf0) + 8).toNat % 8 = y := by decide

/-- The decoder finds an encoded rune, whatever follows. -/
theorem getSymbolRune_encodeRune {rune : Nat} (inRange : rune ≤ 0x10ffff) (rest : List UInt8) :
    getSymbolRune (encodeRune rune ++ rest) = some ((encodeRune rune).length, rune) := by
  obtain ⟨low, lowBits⟩ := auxiliary_byte (rune % 64) (Nat.mod_lt _ (by decide))
  obtain ⟨middle, middleBits⟩ := auxiliary_byte (rune / 64 % 64) (Nat.mod_lt _ (by decide))
  obtain ⟨upper, upperBits⟩ := auxiliary_byte (rune / 4096 % 64) (Nat.mod_lt _ (by decide))
  rw [encodeRune_eq]
  by_cases one : rune ≤ 0x7f
  · obtain ⟨plain, value⟩ := ascii_byte rune (by omega)
    rw [if_pos one]
    simp only [List.singleton_append, getSymbolRune, if_neg plain, value, List.length_singleton]
  rw [if_neg one]
  by_cases two : rune ≤ 0x7ff
  · obtain ⟨high, lead, notThree, notFour, leadBits⟩ :=
      lead_two (rune / 64 % 32) (Nat.mod_lt _ (by decide))
    rw [if_pos two, List.cons_append, List.cons_append,
      getSymbolRune_two high notFour notThree lead low, leadBits, lowBits, if_neg (by omega)]
    simp only [List.length_cons, List.length_nil, Option.some.injEq, Prod.mk.injEq, true_and]
    omega
  rw [if_neg two]
  by_cases three : rune ≤ 0xffff
  · obtain ⟨high, lead, notFour, leadBits⟩ :=
      lead_three (rune / 4096 % 16) (Nat.mod_lt _ (by decide))
    rw [if_pos three, List.cons_append, List.cons_append, List.cons_append,
      getSymbolRune_three high notFour lead middle low, leadBits, middleBits, lowBits,
      if_neg (by omega)]
    simp only [List.length_cons, List.length_nil, Option.some.injEq, Prod.mk.injEq, true_and]
    omega
  · obtain ⟨high, lead, leadBits⟩ := lead_four (rune / 262144 % 8) (Nat.mod_lt _ (by decide))
    rw [if_neg three, List.cons_append, List.cons_append, List.cons_append, List.cons_append,
      getSymbolRune_four high lead upper middle low, leadBits, upperBits, middleBits, lowBits,
      if_neg (by omega)]
    simp only [List.length_cons, List.length_nil, Option.some.injEq, Prod.mk.injEq, true_and]
    omega

theorem encodeRune_isSymbol {rune : Nat} (inRange : rune ≤ 0x10ffff) : IsSymbol (encodeRune rune) := by
  refine ⟨?_, rune, ?_⟩
  · rw [encodeRune]
    split_ifs <;> exact List.cons_ne_nil _ _
  · have decoded := getSymbolRune_encodeRune inRange []
    rwa [List.append_nil] at decoded

/-- The decoder does not see that the first of four bytes is eight too large. -/
theorem getSymbolRune_widened {rune : Nat} (large : 0x10000 ≤ rune) (inRange : rune ≤ 0x10ffff)
    (rest : List UInt8) : getSymbolRune (widened (encodeRune rune) ++ rest) = some (4, rune) := by
  obtain ⟨low, lowBits⟩ := auxiliary_byte (rune % 64) (Nat.mod_lt _ (by decide))
  obtain ⟨middle, middleBits⟩ := auxiliary_byte (rune / 64 % 64) (Nat.mod_lt _ (by decide))
  obtain ⟨upper, upperBits⟩ := auxiliary_byte (rune / 4096 % 64) (Nat.mod_lt _ (by decide))
  obtain ⟨high, lead, leadBits⟩ := widened_lead (rune / 262144 % 8) (Nat.mod_lt _ (by decide))
  rw [encodeRune_eq, if_neg (by omega), if_neg (by omega), if_neg (by omega), widened,
    List.cons_append, List.cons_append, List.cons_append, List.cons_append,
    getSymbolRune_four high lead upper middle low, leadBits, upperBits, middleBits, lowBits,
    if_neg (by omega)]
  simp only [Option.some.injEq, Prod.mk.injEq, true_and]
  omega

/-- Decoding undoes encoding, in any text: the calls give the runes with their lengths and leave
what follows, a call at the end takes nothing, and the text is accepted. -/
theorem decoding_undoes_encoding {runes : List Nat} (inRange : ∀ rune ∈ runes, rune ≤ 0x10ffff) :
    (∀ rest, decodeRunes runes.length (runes.flatMap encodeRune ++ rest) =
      some (runes.map fun rune => ((encodeRune rune).length, rune), rest)) ∧
      (getSymbolRune []).map Prod.fst = some 0 ∧ isValidUTF8 (runes.flatMap encodeRune) = true := by
  refine ⟨fun rest => ?_, rfl, isValidUTF8_iff.mpr ⟨runes.map encodeRune, ?_, ?_⟩⟩
  · induction runes with
    | nil => rfl
    | cons rune runes ih =>
      obtain ⟨first, others⟩ := List.forall_mem_cons.mp inRange
      rw [List.length_cons, decodeRunes, List.flatMap_cons, List.append_assoc,
        getSymbolRune_encodeRune first]
      simp only [Option.bind_eq_bind, Option.bind_some, List.drop_left, ih others, List.map_cons]
  · intro symbol member
    obtain ⟨rune, isRune, rfl⟩ := List.mem_map.mp member
    exact encodeRune_isSymbol (inRange rune isRune)
  · rw [List.flatMap_def]

/-- One rune of each length, the last of its range. -/
theorem decoding_undoes_encoding_applies :
    isValidUTF8 ([0x7f, 0x7ff, 0xffff, 0x10ffff].flatMap encodeRune) = true ∧
      decodeRunes 4 ([0x7f, 0x7ff, 0xffff, 0x10ffff].flatMap encodeRune ++ [0xff]) =
        some ([(1, 0x7f), (2, 0x7ff), (3, 0xffff), (4, 0x10ffff)], [0xff]) := by
  obtain ⟨decodes, _, valid⟩ := decoding_undoes_encoding
    (show ∀ rune ∈ [0x7f, 0x7ff, 0xffff, 0x10ffff], rune ≤ 0x10ffff by decide)
  exact ⟨valid, decodes [0xff]⟩

/-! ### What the decoder takes -/

set_option maxRecDepth 10000 in
theorem bytes_back : ∀ a : UInt8,
    (isSymbolAuxiliaryByte a = false → ¬ a ≥ 0xc0 → a.toNat < 128) ∧
      (a ≥ 0xc0 → a &&& 0x80 ≠ 0) ∧
      (a ≥ 0xc0 → ¬ a ≥ 0xe0 → UInt8.ofNat (a.toNat % 32 ||| 0xc0) = a) ∧
      (a ≥ 0xe0 → ¬ a ≥ 0xf0 → UInt8.ofNat (a.toNat % 16 ||| 0xe0) = a) ∧
      (a ≥ 0xf0 → UInt8.ofNat (a.toNat % 8 ||| 0xf0) = a ∨ UInt8.ofNat (a.toNat % 8 ||| 0xf0) + 8 = a) ∧
      (isSymbolAuxiliaryByte a = true → UInt8.ofNat (a.toNat % 64 ||| 0x80) = a) := by decide

theorem encodeRune_two {x y : Nat} (large : 0x80 ≤ x % 32 * 64 + y % 64) :
    encodeRune (x % 32 * 64 + y % 64) =
      [UInt8.ofNat (x % 32 ||| 0xc0), UInt8.ofNat (y % 64 ||| 0x80)] := by
  rw [encodeRune_eq, if_neg (by omega), if_pos (by omega)]
  rw [show (x % 32 * 64 + y % 64) / 64 % 32 = x % 32 by omega,
    show (x % 32 * 64 + y % 64) % 64 = y % 64 by omega]

theorem encodeRune_three {x y z : Nat} (large : 0x0800 ≤ (x % 16 * 64 + y % 64) * 64 + z % 64) :
    encodeRune ((x % 16 * 64 + y % 64) * 64 + z % 64) =
      [UInt8.ofNat (x % 16 ||| 0xe0), UInt8.ofNat (y % 64 ||| 0x80), UInt8.ofNat (z % 64 ||| 0x80)] := by
  rw [encodeRune_eq, if_neg (by omega), if_neg (by omega), if_pos (by omega)]
  rw [show ((x % 16 * 64 + y % 64) * 64 + z % 64) / 4096 % 16 = x % 16 by omega,
    show ((x % 16 * 64 + y % 64) * 64 + z % 64) / 64 % 64 = y % 64 by omega,
    show ((x % 16 * 64 + y % 64) * 64 + z % 64) % 64 = z % 64 by omega]

theorem encodeRune_four {x y z w : Nat}
    (large : 0x010000 ≤ ((x % 8 * 64 + y % 64) * 64 + z % 64) * 64 + w % 64) :
    encodeRune (((x % 8 * 64 + y % 64) * 64 + z % 64) * 64 + w % 64) =
      [UInt8.ofNat (x % 8 ||| 0xf0), UInt8.ofNat (y % 64 ||| 0x80), UInt8.ofNat (z % 64 ||| 0x80),
        UInt8.ofNat (w % 64 ||| 0x80)] := by
  rw [encodeRune_eq, if_neg (by omega), if_neg (by omega), if_neg (by omega)]
  rw [show (((x % 8 * 64 + y % 64) * 64 + z % 64) * 64 + w % 64) / 262144 % 8 = x % 8 by omega,
    show (((x % 8 * 64 + y % 64) * 64 + z % 64) * 64 + w % 64) / 4096 % 64 = y % 64 by omega,
    show (((x % 8 * 64 + y % 64) * 64 + z % 64) * 64 + w % 64) / 64 % 64 = z % 64 by omega,
    show (((x % 8 * 64 + y % 64) * 64 + z % 64) * 64 + w % 64) % 64 = w % 64 by omega]

/-- A symbol is an encoded rune, a surrogate among them, or has a first byte that is eight too
large. -/
theorem IsSymbol.rune {symbol : List UInt8} (isSymbol : IsSymbol symbol) :
    (∃ rune, rune ≤ 0x10ffff ∧ symbol = encodeRune rune) ∨
      ∃ rune, 0x10000 ≤ rune ∧ rune ≤ 0x10ffff ∧ symbol = widened (encodeRune rune) := by
  obtain ⟨a, tail, rfl, leads, length, others⟩ := isSymbol.word
  obtain ⟨-, rune, taken⟩ := isSymbol
  obtain ⟨ascii, high, two, three, four, -⟩ := bytes_back a
  have auxiliary : ∀ byte ∈ tail, isSymbolAuxiliaryByte byte = true := by
    intro byte member
    simpa [utf8] using others byte member
  have last : ∀ byte ∈ tail, UInt8.ofNat (byte.toNat % 64 ||| 0x80) = byte := fun byte member =>
    (bytes_back byte).2.2.2.2.2 (auxiliary byte member)
  simp only [utf8, getSymbolLengthFromFirstByte, List.length_cons] at length
  by_cases isFour : a ≥ 0xf0
  · have large : a ≥ 0xc0 := UInt8.le_trans (by decide) isFour
    rw [if_pos isFour] at length
    obtain ⟨b, c, d, rfl⟩ := List.length_eq_three.mp (Nat.succ.inj length)
    simp only [List.forall_mem_cons] at auxiliary last
    rw [getSymbolRune_four (high large) isFour auxiliary.1 auxiliary.2.1 auxiliary.2.2.1] at taken
    split at taken
    · cases taken
    · rename_i inRange
      refine (four isFour).imp (fun same => ?_) fun same => ?_
      · refine ⟨_, Nat.le_of_not_lt fun above => inRange (.inr above), ?_⟩
        rw [encodeRune_four (by omega), same, last.1, last.2.1, last.2.2.1]
      · refine ⟨_, Nat.le_of_not_lt fun under => inRange (.inl under),
          Nat.le_of_not_lt fun above => inRange (.inr above), ?_⟩
        rw [encodeRune_four (by omega), widened, same, last.1, last.2.1, last.2.2.1]
  rw [if_neg isFour] at length
  by_cases isThree : a ≥ 0xe0
  · have large : a ≥ 0xc0 := UInt8.le_trans (by decide) isThree
    rw [if_pos isThree] at length
    obtain ⟨b, c, rfl⟩ := List.length_eq_two.mp (Nat.succ.inj length)
    simp only [List.forall_mem_cons] at auxiliary last
    rw [getSymbolRune_three (high large) isFour isThree auxiliary.1 auxiliary.2.1] at taken
    split at taken
    · cases taken
    · refine .inl ⟨(a.toNat % 16 * 64 + b.toNat % 64) * 64 + c.toNat % 64, by omega, ?_⟩
      rw [encodeRune_three (by omega), three isThree isFour, last.1, last.2.1]
  rw [if_neg isThree] at length
  by_cases isTwo : a ≥ 0xc0
  · rw [if_pos isTwo] at length
    obtain ⟨b, rfl⟩ := List.length_eq_one_iff.mp (Nat.succ.inj length)
    simp only [List.forall_mem_cons] at auxiliary last
    rw [getSymbolRune_two (high isTwo) isFour isThree isTwo auxiliary.1] at taken
    split at taken
    · cases taken
    · refine .inl ⟨a.toNat % 32 * 64 + b.toNat % 64, by omega, ?_⟩
      rw [encodeRune_two (by omega), two isTwo isThree, last.1]
  · rw [if_neg isTwo] at length
    cases List.eq_nil_of_length_eq_zero (Nat.succ.inj length)
    have small := ascii (by simpa [utf8] using leads) isTwo
    refine .inl ⟨a.toNat, by omega, ?_⟩
    rw [encodeRune_eq, if_pos (by omega), UInt8.ofNat_toNat]

theorem encodeRune_large {rune : Nat} (large : 0x10000 ≤ rune) : ∃ first rest,
    encodeRune rune = first :: rest ∧ rest.length = 3 := by
  rw [encodeRune_eq, if_neg (by omega), if_neg (by omega), if_neg (by omega)]
  exact ⟨_, _, rfl, rfl⟩

theorem widened_isSymbol {rune : Nat} (large : 0x10000 ≤ rune) (inRange : rune ≤ 0x10ffff) :
    IsSymbol (widened (encodeRune rune)) := by
  have decoded := getSymbolRune_widened large inRange []
  obtain ⟨first, rest, shape, length⟩ := encodeRune_large large
  rw [List.append_nil] at decoded
  rw [shape, widened] at decoded ⊢
  refine ⟨List.cons_ne_nil _ _, rune, ?_⟩
  rw [decoded, List.length_cons, length]

/-! ### UTF-8 -/

/-- A string is UTF-8: the encodings of some Unicode scalar values, one behind the other. -/
def WellFormed (str : List UInt8) : Prop :=
  ∃ chars : List Char, chars.flatMap String.utf8EncodeChar = str

/-- The encoding of a surrogate, or of a scalar value in four bytes with `0xf8` to `0xfc` where
`0xf0` to `0xf4` should be. -/
def Slips (piece : List UInt8) : Prop :=
  (∃ rune, 0xd800 ≤ rune ∧ rune ≤ 0xdfff ∧ piece = encodeRune rune) ∨
    ∃ rune, 0x10000 ≤ rune ∧ rune ≤ 0x10ffff ∧ piece = widened (encodeRune rune)

/-- A string is UTF-8 but for some pieces of it. -/
def Slipped (str : List UInt8) : Prop :=
  ∃ pieces : List (List UInt8), pieces.flatten = str ∧
    (∀ piece ∈ pieces, (∃ char, piece = String.utf8EncodeChar char) ∨ Slips piece) ∧
    ∃ piece ∈ pieces, Slips piece

/-- What validation promises: exactly UTF-8 is accepted, and nothing else is inserted. -/
def ValidatesExactly (str : List UInt8) : Prop :=
  (isValidUTF8 str = true ↔ WellFormed str) ∧
    ∀ buff buff', insertString buff str = some (buff', true) → WellFormed str

theorem encodeRune_char (char : Char) : encodeRune char.toNat = String.utf8EncodeChar char := by
  have five : ∀ y < 32, UInt8.ofNat (y ||| 0xc0) = UInt8.ofNat (y + 0xc0) := by decide
  have four : ∀ y < 16, UInt8.ofNat (y ||| 0xe0) = UInt8.ofNat (y + 0xe0) := by decide
  have three : ∀ y < 8, UInt8.ofNat (y ||| 0xf0) = UInt8.ofNat (y + 0xf0) := by decide
  have six : ∀ y < 64, UInt8.ofNat (y ||| 0x80) = UInt8.ofNat (y + 0x80) := by decide
  rw [encodeRune_eq, five _ (Nat.mod_lt _ (by decide)), four _ (Nat.mod_lt _ (by decide)),
    three _ (Nat.mod_lt _ (by decide)), six _ (Nat.mod_lt (char.toNat) (by decide)),
    six _ (Nat.mod_lt (char.toNat / 64) (by decide)),
    six _ (Nat.mod_lt (char.toNat / 4096) (by decide))]
  rfl

theorem char_of_scalar {rune : Nat} (inRange : rune ≤ 0x10ffff)
    (scalar : ¬ (0xd800 ≤ rune ∧ rune ≤ 0xdfff)) : ∃ char : Char, char.toNat = rune := by
  have valid : rune.isValidChar := by
    rw [Nat.isValidChar]
    omega
  refine ⟨Char.ofNat rune, ?_⟩
  rw [Char.ofNat, dif_pos valid]
  rfl

theorem char_le (char : Char) :
    char.toNat ≤ 0x10ffff ∧ ¬ (0xd800 ≤ char.toNat ∧ char.toNat ≤ 0xdfff) := by
  have valid : char.toNat.isValidChar := char.valid
  rw [Nat.isValidChar] at valid
  omega

/-- The symbols are the encodings of characters and the pieces that slip through. -/
theorem isSymbol_iff {symbol : List UInt8} :
    IsSymbol symbol ↔ (∃ char, symbol = String.utf8EncodeChar char) ∨ Slips symbol := by
  constructor
  · intro isSymbol
    rcases isSymbol.rune with ⟨rune, inRange, rfl⟩ | wide
    · by_cases surrogate : 0xd800 ≤ rune ∧ rune ≤ 0xdfff
      · exact .inr (.inl ⟨rune, surrogate.1, surrogate.2, rfl⟩)
      · obtain ⟨char, rfl⟩ := char_of_scalar inRange surrogate
        exact .inl ⟨char, encodeRune_char char⟩
    · exact .inr (.inr wide)
  · rintro (⟨char, rfl⟩ | ⟨rune, -, last, rfl⟩ | ⟨rune, large, inRange, rfl⟩)
    · rw [← encodeRune_char]
      exact encodeRune_isSymbol (char_le char).1
    · exact encodeRune_isSymbol (by omega)
    · exact widened_isSymbol large inRange

/-- No character has an encoding that slips through. -/
theorem Slips.not_char {piece : List UInt8} (slips : Slips piece) (char : Char) :
    piece ≠ String.utf8EncodeChar char := by
  intro same
  obtain ⟨inRange, scalar⟩ := char_le char
  have decoded := getSymbolRune_encodeRune inRange []
  rw [encodeRune_char, ← same] at decoded
  rcases slips with ⟨rune, first, last, rfl⟩ | ⟨rune, large, last, rfl⟩
  · rw [getSymbolRune_encodeRune (by omega)] at decoded
    cases decoded
    exact scalar ⟨first, last⟩
  · -- Both decode to the same rune, so that only the first byte could tell them apart.
    rw [getSymbolRune_widened large last] at decoded
    have rune_eq : rune = char.toNat := (Prod.mk.inj (Option.some.inj decoded)).2
    subst rune_eq
    obtain ⟨first, rest, shape, -⟩ := encodeRune_large large
    rw [← encodeRune_char, shape, widened] at same
    exact absurd (UInt8.add_eq_left.mp (List.cons.inj same).1) (by decide)

theorem chars_areSymbols (chars : List Char) :
    ∀ symbol ∈ chars.map String.utf8EncodeChar, IsSymbol symbol := by
  intro symbol member
  obtain ⟨char, -, rfl⟩ := List.mem_map.mp member
  exact isSymbol_iff.mpr (.inl ⟨char, rfl⟩)

/-- A string with a piece that slips through is accepted, and is not UTF-8: it has only one
division into symbols. -/
theorem Slipped.accepted {str : List UInt8} (slipped : Slipped str) :
    isValidUTF8 str = true ∧ ¬ WellFormed str := by
  obtain ⟨pieces, rfl, allowed, piece, member, slips⟩ := slipped
  have areSymbols : ∀ piece ∈ pieces, IsSymbol piece := fun piece member =>
    isSymbol_iff.mpr (allowed piece member)
  refine ⟨isValidUTF8_iff.mpr ⟨pieces, areSymbols, rfl⟩, ?_⟩
  rintro ⟨chars, spelled⟩
  have same : chars.map String.utf8EncodeChar = pieces := by
    rw [← symbols_flatten (chars_areSymbols chars), ← symbols_flatten areSymbols, ← spelled,
      List.flatMap_def]
  rw [← same] at member
  obtain ⟨char, -, isChar⟩ := List.mem_map.mp member
  exact slips.not_char char isChar.symm

/-- Any other string that is accepted is UTF-8. -/
theorem wellFormed_of_accepted {str : List UInt8} (unslipped : ¬ Slipped str)
    (valid : isValidUTF8 str = true) : WellFormed str := by
  obtain ⟨text, areSymbols, rfl⟩ := isValidUTF8_iff.mp valid
  have areChars : ∀ symbol ∈ text, ∃ char, String.utf8EncodeChar char = symbol := by
    intro symbol member
    rcases isSymbol_iff.mp (areSymbols symbol member) with ⟨char, rfl⟩ | slips
    · exact ⟨char, rfl⟩
    · exact absurd ⟨text, rfl, fun piece inside => isSymbol_iff.mp (areSymbols piece inside),
        symbol, member, slips⟩ unslipped
  obtain ⟨chars, rfl⟩ : text ∈ Set.range (List.map String.utf8EncodeChar) := by
    rw [Set.range_list_map]
    exact areChars
  exact ⟨chars, List.flatMap_def⟩

/-- Validation is exact except on strings that are UTF-8 but for surrogates and for first bytes
that are eight too large. -/
theorem validatesExactly_iff (str : List UInt8) : ValidatesExactly str ↔ ¬ Slipped str := by
  constructor
  · rintro ⟨exact, -⟩ slipped
    obtain ⟨valid, illFormed⟩ := slipped.accepted
    exact illFormed (exact.mp valid)
  · intro unslipped
    refine ⟨⟨wellFormed_of_accepted unslipped, ?_⟩, fun buff buff' inserted => ?_⟩
    · rintro ⟨chars, rfl⟩
      exact isValidUTF8_iff.mpr ⟨_, chars_areSymbols chars, List.flatMap_def.symm⟩
    · apply wellFormed_of_accepted unslipped
      by_contra invalid
      rw [insertString, if_neg invalid] at inserted
      cases inserted

/-- The surrogate `U+D800`, and `U+10000` with `0xf8` as its first byte. -/
theorem surrogate_validates : isValidUTF8 [0xed, 0xa0, 0x80] = true ∧
    ¬ ValidatesExactly [0xed, 0xa0, 0x80] ∧ isValidUTF8 [0xf8, 0x90, 0x80, 0x80] = true ∧
    ¬ ValidatesExactly [0xf8, 0x90, 0x80, 0x80] := by
  have one : ∀ piece, Slips piece → Slipped piece := fun piece slips =>
    ⟨[piece], by simp, by simp [slips], piece, by simp, slips⟩
  have surrogate : Slipped [0xed, 0xa0, 0x80] := one _ (.inl ⟨0xd800, by decide⟩)
  have wide : Slipped [0xf8, 0x90, 0x80, 0x80] := one _ (.inr ⟨0x10000, by decide⟩)
  refine ⟨surrogate.accepted.1, fun exact => ?_, wide.accepted.1, fun exact => ?_⟩
  · exact surrogate.accepted.2 (exact.1.mp surrogate.accepted.1)
  · exact wide.accepted.2 (exact.1.mp wide.accepted.1)

end Mysnips.GapBuffer

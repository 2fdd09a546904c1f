import Mathlib.Data.Nat.Bitwise
import Mathlib.Tactic.Common
import Mathlib.Tactic.IntervalCases

/-! Handles of the TCP module. A handle packs an object type, a parent server
index, an object index and a generation into 32 bits; the low bit is left at zero
so that the handle with all bits set is free to mean "no object". -/
namespace Mysnips.TcpHandle

/-- The fields of a handle, `uint32_t` each. -/
structure Fields where
  sdx : UInt32
  idx : UInt32
  gen : UInt32
  typ : UInt32
  deriving DecidableEq, Repr

def genUpperBoundLog2 : UInt32 := 12

def genUpperBound : UInt32 := 1 <<< genUpperBoundLog2

def genMask : UInt32 := genUpperBound - 1

/-- `TCP_INVALID`, all bits set. -/
def tcpInvalid : UInt32 := ~~~0

/-- `pack_handle`. A field that fails its assertion has no result. -/
def packHandle (f : Fields) : Option UInt32 :=
  if f.typ < (1 : UInt32) <<< 1 ∧ f.sdx < (1 : UInt32) <<< 4 ∧ f.idx < (1 : UInt32) <<< 14 ∧
      f.gen < genUpperBound then
    some ((f.typ <<< 31) ||| (f.sdx <<< 27) ||| (f.idx <<< 12) ||| (f.gen <<< 1))
  else none

/-- `unpack_handle`. -/
def unpackHandle (handle : UInt32) : Fields where
  typ := handle >>> 31
  sdx := (handle >>> 27) &&& 0xF
  idx := (handle >>> 12) &&& 0x3FFF
  gen := (handle >>> 1) &&& genMask

/-- The field widths that the layout announces. -/
def InRange (f : Fields) : Prop :=
  f.sdx.toNat < 2 ^ 4 ∧ f.idx.toNat < 2 ^ 14 ∧ f.gen.toNat < 2 ^ 12 ∧ f.typ.toNat < 2

instance (f : Fields) : Decidable (InRange f) := inferInstanceAs (Decidable (_ ∧ _))

/-- The packing is lossless at a tuple: the tuple comes back from its handle, no other
tuple has that handle, and the handle is not `TCP_INVALID`. -/
def Lossless (f : Fields) : Prop :=
  ∃ handle, packHandle f = some handle ∧ unpackHandle handle = f ∧
    (∀ g, InRange g → packHandle g = some handle → g = f) ∧ handle ≠ tcpInvalid

private theorem or_bit {a b : Nat} (small : a < 2) (small' : b < 2) : a ||| b = max a b := by
  interval_cases a <;> interval_cases b <;> rfl

private theorem shift_or {low k : Nat} (narrow : low < 2 ^ k) (high : Nat) :
    high <<< k ||| low = high * 2 ^ k + low := by
  rw [← Nat.shiftLeft_add_eq_or_of_lt narrow, Nat.shiftLeft_eq]

/-- The bits below the server index. The index is shifted by 12 and not by 13, so
its lowest bit and the highest bit of the generation share bit 12. -/
private theorem shared_bit (idx : Nat) {gen : Nat} (narrow : gen < 2 ^ 12) :
    idx <<< 12 ||| gen <<< 1 =
      idx / 2 * 2 ^ 13 + (max (idx % 2) (gen / 2048) * 2 ^ 12 + gen % 2048 * 2) := by
  have low : gen % 2048 * 2 < 2 ^ 12 := by omega
  have bit : (idx % 2) <<< 12 < 2 ^ 13 := by
    rw [Nat.shiftLeft_eq]
    omega
  have indexBits : idx <<< 12 = (idx / 2) <<< 13 ||| (idx % 2) <<< 12 := by
    rw [shift_or bit, Nat.shiftLeft_eq, Nat.shiftLeft_eq]
    omega
  have generationBits : gen <<< 1 = (gen / 2048) <<< 12 ||| gen % 2048 * 2 := by
    rw [shift_or low, Nat.shiftLeft_eq]
    omega
  have joined : idx % 2 ||| gen / 2048 = max (idx % 2) (gen / 2048) :=
    or_bit (Nat.mod_lt _ (by decide)) (by omega)
  calc idx <<< 12 ||| gen <<< 1
      = (idx / 2) <<< 13 ||| ((idx % 2 ||| gen / 2048) <<< 12 ||| gen % 2048 * 2) := by
        rw [indexBits, generationBits, Nat.shiftLeft_or_distrib]
        simp only [Nat.or_assoc]
    _ = (idx / 2) <<< 13 ||| (max (idx % 2) (gen / 2048) * 2 ^ 12 + gen % 2048 * 2) := by
        rw [joined, shift_or low]
    _ = _ := shift_or (by omega) _

/-- The value of the four shifted fields together. -/
private theorem fields_value {sdx idx gen : Nat} (typ : Nat) (server : sdx < 2 ^ 4)
    (index : idx < 2 ^ 14) (generation : gen < 2 ^ 12) :
    typ <<< 31 ||| (sdx <<< 27 ||| (idx <<< 12 ||| gen <<< 1)) =
      typ * 2 ^ 31 + (sdx * 2 ^ 27 + (idx / 2 * 2 ^ 13 +
        (max (idx % 2) (gen / 2048) * 2 ^ 12 + gen % 2048 * 2))) := by
  rw [shared_bit idx generation, shift_or (by omega) sdx, shift_or (by omega) typ]

private theorem shift_fits {a : Nat} (k : Nat) {n : Nat} (narrow : a < 2 ^ n) (fits : n + k ≤ 32) :
    a <<< k % 2 ^ 32 = a <<< k := by
  apply Nat.mod_eq_of_lt
  calc a <<< k = a * 2 ^ k := Nat.shiftLeft_eq a k
    _ < 2 ^ n * 2 ^ k := Nat.mul_lt_mul_of_pos_right narrow (Nat.two_pow_pos k)
    _ = 2 ^ (n + k) := (Nat.pow_add 2 n k).symm
    _ ≤ 2 ^ 32 := Nat.pow_le_pow_right (by decide) fits

/-- The value of the handle of a tuple. -/
theorem packHandle_value {f : Fields} (range : InRange f) :
    ∃ handle, packHandle f = some handle ∧
      handle.toNat = f.typ.toNat * 2 ^ 31 + (f.sdx.toNat * 2 ^ 27 + (f.idx.toNat / 2 * 2 ^ 13 +
        (max (f.idx.toNat % 2) (f.gen.toNat / 2048) * 2 ^ 12 + f.gen.toNat % 2048 * 2))) := by
  obtain ⟨server, index, generation, kind⟩ := range
  refine ⟨_, if_pos ?_, ?_⟩
  · simp only [UInt32.lt_iff_toNat_lt]
    exact ⟨kind, server, index, generation⟩
  · rw [← fields_value f.typ.toNat server index generation]
    simp only [UInt32.toNat_or, UInt32.toNat_shiftLeft, UInt32.reduceToNat, Nat.reduceMod,
      Nat.or_assoc]
    rw [shift_fits 31 (n := 1) kind (by decide), shift_fits 27 server (by decide),
      shift_fits 12 index (by decide), shift_fits 1 generation (by decide)]

/-- The fields read from a handle. -/
private theorem unpackHandle_value (handle : UInt32) :
    (unpackHandle handle).typ.toNat = handle.toNat / 2 ^ 31 ∧
      (unpackHandle handle).sdx.toNat = handle.toNat / 2 ^ 27 % 2 ^ 4 ∧
      (unpackHandle handle).idx.toNat = handle.toNat / 2 ^ 12 % 2 ^ 14 ∧
      (unpackHandle handle).gen.toNat = handle.toNat / 2 % 2 ^ 12 := by
  refine ⟨?_, ?_, ?_, ?_⟩
  · simp [unpackHandle, Nat.shiftRight_eq_div_pow]
  · have mask : (0xF : UInt32).toNat = 2 ^ 4 - 1 := rfl
    simp only [unpackHandle, UInt32.toNat_and, mask, Nat.and_two_pow_sub_one_eq_mod]
    simp [Nat.shiftRight_eq_div_pow]
  · have mask : (0x3FFF : UInt32).toNat = 2 ^ 14 - 1 := rfl
    simp only [unpackHandle, UInt32.toNat_and, mask, Nat.and_two_pow_sub_one_eq_mod]
    simp [Nat.shiftRight_eq_div_pow]
  · have mask : genMask.toNat = 2 ^ 12 - 1 := rfl
    simp only [unpackHandle, UInt32.toNat_and, mask, Nat.and_two_pow_sub_one_eq_mod]
    simp [Nat.shiftRight_eq_div_pow]

private theorem fields_eq_iff {f g : Fields} :
    f = g ↔ f.sdx.toNat = g.sdx.toNat ∧ f.idx.toNat = g.idx.toNat ∧
      f.gen.toNat = g.gen.toNat ∧ f.typ.toNat = g.typ.toNat := by
  cases f
  cases g
  simp only [Fields.mk.injEq, UInt32.toNat_inj]

/-- The low bit is zero, so no tuple has the reserved handle. -/
private theorem packHandle_ne_invalid {f : Fields} {handle : UInt32} (range : InRange f)
    (packed : packHandle f = some handle) : handle ≠ tcpInvalid := by
  obtain ⟨word, result, value⟩ := packHandle_value range
  cases result.symm.trans packed
  intro reserved
  have all : tcpInvalid.toNat = 2 ^ 32 - 1 := rfl
  rw [reserved, all] at value
  omega

theorem inRange_of_packed {f : Fields} {handle : UInt32} (packed : packHandle f = some handle) :
    InRange f := by
  unfold packHandle at packed
  split at packed
  · rename_i asserted
    simp only [UInt32.lt_iff_toNat_lt] at asserted
    exact ⟨asserted.2.1, asserted.2.2.1, asserted.2.2.2, asserted.1⟩
  · cases packed

/-- What is read back from the handle of a tuple. -/
structure ReadsBack (f : Fields) (handle : UInt32) : Prop where
  valid : handle ≠ tcpInvalid
  typ : (unpackHandle handle).typ.toNat = f.typ.toNat
  sdx : (unpackHandle handle).sdx.toNat = f.sdx.toNat
  idx : (unpackHandle handle).idx.toNat =
    f.idx.toNat / 2 * 2 + max (f.idx.toNat % 2) (f.gen.toNat / 2048)
  gen : (unpackHandle handle).gen.toNat =
    max (f.idx.toNat % 2) (f.gen.toNat / 2048) * 2048 + f.gen.toNat % 2048

/-- The fields of a word whose bits are split where a handle is read. -/
private theorem word_fields {typ sdx half bit low word : Nat} (server : sdx < 2 ^ 4)
    (index : half < 2 ^ 13) (one : bit < 2) (narrow : low < 2 ^ 11)
    (value : word = typ * 2 ^ 31 + (sdx * 2 ^ 27 + (half * 2 ^ 13 + (bit * 2 ^ 12 + low * 2)))) :
    word / 2 ^ 31 = typ ∧ word / 2 ^ 27 % 2 ^ 4 = sdx ∧ word / 2 ^ 12 % 2 ^ 14 = half * 2 + bit ∧
      word / 2 % 2 ^ 12 = bit * 2048 + low := by
  refine ⟨?_, ?_, ?_, ?_⟩ <;> omega

theorem packHandle_readsBack {f : Fields} {handle : UInt32} (packed : packHandle f = some handle) :
    ReadsBack f handle := by
  have range := inRange_of_packed packed
  obtain ⟨word, result, value⟩ := packHandle_value range
  cases result.symm.trans packed
  have valid := packHandle_ne_invalid range packed
  obtain ⟨server, index, generation, kind⟩ := range
  obtain ⟨typ, sdx, idx, gen⟩ := unpackHandle_value handle
  have half : f.idx.toNat / 2 < 2 ^ 13 := by omega
  have bit : max (f.idx.toNat % 2) (f.gen.toNat / 2048) < 2 := by omega
  have low : f.gen.toNat % 2048 < 2 ^ 11 := Nat.mod_lt _ (by decide)
  obtain ⟨typ', sdx', idx', gen'⟩ := word_fields server half bit low value
  exact ⟨valid, typ.trans typ', sdx.trans sdx', idx.trans idx', gen.trans gen'⟩

/-- A tuple comes back from its handle exactly when the two bits that share bit 12
agree. -/
private theorem unpack_pack_iff {f : Fields} {handle : UInt32} (range : InRange f)
    (packed : packHandle f = some handle) :
    unpackHandle handle = f ↔ f.idx.toNat % 2 = f.gen.toNat / 2048 := by
  have back := packHandle_readsBack packed
  have generation := range.2.2.1
  rw [fields_eq_iff, back.typ, back.sdx, back.idx, back.gen]
  omega

/-- Where bit 12 is clear the handle determines the tuple. -/
private theorem pack_injective_at {f g : Fields} {handle : UInt32}
    (packed : packHandle f = some handle) (packed' : packHandle g = some handle)
    (even : f.idx.toNat % 2 = 0) (young : f.gen.toNat < 2048) : g = f := by
  have back := packHandle_readsBack packed
  have back' := packHandle_readsBack packed'
  have index := back'.idx.symm.trans back.idx
  have generation := back'.gen.symm.trans back.gen
  rw [fields_eq_iff]
  refine ⟨back'.sdx.symm.trans back.sdx, ?_, ?_, back'.typ.symm.trans back.typ⟩
  · omega
  · omega

/-- Where both bits are set, the tuple with the younger generation has the same
handle. -/
private theorem pack_collides {f : Fields} (range : InRange f) (odd : f.idx.toNat % 2 = 1)
    (old : 2048 ≤ f.gen.toNat) :
    ∃ g, InRange g ∧ packHandle g = packHandle f ∧ g ≠ f := by
  have younger : (f.gen - 2048).toNat = f.gen.toNat - 2048 :=
    UInt32.toNat_sub_of_le _ _ (UInt32.le_iff_toNat_le.mpr old)
  have range' : InRange { f with gen := f.gen - 2048 } := by
    refine ⟨range.1, range.2.1, ?_, range.2.2.2⟩
    rw [younger]
    exact Nat.lt_of_le_of_lt (Nat.sub_le _ _) range.2.2.1
  refine ⟨_, range', ?_, ?_⟩
  · obtain ⟨word, packed, value⟩ := packHandle_value range
    obtain ⟨word', packed', value'⟩ := packHandle_value range'
    rw [packed, packed']
    congr 1
    apply UInt32.toNat_inj.mp
    have narrow := range.2.2.1
    simp only [younger] at value'
    rw [value, value']
    omega
  · intro same
    have generations := (fields_eq_iff.mp same).2.2.1
    rw [younger] at generations
    omega

/-- No handle is `TCP_INVALID`, and a tuple comes back from its handle exactly when
the lowest bit of its index equals the highest bit of its generation; the packing
is lossless at the tuple exactly when both bits are clear. -/
theorem pack_lossless_iff {f : Fields} (range : InRange f) :
    (Lossless f ↔ f.idx.toNat % 2 = 0 ∧ f.gen.toNat < 2048) ∧
      ∃ handle, packHandle f = some handle ∧ handle ≠ tcpInvalid ∧
        (unpackHandle handle = f ↔ f.idx.toNat % 2 = f.gen.toNat / 2048) := by
  obtain ⟨handle, packed, -⟩ := packHandle_value range
  have reserved := packHandle_ne_invalid range packed
  have returns := unpack_pack_iff range packed
  refine ⟨⟨?_, ?_⟩, handle, packed, reserved, returns⟩
  · rintro ⟨word, packed', back, only, -⟩
    cases packed.symm.trans packed'
    have agree := returns.mp back
    have narrow := range.2.2.1
    by_cases old : 2048 ≤ f.gen.toNat
    · obtain ⟨g, range', same, different⟩ := pack_collides range (by omega) old
      exact absurd (only g range' (same.trans packed)) different
    · omega
  · rintro ⟨even, young⟩
    refine ⟨handle, packed, returns.mpr (by omega), ?_, reserved⟩
    intro g _ packed'
    exact pack_injective_at packed packed' even young

/-- A client in an even slot with a young generation. -/
theorem pack_lossless_at_even_slot :
    InRange ⟨1, 6, 2047, 0⟩ ∧ Lossless ⟨1, 6, 2047, 0⟩ :=
  ⟨by decide, (pack_lossless_iff (by decide)).1.mpr (by decide)⟩

/-- The first client of a server in slot 1: its handle comes back with generation
2048, and it is also the handle of slot 0 at generation 2048. -/
theorem odd_slot_collides :
    InRange ⟨1, 1, 0, 0⟩ ∧ InRange ⟨1, 0, 2048, 0⟩ ∧
      packHandle ⟨1, 1, 0, 0⟩ = some 0x08001000 ∧ packHandle ⟨1, 0, 2048, 0⟩ = some 0x08001000 ∧
      unpackHandle 0x08001000 = ⟨1, 1, 2048, 0⟩ ∧ ¬ Lossless ⟨1, 1, 0, 0⟩ := by
  refine ⟨by decide, by decide, by decide, by decide, by decide, ?_⟩
  rintro ⟨handle, packed, back, -, -⟩
  have known : packHandle ⟨1, 1, 0, 0⟩ = some 0x08001000 := by decide
  cases known.symm.trans packed
  exact absurd back (by decide)

end Mysnips.TcpHandle

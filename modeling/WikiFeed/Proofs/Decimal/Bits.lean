import Mathlib
import WikiFeed.Proofs.Decimal.Nearest

-- no smaller part of Mathlib has the lemmas on `Float.toBits` and `pack_unpack`

/-! # Doubles by their bits

A double is its bits: a sign, eleven bits of exponent and 52 bits of mantissa, with one pattern for
what is not a number. `HasBits x negative b` says that `x` is a finite double with a sign and with
bits `b` besides. Finite bits are kept as they are when they become a double (`hasBits_ofBits`), and
the opposite of a double has the other sign and the same bits (`HasBits.neg`). With that the exact
operations are statements about `magnitude`: a fraction that has bits is represented exactly
(`hasBits_nearestSigned`), and the parts of a double are those of its bits (`HasBits.parts_eq`). -/

namespace WikiFeed.Decimal

open Float.Model (Format UnpackedFloat)
open Float.Model.UnpackedFloat (Sign packComponents unpackMantissa unpackExponent unpackSign)

def bitsOf (x : Float) : Nat := x.toBits.toNat

variable {x y : Float}

theorem eq_of_bitsOf_eq (h : bitsOf x = bitsOf y) : x = y :=
  Float.toBits_inj.mp (UInt64.toNat_inj.mp h)

def signBit (negative : Bool) : Nat := if negative then 2 ^ 63 else 0

def beyond : Nat := 2047 * 2 ^ 52

/-- A finite double with a sign and bits. -/
structure HasBits (x : Float) (negative : Bool) (b : Nat) : Prop where
  finite : b < beyond
  bits : bitsOf x = signBit negative + b

/-! ### Fields of 64 bits -/

def signOf (negative : Bool) : Sign := if negative then .negative else .positive

theorem toNat_signOf (negative : Bool) :
    (signOf negative).toBitVec.toNat * 2 ^ 63 = signBit negative := by
  cases negative <;> rfl

theorem neg_signOf (negative : Bool) : -signOf negative = signOf (!negative) := by
  cases negative <;> rfl

theorem toNat_packComponents (negative : Bool) (e : BitVec 11) (m : BitVec 52) :
    (packComponents Format.binary64 (signOf negative) e m).toNat =
      signBit negative + e.toNat * 2 ^ 52 + m.toNat := by
  unfold packComponents
  rw [BitVec.toNat_append, BitVec.toNat_append, ← Nat.shiftLeft_add_eq_or_of_lt e.isLt,
    ← Nat.shiftLeft_add_eq_or_of_lt m.isLt, Nat.shiftLeft_eq, Nat.shiftLeft_eq, ← toNat_signOf]
  ring

section Fields

variable {v : BitVec 64} {negative : Bool} {b : Nat} (hv : v.toNat = signBit negative + b)
include hv

theorem toNat_unpackMantissa : (@unpackMantissa Format.binary64 v).toNat = b % 2 ^ 52 := by
  have : (@unpackMantissa Format.binary64 v).toNat = v.toNat % 2 ^ 52 := by simp [unpackMantissa]
  rw [this, hv]
  unfold signBit
  split_ifs <;> omega

variable (hb : b < 2 ^ 63)
include hb

theorem toNat_unpackExponent : (@unpackExponent Format.binary64 v).toNat = b / 2 ^ 52 := by
  have : (@unpackExponent Format.binary64 v).toNat = v.toNat / 2 ^ 52 % 2 ^ 11 := by
    simp [unpackExponent, Nat.shiftRight_eq_div_pow]
  rw [this, hv]
  unfold signBit
  split_ifs <;> omega

theorem ofBitVec_unpackSign : Sign.ofBitVec (@unpackSign Format.binary64 v) = signOf negative := by
  have hs : (@unpackSign Format.binary64 v).toNat = v.toNat / 2 ^ 63 % 2 := by
    simp [unpackSign, Nat.shiftRight_eq_div_pow]
  cases negative with
  | false =>
    refine if_pos (BitVec.eq_of_toNat_eq ?_)
    simp [signBit] at hv
    simp
    omega
  | true =>
    refine if_neg fun h => ?_
    rw [h, hv] at hs
    simp [signBit] at hs
    omega

end Fields

/-! ### Unpacked doubles -/

/-- A finite double as the model of doubles has it. -/
def unpacked (negative : Bool) (b : Nat) : UnpackedFloat :=
  if h : mantissaOf 52 b = 0 then .zero (signOf negative)
  else .finite (signOf negative) (mantissaOf 52 b) (exponentOf 52 (-1074) b) (Nat.pos_of_ne_zero h)

theorem neg_unpacked (negative : Bool) (b : Nat) :
    (unpacked negative b).neg = unpacked (!negative) b := by
  unfold unpacked
  split_ifs <;> simp [UnpackedFloat.neg, neg_signOf]

variable {negative : Bool} {b : Nat} {v : BitVec 64}

theorem unpackExponent_ne (hb : b < beyond)
    (hv : v.toNat = signBit negative + b) : ¬ @unpackExponent Format.binary64 v = -1#11 := by
  unfold beyond at hb
  intro h
  have hexp := toNat_unpackExponent hv (by omega)
  rw [h] at hexp
  simp at hexp
  omega

theorem unpack_eq (hb : b < beyond) (hv : v.toNat = signBit negative + b) :
    UnpackedFloat.unpack Format.binary64 v = unpacked negative b := by
  have hfin := unpackExponent_ne hb hv
  unfold beyond at hb
  have hexp := toNat_unpackExponent hv (by omega)
  have hman := toNat_unpackMantissa hv
  have hsign := ofBitVec_unpackSign hv (by omega)
  unfold UnpackedFloat.unpack unpacked
  simp only [hsign]
  rw [if_neg hfin]
  obtain ⟨k, m, hlo, hhi, rfl⟩ := exists_block 52 b
  obtain ⟨hm, he⟩ := parts_block hlo hhi (-1074)
  simp only [hm, he]
  rcases lt_or_ge m (2 ^ 52) with hlt | hge
  · obtain rfl : k = 0 := hlo.resolve_right (not_le.mpr hlt)
    rw [Nat.zero_mul, Nat.zero_add, Nat.mod_eq_of_lt hlt] at hman
    have hzero : @unpackExponent Format.binary64 v = 0#11 :=
      BitVec.eq_of_toNat_eq (by rw [hexp]; simp; omega)
    have hiff : @unpackMantissa Format.binary64 v = 0#52 ↔ m = 0 := by
      rw [← BitVec.toNat_inj, hman]
      rfl
    rw [if_pos hzero]
    by_cases h : m = 0
    · rw [dif_pos (hiff.mpr h), dif_pos h]
    · rw [dif_neg (mt hiff.mp h), dif_neg h]
      simp only [hman, hzero]
      rfl
  · obtain ⟨-, hdiv, hmod⟩ := block_div_mod (k := k) hge hhi
    have hzero : ¬ @unpackExponent Format.binary64 v = 0#11 := by
      intro h
      rw [h, hdiv] at hexp
      simp at hexp
    have happ : (1#1 ++ @unpackMantissa Format.binary64 v).toNat = m := by
      rw [BitVec.toNat_append, ← Nat.shiftLeft_add_eq_or_of_lt (BitVec.isLt _), hman,
        Nat.shiftLeft_eq]
      simpa using hmod
    rw [if_neg hzero, dif_neg (by omega)]
    simp only [happ, hexp, hdiv]
    congr 1
    rw [show (Format.binary64.exponentBias : Int) + Format.binary64.mantissaBitsWithoutImplicit =
      1075 from rfl]
    push_cast
    ring

theorem toNat_pack_unpacked (hb : b < beyond) :
    (UnpackedFloat.pack Format.binary64 (unpacked negative b)).toNat = signBit negative + b := by
  have hv : (BitVec.ofNat 64 (signBit negative + b)).toNat = signBit negative + b := by
    unfold beyond at hb
    rw [BitVec.toNat_ofNat]
    refine Nat.mod_eq_of_lt ?_
    unfold signBit
    split_ifs <;> omega
  have hnan : ¬ @UnpackedFloat.isNaNBits Format.binary64 (BitVec.ofNat 64 (signBit negative + b)) :=
    fun h => unpackExponent_ne hb hv (of_decide_eq_true h).1
  -- packing undoes unpacking for all patterns but those of what is not a number
  rw [← unpack_eq hb hv, UnpackedFloat.pack_unpack _ (by decide), if_neg hnan, hv]

/-! ### Finite doubles -/

theorem bitsOf_ofModel_pack (u : UnpackedFloat) :
    bitsOf (.ofModel (.pack u)) = (UnpackedFloat.pack Format.binary64 u).toNat := rfl

theorem HasBits.unpack (h : HasBits x negative b) : x.toModel.unpack = unpacked negative b :=
  unpack_eq h.finite h.bits

theorem HasBits.neg (h : HasBits x negative b) : HasBits (-x) (!negative) b := by
  refine ⟨h.finite, ?_⟩
  change bitsOf (.ofModel (.pack x.toModel.unpack.neg)) = _
  rw [bitsOf_ofModel_pack, h.unpack, neg_unpacked, toNat_pack_unpacked h.finite]

theorem hasBits_ofBits (h : b < beyond) : HasBits (.ofBits b.toUInt64) false b := by
  refine ⟨h, ?_⟩
  have hv : b.toUInt64.toBitVec.toNat = signBit false + b := by
    unfold beyond at h
    simp [signBit]
    omega
  change bitsOf (.ofModel (.pack (UnpackedFloat.unpack Format.binary64 b.toUInt64.toBitVec))) = _
  rw [bitsOf_ofModel_pack, unpack_eq h hv, toNat_pack_unpacked h]

theorem hasBits_zero : HasBits 0.0 false 0 := ⟨by decide, by decide +kernel⟩

theorem hasBits_of_lt (h : bitsOf x % 2 ^ 63 < beyond) :
    HasBits x (isNegative x) (bitsOf x % 2 ^ 63) := by
  have hx : bitsOf x < 2 ^ 64 := x.toBits.toNat_lt
  refine ⟨h, ?_⟩
  change bitsOf x = signBit (bitsOf x / 2 ^ 63 == 1) + _
  unfold signBit
  split_ifs with hs
  · rw [beq_iff_eq] at hs
    omega
  · rw [beq_iff_eq] at hs
    omega

section Finite

variable {x : Float} {negative : Bool} {b : Nat}

theorem HasBits.isNegative_eq (h : HasBits x negative b) : isNegative x = negative := by
  have hb := h.finite
  have hx : bitsOf x / 2 ^ 63 = if negative then 1 else 0 := by
    unfold beyond at hb
    rw [h.bits]
    unfold signBit
    split_ifs <;> omega
  change (bitsOf x / 2 ^ 63 == 1) = negative
  rw [hx]
  cases negative <;> rfl

theorem HasBits.not_isInf (h : HasBits x negative b) : x.isInf = false := by
  change x.toModel.unpack.isInf = false
  rw [h.unpack]
  unfold unpacked
  split_ifs <;> rfl

theorem HasBits.parts_eq (h : HasBits x negative b) :
    parts x = some ⟨negative, mantissaOf 52 b, exponentOf 52 (-1074) b⟩ := by
  have hb := h.finite
  unfold beyond at hb
  have hneg : (bitsOf x / 2 ^ 63 == 1) = negative := h.isNegative_eq
  have hfield : bitsOf x / 2 ^ 52 % 2 ^ 11 = b / 2 ^ 52 := by
    rw [h.bits]
    unfold signBit
    split_ifs <;> omega
  have hfraction : bitsOf x % 2 ^ 52 = b % 2 ^ 52 := by
    rw [h.bits]
    unfold signBit
    split_ifs <;> omega
  unfold parts
  simp only [show x.toBits.toNat = bitsOf x from rfl, hneg, hfield, hfraction]
  rw [if_neg (by omega)]
  unfold mantissaOf exponentOf
  split_ifs with h0 h1 h1
  · rw [Nat.mod_eq_of_lt h1]
  · omega
  · omega
  · congr 2
    omega

theorem HasBits.withSign (h : HasBits x false b) (negative : Bool) :
    HasBits (withSign negative x) negative b := by
  unfold Decimal.withSign
  rw [h.isNegative_eq]
  cases negative with
  | false => exact h
  | true => exact h.neg

end Finite

/-! ### Exact fractions -/

section Fractions

variable {num den b : Nat} (hden : 0 < den) (h : (num : ℚ) / den = magnitude 52 (-1074) b)
  (hb : b < beyond)
include hden h hb

theorem hasBits_nearest : HasBits (nearest num den) false b := by
  unfold nearest
  split_ifs with h0
  · obtain rfl : num = 0 := by omega
    have hzero : b = 0 := by
      refine (magnitude_strictMono 52 (-1074)).injective ?_
      rw [magnitude_zero, ← h]
      simp
    rw [hzero]
    exact hasBits_zero
  · have hbits : nearestBits 52 (-1074) num den = b := nearestBits_eq (by omega) hden h
    simp only [hbits]
    rw [if_neg (show ¬ b ≥ 2047 * 2 ^ 52 from Nat.not_le.mpr hb)]
    exact hasBits_ofBits hb

theorem hasBits_nearestSigned (negative : Bool) :
    HasBits (nearestSigned negative num den) negative b :=
  (hasBits_nearest hden h hb).withSign negative

end Fractions

theorem hasBits_ofDyadic {m : Nat} {q : Int} (h : (m : ℚ) * 2 ^ q = magnitude 52 (-1074) b)
    (hb : b < beyond) (negative : Bool) : HasBits (ofDyadic negative m q) negative b := by
  obtain ⟨num, den, hden, hv, hfraction⟩ := dyadic_eq_fraction m q
  rw [show ofDyadic negative m q = _ from hfraction (nearestSigned negative)]
  exact hasBits_nearestSigned hden (hv.trans h) hb negative

end WikiFeed.Decimal

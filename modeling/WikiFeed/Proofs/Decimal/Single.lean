import WikiFeed.Decimal.Single
import WikiFeed.Proofs.Decimal.Bits

/-! # Numbers in 32 bits as doubles

Every number in 32 bits is a double, so widening rounds nothing and narrowing the outcome leads
back (`Single.ofFloat?_toFloat`). The same holds of integers with at most 24 binary digits that
count (`Single.IsWhole`): as numbers in 32 bits they keep their value
(`Single.IsWhole.exists_single`). A double that is small enough can always be narrowed
(`Single.exists_ofFloat?`). -/

namespace WikiFeed.Decimal

abbrev smallMagnitude (b : Nat) : ℚ := magnitude 23 (-149) b

abbrev wideMagnitude (b : Nat) : ℚ := magnitude 52 (-1074) b

namespace Single

def beyond : Nat := 255 * 2 ^ 23

variable {b : Nat}

theorem smallMagnitude_lt (h : b < beyond) : smallMagnitude b < 2 ^ (128 : Int) := by
  have hlast : magnitude 23 (-149) beyond = 2 ^ (-149 + (23 : Nat) + (254 : Nat) : Int) :=
    magnitude_power 254
  exact (magnitude_strictMono 23 (-149) h).trans_eq hlast

theorem exists_wide (h : b < beyond) :
    ∃ w, w < Decimal.beyond ∧ wideMagnitude w = smallMagnitude b := by
  have hm : mantissaOf 23 b < 2 ^ (52 + 1) := by
    unfold mantissaOf
    split_ifs <;> omega
  have he : (-1074 : Int) ≤ exponentOf 23 (-149) b := by
    unfold exponentOf
    split_ifs <;> omega
  obtain ⟨w, hw⟩ := exists_magnitude_eq hm he
  refine ⟨w, ?_, hw⟩
  have hlt : magnitude 52 (-1074) w < 2 ^ (-1074 + (52 : Nat) + (2046 : Nat) : Int) := by
    rw [hw]
    exact (smallMagnitude_lt h).trans (zpow_lt_zpow_right₀ (by norm_num) (by norm_num))
  exact lt_of_magnitude_lt hlt

def signBit (negative : Bool) : Nat := if negative then 2 ^ 31 else 0

section SignBit

variable {negative : Bool} {b : Nat} (hb : b < beyond)
include hb

theorem toNat_toUInt32 : (signBit negative + b).toUInt32.toNat = signBit negative + b := by
  unfold beyond at hb
  unfold signBit
  split_ifs <;> simp <;> omega

theorem signBit_add_mod : (signBit negative + b) % 2 ^ 31 = b := by
  unfold beyond at hb
  unfold signBit
  split_ifs <;> omega

theorem signBit_add_div : (signBit negative + b) / 2 ^ 31 = if negative then 1 else 0 := by
  unfold beyond at hb
  unfold signBit
  split_ifs <;> omega

end SignBit

/-! ### Narrowing -/

section Narrowing

variable {x : Float} {negative : Bool} {w : Nat}

theorem ofFloat?_eq (h : HasBits x negative w) :
    ∃ num den : Nat, 0 < den ∧ (num : ℚ) / den = wideMagnitude w ∧
      ofFloat? x = (nearest? num den).map fun b => (signBit negative + b).toUInt32 := by
  obtain ⟨num, den, hden, hv, hfraction⟩ :=
    dyadic_eq_fraction (mantissaOf 52 w) (exponentOf 52 (-1074) w)
  refine ⟨num, den, hden, hv, ?_⟩
  unfold ofFloat?
  rw [h.parts_eq, h.isNegative_eq]
  simp only [hfraction]
  rfl

theorem nearest?_eq {num den : Nat} (hden : 0 < den) (h : (num : ℚ) / den = smallMagnitude b)
    (hb : b < beyond) : nearest? num den = some b := by
  unfold nearest?
  split_ifs with h0
  · have hzero : b = 0 := by
      refine (magnitude_strictMono 23 (-149)).injective ?_
      refine (h.symm.trans ?_).trans magnitude_zero.symm
      rw [h0]
      simp
    rw [hzero]
  · simp only [nearestBits_eq (by omega) hden h]
    exact if_pos hb

theorem ofFloat?_eq_some (h : HasBits x negative w) (hb : b < beyond)
    (hv : wideMagnitude w = smallMagnitude b) :
    ofFloat? x = some (signBit negative + b).toUInt32 := by
  obtain ⟨num, den, hden, hw, heq⟩ := ofFloat?_eq h
  rw [heq, nearest?_eq hden (hw.trans hv) hb]
  rfl

theorem exists_ofFloat? (h : HasBits x negative w) (hw : wideMagnitude w < 2 ^ (100 : Int)) :
    ∃ s, ofFloat? x = some s := by
  obtain ⟨num, den, hden, hv, heq⟩ := ofFloat?_eq h
  have hsome : ∃ b, nearest? num den = some b := by
    unfold nearest?
    split_ifs with h0
    · exact ⟨0, rfl⟩
    · have hle : nearestBits 23 (-149) num den ≤ (225 + 2) * 2 ^ 23 := by
        refine nearestBits_le (by omega) hden ?_
        rw [hv]
        exact hw
      exact ⟨_, if_pos (by omega)⟩
  obtain ⟨b, hb⟩ := hsome
  exact ⟨_, by rw [heq, hb]; rfl⟩

end Narrowing

/-! ### Widening -/

def IsFinite (s : Single) : Prop := s.toNat % 2 ^ 31 < beyond

def negative (s : Single) : Bool := s.toNat / 2 ^ 31 == 1

theorem signBit_add (s : Single) : signBit s.negative + s.toNat % 2 ^ 31 = s.toNat := by
  have := s.toNat_lt
  unfold signBit negative
  split_ifs with h <;> rw [beq_iff_eq] at h <;> omega

variable {s : Single} {w : Nat}

theorem hasBits_toFloat (h : s.IsFinite) (hw : w < Decimal.beyond)
    (hv : wideMagnitude w = smallMagnitude (s.toNat % 2 ^ 31)) :
    HasBits s.toFloat s.negative w := by
  have hs := s.toNat_lt
  unfold IsFinite beyond at h
  unfold toFloat
  rw [if_neg (by omega)]
  split_ifs with h0
  · have hlt : s.toNat % 2 ^ 31 < 2 ^ 23 := by omega
    refine hasBits_ofDyadic ?_ hw _
    change _ = wideMagnitude w
    rw [hv, smallMagnitude, magnitude, mantissaOf, exponentOf, if_pos hlt, if_pos hlt,
      show s.toNat % 2 ^ 31 = s.toNat % 2 ^ 23 by omega]
  · refine hasBits_ofDyadic ?_ hw _
    change _ = wideMagnitude w
    rw [hv, smallMagnitude, magnitude, mantissaOf, exponentOf, if_neg (by omega), if_neg (by omega),
      show s.toNat % 2 ^ 31 % 2 ^ 23 = s.toNat % 2 ^ 23 by omega,
      show s.toNat % 2 ^ 31 / 2 ^ 23 = s.toNat / 2 ^ 23 % 2 ^ 8 by omega]
    congr 2
    omega

theorem toFloat_of_infinite (h : s.toNat % 2 ^ 31 = beyond) :
    s.toFloat = withSign s.negative infinity := by
  have hs := s.toNat_lt
  unfold beyond at h
  unfold toFloat
  simp only [show (s.toNat / 2 ^ 31 == 1) = s.negative from rfl]
  rw [if_pos (by omega), if_pos (by omega)]

theorem toFloat_of_notANumber (h : beyond < s.toNat % 2 ^ 31) : s.toFloat = notANumber := by
  have hs := s.toNat_lt
  unfold beyond at h
  unfold toFloat
  simp only
  rw [if_pos (by omega), if_neg (by omega)]

/-- **Narrowing leads back from a double that is a number in 32 bits.** What is not a number has
many patterns in 32 bits, of which one comes back. -/
theorem ofFloat?_toFloat (s : Single) :
    ∃ s', ofFloat? s.toFloat = some s' ∧ s'.toFloat = s.toFloat := by
  rcases Nat.lt_trichotomy (s.toNat % 2 ^ 31) beyond with h | h | h
  · -- a finite number has the same value in 64 bits, and comes back with all its bits
    obtain ⟨w, hw, hv⟩ := exists_wide h
    refine ⟨s, ?_, rfl⟩
    rw [ofFloat?_eq_some (hasBits_toFloat h hw hv) h hv, signBit_add]
    simp
  · rw [toFloat_of_infinite h]
    cases s.negative with
    | false => exact ⟨0x7F800000, by decide +kernel, by decide +kernel⟩
    | true => exact ⟨0xFF800000, by decide +kernel, by decide +kernel⟩
  · rw [toFloat_of_notANumber h]
    exact ⟨0x7FC00000, by decide +kernel, by decide +kernel⟩

/-! ### Whole numbers -/

/-- An integer that 32 bits can hold: at most 24 of its binary digits count. -/
def IsWhole (n : Int) : Prop := n.natAbs < 2 ^ 128 ∧ ∃ m e : Nat, m < 2 ^ 24 ∧ n.natAbs = m * 2 ^ e

variable {n : Int}

theorem isWhole_of_natAbs_le (h : n.natAbs ≤ 2 ^ 24) : IsWhole n := by
  refine ⟨by omega, ?_⟩
  rcases Nat.lt_or_eq_of_le h with h | h
  · exact ⟨n.natAbs, 0, h, by simp⟩
  · exact ⟨1, 24, by norm_num, by rw [h]; norm_num⟩

theorem IsWhole.exists_bits (h : IsWhole n) : ∃ b, b < beyond ∧ smallMagnitude b = n.natAbs := by
  obtain ⟨hlt, m, e, hm, hn⟩ := h
  have hm' : m < 2 ^ (23 + 1) := hm
  obtain ⟨b, hb⟩ := exists_magnitude_eq hm' (show (-149 : Int) ≤ e by omega)
  have hv : magnitude 23 (-149) b = n.natAbs := by
    rw [hb, hn, zpow_natCast]
    push_cast
    rfl
  refine ⟨b, ?_, hv⟩
  have hlt' : magnitude 23 (-149) b < 2 ^ (-149 + (23 : Nat) + (254 : Nat) : Int) := by
    rw [hv, show (-149 + (23 : Nat) + (254 : Nat) : Int) = (128 : Nat) by rfl, zpow_natCast]
    exact_mod_cast hlt
  exact lt_of_magnitude_lt hlt'

theorem truncate?_eq {x : Float} (h : HasBits x (n < 0) w)
    (hv : wideMagnitude w = n.natAbs) : truncate? x = some n := by
  obtain ⟨num, den, hden, hw, hfraction⟩ :=
    dyadic_eq_fraction (mantissaOf 52 w) (exponentOf 52 (-1074) w)
  have hnum : num = n.natAbs * den := by
    have hd : (den : ℚ) ≠ 0 := by exact_mod_cast hden.ne'
    have := (div_eq_iff hd).mp (hw.trans hv)
    exact_mod_cast this
  have hwhole := (hfraction (· / ·)).trans (by rw [hnum, Nat.mul_div_cancel _ hden])
  simp only [Nat.div_one] at hwhole
  unfold truncate?
  rw [h.parts_eq]
  simp only [Option.map_some, hwhole]
  congr 1
  split_ifs with hneg <;> rw [decide_eq_true_eq] at hneg
  · rw [Int.ofNat_natAbs_of_nonpos hneg.le, Int.neg_neg]
  · exact Int.natAbs_of_nonneg (not_lt.mp hneg)

/-- **An integer that 32 bits can hold goes through them unchanged.** -/
theorem IsWhole.exists_single (h : IsWhole n) :
    ∃ x s, ofInt? n = some x ∧ ofFloat? x = some s ∧ truncate? s.toFloat = some n := by
  obtain ⟨b, hb, hbn⟩ := h.exists_bits
  obtain ⟨w, hw, hwb⟩ := exists_wide hb
  have hx : HasBits (nearestSigned (n < 0) n.natAbs 1) (n < 0) w := by
    refine hasBits_nearestSigned one_pos ?_ hw _
    rw [Nat.cast_one, div_one]
    exact (hwb.trans hbn).symm
  set s : Single := (signBit (n < 0) + b).toUInt32
  have hs : s.toNat = signBit (n < 0) + b := toNat_toUInt32 hb
  have hbits : s.toNat % 2 ^ 31 = b := by rw [hs, signBit_add_mod hb]
  have hneg : s.negative = decide (n < 0) := by
    rw [negative, hs, signBit_add_div hb]
    cases decide (n < 0) <;> rfl
  have hsw : HasBits s.toFloat (n < 0) w := by
    rw [← hneg]
    refine hasBits_toFloat ?_ hw ?_
    · rwa [IsFinite, hbits]
    · rw [hbits, hwb]
  refine ⟨_, s, ?_, ofFloat?_eq_some hx hb hwb, truncate?_eq hsw (hwb.trans hbn)⟩
  unfold ofInt?
  simp only [hx.not_isInf]
  rfl

end Single

end WikiFeed.Decimal

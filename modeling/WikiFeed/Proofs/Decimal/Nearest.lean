import Mathlib.Algebra.Order.Field.Power
import Mathlib.Data.Rat.Cast.Order
import Mathlib.Order.Monotone.Basic
import Mathlib.Tactic.FieldSimp
import Mathlib.Tactic.Linarith
import Mathlib.Tactic.Positivity
import Mathlib.Tactic.Ring
import WikiFeed.Decimal.Double

/-! # The number of some bits, and the bits of a number

Bits without a sign stand for a mantissa and a power of two. `magnitude` is the number that they
stand for, and it grows with the bits (`magnitude_strictMono`). A fraction that some bits stand for
has these bits as its nearest ones (`nearestBits_eq`), so going to the nearest bits loses nothing
where there is nothing to round. Rounding keeps order (`nearestBits_mono`), so any other fraction
stays under a power of two that it is under (`nearestBits_le`). Nothing here depends on how many
digits there are: doubles and numbers in 32 bits are two cases of it. -/

namespace WikiFeed.Decimal

open Nat

variable {places : Nat} {least : Int}

/-! ### The number of some bits -/

def mantissaOf (places b : Nat) : Nat :=
  if b < 2 ^ places then b else 2 ^ places + b % 2 ^ places

def exponentOf (places : Nat) (least : Int) (b : Nat) : Int :=
  if b < 2 ^ places then least else least + (b / 2 ^ places : Nat) - 1

def magnitude (places : Nat) (least : Int) (b : Nat) : ℚ :=
  mantissaOf places b * 2 ^ exponentOf places least b

theorem block_div_mod {k m : Nat} (hlo : 2 ^ places ≤ m) (hhi : m < 2 ^ (places + 1)) :
    2 ^ places ≤ k * 2 ^ places + m ∧ (k * 2 ^ places + m) / 2 ^ places = k + 1 ∧
      2 ^ places + (k * 2 ^ places + m) % 2 ^ places = m := by
  obtain ⟨r, rfl⟩ := Nat.exists_eq_add_of_le hlo
  have hr : r < 2 ^ places := by rw [pow_succ] at hhi; omega
  have hb : k * 2 ^ places + (2 ^ places + r) = 2 ^ places * (k + 1) + r := by ring
  refine ⟨by omega, ?_, ?_⟩
  · rw [hb, Nat.mul_add_div (Nat.two_pow_pos places), Nat.div_eq_of_lt hr, Nat.add_zero]
  · rw [hb, mul_add_mod, mod_eq_of_lt hr]

section Blocks

/-! Bits come in blocks of `2 ^ places`, one for each power of two, and only the first block has
bits without a leading digit. -/

variable {k m : Nat} (hlo : k = 0 ∨ 2 ^ places ≤ m)
include hlo

theorem parts_block (hhi : m < 2 ^ (places + 1)) (least : Int) :
    mantissaOf places (k * 2 ^ places + m) = m ∧
      exponentOf places least (k * 2 ^ places + m) = least + k := by
  unfold mantissaOf exponentOf
  rcases lt_or_ge m (2 ^ places) with h | h
  · obtain rfl : k = 0 := hlo.resolve_right (not_le.mpr h)
    rw [zero_mul, zero_add, if_pos h, if_pos h]
    exact ⟨rfl, (add_zero _).symm⟩
  · obtain ⟨hle, hdiv, hmod⟩ := block_div_mod (k := k) h hhi
    rw [if_neg (not_lt.mpr hle), if_neg (not_lt.mpr hle), hdiv, hmod]
    exact ⟨rfl, by push_cast; ring⟩

theorem magnitude_block (hhi : m ≤ 2 ^ (places + 1)) :
    magnitude places least (k * 2 ^ places + m) = m * 2 ^ (least + k) := by
  unfold magnitude
  rcases hhi.lt_or_eq with hlt | rfl
  · obtain ⟨hm, he⟩ := parts_block hlo hlt least
    rw [hm, he]
  · -- the end of a block is the beginning of the next one
    have hnext : k * 2 ^ places + 2 ^ (places + 1) = (k + 1) * 2 ^ places + 2 ^ places := by ring
    have hlt : 2 ^ places < 2 ^ (places + 1) := Nat.pow_lt_pow_right (by decide) (lt_succ_self _)
    obtain ⟨hm, he⟩ := parts_block (k := k + 1) (.inr le_rfl) hlt least
    rw [hnext, hm, he]
    push_cast
    rw [← add_assoc, zpow_add_one₀ (by norm_num)]
    ring

end Blocks

theorem magnitude_zero : magnitude places least 0 = 0 := by
  have h : magnitude places least (0 * 2 ^ places + 0) = (0 : Nat) * 2 ^ (least + (0 : Nat)) :=
    magnitude_block (.inl rfl) (Nat.zero_le _)
  simpa using h

theorem exists_block (places b : Nat) :
    ∃ k m, (k = 0 ∨ 2 ^ places ≤ m) ∧ m < 2 ^ (places + 1) ∧ b = k * 2 ^ places + m := by
  have hpow : 2 ^ (places + 1) = 2 ^ places * 2 := pow_succ 2 places
  by_cases h : b < 2 ^ places
  · exact ⟨0, b, .inl rfl, by omega, by omega⟩
  · have hpos := Nat.two_pow_pos places
    have hmod := mod_lt b hpos
    have hdiv : 1 ≤ b / 2 ^ places := (one_le_div_iff hpos).mpr (by omega)
    refine ⟨b / 2 ^ places - 1, 2 ^ places + b % 2 ^ places, .inr (by omega), by omega, ?_⟩
    obtain ⟨k, hk⟩ := Nat.exists_eq_add_of_le hdiv
    have hb := div_add_mod b (2 ^ places)
    rw [hk] at hb ⊢
    rw [Nat.add_sub_cancel_left]
    linarith

theorem magnitude_strictMono (places : Nat) (least : Int) :
    StrictMono (magnitude places least) := by
  refine strictMono_nat_of_lt_succ fun b => ?_
  obtain ⟨k, m, hlo, hhi, rfl⟩ := exists_block places b
  rw [add_assoc, magnitude_block hlo hhi.le, magnitude_block (hlo.imp_right le_succ_of_le) hhi]
  have : (0 : ℚ) < 2 ^ (least + k) := by positivity
  push_cast
  linarith

theorem magnitude_power (f : Nat) :
    magnitude places least ((f + 1) * 2 ^ places) = 2 ^ (least + places + f) := by
  rw [succ_mul, magnitude_block (.inr le_rfl) (Nat.pow_le_pow_right two_pos (le_succ _))]
  push_cast
  rw [← zpow_natCast, ← zpow_add₀ (by norm_num)]
  congr 1
  ring

theorem lt_of_magnitude_lt {b f : Nat} (h : magnitude places least b < 2 ^ (least + places + f)) :
    b < (f + 1) * 2 ^ places := by
  rwa [← (magnitude_strictMono places least).lt_iff_lt, magnitude_power]

theorem exists_magnitude_eq {m : Nat} (hm : m < 2 ^ (places + 1)) {e : Int} (he : least ≤ e) :
    ∃ b, magnitude places least b = m * 2 ^ e := by
  -- a mantissa without its leading digit is doubled until it has one or the exponent is least
  obtain ⟨d, rfl⟩ := Int.le.dest he
  clear he
  induction d generalizing m with
  | zero => exact ⟨0 * 2 ^ places + m, magnitude_block (.inl rfl) hm.le⟩
  | succ d ih =>
    rcases lt_or_ge m (2 ^ places) with h | h
    · obtain ⟨b, hb⟩ := ih (m := 2 * m) (by rw [pow_succ]; omega)
      refine ⟨b, hb.trans ?_⟩
      push_cast
      rw [← add_assoc, zpow_add_one₀ (by norm_num)]
      ring
    · exact ⟨(d + 1) * 2 ^ places + m, magnitude_block (.inr h) hm.le⟩

/-! ### The unit of a fraction -/

variable {num den : Nat}

theorem two_zpow_log2_le {n : Nat} (h : 0 < n) : (2 : ℚ) ^ (log2 n : Int) ≤ n := by
  rw [zpow_natCast]
  exact_mod_cast log2_self_le (by omega)

theorem lt_two_zpow_log2 (n : Nat) : (n : ℚ) < 2 ^ ((log2 n : Int) + 1) := by
  have h : n < 2 ^ (n.log2 + 1) := lt_log2_self
  have : ((2 ^ (n.log2 + 1) : Nat) : ℚ) = 2 ^ ((log2 n : Int) + 1) := by
    rw [← cast_one (R := Int), ← cast_add, zpow_natCast]
    push_cast
    rfl
  rw [← this]
  exact_mod_cast h

theorem two_zpow_of_nonneg {e : Int} (h : e ≥ 0) : (2 : ℚ) ^ e = (2 ^ e.toNat : Nat) := by
  obtain ⟨k, rfl⟩ := Int.eq_ofNat_of_zero_le h
  rw [Int.toNat_natCast, zpow_natCast]
  push_cast
  rfl

theorem two_zpow_of_neg {e : Int} (h : ¬ e ≥ 0) : (2 : ℚ) ^ e = ((2 ^ (-e).toNat : Nat) : ℚ)⁻¹ := by
  rw [← two_zpow_of_nonneg (by omega), zpow_neg, inv_inv]

theorem tooSmall_iff (hden : 0 < den) (g : Int) :
    (if g ≥ 0 then num < den * 2 ^ g.toNat * 2 ^ places
      else num * 2 ^ (-g).toNat < den * 2 ^ places) ↔ (num : ℚ) / den < 2 ^ (g + places) := by
  have hd : (0 : ℚ) < den := by exact_mod_cast hden
  rw [div_lt_iff₀ hd, zpow_add₀ (by norm_num), zpow_natCast]
  split_ifs with h
  · rw [two_zpow_of_nonneg h, mul_assoc den, mul_comm den, ← cast_lt (α := ℚ)]
    push_cast
    rfl
  · have hpow : (0 : ℚ) < (2 ^ (-g).toNat : Nat) := by positivity
    rw [two_zpow_of_neg h, mul_assoc, inv_mul_eq_div, lt_div_iff₀ hpow, mul_comm _ (den : ℚ),
      ← cast_lt (α := ℚ)]
    push_cast
    rfl

/-- In the unit `2 ^ (least + k)` a number has its leading digit at `places`, unless the unit is
the least one. -/
structure HasUnit (places : Nat) (least : Int) (v : ℚ) (k : Nat) : Prop where
  le : k = 0 ∨ 2 ^ (least + k + places) ≤ v
  lt : v < 2 ^ (least + k + places + 1)

theorem HasUnit.mono {v v' : ℚ} {k k' : Nat} (h : HasUnit places least v k)
    (h' : HasUnit places least v' k') (hle : v ≤ v') : k ≤ k' := by
  rcases h.le with rfl | hlo
  · exact Nat.zero_le _
  · have := (zpow_lt_zpow_iff_right₀ (by norm_num)).mp ((hlo.trans hle).trans_lt h'.lt)
    omega

theorem exists_binaryUnit (places : Nat) (least : Int) (hnum : 0 < num) (hden : 0 < den) :
    ∃ k : Nat, binaryUnit places least num den = least + k ∧
      HasUnit places least (num / den) k := by
  have hd : (0 : ℚ) < den := by exact_mod_cast hden
  have hnlo := two_zpow_log2_le hnum
  have hnhi := lt_two_zpow_log2 num
  have hdlo := two_zpow_log2_le hden
  have hdhi := lt_two_zpow_log2 den
  set g : Int := (log2 num : Int) - (log2 den : Int) - places with hg
  have hlo : (2 : ℚ) ^ (g - 1 + places) ≤ num / den := by
    rw [le_div_iff₀ hd]
    calc (2 : ℚ) ^ (g - 1 + places) * den
        ≤ 2 ^ (g - 1 + places) * 2 ^ ((log2 den : Int) + 1) := by gcongr
      _ = 2 ^ (log2 num : Int) := by
        rw [← zpow_add₀ (by norm_num)]
        congr 1
        omega
      _ ≤ num := hnlo
  have hhi : (num : ℚ) / den < 2 ^ (g + places + 1) := by
    rw [div_lt_iff₀ hd]
    calc (num : ℚ) < 2 ^ ((log2 num : Int) + 1) := hnhi
      _ = 2 ^ (g + places + 1) * 2 ^ (log2 den : Int) := by
        rw [← zpow_add₀ (by norm_num)]
        congr 1
        omega
      _ ≤ 2 ^ (g + places + 1) * den := by gcongr
  -- the unit before it is kept from falling below `2 ^ least`
  obtain ⟨e, he, hlo, hhi⟩ : ∃ e : Int, binaryUnit places least num den = max least e ∧
      (2 : ℚ) ^ (e + places) ≤ num / den ∧ (num : ℚ) / den < 2 ^ (e + places + 1) := by
    unfold binaryUnit
    simp only [← hg]
    by_cases h : (num : ℚ) / den < 2 ^ (g + places)
    · rw [if_pos ((tooSmall_iff hden g).mpr h)]
      refine ⟨g - 1, rfl, hlo, ?_⟩
      rwa [show g - 1 + (places : Int) + 1 = g + places by ring]
    · rw [if_neg (mt (tooSmall_iff hden g).mp h)]
      exact ⟨g, rfl, not_lt.mp h, hhi⟩
  refine ⟨(max least e - least).toNat, by omega, ?_, ?_⟩
  · rcases le_or_gt e least with hle | hlt
    · exact .inl (by omega)
    · right
      rwa [show least + ((max least e - least).toNat : Int) = e by omega]
  · exact hhi.trans_le (zpow_le_zpow_right₀ (by norm_num) (by omega))

/-! ### Rounding -/

theorem roundDiv_mul {q d : Nat} (hd : 0 < d) : roundDiv (q * d) d = q := by
  unfold roundDiv
  simp [Nat.mul_div_cancel q hd, hd]

theorem le_roundDiv (a d : Nat) : a / d ≤ roundDiv a d := by
  unfold roundDiv
  simp only
  split_ifs <;> omega

theorem roundDiv_le_succ (a d : Nat) : roundDiv a d ≤ a / d + 1 := by
  unfold roundDiv
  simp only
  split_ifs <;> omega

theorem roundDiv_mono {a d a' d' : Nat} (hd : 0 < d) (hd' : 0 < d') (h : a * d' ≤ a' * d) :
    roundDiv a d ≤ roundDiv a' d' := by
  have hfloor : a / d ≤ a' / d' := by
    rw [le_div_iff_mul_le hd']
    refine le_of_mul_le_mul_right ?_ hd
    calc a / d * d' * d = a / d * d * d' := by ring
      _ ≤ a * d' := mul_le_mul_right d' (div_mul_le_self a d)
      _ ≤ a' * d := h
  rcases lt_or_eq_of_le hfloor with hlt | heq
  · exact (roundDiv_le_succ a d).trans (le_trans hlt (le_roundDiv a' d'))
  -- with one quotient for both, the remainders decide, and halves go the same way
  have hrest : a % d * d' ≤ a' % d' * d := by
    have ha := div_add_mod a d
    have ha' := div_add_mod a' d'
    rw [← ha, ← ha', ← heq] at h
    have hsame : d * (a / d) * d' = d' * (a / d) * d := by ring
    rw [add_mul, add_mul, hsame] at h
    exact le_of_add_le_add_left h
  have hhalf : d ≤ 2 * (a % d) → d' ≤ 2 * (a' % d') := by
    intro hle
    refine le_of_mul_le_mul_left ?_ hd
    calc d * d' ≤ 2 * (a % d) * d' := mul_le_mul_right d' hle
      _ = 2 * (a % d * d') := by ring
      _ ≤ 2 * (a' % d' * d) := by omega
      _ = d * (2 * (a' % d')) := by ring
  have hover : d < 2 * (a % d) → d' < 2 * (a' % d') := by
    intro hlt
    refine Nat.lt_of_mul_lt_mul_left (a := d) ?_
    calc d * d' < 2 * (a % d) * d' := mul_lt_mul_of_pos_right hlt hd'
      _ = 2 * (a % d * d') := by ring
      _ ≤ 2 * (a' % d' * d) := by omega
      _ = d * (2 * (a' % d')) := by ring
  unfold roundDiv
  simp only [heq]
  split_ifs <;> omega

theorem scaled_eq_roundDiv (num : Nat) (hden : 0 < den) (e : Int) :
    ∃ a d : Nat, 0 < d ∧ scaled num den e = roundDiv a d ∧
      (num : ℚ) / den = (a : ℚ) / d * 2 ^ e := by
  have hd : (0 : ℚ) < den := by exact_mod_cast hden
  unfold scaled
  split_ifs with h
  · refine ⟨num, den * 2 ^ e.toNat, by positivity, rfl, ?_⟩
    rw [two_zpow_of_nonneg h]
    push_cast
    field_simp
  · refine ⟨num * 2 ^ (-e).toNat, den, hden, rfl, ?_⟩
    rw [two_zpow_of_neg h]
    push_cast
    field_simp

variable {num' den' q : Nat} {e : Int}

theorem scaled_mono (hden : 0 < den) (hden' : 0 < den') (h : (num : ℚ) / den ≤ num' / den')
    (e : Int) : scaled num den e ≤ scaled num' den' e := by
  obtain ⟨a, d, hd, hs, ha⟩ := scaled_eq_roundDiv num hden e
  obtain ⟨a', d', hd', hs', ha'⟩ := scaled_eq_roundDiv num' hden' e
  have hdq : (0 : ℚ) < d := by exact_mod_cast hd
  have hdq' : (0 : ℚ) < d' := by exact_mod_cast hd'
  rw [ha, ha'] at h
  have hle : (a : ℚ) / d ≤ a' / d' := le_of_mul_le_mul_right h (by positivity)
  rw [div_le_div_iff₀ hdq hdq'] at hle
  rw [hs, hs']
  exact roundDiv_mono hd hd' (by exact_mod_cast hle)

theorem scaled_eq_of_fraction {a d : Nat} (hden : 0 < den) (hd : 0 < d)
    (h : (num : ℚ) / den = (a : ℚ) / d * 2 ^ e) : scaled num den e = roundDiv a d := by
  obtain ⟨a', d', hd', hs, ha⟩ := scaled_eq_roundDiv num hden e
  have hsame : (a' : ℚ) / d' = a / d := mul_right_cancel₀ (by positivity) (ha.symm.trans h)
  rw [div_eq_div_iff (by positivity) (by positivity)] at hsame
  have hmul : a' * d = a * d' := by exact_mod_cast hsame
  rw [hs]
  exact le_antisymm (roundDiv_mono hd' hd hmul.le) (roundDiv_mono hd hd' hmul.ge)

theorem scaled_eq (hden : 0 < den) (h : (num : ℚ) / den = q * 2 ^ e) : scaled num den e = q := by
  rw [scaled_eq_of_fraction (a := q * 1) hden one_pos (by simpa using h), roundDiv_mul one_pos]

theorem dyadic_eq_fraction (m : Nat) (q : Int) :
    ∃ num den : Nat, 0 < den ∧ (num : ℚ) / den = m * 2 ^ q ∧ ∀ {α : Type} (f : Nat → Nat → α),
      (if q ≥ 0 then f (m * 2 ^ q.toNat) 1 else f m (2 ^ (-q).toNat)) = f num den := by
  by_cases h : q ≥ 0
  · refine ⟨_, _, one_pos, ?_, fun _ => if_pos h⟩
    rw [two_zpow_of_nonneg h, cast_mul, cast_one, div_one]
  · refine ⟨_, _, by positivity, ?_, fun _ => if_neg h⟩
    rw [two_zpow_of_neg h, div_eq_mul_inv]

theorem scaled_le (hden : 0 < den) (h : (num : ℚ) / den ≤ q * 2 ^ e) : scaled num den e ≤ q := by
  obtain ⟨num', den', hden', hq, -⟩ := dyadic_eq_fraction q e
  exact (scaled_mono hden hden' (h.trans_eq hq.symm) e).trans_eq (scaled_eq hden' hq)

theorem le_scaled (hden : 0 < den) (h : (q : ℚ) * 2 ^ e ≤ num / den) : q ≤ scaled num den e := by
  obtain ⟨num', den', hden', hq, -⟩ := dyadic_eq_fraction q e
  exact (scaled_eq hden' hq).ge.trans (scaled_mono hden' hden (hq.trans_le h) e)

/-- Going to the nearest bits is rounding in the unit of the number. -/
theorem nearestBits_block (places : Nat) (least : Int) (hnum : 0 < num) (hden : 0 < den) :
    ∃ k : Nat, HasUnit places least (num / den) k ∧
      nearestBits places least num den = k * 2 ^ places + scaled num den (least + k) ∧
      (k = 0 ∨ 2 ^ places ≤ scaled num den (least + k)) ∧
      scaled num den (least + k) ≤ 2 ^ (places + 1) := by
  obtain ⟨k, hk, hunit⟩ := exists_binaryUnit places least hnum hden
  have hlo : k = 0 ∨ 2 ^ places ≤ scaled num den (least + k) := by
    refine hunit.le.imp_right fun hle => le_scaled hden (le_of_eq_of_le ?_ hle)
    rw [zpow_add₀ (by norm_num) _ (places : Int), zpow_natCast, mul_comm]
    push_cast
    rfl
  refine ⟨k, hunit, ?_, hlo, scaled_le hden (hunit.lt.le.trans_eq ?_)⟩
  · unfold nearestBits
    simp only [hk, add_sub_cancel_left, Int.toNat_natCast]
    split_ifs with h
    · rw [hlo.resolve_right (not_le.mpr h), zero_mul, zero_add]
    · rfl
  · push_cast
    rw [← zpow_natCast, ← zpow_add₀ (by norm_num)]
    congr 1
    push_cast
    ring

theorem nearestBits_eq {b : Nat} (hnum : 0 < num) (hden : 0 < den)
    (h : (num : ℚ) / den = magnitude places least b) : nearestBits places least num den = b := by
  obtain ⟨k, m, hlo, hhi, rfl⟩ := exists_block places b
  rw [magnitude_block hlo hhi.le] at h
  have hpow : (0 : ℚ) < 2 ^ (least + k) := by positivity
  have hunit : HasUnit places least (num / den) k := by
    refine ⟨hlo.imp_right fun hm => ?_, ?_⟩
    · rw [h, zpow_add₀ (by norm_num), zpow_natCast, mul_comm]
      gcongr
      exact_mod_cast hm
    · have hm : (m : ℚ) < 2 ^ ((places : Int) + 1) := by exact_mod_cast hhi
      rw [h, show least + k + (places : Int) + 1 = places + 1 + (least + k) by ring,
        zpow_add₀ (by norm_num) ((places : Int) + 1)]
      gcongr
  obtain ⟨k', hunit', hbits, -⟩ := nearestBits_block places least hnum hden
  obtain rfl : k = k' := le_antisymm (hunit.mono hunit' le_rfl) (hunit'.mono hunit le_rfl)
  rw [hbits, scaled_eq hden h]

theorem nearestBits_mono (hnum : 0 < num) (hden : 0 < den)
    (hnum' : 0 < num') (hden' : 0 < den') (h : (num : ℚ) / den ≤ num' / den') :
    nearestBits places least num den ≤ nearestBits places least num' den' := by
  obtain ⟨k, hunit, hbits, -, hhi⟩ := nearestBits_block places least hnum hden
  obtain ⟨k', hunit', hbits', hlo, -⟩ := nearestBits_block places least hnum' hden'
  rw [hbits, hbits']
  rcases (hunit.mono hunit' h).eq_or_lt with rfl | hlt
  · exact Nat.add_le_add_left (scaled_mono hden hden' h _) _
  · -- the greater fraction has its leading digit, and the lesser one does not reach its block
    have hgreat := hlo.resolve_left (by omega)
    have := mul_le_mul_right (2 ^ places) hlt
    rw [succ_mul] at this
    rw [pow_succ] at hhi
    omega

theorem nearestBits_le {f : Nat} (hnum : 0 < num) (hden : 0 < den)
    (h : (num : ℚ) / den < 2 ^ (least + places + (f + 1 : Nat))) :
    nearestBits places least num den ≤ (f + 2) * 2 ^ places := by
  obtain ⟨num', den', hden', hpower, -⟩ :=
    dyadic_eq_fraction 1 (least + places + (f + 1 : Nat))
  rw [cast_one, one_mul] at hpower
  have hnum' : 0 < num' := by
    have hpos : (0 : ℚ) < num' / den' := hpower ▸ by positivity
    rcases Nat.eq_zero_or_pos num' with rfl | hnum'
    · simp at hpos
    · exact hnum'
  have hbits : nearestBits places least num' den' = (f + 2) * 2 ^ places :=
    nearestBits_eq hnum' hden' (hpower.trans (magnitude_power (f + 1)).symm)
  exact hbits ▸ nearestBits_mono hnum hden hnum' hden' (hpower ▸ h.le)

end WikiFeed.Decimal

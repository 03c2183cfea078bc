import Mathlib.Order.WithBot
import WikiFeed.Decimal.Number
import WikiFeed.Proofs.Decimal.Single

/-! # The order of numbers

Whole numbers and doubles are compared by value, without rounding. `Number.value` is that value,
with the infinities at the two ends, and `Number.less_iff` says that one number is below another
exactly if its value is. What is not a number is left out, since it is below nothing and above
nothing. -/

namespace WikiFeed

open Float.Model (Format UnpackedFloat)

namespace Decimal

theorem compare_bits (places : Nat) (least : Int) (a b : Nat) :
    (compare (exponentOf places least a) (exponentOf places least b)).then
      (compare (mantissaOf places a) (mantissaOf places b)) = compare a b := by
  have hbelow : ∀ {k m k' m' : Nat}, k < k' → m < 2 ^ (places + 1) → (k' = 0 ∨ 2 ^ places ≤ m') →
      k * 2 ^ places + m < k' * 2 ^ places + m' := by
    intro k m k' m' hk hm hlo
    have hlead := hlo.resolve_left (by omega)
    have := Nat.mul_le_mul_right (2 ^ places) (Nat.succ_le_of_lt hk)
    rw [Nat.succ_mul] at this
    rw [pow_succ] at hm
    omega
  obtain ⟨k, m, hlo, hm, rfl⟩ := exists_block places a
  obtain ⟨k', m', hlo', hm', rfl⟩ := exists_block places b
  obtain ⟨hma, hea⟩ := parts_block hlo hm least
  obtain ⟨hmb, heb⟩ := parts_block hlo' hm' least
  rw [hma, hmb, hea, heb]
  rcases lt_trichotomy k k' with h | rfl | h
  · rw [compare_lt_iff_lt.mpr (show least + (k : Int) < least + k' by omega),
      compare_lt_iff_lt.mpr (hbelow h hm hlo')]
    rfl
  · rw [compare_eq_iff_eq.mpr rfl]
    change compare m m' = _
    rcases lt_trichotomy m m' with h | rfl | h
    · rw [compare_lt_iff_lt.mpr h, compare_lt_iff_lt.mpr (by omega)]
    · rw [compare_eq_iff_eq.mpr rfl, compare_eq_iff_eq.mpr rfl]
    · rw [compare_gt_iff_gt.mpr h, compare_gt_iff_gt.mpr (by omega)]
  · rw [compare_gt_iff_gt.mpr (show least + (k' : Int) < least + k by omega),
      compare_gt_iff_gt.mpr (hbelow h hm' hlo)]
    rfl

/-! ### The order of finite doubles -/

def signedMagnitude (negative : Bool) (b : Nat) : ℚ :=
  if negative then -wideMagnitude b else wideMagnitude b

theorem wideMagnitude_pos {b : Nat} (h : 0 < b) : 0 < wideMagnitude b := by
  have := magnitude_strictMono 52 (-1074) h
  rwa [magnitude_zero] at this

theorem wideMagnitude_nonneg (b : Nat) : 0 ≤ wideMagnitude b := by
  unfold wideMagnitude magnitude
  positivity

theorem mantissaOf_eq_zero_iff {places b : Nat} : mantissaOf places b = 0 ↔ b = 0 := by
  unfold mantissaOf
  split_ifs <;> omega

theorem unpacked_zero (negative : Bool) : unpacked negative 0 = .zero (signOf negative) :=
  dif_pos (mantissaOf_eq_zero_iff.mpr rfl)

theorem exists_unpacked {b : Nat} (h : 0 < b) (negative : Bool) : ∃ hm, unpacked negative b =
    .finite (signOf negative) (mantissaOf 52 b) (exponentOf 52 (-1074) b) hm := by
  have hm : ¬ mantissaOf 52 b = 0 := fun h0 => h.ne' (mantissaOf_eq_zero_iff.mp h0)
  exact ⟨Nat.pos_of_ne_zero hm, dif_neg hm⟩

theorem lt_unpacked_iff (s t : Bool) (a b : Nat) :
    (unpacked s a).lt (unpacked t b) = true ↔ signedMagnitude s a < signedMagnitude t b := by
  have hzero : ∀ u : Bool, signedMagnitude u 0 = 0 := fun u => by
    cases u <;> simp [signedMagnitude, magnitude_zero]
  have hmono := (magnitude_strictMono 52 (-1074)).lt_iff_lt (a := a) (b := b)
  unfold UnpackedFloat.lt
  rw [beq_iff_eq]
  rcases Nat.eq_zero_or_pos a with rfl | ha <;> rcases Nat.eq_zero_or_pos b with rfl | hb
  · rw [unpacked_zero, unpacked_zero, hzero, hzero]
    simp [UnpackedFloat.compare]
  · have := wideMagnitude_pos hb
    obtain ⟨hm, heq⟩ := exists_unpacked hb t
    rw [unpacked_zero, heq, hzero]
    cases t <;> simp [UnpackedFloat.compare, signOf, signedMagnitude, this, this.le]
  · have := wideMagnitude_pos ha
    obtain ⟨hm, heq⟩ := exists_unpacked ha s
    rw [unpacked_zero, heq, hzero]
    cases s <;> simp [UnpackedFloat.compare, signOf, signedMagnitude, this, this.le]
  · have hpa := wideMagnitude_pos ha
    have hpb := wideMagnitude_pos hb
    obtain ⟨hm, heq⟩ := exists_unpacked ha s
    obtain ⟨hm', heq'⟩ := exists_unpacked hb t
    rw [heq, heq']
    cases s <;> cases t <;>
      simp only [UnpackedFloat.compare, signOf, signedMagnitude, Bool.false_eq_true, if_false,
        if_true, Option.some.injEq, compare_bits]
    · exact compare_lt_iff_lt.trans hmono.symm
    · exact iff_of_false (by decide) (by linarith)
    · exact iff_of_true trivial (by linarith)
    · rw [Ordering.swap_eq_lt, neg_lt_neg_iff]
      exact compare_gt_iff_gt.trans (magnitude_strictMono 52 (-1074)).lt_iff_lt.symm

theorem isNaN_of_beyond_lt {x : Float} (h : beyond < bitsOf x % 2 ^ 63) : x.isNaN = true := by
  have hx : bitsOf x < 2 ^ 64 := x.toBits.toNat_lt
  have hv : x.toModel.toBits.toBitVec.toNat =
      signBit (bitsOf x / 2 ^ 63 == 1) + bitsOf x % 2 ^ 63 := by
    change bitsOf x = _
    unfold signBit
    split_ifs with hs <;> rw [beq_iff_eq] at hs <;> omega
  have hexp := toNat_unpackExponent hv (by omega)
  have hman := toNat_unpackMantissa hv
  unfold beyond at h
  change (UnpackedFloat.unpack Format.binary64 x.toModel.toBits.toBitVec).isNaN = true
  unfold UnpackedFloat.unpack
  simp only
  rw [if_pos, if_neg]
  · rfl
  · intro h0
    rw [h0] at hman
    simp at hman
    omega
  · refine BitVec.eq_of_toNat_eq ?_
    rw [hexp]
    simp
    omega

theorem double_cases {x : Float} (h : x.isNaN = false) :
    (∃ negative b, HasBits x negative b) ∨ x = -infinity ∨ x = infinity := by
  have hx : bitsOf x < 2 ^ 64 := x.toBits.toNat_lt
  rcases lt_trichotomy (bitsOf x % 2 ^ 63) beyond with hb | hb | hb
  · exact .inl ⟨_, _, hasBits_of_lt hb⟩
  · right
    have hneg : bitsOf (-infinity) = 2 ^ 63 + beyond := by decide +kernel
    have hpos : bitsOf infinity = beyond := by decide +kernel
    by_cases hs : bitsOf x < 2 ^ 63
    · exact .inr (eq_of_bitsOf_eq (by omega))
    · exact .inl (eq_of_bitsOf_eq (by omega))
  · rw [isNaN_of_beyond_lt hb] at h
    cases h

/-! ### Values -/

def ofRat (q : ℚ) : WithBot (WithTop ℚ) := ((q : WithTop ℚ) : WithBot (WithTop ℚ))

theorem ofRat_strictMono : StrictMono ofRat := fun _ _ h =>
  WithBot.coe_lt_coe.mpr (WithTop.coe_lt_coe.mpr h)

def value (x : Float) : WithBot (WithTop ℚ) :=
  match parts x with
  | some p => ofRat ((if p.negative then -(p.mantissa : ℚ) else p.mantissa) * 2 ^ p.exponent)
  | none => if isNegative x then ⊥ else (⊤ : WithTop ℚ)

theorem HasBits.value_eq {x : Float} {negative : Bool} {b : Nat} (h : HasBits x negative b) :
    value x = ofRat (signedMagnitude negative b) := by
  unfold value
  rw [h.parts_eq]
  cases negative <;> simp [signedMagnitude, magnitude]

theorem parts_infinity : parts infinity = none ∧ isNegative infinity = false := by decide +kernel

theorem parts_neg_infinity : parts (-infinity) = none ∧ isNegative (-infinity) = true := by
  decide +kernel

theorem value_infinity : value infinity = (⊤ : WithTop ℚ) := by
  unfold value
  rw [parts_infinity.1, parts_infinity.2]
  rfl

theorem value_neg_infinity : value (-infinity) = ⊥ := by
  unfold value
  rw [parts_neg_infinity.1, parts_neg_infinity.2]
  rfl

theorem compare_strictMono {α β : Type} [LinearOrder α] [LinearOrder β] {f : α → β}
    (hf : StrictMono f) (a b : α) : compare (f a) (f b) = compare a b := by
  rw [← cmp_eq_compare, ← cmp_eq_compare, hf.cmp_map_eq]

theorem unpack_infinity : infinity.toModel.unpack = .infinity .positive := by rfl

theorem unpack_neg_infinity : (-infinity).toModel.unpack = .infinity .negative := by rfl

theorem lt_iff_unpack_lt {x y : Float} : x < y ↔ x.toModel.unpack.lt y.toModel.unpack = true := by
  change decide (x.toModel < y.toModel) = true ↔ _
  rw [decide_eq_true_iff]
  rfl

theorem bot_lt_ofRat (q : ℚ) : ⊥ < ofRat q := WithBot.bot_lt_coe _

theorem ofRat_lt_top (q : ℚ) : ofRat q < ((⊤ : WithTop ℚ) : WithBot (WithTop ℚ)) :=
  WithBot.coe_lt_coe.mpr (WithTop.coe_lt_top q)

theorem bot_lt_top : (⊥ : WithBot (WithTop ℚ)) < ((⊤ : WithTop ℚ) : WithBot (WithTop ℚ)) :=
  WithBot.bot_lt_coe _

theorem lt_iff_value_lt {x y : Float} (hx : x.isNaN = false) (hy : y.isNaN = false) :
    x < y ↔ value x < value y := by
  -- an infinity beside a finite double, on either side
  have hfin : ∀ s b, (unpacked s b).lt (.infinity .positive) = true ∧
      (unpacked s b).lt (.infinity .negative) = false ∧
      UnpackedFloat.lt (.infinity .negative) (unpacked s b) = true ∧
      UnpackedFloat.lt (.infinity .positive) (unpacked s b) = false := by
    intro s b
    unfold unpacked
    split_ifs <;> exact ⟨rfl, rfl, rfl, rfl⟩
  rw [lt_iff_unpack_lt]
  rcases double_cases hx with ⟨s, a, ha⟩ | rfl | rfl <;>
    rcases double_cases hy with ⟨t, b, hb⟩ | rfl | rfl
  · rw [ha.unpack, hb.unpack, ha.value_eq, hb.value_eq, lt_unpacked_iff, ofRat_strictMono.lt_iff_lt]
  · rw [ha.unpack, unpack_neg_infinity, (hfin s a).2.1, value_neg_infinity]
    exact iff_of_false (by decide) not_lt_bot
  · rw [ha.unpack, unpack_infinity, (hfin s a).1, value_infinity, ha.value_eq]
    exact iff_of_true rfl (ofRat_lt_top _)
  · rw [hb.unpack, unpack_neg_infinity, (hfin t b).2.2.1, value_neg_infinity, hb.value_eq]
    exact iff_of_true rfl (bot_lt_ofRat _)
  · rw [unpack_neg_infinity]
    exact iff_of_false (by decide) (lt_irrefl _)
  · rw [unpack_neg_infinity, unpack_infinity, value_neg_infinity, value_infinity]
    exact iff_of_true rfl bot_lt_top
  · rw [hb.unpack, unpack_infinity, (hfin t b).2.2.2, value_infinity, hb.value_eq]
    exact iff_of_false (by decide) (ofRat_lt_top _).not_gt
  · rw [unpack_neg_infinity, unpack_infinity, value_neg_infinity, value_infinity]
    exact iff_of_false (by decide) bot_lt_top.not_gt
  · rw [unpack_infinity]
    exact iff_of_false (by decide) (lt_irrefl _)

theorem compare_dyadic (n m : Int) (e : Int) :
    (if e ≥ 0 then compare n (m * 2 ^ e.toNat) else compare (n * 2 ^ (-e).toNat) m) =
      compare (n : ℚ) (m * 2 ^ e) := by
  have hcast : StrictMono (Int.cast : Int → ℚ) := Int.cast_strictMono
  split_ifs with h
  · rw [← compare_strictMono hcast, two_zpow_of_nonneg h]
    push_cast
    rfl
  · have hpow : (0 : ℚ) < (2 ^ (-e).toNat : Nat) := by positivity
    rw [← compare_strictMono hcast, two_zpow_of_neg h,
      ← compare_strictMono (strictMono_mul_right_of_pos hpow) (n : ℚ), mul_assoc,
      inv_mul_cancel₀ hpow.ne', mul_one]
    push_cast
    rfl

theorem compareInt_eq {x : Float} (hx : x.isNaN = false) (n : Int) :
    compareInt n x = some (compare (ofRat n) (value x)) := by
  unfold compareInt
  rw [hx]
  rcases double_cases hx with ⟨s, a, ha⟩ | rfl | rfl
  · rw [ha.parts_eq, ha.value_eq, compare_strictMono ofRat_strictMono]
    simp only [Bool.false_eq_true, if_false]
    rw [compare_dyadic]
    cases s <;> simp [signedMagnitude, magnitude]
  · rw [value_neg_infinity, compare_gt_iff_gt.mpr (bot_lt_ofRat _), parts_neg_infinity.1,
      parts_neg_infinity.2]
    rfl
  · rw [value_infinity, compare_lt_iff_lt.mpr (ofRat_lt_top _), parts_infinity.1, parts_infinity.2]
    rfl

end Decimal

namespace Number

open Decimal

/-- A number that has a place in the order: not what is not a number. -/
def Ordered : Number → Prop
  | .int _ => True
  | .float x => x.isNaN = false

instance : DecidablePred Ordered
  | .int _ => .isTrue trivial
  | .float x => inferInstanceAs (Decidable (x.isNaN = false))

def value : Number → WithBot (WithTop ℚ)
  | .int n => ofRat n
  | .float x => Decimal.value x

theorem less_iff {a b : Number} (ha : a.Ordered) (hb : b.Ordered) :
    a.less b = true ↔ a.value < b.value := by
  unfold less
  rw [beq_iff_eq]
  match a, b, ha, hb with
  | .int m, .int n, _, _ =>
    change some (compare m n) = some .lt ↔ ofRat m < ofRat n
    rw [Option.some.injEq, compare_lt_iff_lt, ofRat_strictMono.lt_iff_lt, Int.cast_lt]
  | .int m, .float y, _, hy =>
    change compareInt m y = some .lt ↔ ofRat m < Decimal.value y
    rw [compareInt_eq hy, Option.some.injEq, compare_lt_iff_lt]
  | .float x, .int n, hx, _ =>
    change (compareInt n x).map Ordering.swap = some .lt ↔ Decimal.value x < ofRat n
    rw [compareInt_eq hx, Option.map_some, Option.some.injEq, Ordering.swap_eq_lt,
      compare_gt_iff_gt]
  | .float x, .float y, hx, hy =>
    change (if x < y then _ else _) = _ ↔ Decimal.value x < Decimal.value y
    rw [← lt_iff_value_lt hx hy]
    split_ifs with h <;> simp [h]

end Number

end WikiFeed

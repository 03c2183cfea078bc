import WikiFeed.Proofs.Decimal.Single

/-! # How large results can be

Products and differences of doubles are rounded, so they are not exact, but rounding cannot take a
number far up: what is under a power of two stays under the next one (`below_roundWithAccuracy`).
`Under k x` says that `x` is a finite double under `2 ^ k`. From it follow bounds for products
(`Under.mul`) and differences (`Under.sub`), and that a double can be narrowed to 32 bits
(`Under.exists_single`). -/

namespace WikiFeed.Decimal

open Float.Model (Format UnpackedFloat totalExponent)
open Float.Model.UnpackedFloat (Sign ExtendedMantissa Accuracy decreaseExponent packComponents
  roundWithAccuracy shiftToTargetExponent)

/-- A mantissa of few digits, for its exponent. -/
def Few (k : Int) (m : Nat) (e : Int) : Prop := ∃ j : Nat, m < 2 ^ j ∧ j + e ≤ k

def Below (k : Int) : UnpackedFloat → Prop
  | .zero _ => True
  | .finite _ m e _ => Few k m e
  | .infinity _ => False
  | .notANumber => False

variable {k e : Int} {m : Nat}

/-! ### Rounding -/

theorem mantissa_shiftRight (em : ExtendedMantissa) :
    ∀ n : Nat, (em >>> n).mantissa = em.mantissa / 2 ^ n
  | 0 => by rw [pow_zero, Nat.div_one]; rfl
  | n + 1 => by
    change (em >>> n).mantissa / 2 = _
    rw [mantissa_shiftRight em n, Nat.div_div_eq_div_mul, pow_succ]

theorem roundedMantissa_le (em : ExtendedMantissa) : em.roundedMantissa ≤ em.mantissa + 1 := by
  obtain ⟨m, r, s⟩ := em
  unfold ExtendedMantissa.roundedMantissa
  cases r <;> cases s <;> simp [ExtendedMantissa.accuracy, Accuracy.roundToNearestEven]
  omega

theorem targetExponent_eq (e : Int) : Format.binary64.targetExponent e = max (e - 53) (-1074) := rfl

theorem shiftToTargetExponent_eq (m : Nat) (e : Int) :
    ∃ n : Nat, (n = 0 ∨ e + n = max (totalExponent m e - 53) (-1074)) ∧
      (shiftToTargetExponent Format.binary64 m e .exact).1.mantissa = m / 2 ^ n ∧
      (shiftToTargetExponent Format.binary64 m e .exact).2 = e + n := by
  refine ⟨(Format.binary64.targetExponent (totalExponent m e) - e).toNat, ?_,
    mantissa_shiftRight _ _, rfl⟩
  rw [targetExponent_eq]
  omega

theorem Few.shift {n : Nat} (h : Few k m e) (hn : m / 2 ^ n ≠ 0 ∨ e + n ≤ k) :
    Few k (m / 2 ^ n) (e + n) := by
  obtain ⟨j, hm, hj⟩ := h
  have hlt : m / 2 ^ n < 2 ^ (j - n) := by
    rw [Nat.div_lt_iff_lt_mul (Nat.two_pow_pos n), ← pow_add]
    exact hm.trans_le (Nat.pow_le_pow_right (by decide) (by omega))
  refine ⟨j - n, hlt, ?_⟩
  rcases hn with hpos | hle
  · have : n < j := (Nat.pow_lt_pow_iff_right (by decide)).mp
      ((Nat.div_ne_zero_iff.mp hpos).2.trans_lt hm)
    omega
  · omega

theorem Few.unit_le {n : Nat} (hm : 0 < m) (h : Few k m e) (hk : -1074 ≤ k)
    (hn : n = 0 ∨ e + n = max (totalExponent m e - 53) (-1074)) : e + n ≤ k := by
  obtain ⟨j, hlt, hj⟩ := h
  have := (Nat.log2_lt hm.ne').mpr hlt
  unfold totalExponent at hn
  omega

theorem below_roundWithAccuracy (hm : 0 < m) (h : Few k m e) (hk : -1074 ≤ k) (s : Sign) :
    Below (k + 1) (roundWithAccuracy Format.binary64 s m e .exact) := by
  obtain ⟨n, hn, hman, hexp⟩ := shiftToTargetExponent_eq m e
  obtain ⟨j, hlt, hj⟩ := h.shift (.inr (h.unit_le hm hk hn))
  unfold roundWithAccuracy
  set shifted := shiftToTargetExponent Format.binary64 m e .exact
  obtain ⟨n', -, hman', hexp'⟩ := shiftToTargetExponent_eq shifted.1.roundedMantissa shifted.2
  have hrounded : Few (k + 1) shifted.1.roundedMantissa shifted.2 := by
    have := roundedMantissa_le shifted.1
    exact ⟨j + 1, by rw [pow_succ]; omega, by rw [hexp]; push_cast; omega⟩
  simp only
  split_ifs with h0
  · trivial
  · change Few _ _ _
    rw [hman', hexp']
    exact hrounded.shift (.inl (by rwa [← hman']))

theorem Few.decrease (h : Few k m e) (t : Int) :
    Few k (decreaseExponent m e t).1 (decreaseExponent m e t).2 := by
  obtain ⟨j, hm, hj⟩ := h
  unfold decreaseExponent
  simp only [Nat.shiftLeft_eq]
  refine ⟨j + (e - t).toNat, ?_, by push_cast; omega⟩
  rw [pow_add]
  gcongr

theorem decreaseExponent_exponent (m : Nat) {t : Int} (h : t ≤ e) :
    (decreaseExponent m e t).2 = t := by
  unfold decreaseExponent
  simp only
  omega

theorem decreaseExponent_pos (hm : 0 < m) (e t : Int) : 0 < (decreaseExponent m e t).1 := by
  unfold decreaseExponent
  simp only [Nat.shiftLeft_eq]
  positivity

theorem below_normalize {m : Int} (h : Few k m.natAbs e) (hk : -1074 ≤ k) (s : Sign) :
    Below (k + 1) (UnpackedFloat.normalize Format.binary64 m e s) := by
  have hround {n : Nat} (hn : 0 < n) (heq : m.natAbs = n) (s : Sign) :
      Below (k + 1) (UnpackedFloat.round Format.binary64 s n e) :=
    below_roundWithAccuracy (decreaseExponent_pos hn e _) ((heq ▸ h).decrease _) hk s
  unfold UnpackedFloat.normalize
  rcases lt_trichotomy m 0 with hm | rfl | hm
  · rw [compare_lt_iff_lt.mpr hm]
    exact hround (by omega) (by omega) .negative
  · trivial
  · rw [compare_gt_iff_gt.mpr hm]
    exact hround (by omega) (by omega) .positive

/-! ### Products and differences -/

variable {u : UnpackedFloat}

theorem below_mul {j : Int} {v : UnpackedFloat} (hu : Below j u) (hv : Below k v)
    (hjk : -1074 ≤ j + k) : Below (j + k + 1) (UnpackedFloat.mul Format.binary64 u v) := by
  match u, v, hu, hv with
  | .zero _, .zero _, _, _ => trivial
  | .zero _, .finite .., _, _ => trivial
  | .finite .., .zero _, _, _ => trivial
  | .finite _ m e hm, .finite _ n f hn, ⟨a, hma, ha⟩, ⟨b, hnb, hb⟩ =>
    refine below_roundWithAccuracy (Nat.mul_pos hm hn) ⟨a + b, ?_, by push_cast; omega⟩ hjk _
    rw [pow_add]
    exact Nat.mul_lt_mul'' hma hnb

theorem natAbs_apply_sub_le (s t : Sign) (m n : Nat) :
    (s.apply m - t.apply n : Int).natAbs ≤ m + n := by
  cases s <;> cases t <;> simp only [Sign.apply] <;> omega

/-- Two numbers that are under a power of two have a sum under the next one. -/
theorem Few.add {n : Nat} (hm : Few k m e) (hn : Few k n e) : Few (k + 1) (m + n) e := by
  obtain ⟨a, hma, ha⟩ := hm
  obtain ⟨b, hnb, hb⟩ := hn
  have hma' : m < 2 ^ max a b := hma.trans_le (Nat.pow_le_pow_right (by decide) (by omega))
  have hnb' : n < 2 ^ max a b := hnb.trans_le (Nat.pow_le_pow_right (by decide) (by omega))
  exact ⟨max a b + 1, by rw [pow_succ]; omega, by push_cast; omega⟩

theorem below_sub {v : UnpackedFloat} (hu : Below k u) (hv : Below k v) (hk : -1074 ≤ k) :
    Below (k + 2) (UnpackedFloat.sub Format.binary64 u v) := by
  have hup {m : Nat} {e : Int} (h : Few k m e) : Few (k + 2) m e := by
    obtain ⟨j, hm, hj⟩ := h
    exact ⟨j, hm, by omega⟩
  match u, v, hu, hv with
  | .zero s, .zero t, _, _ =>
    unfold UnpackedFloat.sub
    simp only
    split_ifs <;> trivial
  | .zero _, .finite .., _, hv => exact hup hv
  | .finite .., .zero _, hu, _ => exact hup hu
  | .finite s m e _, .finite t n f _, hu, hv =>
    have hm := Few.decrease hu (min e f)
    have hn := Few.decrease hv (min e f)
    rw [decreaseExponent_exponent m (min_le_left e f)] at hm
    rw [decreaseExponent_exponent n (min_le_right e f)] at hn
    obtain ⟨j, hlt, hj⟩ := hm.add hn
    rw [show k + 2 = k + 1 + 1 by ring]
    exact below_normalize ⟨j, (natAbs_apply_sub_le s t _ _).trans_lt hlt, hj⟩ (by omega) .positive

/-! ### Doubles under a power of two -/

def Under (k : Nat) (x : Float) : Prop :=
  ∃ negative b, HasBits x negative b ∧ b < (k + 1023) * 2 ^ 52

variable {x : Float}

theorem Under.below {k : Nat} (h : Under k x) : Below k x.toModel.unpack := by
  obtain ⟨negative, b, hx, hb⟩ := h
  rw [hx.unpack]
  unfold unpacked
  split_ifs with h0
  · trivial
  · obtain ⟨i, m, hlo, hhi, rfl⟩ := exists_block 52 b
    obtain ⟨hm, he⟩ := parts_block hlo hhi (-1074)
    refine ⟨53, by rwa [hm], ?_⟩
    rw [he]
    push_cast
    omega

theorem exists_signOf_eq (s : Sign) : ∃ negative, signOf negative = s := by
  cases s with
  | negative => exact ⟨true, rfl⟩
  | positive => exact ⟨false, rfl⟩

theorem under_pack {k : Nat} (h : Below k u) (hk : k ≤ 900) : Under k (.ofModel (.pack u)) := by
  -- it is enough to look at the two fields that the bits are made of
  have hfields : ∀ {negative : Bool} {e : BitVec 11} {m : BitVec 52}, e.toNat < k + 1023 →
      UnpackedFloat.pack Format.binary64 u =
        packComponents Format.binary64 (signOf negative) e m →
      Under k (.ofModel (.pack u)) := by
    intro negative e m he hu
    have hm := m.isLt
    refine ⟨negative, e.toNat * 2 ^ 52 + m.toNat, ⟨by unfold beyond; omega, ?_⟩, by omega⟩
    rw [bitsOf_ofModel_pack, hu, toNat_packComponents, Nat.add_assoc]
  match u, h with
  | .zero s, _ =>
    obtain ⟨negative, rfl⟩ := exists_signOf_eq s
    exact hfields (by simp) rfl
  | .finite s m e hm, ⟨j, hlt, hj⟩ =>
    obtain ⟨negative, rfl⟩ := exists_signOf_eq s
    have hbias : (e + (Format.binary64.exponentBias : Int) +
        Format.binary64.mantissaBitsWithoutImplicit).toNat = (e + 1075).toNat := by
      rw [show (Format.binary64.exponentBias : Int) = 1023 from rfl]
      congr 1
      simp
      ring
    have hlog := (Nat.log2_lt hm.ne').mpr hlt
    have hpack : UnpackedFloat.pack Format.binary64 (.finite (signOf negative) m e hm) =
        if m.log2 + 1 = 53 then packComponents Format.binary64 (signOf negative)
          (BitVec.ofNat 11 (e + 1075).toNat) (BitVec.ofNat 52 m)
        else packComponents Format.binary64 (signOf negative) 0#11 (BitVec.ofNat 52 m) := by
      unfold UnpackedFloat.pack
      simp only [hbias]
      rw [if_neg (by simp; omega)]
      rfl
    by_cases hleading : m.log2 + 1 = 53
    · rw [if_pos hleading] at hpack
      refine hfields ?_ hpack
      rw [BitVec.toNat_ofNat]
      exact (Nat.mod_le _ _).trans_lt (by omega)
    · rw [if_neg hleading] at hpack
      exact hfields (by simp) hpack

theorem Under.mul {j k : Nat} {y : Float} (hx : Under j x) (hy : Under k y)
    (hjk : j + k + 1 ≤ 900) : Under (j + k + 1) (x * y) :=
  under_pack (by exact_mod_cast below_mul hx.below hy.below (by omega)) hjk

theorem Under.sub {k : Nat} {y : Float} (hx : Under k x) (hy : Under k y) (hk : k + 2 ≤ 900) :
    Under (k + 2) (x - y) :=
  under_pack (by exact_mod_cast below_sub hx.below hy.below (by omega)) hk

theorem Under.exists_single {k : Nat} (h : Under k x) (hk : k ≤ 100) :
    ∃ s, Single.ofFloat? x = some s := by
  obtain ⟨negative, b, hx, hb⟩ := h
  have hlt : b < (1122 + 1) * 2 ^ 52 := hb.trans_le (Nat.mul_le_mul_right _ (by omega))
  have hlast : magnitude 52 (-1074) ((1122 + 1) * 2 ^ 52) = 2 ^ (100 : Int) := by
    rw [magnitude_power]
    norm_num
  exact Single.exists_ofFloat? hx ((magnitude_strictMono 52 (-1074) hlt).trans_eq hlast)

theorem under_nearest {num den : Nat} (h : num ≤ den) : Under 2 (nearest num den) := by
  unfold nearest
  split_ifs with h0
  · exact ⟨false, 0, hasBits_zero, by norm_num⟩
  · have hle : nearestBits 52 (-1074) num den ≤ (1022 + 2) * 2 ^ 52 := by
      refine nearestBits_le (by omega) (by omega) ?_
      have hden : (0 : ℚ) < den := by exact_mod_cast (by omega : 0 < den)
      have hone : (num : ℚ) / den ≤ 1 := (div_le_one hden).mpr (by exact_mod_cast h)
      exact hone.trans_lt (by norm_num)
    simp only
    rw [if_neg (by omega)]
    exact ⟨false, _, hasBits_ofBits (by unfold beyond; omega), by omega⟩

end WikiFeed.Decimal

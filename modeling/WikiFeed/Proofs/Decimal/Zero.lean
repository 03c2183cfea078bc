import WikiFeed.Proofs.Decimal.Order

/-! # Doubles that are zero

Two doubles equal zero, one for each sign (`eq_zero_of_beq`). A whole number other than zero is not
rounded to one of them (`beq_zero_of_ofInt?`), and a number that is not below one keeps one when it
loses its fraction (`Number.one_le_truncate`). -/

namespace WikiFeed

open Float.Model (Format UnpackedFloat)

variable {x : Float} {negative : Bool} {b : Nat} {n : Int}

namespace Decimal

/-! ### Zero -/

theorem beq_zero_iff : (x == 0.0) = true ↔
    x.toModel.unpack.compare (.zero .positive) = some .eq := by
  change (x.toModel.unpack.compare (0.0 : Float).toModel.unpack == some .eq) = true ↔ _
  rw [beq_iff_eq, hasBits_zero.unpack, unpacked_zero]
  rfl

theorem HasBits.eq_zero (h : HasBits x negative b) (hx : (x == 0.0) = true) : b = 0 := by
  by_contra hb
  obtain ⟨hm, hfinite⟩ := exists_unpacked (Nat.pos_of_ne_zero hb) negative
  rw [beq_zero_iff, h.unpack, hfinite] at hx
  cases negative <;> cases hx

theorem eq_zero_of_beq (h : (x == 0.0) = true) : x = 0.0 ∨ x = -0.0 := by
  have hzero : (0.0 : Float) = 0 := by decide +kernel
  rw [hzero] at h ⊢
  obtain ⟨-, -, rfl | ⟨rfl, -⟩ | ⟨rfl, -⟩⟩ := Float.beq_iff_ne_nan_and_eq.mp h
  · exact .inl rfl
  · exact .inl rfl
  · exact .inr rfl

/-! ### Whole numbers as doubles -/

section Nearest

variable {places num den : Nat} {least : Int}

theorem nearestBits_pos (hnum : 0 < num) (hden : 0 < den) (h : (2 : ℚ) ^ least ≤ num / den) :
    0 < nearestBits places least num den := by
  obtain ⟨k, -, hbits, hlead, -⟩ := nearestBits_block places least hnum hden
  rw [hbits]
  rcases hlead with rfl | hlead
  · have hone : 1 ≤ scaled num den (least + (0 : Nat)) := le_scaled hden (by simpa using h)
    omega
  · have := Nat.two_pow_pos places
    omega

end Nearest

theorem nearest_cases {num den : Nat} (hnum : 0 < num) (hden : 0 < den) :
    nearest num den = infinity ∨
      HasBits (nearest num den) false (nearestBits 52 (-1074) num den) := by
  have hzero : ¬ (num = 0 ∨ den = 0) := by omega
  unfold nearest
  rw [if_neg hzero]
  simp only
  split_ifs with hbits
  · exact .inl rfl
  · exact .inr (hasBits_ofBits (not_le.mp hbits))

theorem beq_zero_of_ofInt? (hn : n ≠ 0) (h : ofInt? n = some x) : (x == 0.0) = false := by
  have hnum : 0 < n.natAbs := Int.natAbs_pos.mpr hn
  have hpos : 0 < nearestBits 52 (-1074) n.natAbs 1 := by
    refine nearestBits_pos hnum Nat.one_pos ?_
    have hone : (1 : ℚ) ≤ (n.natAbs : ℚ) / (1 : Nat) := by
      rw [Nat.cast_one, div_one]
      exact_mod_cast hnum
    refine le_trans ?_ hone
    rw [zpow_neg]
    exact inv_le_one_of_one_le₀ (one_le_zpow₀ (by norm_num) (by omega))
  have hinfinite (negative : Bool) : (withSign negative infinity).isInf = true := by
    cases negative <;> decide +kernel
  unfold ofInt? nearestSigned at h
  simp only at h
  rcases nearest_cases hnum Nat.one_pos with hnearest | hnearest
  · rw [hnearest, if_pos (hinfinite _)] at h
    cases h
  · have hsigned := hnearest.withSign (decide (n < 0))
    rw [hsigned.not_isInf] at h
    obtain rfl := Option.some.inj h
    rw [Bool.eq_false_iff]
    intro hzero
    have := hsigned.eq_zero hzero
    omega

/-! ### Numbers without their fractions -/

theorem HasBits.not_isNaN (h : HasBits x negative b) : x.isNaN = false := by
  change x.toModel.unpack.isNaN = false
  rw [h.unpack]
  unfold unpacked
  split_ifs <;> rfl

theorem exists_hasBits {p : Parts} (h : parts x = some p) : ∃ negative b, HasBits x negative b := by
  have hfield : bitsOf x / 2 ^ 52 % 2 ^ 11 ≠ 2047 := by
    intro hfield
    change (if bitsOf x / 2 ^ 52 % 2 ^ 11 = 2047 then none else _) = _ at h
    rw [if_pos hfield] at h
    cases h
  refine ⟨_, _, hasBits_of_lt ?_⟩
  unfold beyond
  omega

theorem one_le_truncate? (h : HasBits x negative b) (hone : 1 ≤ signedMagnitude negative b)
    (hn : truncate? x = some n) : 1 ≤ n := by
  have hnonneg := wideMagnitude_nonneg b
  have hpositive : negative = false := by
    cases negative with
    | false => rfl
    | true =>
      have : 1 ≤ -wideMagnitude b := hone
      linarith
  subst hpositive
  obtain ⟨num, den, hden, hvalue, hquotient⟩ :=
    dyadic_eq_fraction (mantissaOf 52 b) (exponentOf 52 (-1074) b)
  have hle : den ≤ num := by
    have hfraction : (1 : ℚ) ≤ num / den := hvalue ▸ hone
    rw [one_le_div (by exact_mod_cast hden)] at hfraction
    exact_mod_cast hfraction
  have hwhole := hquotient (· / ·)
  simp only [Nat.div_one] at hwhole
  unfold truncate? at hn
  rw [h.parts_eq, Option.map_some, Option.some.injEq] at hn
  simp only [Bool.false_eq_true, if_false, hwhole] at hn
  rw [← hn]
  exact_mod_cast (Nat.one_le_div_iff hden).mpr hle

end Decimal

namespace Number

open Decimal

theorem one_le_truncate {a : Number} (ha : a.less (.int 1) = false) (h : a.truncate = .ok n) :
    1 ≤ n := by
  have hone : (Number.int 1).value = ofRat 1 := by
    change ofRat ((1 : Int) : ℚ) = _
    rw [Int.cast_one]
  cases a with
  | int m =>
    have hless : ¬ (ofRat m < ofRat 1) := by
      rw [← hone]
      exact mt (less_iff (a := .int m) (b := .int 1) trivial trivial).mpr (by simp [ha])
    rw [ofRat_strictMono.lt_iff_lt, not_lt] at hless
    cases h
    exact_mod_cast hless
  | float x =>
    unfold truncate at h
    cases hx : truncate? x with
    | none => simp [hx] at h
    | some k =>
      simp only [hx, Except.ok.injEq] at h
      subst h
      obtain ⟨p, hp, -⟩ := Option.map_eq_some_iff.mp hx
      obtain ⟨negative, b, hbits⟩ := exists_hasBits hp
      have hless : ¬ (Decimal.value x < ofRat 1) := by
        rw [← hone]
        exact mt (less_iff (a := .float x) (b := .int 1) hbits.not_isNaN trivial).mpr (by simp [ha])
      rw [hbits.value_eq, ofRat_strictMono.lt_iff_lt, not_lt] at hless
      exact one_le_truncate? hbits hless hx

end Number

end WikiFeed

import WikiFeed.Proofs.Decimal.Finite

/-! # Fractions that doubles can hold

Of two fractions the greater one has no lesser bits. So a whole number that is no greater than one
that a double can hold can be held by a double, and so can its quotients (`isSome_ofInt?_of_le`,
`Number.exists_quotient`). -/

namespace WikiFeed

open Nat

namespace Decimal

variable {num den num' den' : Nat}

theorem not_isInf_nearestSigned_iff (negative : Bool) (hnum : 0 < num) (hden : 0 < den) :
    (nearestSigned negative num den).isInf = false ↔ nearestBits 52 (-1074) num den < beyond := by
  have hzero : ¬ (num = 0 ∨ den = 0) := by omega
  rcases lt_or_ge (nearestBits 52 (-1074) num den) beyond with hbits | hbits
  · have hnearest : nearest num den = .ofBits (nearestBits 52 (-1074) num den).toUInt64 := by
      unfold nearest
      rw [if_neg hzero]
      exact if_neg (not_le.mpr hbits)
    refine iff_of_true ?_ hbits
    rw [nearestSigned, hnearest]
    exact ((hasBits_ofBits hbits).withSign negative).not_isInf
  · have hnearest : nearest num den = infinity := by
      unfold nearest
      rw [if_neg hzero]
      exact if_pos hbits
    refine iff_of_false ?_ (not_lt.mpr hbits)
    rw [nearestSigned, hnearest]
    cases negative <;> decide +kernel

theorem not_isInf_nearestSigned_zero (negative : Bool) (den : Nat) :
    (nearestSigned negative 0 den).isInf = false := by
  have hzero : nearest 0 den = 0.0 := if_pos (.inl rfl)
  rw [nearestSigned, hzero]
  exact (hasBits_zero.withSign negative).not_isInf

theorem not_isInf_nearestSigned_of_le (negative : Bool) {negative' : Bool} (hden : 0 < den)
    (hden' : 0 < den') (h : (num : ℚ) / den ≤ num' / den')
    (hfinite : (nearestSigned negative' num' den').isInf = false) :
    (nearestSigned negative num den).isInf = false := by
  rcases Nat.eq_zero_or_pos num with rfl | hnum
  · exact not_isInf_nearestSigned_zero negative den
  have hpos : (0 : ℚ) < num' / den' := lt_of_lt_of_le (by positivity) h
  have hnum' : 0 < num' := by
    rcases Nat.eq_zero_or_pos num' with rfl | hnum'
    · simp at hpos
    · exact hnum'
  rw [not_isInf_nearestSigned_iff negative' hnum' hden'] at hfinite
  rw [not_isInf_nearestSigned_iff negative hnum hden]
  exact (nearestBits_mono hnum hden hnum' hden' h).trans_lt hfinite

theorem isSome_ofInt?_iff {n : Int} :
    (ofInt? n).isSome ↔ (nearestSigned (n < 0) n.natAbs 1).isInf = false := by
  unfold ofInt?
  simp only
  split_ifs with h <;> simp [h]

theorem isSome_ofInt?_of_le {m n : Int} (h : m.natAbs ≤ n.natAbs) (hn : (ofInt? n).isSome) :
    (ofInt? m).isSome := by
  rw [isSome_ofInt?_iff] at hn ⊢
  refine not_isInf_nearestSigned_of_le _ one_pos one_pos ?_ hn
  gcongr

end Decimal

namespace Number

open Decimal

theorem toFloat_int {n : Int} {x : Float} (h : ofInt? n = some x) :
    (Number.int n).toFloat = .ok x := by
  simp only [toFloat, h]

theorem isSome_of_toFloat_int {n : Int} {x : Float} (h : (Number.int n).toFloat = .ok x) :
    (ofInt? n).isSome := by
  unfold toFloat at h
  cases hn : ofInt? n with
  | none =>
    simp only [hn] at h
    cases h
  | some y => rfl

theorem quotient_int {m n : Int} (hn : 0 < n)
    (h : (nearestSigned (m < 0) m.natAbs n.natAbs).isInf = false) :
    ∃ q, (Number.int m).quotient (.int n) = .ok q := by
  have hsign : (decide (m < 0) != decide (n < 0)) = decide (m < 0) := by
    rw [decide_eq_false (by omega : ¬ n < 0), Bool.bne_false]
  refine ⟨nearestSigned (m < 0) m.natAbs n.natAbs, ?_⟩
  unfold quotient both
  simp only [if_neg hn.ne', hsign, h, Bool.false_eq_true, if_false]

theorem exists_quotient {a : Number} {x : Float} (ha : a.toFloat = .ok x) {n : Int} (hn : 0 < n)
    (hfits : (ofInt? n).isSome) : ∃ q, a.quotient (.int n) = .ok q := by
  cases a with
  | int m =>
    refine quotient_int hn (not_isInf_nearestSigned_of_le _ (by omega) one_pos ?_
      (isSome_ofInt?_iff.mp (isSome_of_toFloat_int ha)))
    have hone : (1 : ℚ) ≤ n.natAbs := by exact_mod_cast Int.natAbs_pos.mpr hn.ne'
    rw [cast_one, div_one]
    exact div_le_self (by positivity) hone
  | float y =>
    obtain ⟨w, hw⟩ := Option.isSome_iff_exists.mp hfits
    refine ⟨y / w, ?_⟩
    change (do
      let b ← toFloat (.int n)
      if b == 0.0 then .error .zeroDivision else .ok (y / b) : Outcome Float) = _
    rw [toFloat_int hw]
    change (if w == 0.0 then .error .zeroDivision else .ok (y / w) : Outcome Float) = _
    rw [beq_zero_of_ofInt? hn.ne' hw]
    rfl

end Number

end WikiFeed

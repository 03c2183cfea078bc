import WikiFeed.Proofs.Decimal.Zero

/-! # Finite doubles

A double that is neither infinite nor what is not a number has bits (`hasBits_of_finite`). Narrowed
to 32 bits it stays finite, so it can lose its fraction (`Single.exists_truncate?`). -/

namespace WikiFeed.Decimal

def IsFinite (x : Float) : Prop := x.isNaN = false ∧ x.isInf = false

theorem hasBits_of_finite {x : Float} (h : IsFinite x) : ∃ negative b, HasBits x negative b := by
  rcases double_cases h.1 with hbits | rfl | rfl
  · exact hbits
  · exact absurd h.2 (by decide +kernel)
  · exact absurd h.2 (by decide +kernel)

theorem isFinite_of_hasBits {x : Float} {negative : Bool} {b : Nat} (h : HasBits x negative b) :
    IsFinite x := ⟨h.not_isNaN, h.not_isInf⟩

theorem HasBits.exists_truncate? {x : Float} {negative : Bool} {b : Nat}
    (h : HasBits x negative b) : ∃ n, truncate? x = some n := by
  unfold truncate?
  rw [h.parts_eq]
  exact ⟨_, rfl⟩

theorem nearestSigned_cases (negative : Bool) (num : Nat) {den : Nat} (hden : 0 < den) :
    (nearestSigned negative num den).isInf = true ∨ IsFinite (nearestSigned negative num den) := by
  rcases Nat.eq_zero_or_pos num with rfl | hnum
  · have hzero : nearest 0 den = 0.0 := if_pos (.inl rfl)
    unfold nearestSigned
    rw [hzero]
    exact .inr (isFinite_of_hasBits (hasBits_zero.withSign negative))
  · unfold nearestSigned
    rcases nearest_cases hnum hden with hinfinite | hbits
    · rw [hinfinite]
      exact .inl (by cases negative <;> decide +kernel)
    · exact .inr (isFinite_of_hasBits (hbits.withSign negative))

theorem isFinite_of_ofInt? {n : Int} {x : Float} (h : ofInt? n = some x) : IsFinite x := by
  unfold ofInt? at h
  simp only at h
  split_ifs at h with hinfinite
  cases h
  exact (nearestSigned_cases _ _ Nat.one_pos).resolve_left hinfinite

namespace Single

theorem nearest?_lt {num den b : Nat} (h : nearest? num den = some b) : b < beyond := by
  unfold nearest? at h
  simp only at h
  split_ifs at h with hzero hlt
  · cases h
    decide
  · cases h
    exact hlt

theorem isFinite_of_ofFloat? {x : Float} {s : Single} (hx : Decimal.IsFinite x)
    (h : ofFloat? x = some s) : s.IsFinite := by
  obtain ⟨negative, w, hbits⟩ := hasBits_of_finite hx
  obtain ⟨num, den, -, -, heq⟩ := ofFloat?_eq hbits
  rw [h] at heq
  obtain ⟨b, hb, rfl⟩ := Option.map_eq_some_iff.mp heq.symm
  have hlt := nearest?_lt hb
  rw [IsFinite, toNat_toUInt32 hlt, signBit_add_mod hlt]
  exact hlt

theorem exists_truncate? {s : Single} (h : s.IsFinite) : ∃ n, truncate? s.toFloat = some n := by
  obtain ⟨w, hw, hv⟩ := exists_wide h
  exact (hasBits_toFloat h hw hv).exists_truncate?

end Single

end WikiFeed.Decimal

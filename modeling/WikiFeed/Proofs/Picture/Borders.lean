import WikiFeed.Picture.Basic

/-! # Borders of pictures

A border grows ring by ring: the outermost rows are copied one step outward, then the outermost
columns of the heightened part, so that the corners come with the columns. After `i` rings all
points at most `i` steps around the picture have the colour of the nearest point of the picture
(`Repeats`). Main statement: `expand_repeats_edges`. -/

namespace WikiFeed.Picture

theorem contains_iff {p : Picture} {x y : Int} : p.contains x y = true ↔
    0 ≤ x ∧ x < p.width ∧ 0 ≤ y ∧ y < p.height := by
  simp [contains, and_assoc]

section Copies

variable {q s : Picture} {left top right bottom a b : Int} {x y u v : Nat}

theorem pixel_paste_crop (hu : (u : Int) = left + (x - a)) (hv : (v : Int) = top + (y - b))
    (hx : left ≤ u ∧ u < right) (hy : top ≤ v ∧ v < bottom) (hw : u < s.width) (hh : v < s.height) :
    (q.paste (s.crop left top right bottom) a b).pixel x y = s.pixel u v := by
  have hcrop : (s.crop left top right bottom).contains (x - a) (y - b) := by
    simp only [contains_iff, crop]
    omega
  have hleft : left + ((x - a).toNat : Int) = u := by omega
  have htop : top + ((y - b).toNat : Int) = v := by omega
  have hinside : s.contains u v := contains_iff.mpr (by omega)
  calc (q.paste (s.crop left top right bottom) a b).pixel x y
      = (s.crop left top right bottom).pixel (x - a).toNat (y - b).toNat := if_pos hcrop
    _ = s.colourAt u v := by simp only [crop, hleft, htop]
    _ = s.pixel u v := if_pos hinside

theorem pixel_paste_crop_of_outside
    (h : x < a ∨ a + (right - left) ≤ x ∨ y < b ∨ b + (bottom - top) ≤ y) :
    (q.paste (s.crop left top right bottom) a b).pixel x y = q.pixel x y := by
  refine if_neg ?_
  simp only [contains_iff, crop]
  omega

end Copies

/-! ### Rings -/

section Rings

variable {p q : Picture} {b i : Nat}

/-- Around a picture that lies `b` steps inside, the points at most `i` steps outward and `j` steps
up and down have the colour of the nearest point of the picture. -/
structure Repeats (p q : Picture) (b i j : Nat) : Prop where
  width : q.width = p.width + 2 * b
  height : q.height = p.height + 2 * b
  pixel {x y : Nat} : b ≤ x + i → x < b + p.width + i → b ≤ y + j → y < b + p.height + j →
    q.pixel x y = p.pixel (min (x - b) (p.width - 1)) (min (y - b) (p.height - 1))

theorem Repeats.rows (h : Repeats p q b i i) (hi : i < b) (hh : 0 < p.height) :
    Repeats p ((q.paste (q.crop (b - i) (b - i) (b + p.width + i) (b - i + 1))
      (b - i) (b - i - 1)).paste
      (q.crop (b - i) (b + p.height + i - 1) (b + p.width + i) (b + p.height + i - 1 + 1)) (b - i)
      (b + p.height + i - 1 + 1)) b i (i + 1) := by
  refine ⟨h.width, h.height, fun {x y} hx hx' hy hy' => ?_⟩
  have hw := h.width
  have hq := h.height
  by_cases hlower : y = b + p.height + i
  · rw [pixel_paste_crop (u := x) (v := y - 1) (by omega) (by omega) (by omega) (by omega)
      (by omega)
      (by omega), h.pixel hx hx' (by omega) (by omega)]
    congr 1
    omega
  rw [pixel_paste_crop_of_outside (by omega)]
  by_cases hupper : y + i + 1 = b
  · rw [pixel_paste_crop (u := x) (v := y + 1) (by omega) (by omega) (by omega) (by omega)
      (by omega)
      (by omega), h.pixel hx hx' (by omega) (by omega)]
    congr 1
    omega
  rw [pixel_paste_crop_of_outside (by omega), h.pixel hx hx' (by omega) (by omega)]

theorem Repeats.columns (h : Repeats p q b i (i + 1)) (hi : i < b) (hw : 0 < p.width) :
    Repeats p ((q.paste (q.crop (b - i) (b - i - 1) (b - i + 1) (b + p.height + i - 1 + 2))
      (b - i - 1)
      (b - i - 1)).paste (q.crop (b + p.width + i - 1) (b - i - 1) (b + p.width + i)
      (b + p.height + i - 1 + 2)) (b + p.width + i) (b - i - 1)) b (i + 1) (i + 1) := by
  refine ⟨h.width, h.height, fun {x y} hx hx' hy hy' => ?_⟩
  have hq := h.width
  have hh := h.height
  by_cases hlast : x = b + p.width + i
  · rw [pixel_paste_crop (u := x - 1) (v := y) (by omega) (by omega) (by omega) (by omega)
      (by omega)
      (by omega), h.pixel (by omega) (by omega) hy hy']
    congr 1
    omega
  rw [pixel_paste_crop_of_outside (by omega)]
  by_cases hfirst : x + i + 1 = b
  · rw [pixel_paste_crop (u := x + 1) (v := y) (by omega) (by omega) (by omega) (by omega)
      (by omega)
      (by omega), h.pixel (by omega) (by omega) hy hy']
    congr 1
    omega
  rw [pixel_paste_crop_of_outside (by omega), h.pixel (by omega) (by omega) hy hy']

theorem Repeats.ring (h : Repeats p q b i i) (hi : i < b) (hw : 0 < p.width) (hh : 0 < p.height) :
    Repeats p (growRing p.width p.height b q i) b (i + 1) (i + 1) :=
  (h.rows hi hh).columns hi hw

theorem repeats_paste (p : Picture) (b : Nat) :
    Repeats p ((blank (p.width + 2 * b) (p.height + 2 * b)).paste p b b) b 0 0 := by
  refine ⟨rfl, rfl, fun {x y} hx hx' hy hy' => ?_⟩
  refine (if_pos (contains_iff.mpr (by omega))).trans ?_
  congr 1 <;> omega

theorem repeats_foldl (hw : 0 < p.width) (hh : 0 < p.height) : ∀ {i : Nat}, i ≤ b →
    Repeats p ((List.range i).foldl (growRing p.width p.height b)
      ((blank (p.width + 2 * b) (p.height + 2 * b)).paste p b b)) b i i
  | 0, _ => repeats_paste p b
  | i + 1, hi => by
    rw [List.range_succ, List.foldl_append]
    exact (repeats_foldl hw hh (Nat.le_of_succ_le hi)).ring hi hw hh

/-- **A border repeats the edges** of a picture: each point has the colour of the nearest point of
the picture, in the corners too. -/
theorem expand_repeats_edges (p : Picture) (b : Nat) (hw : 0 < p.width) (hh : 0 < p.height) :
    (p.expand b).width = p.width + 2 * b ∧ (p.expand b).height = p.height + 2 * b ∧
      ∀ x y, x < p.width + 2 * b → y < p.height + 2 * b → (p.expand b).pixel x y =
        p.pixel (min (max ((x : Int) - b) 0).toNat (p.width - 1))
          (min (max ((y : Int) - b) 0).toNat (p.height - 1)) := by
  have h : Repeats p (p.expand b) b b b := repeats_foldl hw hh (Nat.le_refl b)
  refine ⟨h.width, h.height, fun x y hx hy => ?_⟩
  rw [h.pixel (by omega) (by omega) (by omega) (by omega)]
  congr 2 <;> omega

end Rings

def twoPoints : Picture := ⟨2, 1, fun x _ => if x = 0 then 0xFF0000FF else 0x0000FFFF⟩

theorem expand_repeats_edges_twoPoints :
    (0 < twoPoints.width ∧ 0 < twoPoints.height) ∧
      (twoPoints.expand 2).pixel 0 0 = 0xFF0000FF ∧
      (twoPoints.expand 2).pixel 5 4 = 0x0000FFFF := by
  obtain ⟨-, -, h⟩ := expand_repeats_edges twoPoints 2 (by decide) (by decide)
  exact ⟨by decide, h 0 0 (by decide) (by decide), h 5 4 (by decide) (by decide)⟩

end WikiFeed.Picture

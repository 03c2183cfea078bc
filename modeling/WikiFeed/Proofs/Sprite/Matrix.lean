import Mathlib.Data.List.GetD
import WikiFeed.Proofs.Sprite.Calculation
import WikiFeed.Sprite.Matrix

/-! # Transformations and calculation

A matrix is numeric if all its entries are numbers. Transformations are built from numbers as
numeric matrices, and a numeric matrix is taken apart into a pose, unless a calculation has no
result. -/

namespace WikiFeed.Sprite

open List
open Outcome (ok_bind)

namespace Matrix

def Numeric (m : Matrix) : Prop := ∀ i j, i < 3 → j < 3 → IsNumber (m.entry i j)

theorem numeric_of_rows {rows : List (List Datum)} (hrows : rows.length = 3)
    (h : ∀ row ∈ rows, row.length = 3 ∧ ∀ d ∈ row, IsNumber d) : Numeric ⟨rows⟩ := by
  intro i j hi hj
  have hrow : rows[i]? = some (rows.getD i []) := by
    rw [getElem?_eq_getElem (hrows ▸ hi), getD_eq_getElem _ _ (hrows ▸ hi)]
  obtain ⟨hlength, hall⟩ := h _ (mem_of_getElem? hrow)
  unfold entry
  rw [getD_eq_getElem _ _ (hlength ▸ hj)]
  exact hall _ (getElem_mem _)

theorem numeric_one : Numeric one := by
  refine numeric_of_rows rfl ?_
  simp [isNumber_int]

theorem entry_withEntry (m : Matrix) (i j i' j' : Nat) (d : Datum) :
    (m.withEntry i j d).entry i' j' = d ∨ (m.withEntry i j d).entry i' j' = m.entry i' j' := by
  unfold entry withEntry
  simp only [getD_eq_getElem?_getD, getElem?_modify]
  cases hrow : m.rows[i']? with
  | none => exact .inr (by simp)
  | some row =>
    simp only [Option.map_eq_map, Option.map_some, Option.getD_some]
    by_cases hi : i = i'
    · rw [if_pos hi, getElem?_set]
      by_cases hj : j = j'
      · rw [if_pos hj]
        split_ifs with hlt
        · exact .inl rfl
        · rw [getElem?_eq_none (by omega)]
          exact .inr rfl
      · rw [if_neg hj]
        exact .inr rfl
    · rw [if_neg hi]
      exact .inr rfl

variable {m : Matrix}

theorem Numeric.withEntry (hm : m.Numeric) {d : Datum} (hd : IsNumber d) (i j : Nat) :
    (m.withEntry i j d).Numeric := by
  intro i' j' hi hj
  rcases entry_withEntry m i j i' j' d with h | h
  · rw [h]
    exact hd
  · rw [h]
    exact hm i' j' hi hj

theorem Numeric.withPlace (hm : m.Numeric) {x y : Datum} (hx : IsNumber x) (hy : IsNumber y) :
    (m.withPlace x y).Numeric :=
  (hm.withEntry hx 0 2).withEntry hy 1 2

theorem Numeric.withScale (hm : m.Numeric) {x y : Datum} (hx : IsNumber x) (hy : IsNumber y) :
    (m.withScale x y).Numeric :=
  (hm.withEntry hx 0 0).withEntry hy 1 1

theorem completes_withRotation (hm : m.Numeric) {angle : Datum} (h : IsNumber angle) :
    Completes Numeric (m.withRotation angle) := by
  refine (completes_ofAngle Float.cos h).bind fun c hc => ?_
  refine (completes_ofAngle Float.sin h).bind fun s hs => ?_
  refine (completes_negative hs).bind fun t ht => ?_
  exact (((hm.withEntry hc 0 0).withEntry hs 0 1).withEntry ht 1 0).withEntry hc 1 1

theorem completes_total {ds : List Datum} (h : ∀ d ∈ ds, IsNumber d) :
    Completes IsNumber (total ds) :=
  completes_foldlM (fun d hd _ hs => completes_plus hs (h d hd)) (isNumber_int 0)

theorem completes_build {f : Nat → Nat → Result Datum}
    (h : ∀ i j, i < 3 → j < 3 → Completes IsNumber (f i j)) : Completes Numeric (build f) := by
  have hrow : ∀ i ∈ range 3, Completes (fun row => row.length = 3 ∧ ∀ d ∈ row, IsNumber d)
      ((range 3).mapM fun j => f i j) := by
    intro i hi
    have hentry : ∀ j ∈ range 3, Completes IsNumber (f i j) := fun j hj =>
      h i j (mem_range.mp hi) (mem_range.mp hj)
    have hlength := completes_mapM hentry
    exact (hlength.and (completes_mapM_all hentry)).mono fun row hrow =>
      ⟨hrow.1.length_eq.symm, hrow.2⟩
  exact ((completes_mapM hrow).and (completes_mapM_all hrow)).bind fun rows hrows =>
    numeric_of_rows hrows.1.length_eq.symm hrows.2

theorem completes_product {a b : Matrix} (ha : a.Numeric) (hb : b.Numeric) :
    Completes Numeric (a.product b) := by
  refine completes_build fun i j hi hj => ?_
  refine (completes_mapM_all fun k hk => ?_).bind fun ds hds => completes_total hds
  have hk3 := mem_range.mp hk
  exact completes_times (ha i k hi hk3) (hb k j hk3 hj)

end Matrix

/-! ### Poses -/

theorem completes_lengthOfPair {a b : Datum} (ha : IsNumber a) (hb : IsNumber b) :
    Completes (fun _ => True) (lengthOfPair a b) := by
  unfold lengthOfPair
  extract_lets square
  have hsquare {d : Datum} (hd : IsNumber d) : Completes (fun _ => True) (square d) := by
    refine hd.completes fun n => ?_
    cases n with
    | int n => trivial
    | float x => exact (completes_calculated (undivided_powFloat x 2.0)).bind fun _ _ => trivial
  refine (hsquare ha).bind fun x _ => (hsquare hb).bind fun y _ => ?_
  refine (completes_calculated (undivided_add x y)).bind fun z _ => ?_
  refine (completes_calculated (undivided_toFloat z)).bind fun r _ => ?_
  split_ifs
  · exact completes_value
  · trivial

theorem beq_zero_of_not_negligible {x : Float} (h : ¬ x.abs < negligible) : (x == 0.0) = false := by
  rw [Bool.eq_false_iff]
  intro hx
  rcases Decimal.eq_zero_of_beq hx with rfl | rfl
  · exact h (by decide +kernel)
  · exact h (by decide +kernel)

theorem completes_ofMatrix {m : Matrix} (hm : m.Numeric) (last : Pose) (first : Bool) :
    Completes (fun _ => True) (Pose.ofMatrix m last first) := by
  have h00 := hm 0 0 (by decide) (by decide)
  have h01 := hm 0 1 (by decide) (by decide)
  have h10 := hm 1 0 (by decide) (by decide)
  have h11 := hm 1 1 (by decide) (by decide)
  refine (completes_lengthOfPair h00 h10).bind fun sx _ => ?_
  refine (completes_lengthOfPair h01 h11).bind fun sy _ => ?_
  refine (completes_times h00 h11).bind fun p hp => (completes_times h01 h10).bind fun q hq => ?_
  refine (completes_minus hp hq).bind fun d hd => hd.completes fun det => ?_
  extract_lets reflected byX sx' sy' rest
  have hrest (angle : Number) : Completes (fun _ => True) (rest angle) :=
    (completes_calculated (undivided_sub angle last.angle)).bind fun change _ =>
      (completes_calculated (undivided_toFloat change)).bind fun _ _ => trivial
  split_ifs with hsmall
  · exact hrest _
  · have hsy : (sy' == 0.0) = false := beq_zero_of_not_negligible fun h => hsmall (by simp [h])
    refine h01.completes fun n =>
      (completes_calculated (undivided_div_float n hsy)).bind fun s _ => ?_
    refine (completes_calculated (undivided_toFloat s)).bind fun s' _ => h11.completes fun k => ?_
    refine (completes_calculated (undivided_div_float k hsy)).bind fun c _ => ?_
    exact (completes_calculated (undivided_toFloat c)).bind fun c' _ => hrest _

theorem completes_transformation {x y angle sx sy px py : Datum} (hx : IsNumber x) (hy : IsNumber y)
    (hangle : IsNumber angle) (hsx : IsNumber sx) (hsy : IsNumber sy) (hpx : IsNumber px)
    (hpy : IsNumber py) :
    Completes Matrix.Numeric
      (transformation (.tuple [x, y]) angle (.tuple [sx, sy]) (.tuple [px, py])) := by
  refine (Matrix.completes_withRotation Matrix.numeric_one hangle).bind fun turned hturned => ?_
  refine (Matrix.completes_product (Matrix.numeric_one.withPlace hx hy) hturned).bind fun p hp => ?_
  refine (Matrix.completes_product hp (Matrix.numeric_one.withScale hsx hsy)).bind fun q hq => ?_
  exact Matrix.completes_product hq (Matrix.numeric_one.withPlace hpx hpy)

end WikiFeed.Sprite

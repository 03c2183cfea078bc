import WikiFeed.Atlas.Place
import WikiFeed.Proofs.Region.Joining

/-! # Places that are found are free

The search walks over columns and rows that are multiples of four and never goes back. A column in
which it stops has no box in the way (`searchRow_free`), and a box that is not near the row cannot
be in the way of a place in the row, so the place that is found is apart from all boxes of the page
(`place?_eq_some`). -/

namespace WikiFeed.Atlas

open Box (Apart meets_iff)

/-! ### Multiples of four -/

theorem fmod_step (n : Int) : n.fmod step = n % 4 := Int.fmod_eq_emod_of_nonneg n (by decide)

theorem step_dvd_ceilTo (n : Int) : 4 ∣ ceilTo step n := by
  unfold ceilTo
  simp only [fmod_step]
  unfold step
  split_ifs <;> omega

variable {y : Int}

theorem step_dvd_nextRow (h : 4 ∣ y) (lowest : Option Int) : 4 ∣ nextRow y lowest := by
  have hnext : 4 ∣ y + step := by unfold step; omega
  unfold nextRow
  split
  · next m =>
    split_ifs
    · exact hnext
    · have := step_dvd_ceilTo m
      rcases Int.le_total (ceilTo step m) (y + step) with hle | hle
      · rw [Int.max_eq_right hle]; exact hnext
      · rw [Int.max_eq_left hle]; exact this
  · exact hnext

theorem lt_nextRow (y : Int) (lowest : Option Int) : y < nextRow y lowest := by
  unfold nextRow step
  split
  · split_ifs <;> omega
  · omega

/-- A column in which nothing is in the way. -/
structure FreeColumn (room : Room) (w h : Nat) (y : Int) (near : List Box) (x : Int) : Prop where
  nonneg : 0 ≤ x
  aligned : 4 ∣ x
  fits : x + w ≤ room.inner
  free : ∀ b ∈ near, b.Apart ⟨x, y, w, h⟩

variable {room : Room}

theorem searchRow_free {w h : Nat} {near : List Box} {x x' : Int} {lowest : Option Int} (hx : 0 ≤ x)
    (ha : 4 ∣ x) (hfree : searchRow room w h y near x lowest = .free x') :
    FreeColumn room w h y near x' := by
  induction x, lowest using searchRow.induct room w h y near with
  | case1 x lowest hfit hnone =>
    rw [searchRow, if_pos hfit] at hfree
    split at hfree
    · cases hfree
      refine ⟨hx, ha, hfit, fun b hb => ?_⟩
      simpa [Apart] using List.find?_eq_none.mp hnone b hb
    · next b hsome => rw [hnone] at hsome; cases hsome
  | case2 x lowest hfit b hsome ih =>
    rw [searchRow, if_pos hfit] at hfree
    split at hfree
    · next hnone => rw [hnone] at hsome; cases hsome
    · next b' hsome' =>
      rw [hsome'] at hsome
      cases hsome
      -- the next column lies behind a box that is in the way of this one
      have hmeets := List.find?_some hsome'
      have hceil := le_ceilTo_step (b.x + b.w)
      rw [meets_iff] at hmeets
      simp only at hmeets
      exact ih (by omega) (step_dvd_ceilTo _) hfree
  | case3 x lowest hfit =>
    rw [searchRow, if_neg hfit] at hfree
    cases hfree

/-! ### Places -/

/-- A place for a picture that is free and aligned. -/
structure FreePlace (room : Room) (w h : Nat) (boxes : List Box) (b : Box) : Prop where
  width : b.w = w
  height : b.h = h
  left : 0 ≤ b.x
  top : 0 ≤ b.y
  column : 4 ∣ b.x
  row : 4 ∣ b.y
  right : b.x + b.w ≤ room.inner
  bottom : b.y + b.h < room.outer
  free : ∀ c ∈ boxes, c.Apart b

variable {boxes : List Box}

theorem apart_of_near {w h : Nat} {x : Int} (hx : 0 ≤ x)
    (hroom : room.inner ≤ room.outer) (hfit : x + w ≤ room.inner)
    (hnear : ∀ c ∈ boxes.filter fun b => b.meets ⟨0, y, room.outer, h⟩, c.Apart ⟨x, y, w, h⟩) :
    ∀ c ∈ boxes, c.Apart ⟨x, y, w, h⟩ := by
  intro c hc
  by_cases hband : c.meets ⟨0, y, room.outer, h⟩ = true
  · exact hnear c (List.mem_filter.mpr ⟨hc, hband⟩)
  · refine Bool.eq_false_iff.mpr fun hmeets => hband ?_
    rw [meets_iff] at hmeets ⊢
    simp only at hmeets ⊢
    omega

theorem searchRows_eq_some {w h : Nat} {y : Int} {b : Box} (hroom : room.inner ≤ room.outer)
    (hy : 0 ≤ y) (ha : 4 ∣ y) (hb : searchRows room w h boxes y = some b) :
    FreePlace room w h boxes b := by
  rw [searchRows] at hb
  split_ifs at hb with hfit
  simp only at hb
  split at hb
  · next x hrow =>
    have hcol := searchRow_free (Int.le_refl 0) (by decide) hrow
    cases hb
    exact ⟨rfl, rfl, hcol.nonneg, hy, hcol.aligned, ha, hcol.fits, hfit,
      apart_of_near hcol.nonneg hroom hcol.fits hcol.free⟩
  · next lowest hrow =>
    have hlt := lt_nextRow y lowest
    exact searchRows_eq_some hroom (by omega) (step_dvd_nextRow ha lowest) hb
termination_by (room.outer - y).toNat
decreasing_by omega

theorem place?_eq_some {w h : Nat} {b : Box} (hroom : room.inner ≤ room.outer)
    (hb : place? room w h boxes = some b) : FreePlace room w h boxes b :=
  searchRows_eq_some hroom (Int.le_refl 0) (by decide) hb

end WikiFeed.Atlas

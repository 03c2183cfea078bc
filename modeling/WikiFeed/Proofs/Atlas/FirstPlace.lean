import Mathlib.Tactic.ByContra
import WikiFeed.Proofs.Atlas.Placement

/-! # The first free place

A box in the way of a column blocks all columns up to its end (`meets_of_column_lt`), and a row is
full only if every column is blocked by a box whose end lies behind the rows that are skipped
(`searchRow_blocked`, `meets_of_row_lt`). So no free place is jumped over, and the search finds what
a search of all places would find (`place?_eq_first`). -/

namespace WikiFeed.Atlas

open Box (Apart meets_iff)

/-! ### Skipped columns and rows -/

theorem ceilTo_step_le_of_dvd {n k : Int} (hk : 4 ∣ k) (h : n ≤ k) : ceilTo step n ≤ k := by
  unfold ceilTo
  simp only [fmod_step]
  unfold step
  split_ifs <;> omega

/-- An end that counts and is not below the highest one. -/
def Reaches (lowest : Option Int) (bottom : Int) : Prop := ∃ m, lowest = some m ∧ 0 < m ∧ m ≤ bottom

def Counts (lowest : Option Int) : Prop := ∀ m, lowest = some m → 0 < m

variable {lowest : Option Int} {bottom : Int}

theorem counts_higher (h : Counts lowest) (hb : 0 < bottom) : Counts (higher lowest bottom) := by
  intro m hm
  cases lowest with
  | none =>
    cases hm
    exact hb
  | some k =>
    have hk := h k rfl
    cases hm
    split_ifs <;> omega

theorem reaches_higher_self (h : Counts lowest) (hb : 0 < bottom) :
    Reaches (higher lowest bottom) bottom := by
  cases lowest with
  | none => exact ⟨bottom, rfl, hb, Int.le_refl _⟩
  | some k =>
    have hk := h k rfl
    refine ⟨_, rfl, ?_, ?_⟩ <;> split_ifs <;> omega

theorem Reaches.higher {end_ : Int} (h : Reaches lowest end_) (hb : 0 < bottom) :
    Reaches (higher lowest bottom) end_ := by
  obtain ⟨m, rfl, hm, hle⟩ := h
  refine ⟨_, rfl, ?_, ?_⟩ <;> split_ifs <;> omega

variable {b : Box} {x : Int}

section Search

variable {room : Room} {w h : Nat} {y : Int}

theorem meets_of_column_lt {x' : Int} (hmeets : b.meets ⟨x, y, w, h⟩ = true) (hx : x ≤ x')
    (ha : 4 ∣ x') (hlt : x' < ceilTo step (b.x + b.w)) : b.meets ⟨x', y, w, h⟩ = true := by
  have hend : x' < b.x + b.w := by
    by_contra hle
    have := ceilTo_step_le_of_dvd ha (Int.not_lt.mp hle)
    omega
  rw [meets_iff] at hmeets ⊢
  simp only at hmeets ⊢
  omega

/-- **A row from a column on**: if it is full, each column in which a picture would fit is blocked
by a box whose end counts; if a place is found, each column in front of it is blocked. -/
theorem searchRow_blocked {near : List Box} (hproper : ∀ b ∈ near, 0 < b.y + b.h)
    (hlowest : Counts lowest) :
    (∀ {l}, searchRow room w h y near x lowest = .full l →
      (∀ m, Reaches lowest m → Reaches l m) ∧
      ∀ x', x ≤ x' → 4 ∣ x' → x' + w ≤ room.inner →
        ∃ b ∈ near, b.meets ⟨x', y, w, h⟩ = true ∧ Reaches l (b.y + b.h)) ∧
    ∀ {x₁}, searchRow room w h y near x lowest = .free x₁ →
      ∀ x', x ≤ x' → 4 ∣ x' → x' < x₁ → ∃ b ∈ near, b.meets ⟨x', y, w, h⟩ = true := by
  induction x, lowest using searchRow.induct room w h y near with
  | case1 x lowest hfit hnone =>
    have heq : searchRow room w h y near x lowest = .free x := by
      rw [searchRow, if_pos hfit]
      split
      · rfl
      · next b hsome => rw [hnone] at hsome; cases hsome
    rw [heq]
    refine ⟨fun h => (by cases h), fun h x' hx _ hlt => ?_⟩
    cases h
    omega
  | case2 x lowest hfit b hsome ih =>
    have heq : searchRow room w h y near x lowest =
        searchRow room w h y near (ceilTo step (b.x + b.w)) (higher lowest (b.h + b.y)) := by
      rw [searchRow, if_pos hfit]
      split
      · next hnone => rw [hnone] at hsome; cases hsome
      · next b' hsome' =>
        rw [hsome'] at hsome
        cases hsome
        rfl
    have hmem := List.mem_of_find?_eq_some hsome
    have hmeets := List.find?_some hsome
    have hbottom : 0 < b.h + b.y := by
      have := hproper b hmem
      omega
    obtain ⟨hfull, hfree⟩ := ih (counts_higher hlowest hbottom)
    rw [heq]
    refine ⟨fun hl => ?_, fun hx₁ x' hx ha hlt => ?_⟩
    · obtain ⟨hkeep, hrest⟩ := hfull hl
      refine ⟨fun m hm => hkeep m (hm.higher hbottom), fun x' hx ha hin => ?_⟩
      by_cases hlt : x' < ceilTo step (b.x + b.w)
      · refine ⟨b, hmem, meets_of_column_lt hmeets hx ha hlt, hkeep _ ?_⟩
        rw [Int.add_comm b.y]
        exact reaches_higher_self hlowest hbottom
      · exact hrest x' (Int.not_lt.mp hlt) ha hin
    · by_cases hlt' : x' < ceilTo step (b.x + b.w)
      · exact ⟨b, hmem, meets_of_column_lt hmeets hx ha hlt'⟩
      · exact hfree hx₁ x' (Int.not_lt.mp hlt') ha hlt
  | case3 x lowest hfit =>
    rw [searchRow, if_neg hfit]
    refine ⟨fun hl => ?_, fun h => (by cases h)⟩
    cases hl
    exact ⟨fun _ hm => hm, fun x' hx _ hin => by omega⟩

theorem meets_of_row_lt {y' : Int} (hmeets : b.meets ⟨x, y, w, h⟩ = true)
    (hreach : Reaches lowest (b.y + b.h)) (ha : 4 ∣ y) (hy : y ≤ y') (ha' : 4 ∣ y')
    (hlt : y' < nextRow y lowest) : b.meets ⟨x, y', w, h⟩ = true := by
  obtain ⟨m, rfl, hm, hle⟩ := hreach
  have hskip : y' < b.y + b.h := by
    by_contra hge
    have hceil := ceilTo_step_le_of_dvd ha' (show m ≤ y' by omega)
    simp only [nextRow, if_neg (show ¬ m = 0 by omega)] at hlt
    rw [meets_iff] at hmeets
    unfold step at hlt hceil
    simp only at hmeets
    omega
  rw [meets_iff] at hmeets ⊢
  simp only at hmeets ⊢
  omega

end Search

/-! ### The first place -/

/-- A place that comes first: in a higher row, or in its row not further to the right. -/
def Before (b c : Box) : Prop := b.y < c.y ∨ (b.y = c.y ∧ b.x ≤ c.x)

variable {c : Box}

section First

variable {room : Room} {w h : Nat} {boxes : List Box}

theorem FreePlace.not_meets (hc : FreePlace room w h boxes c) (hb : b ∈ boxes) :
    ¬ b.meets ⟨c.x, c.y, w, h⟩ = true := by
  rw [← hc.width, ← hc.height]
  exact Bool.eq_false_iff.mp (hc.free b hb)

theorem FreePlace.ext (hb : FreePlace room w h boxes b) (hc : FreePlace room w h boxes c)
    (hbc : Before b c) (hcb : Before c b) : b = c := by
  obtain ⟨bx, by_, bw, bh⟩ := b
  obtain ⟨cx, cy, cw, ch⟩ := c
  have := hb.width
  have := hb.height
  have := hc.width
  have := hc.height
  unfold Before at hbc hcb
  simp only at *
  rw [Box.mk.injEq]
  omega

theorem exists_searchRows_eq_some (hproper : ∀ b ∈ boxes, 0 < b.y + b.h)
    (hc : FreePlace room w h boxes c) {y : Int} (ha : 4 ∣ y) (hy : y ≤ c.y) :
    ∃ b, searchRows room w h boxes y = some b ∧ Before b c := by
  have hbottom := hc.bottom
  have hright := hc.right
  rw [hc.height] at hbottom
  rw [hc.width] at hright
  have hfit : y + h < room.outer := by omega
  have hnear : ∀ b ∈ boxes.filter fun b => b.meets ⟨0, y, room.outer, h⟩, 0 < b.y + b.h :=
    fun b hb => hproper b (List.mem_filter.mp hb).1
  have hnone : Counts none := fun m hm => by cases hm
  rw [searchRows, if_pos hfit]
  dsimp only
  split
  · next x hrow =>
    refine ⟨_, rfl, ?_⟩
    rcases Int.lt_or_eq_of_le hy with hlt | heq
    · exact .inl hlt
    · refine .inr ⟨heq, ?_⟩
      by_contra hgt
      obtain ⟨b, hb, hmeets⟩ :=
        (searchRow_blocked hnear hnone).2 hrow c.x hc.left hc.column (Int.not_le.mp hgt)
      exact hc.not_meets (List.mem_filter.mp hb).1 (heq ▸ hmeets)
  · next lowest hrow =>
    have hlt := lt_nextRow y lowest
    have hskipped : nextRow y lowest ≤ c.y := by
      by_contra hgt
      obtain ⟨b, hb, hmeets, hreach⟩ :=
        ((searchRow_blocked hnear hnone).1 hrow).2 c.x hc.left hc.column hright
      exact hc.not_meets (List.mem_filter.mp hb).1
        (meets_of_row_lt hmeets hreach ha hy hc.row (Int.not_le.mp hgt))
    exact exists_searchRows_eq_some hproper hc (step_dvd_nextRow ha lowest) hskipped
termination_by (room.outer - y).toNat
decreasing_by omega

/-- **The search finds what a search of all places finds**: nothing if no place is free, else the
free place in the highest row and, in this row, the one that is furthest to the left. -/
theorem place?_eq_first (hroom : room.inner ≤ room.outer)
    (hboxes : ∀ b ∈ boxes, 0 ≤ b.y ∧ 0 < b.h) :
    (place? room w h boxes = none ↔ ∀ c, ¬ FreePlace room w h boxes c) ∧
    ∀ b, place? room w h boxes = some b ↔
      FreePlace room w h boxes b ∧ ∀ c, FreePlace room w h boxes c → Before b c := by
  have hproper : ∀ b ∈ boxes, 0 < b.y + b.h := by
    intro b hb
    have := hboxes b hb
    omega
  have hfirst : ∀ c, FreePlace room w h boxes c →
      ∃ b, place? room w h boxes = some b ∧ Before b c := fun c hc =>
    exists_searchRows_eq_some hproper hc (by decide) hc.top
  refine ⟨⟨fun hnone c hc => ?_, fun hall => ?_⟩, fun b => ⟨fun hb => ?_, fun ⟨hb, hall⟩ => ?_⟩⟩
  · obtain ⟨b, hb, -⟩ := hfirst c hc
    rw [hnone] at hb
    cases hb
  · rw [Option.eq_none_iff_forall_ne_some]
    intro b hb
    exact hall b (place?_eq_some hroom hb)
  · refine ⟨place?_eq_some hroom hb, fun c hc => ?_⟩
    obtain ⟨b', hb', hbefore⟩ := hfirst c hc
    rw [hb] at hb'
    cases hb'
    exact hbefore
  · obtain ⟨b', hb', hbefore⟩ := hfirst b hb
    have hfree := place?_eq_some hroom hb'
    rw [hb', hfree.ext hb hbefore (hall b' hfree)]

end First

def shelf : List Box := [⟨0, 0, 13, 6⟩, ⟨0, 8, 5, 4⟩, ⟨12, 6, 4, 10⟩]

theorem place?_eq_first_shelf :
    FreePlace (Room.whole 17) 4 3 shelf ⟨8, 8, 4, 3⟩ ∧
      ∀ c, FreePlace (Room.whole 17) 4 3 shelf c → Before ⟨8, 8, 4, 3⟩ c :=
  ((place?_eq_first (by decide) (by decide)).2 _).mp (by decide +kernel)

end WikiFeed.Atlas

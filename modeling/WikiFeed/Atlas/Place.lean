import WikiFeed.Region.Box

/-! # Places on a page

A place for a picture is searched row by row, at coordinates that are multiples of four: behind the
first box that is in the way, and, when a row is full, below the highest end of the boxes that were
in the way. -/

namespace WikiFeed.Atlas

def step : Int := 4

def ceilTo (target n : Int) : Int :=
  let r := n.fmod target
  if r = 0 then n else n + (target - r)

theorem le_ceilTo_step (n : Int) : n ≤ ceilTo step n := by
  unfold ceilTo
  have h : n.fmod step < step := Int.fmod_lt_of_pos n (by decide)
  simp only
  split <;> omega

/-- The room on a page: the greatest end that a box may reach, and the end that it must stay below.
They differ if the side of the page is not whole. -/
structure Room where
  inner : Int
  outer : Int
deriving DecidableEq, Inhabited

def Room.whole (side : Int) : Room := ⟨side, side⟩

/-- What the search in a row ends with. -/
inductive Row where
  /-- a place -/
  | free (x : Int)
  /-- no place, and the highest end of the boxes in the way -/
  | full (lowest : Option Int)

/-- The higher one of two ends; an end at zero does not count. -/
def higher (lowest : Option Int) (bottom : Int) : Option Int :=
  match lowest with
  | none => some bottom
  | some m => some (if m = 0 then bottom else min m bottom)

def searchRow (room : Room) (w h : Nat) (y : Int) (near : List Box) (x : Int)
    (lowest : Option Int) : Row :=
  if x + w ≤ room.inner then
    match _found : near.find? fun b => b.meets ⟨x, y, w, h⟩ with
    | none => .free x
    | some b =>
      searchRow room w h y near (ceilTo step (b.x + b.w)) (higher lowest (b.h + b.y))
  else .full lowest
termination_by (room.inner + 1 - x).toNat
decreasing_by
  have hm := List.find?_some _found
  have hc := le_ceilTo_step (b.x + b.w)
  simp only [Box.meets, Bool.not_eq_true', Bool.or_eq_false_iff, decide_eq_false_iff_not] at hm
  omega

def nextRow (y : Int) (lowest : Option Int) : Int :=
  match lowest with
  | some m => if m = 0 then y + step else max (ceilTo step m) (y + step)
  | none => y + step

def searchRows (room : Room) (w h : Nat) (boxes : List Box) (y : Int) : Option Box :=
  if y + h < room.outer then
    let near := boxes.filter fun b => b.meets ⟨0, y, room.outer, h⟩
    match searchRow room w h y near 0 none with
    | .free x => some ⟨x, y, w, h⟩
    | .full lowest => searchRows room w h boxes (nextRow y lowest)
  else none
termination_by (room.outer - y).toNat
decreasing_by
  have : y < nextRow y lowest := by
    unfold nextRow step
    split
    · split <;> omega
    · omega
  omega

def place? (room : Room) (w h : Nat) (boxes : List Box) : Option Box :=
  searchRows room w h boxes 0

end WikiFeed.Atlas

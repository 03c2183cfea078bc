import WikiFeed.Decimal.Text

/-! # Boxes

A box is a rectangle with whole coordinates: its corner, its width and its height. Boxes that share
a whole edge are joined, over and over, until no two of them do. -/

namespace WikiFeed

structure Box where
  x : Int
  y : Int
  w : Int
  h : Int
deriving DecidableEq, Inhabited

namespace Box

def meets (a b : Box) : Bool :=
  !(a.x + a.w ≤ b.x || b.x + b.w ≤ a.x || b.y + b.h ≤ a.y || a.y + a.h ≤ b.y)

def contains (b : Box) (x y : Int) : Bool :=
  b.x ≤ x && x < b.x + b.w && b.y ≤ y && y < b.y + b.h

def area (b : Box) : Int := b.w * b.h

def text (b : Box) : String :=
  "Bbox(x=" ++ Decimal.intText b.x ++ ", y=" ++ Decimal.intText b.y ++ ", w=" ++
    Decimal.intText b.w ++ ", h=" ++ Decimal.intText b.h ++ ")"

/-! ### Joining -/

/-- The box that two boxes make up together, if they share a whole edge. -/
def join? (n o : Box) : Option Box :=
  if n.w = o.w ∧ n.x = o.x ∧ (n.y + n.h = o.y ∨ o.y + o.h = n.y) then
    some ⟨n.x, min o.y n.y, n.w, o.h + n.h⟩
  else if n.h = o.h ∧ n.y = o.y ∧ (n.x + n.w = o.x ∨ o.x + o.w = n.x) then
    some ⟨min o.x n.x, n.y, n.w + o.w, o.h⟩
  else none

def partner? (o : Box) : List Box → Option (Box × Box)
  | [] => none
  | n :: rest =>
    match join? n o with
    | some j => some (n, j)
    | none => partner? o rest

/-- Adds a box: joined with the first one that it can be joined with, which moves to the end. -/
def addJoined (done : List Box) (o : Box) : List Box :=
  match partner? o done with
  | some (n, j) => done.erase n ++ [j]
  | none => done ++ [o]

def joinOnce (boxes : List Box) : List Box := boxes.foldl addJoined []

theorem length_addJoined_le (done : List Box) (o : Box) :
    (addJoined done o).length ≤ done.length + 1 := by
  unfold addJoined
  split
  · simpa using List.length_erase_le
  · simp

theorem length_foldl_addJoined_le (boxes done : List Box) :
    (boxes.foldl addJoined done).length ≤ done.length + boxes.length := by
  induction boxes generalizing done with
  | nil => simp
  | cons b bs ih =>
    have := ih (addJoined done b)
    have := length_addJoined_le done b
    simp only [List.foldl_cons, List.length_cons]
    omega

theorem length_joinOnce_le (boxes : List Box) : (joinOnce boxes).length ≤ boxes.length := by
  have := length_foldl_addJoined_le boxes []
  simpa [joinOnce] using this

def joinAll (boxes : List Box) : List Box :=
  if (joinOnce boxes).length = boxes.length then joinOnce boxes else joinAll (joinOnce boxes)
termination_by boxes.length
decreasing_by
  have := length_joinOnce_le boxes
  omega

def largestFirst (boxes : List Box) : List Box :=
  boxes.mergeSort fun a b => decide (b.area ≤ a.area)

end Box

end WikiFeed

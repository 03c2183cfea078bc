import WikiFeed.Sprite.Geometry

/-! # Transformations of the plane

A transformation is a matrix of three rows. It is built from a place, an angle, two scales and a
pivot, and taken apart into scales and an angle again, where the pose before it decides between the
two ways to read a reflection and in which direction the angle has turned. -/

namespace WikiFeed.Sprite

structure Matrix where
  rows : List (List Datum)

namespace Matrix

def one : Matrix := ⟨[
  [.int 1, .int 0, .int 0],
  [.int 0, .int 1, .int 0],
  [.int 0, .int 0, .int 1]]⟩

def entry (m : Matrix) (i j : Nat) : Datum := ((m.rows.getD i []).getD j .null)

def withEntry (m : Matrix) (i j : Nat) (d : Datum) : Matrix :=
  ⟨m.rows.modify i fun row => row.set j d⟩

def withPlace (m : Matrix) (x y : Datum) : Matrix := (m.withEntry 0 2 x).withEntry 1 2 y

def withScale (m : Matrix) (x y : Datum) : Matrix := (m.withEntry 0 0 x).withEntry 1 1 y

def withRotation (m : Matrix) (angle : Datum) : Result Matrix := do
  let c ← cosine angle
  let s ← sine angle
  let t ← negative s
  return (((m.withEntry 0 0 c).withEntry 0 1 s).withEntry 1 0 t).withEntry 1 1 c

def place (m : Matrix) : Datum × Datum := (m.entry 0 2, m.entry 1 2)

def total (ds : List Datum) : Result Datum := ds.foldlM plus (.int 0)

def build (f : Nat → Nat → Result Datum) : Result Matrix := do
  return ⟨← (List.range 3).mapM fun i => (List.range 3).mapM fun j => f i j⟩

def product (a b : Matrix) : Result Matrix := build fun i j => do
  total (← (List.range 3).mapM fun k => times (a.entry i k) (b.entry k j))

def sum (a b : Matrix) : Result Matrix := build fun i j => plus (a.entry i j) (b.entry i j)

/-- The negative: rows are lists, which have none. -/
def opposite (_ : Matrix) : Result Matrix := .error .kind

def text (m : Matrix) : String := shown (.list (m.rows.map .list))

end Matrix

def ordinate (d : Datum) (i : Nat) : Result Datum :=
  match d with
  | .list xs | .tuple xs =>
    match xs[i]? with
    | some x => .ok x
    | none => .error .position
  | _ => .error .kind

def transformation (place angle scale pivot : Datum) : Result Matrix := do
  let pivoted := Matrix.one.withPlace (← ordinate pivot 0) (← ordinate pivot 1)
  let scaled := Matrix.one.withScale (← ordinate scale 0) (← ordinate scale 1)
  let placed := Matrix.one.withPlace (← ordinate place 0) (← ordinate place 1)
  let turned ← Matrix.one.withRotation angle
  (← (← placed.product turned).product scaled).product pivoted

/-! ### Poses -/

structure Pose where
  scaleX : Number
  scaleY : Number
  angle : Number

def Pose.rest : Pose := ⟨.int 1, .int 1, .int 0⟩

def lengthOfPair (a b : Datum) : Result Float := do
  let square (d : Datum) : Result Number := do
    match ← numberOf d with
    | .int n => return .int (n * n)
    | .float x => return .float (← calculated (Number.powFloat x 2.0))
  let x ← calculated (← calculated ((← square a).add (← square b))).toFloat
  if x < 0.0 then .error .value else return x.sqrt

/-- Lengths below this one have no direction. -/
def negligible : Float := 1e-3

/-- The pose of a transformation and whether it turned forward (`1`) or backward (`-1`) since the
last pose. A reflection is read as one of the first axis if there is no pose before it or the first
scale was not the greater one. -/
def Pose.ofMatrix (m : Matrix) (last : Pose) (first : Bool) : Result (Pose × Int) := do
  let sx ← lengthOfPair (m.entry 0 0) (m.entry 1 0)
  let sy ← lengthOfPair (m.entry 0 1) (m.entry 1 1)
  let det ← numberOf (← minus (← times (m.entry 0 0) (m.entry 1 1))
    (← times (m.entry 0 1) (m.entry 1 0)))
  let reflected := det.less (.int 0)
  let byX := first || last.scaleX.atMost last.scaleY
  let sx := if reflected && byX then -sx else sx
  let sy := if reflected && !byX then -sy else sy
  let angle ←
    if sx.abs < negligible || sy.abs < negligible then pure last.angle
    else do
      let s ← calculated (← calculated ((← numberOf (m.entry 0 1)).div (.float sy))).toFloat
      let c ← calculated (← calculated ((← numberOf (m.entry 1 1)).div (.float sy))).toFloat
      pure (.float (Float.atan2 s c))
  let change ← calculated (← calculated (angle.sub last.angle)).toFloat
  let near : Int := if change.abs ≤ 3.141592653589793 then 1 else -1
  let way : Int := if angle.less last.angle then -1 else 1
  return (⟨.float sx, .float sy, angle⟩, near * way)

end WikiFeed.Sprite

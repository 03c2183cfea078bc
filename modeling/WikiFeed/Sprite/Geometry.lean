import WikiFeed.Sprite.Data

/-! # Points, rounding and bones

Halves are rounded away from zero. A bone is placed relative to its parent; flattening it gives its
place in the whole drawing. -/

namespace WikiFeed.Sprite

open scoped Powers

/-! ### Rounding -/

def powerOfTen : Number → Number.Outcome Number
  | .int n =>
    if 0 ≤ n then .ok (.int (10 ^ n.toNat))
    else do return .float (← Number.powFloat 10.0 (← (Number.int n).toFloat))
  | .float x => do return .float (← Number.powFloat 10.0 x)

/-- A number rounded to the nearest multiple of a power of ten, halves away from zero. The exponent
of the power is not positive. -/
def roundAway (a exponent : Number) : Result Datum :=
  let zero := Number.int 0
  if exponent.compare? zero == some .eq then calculated do
    let half := if zero.atMost a then 0.5 else -0.5
    return .int (← (← a.add (.float half)).truncate)
  else if exponent.less zero then calculated do
    let scale ← powerOfTen exponent.neg
    let half ← (Number.float 0.5).mul (← powerOfTen exponent)
    let half := if zero.atMost a then half else half.neg
    return ofNumber (← (Number.int (← (← (← a.add half).mul scale).truncate)).div scale)
  else .error (.check "")

def roundWhole (a : Number) : Result Int := calculated do
  let half := if (Number.int 0).atMost a then 0.5 else -0.5
  (← a.add (.float half)).truncate

/-! ### Points -/

def ofAngle (f : Float → Float) (d : Datum) : Result Datum := do
  let x ← calculated (← numberOf d).toFloat
  if x.isInf then .error .value
  else .ok (.float (f x))

def sine : Datum → Result Datum := ofAngle Float.sin

def cosine : Datum → Result Datum := ofAngle Float.cos

def turned (x y cx cy angle : Datum) : Result (Datum × Datum) := do
  let dx ← minus x cx
  let dy ← minus y cy
  let c ← cosine angle
  let s ← sine angle
  let px ← plus (← minus (← times dx c) (← times dy s)) cx
  let py ← plus (← plus (← times dx s) (← times dy c)) cy
  return (px, py)

def stretched (x y cx cy fx fy : Datum) : Result (Datum × Datum) := do
  let px ← plus cx (← times (← minus x cx) fx)
  let py ← plus cy (← times (← minus y cy) fy)
  return (px, py)

/-! ### Bones -/

abbrev Bone := List (Datum × Datum)

def Bone.change (b : Bone) (name : String) (op : Datum → Datum → Result Datum) (d : Datum) :
    Result Bone := do
  return Datum.put b (.str name) (← op (← named (.dict b) name) d)

def Bone.under (b parent : Bone) : Result Bone := do
  let p := Datum.dict parent
  let b ← b.change "scale_x" times (← named p "scale_x")
  let b ← b.change "scale_y" times (← named p "scale_y")
  let sx ← times (← named (.dict b) "x") (← named p "scale_x")
  let sy ← times (← named (.dict b) "y") (← named p "scale_y")
  let s ← sine (← named p "angle")
  let c ← cosine (← named p "angle")
  let x ← minus (← plus (← named p "x") (← times sx c)) (← times sy s)
  let b := Datum.put b (.str "x") x
  let y ← plus (← plus (← named p "y") (← times sx s)) (← times sy c)
  let b := Datum.put b (.str "y") y
  Bone.change b "angle" plus (← named p "angle")

def findBone (id : Datum) : List Bone → Nat → Result (Option Nat)
  | [], _ => .ok none
  | b :: r, i => do
    if (← named (.dict b) "id").same id then return some i else findBone id r (i + 1)

/-- Flattens a bone behind its parents. A chain of parents is at most as long as the list, so that
`fuel` runs out only if the chain is closed. -/
def flatten : Nat → List Bone → Nat → Result (List Bone)
  | 0, _, _ => .error .tooDeep
  | fuel + 1, bones, i => do
    let some b := bones[i]? | .error .position
    if (← named (.dict b) "is_flattened").isSomething then return bones
    let parentId ← named (.dict b) "parent_id"
    if parentId.same (.int (-1)) then return bones
    let done (bones : List Bone) (b : Bone) : List Bone :=
      bones.set i (Datum.put b (.str "is_flattened") (.bool true))
    match ← findBone parentId bones 0 with
    | none => return done bones b
    | some j =>
      let bones ← flatten fuel bones j
      let some parent := bones[j]? | .error .position
      let some b := bones[i]? | .error .position
      return done bones (← b.under parent)

def flattenAll (bones : List Bone) (order : List Nat) : Result (List Bone) :=
  order.foldlM (fun bs i => flatten (bones.length + 1) bs i) bones

end WikiFeed.Sprite

import WikiFeed.Lua.Arith

/-! # Mathematical functions

Functions of doubles fail where they have no value: a result that is no number, or is infinite for
a finite argument, is a fault. Functions of whole numbers refuse doubles. -/

namespace WikiFeed.Lua

def isFinite (x : Float) : Bool := !x.isNaN && !x.isInf

def realFunction (f : Float → Float) (grows : Bool) (v : Value) : Result Value := do
  let x ← v.toFloat
  let y := f x
  if y.isNaN && !x.isNaN then .error .value
  else if y.isInf && isFinite x then .error (if grows then .overflow else .value)
  else .ok (.float y)

def logarithm (f : Float → Float) (v : Value) : Result Float := do
  let x ← v.toFloat
  if x ≤ 0.0 then .error .value else .ok (f x)

def roundedBy (round : Float → Option Int) (v : Value) : Result Value :=
  match v.num? with
  | some (.int n) => .ok (.int n)
  | some (.float x) =>
    match round x with
    | some n => .ok (.int n)
    | none => .error (if x.isNaN then .value else .overflow)
  | none => .error .kind

def absolute (v : Value) : Result Value :=
  match v.num? with
  | some (.int n) => .ok (.int n.natAbs)
  | some (.float x) => .ok (.float x.abs)
  | none => .error .kind

def wholeOf (v : Value) : Result Int :=
  match v.asInt? with
  | some n => .ok n
  | none => .error .kind

def remainderOf (x y : Float) : Result Value :=
  if y.isInf && isFinite x then .ok (.float x)
  else
    let z := Decimal.remainder x y
    if z.isNaN && !x.isNaN && !y.isNaN then .error .value else .ok (.float z)

def factorial : Nat → Nat
  | 0 => 1
  | n + 1 => (n + 1) * factorial n

def splitFraction (x : Float) : Value :=
  if x.isInf then .tuple [.float (Decimal.withSign (Decimal.isNegative x) 0.0), .float x]
  else if x.isNaN then .tuple [.float x, .float x]
  else
    let whole := if Decimal.isNegative x then x.ceil else x.floor
    .tuple [.float (Decimal.withSign (Decimal.isNegative x) (x - whole).abs), .float whole]

def mathConstant? : String → Option Float
  | "pi" => some 3.141592653589793
  | "e" => some 2.718281828459045
  | "tau" => some 6.283185307179586
  | "inf" => some Decimal.infinity
  | "nan" => some Decimal.notANumber
  | _ => none

def mathNames : List String :=
  ["acos", "acosh", "asin", "asinh", "atan", "atan2", "atanh", "cbrt", "ceil", "comb", "copysign",
   "cos", "cosh", "degrees", "dist", "erf", "erfc", "exp", "exp2", "expm1", "fabs", "factorial",
   "floor", "fmod", "frexp", "fsum", "gamma", "gcd", "hypot", "isclose", "isfinite", "isinf",
   "isnan", "isqrt", "lcm", "ldexp", "lgamma", "log", "log10", "log1p", "log2", "modf",
   "nextafter", "perm", "pow", "prod", "radians", "remainder", "sin", "sinh", "sqrt", "tan",
   "tanh", "trunc", "ulp"]

def mathOfOne (name : String) (v : Value) : Result Value :=
  match name with
  | "sqrt" => realFunction Float.sqrt false v
  | "cbrt" => realFunction Float.cbrt false v
  | "sin" => realFunction Float.sin false v
  | "cos" => realFunction Float.cos false v
  | "tan" => realFunction Float.tan false v
  | "asin" => realFunction Float.asin false v
  | "acos" => realFunction Float.acos false v
  | "atan" => realFunction Float.atan false v
  | "sinh" => realFunction Float.sinh true v
  | "cosh" => realFunction Float.cosh true v
  | "tanh" => realFunction Float.tanh false v
  | "asinh" => realFunction Float.asinh false v
  | "acosh" => realFunction Float.acosh false v
  | "atanh" => realFunction Float.atanh false v
  | "exp" => realFunction Float.exp true v
  | "exp2" => realFunction Float.exp2 true v
  | "fabs" => realFunction Float.abs false v
  | "log" => do return .float (← logarithm Float.log v)
  | "log2" => do return .float (← logarithm Float.log2 v)
  | "log10" => do return .float (← logarithm Float.log10 v)
  | "degrees" => do return .float ((← v.toFloat) * (180.0 / 3.141592653589793))
  | "radians" => do return .float ((← v.toFloat) * (3.141592653589793 / 180.0))
  | "floor" => roundedBy Decimal.floor? v
  | "ceil" => roundedBy Decimal.ceil? v
  | "trunc" => roundedBy Decimal.truncate? v
  | "isnan" => do return .bool (← v.toFloat).isNaN
  | "isinf" => do return .bool (← v.toFloat).isInf
  | "isfinite" => do return .bool (isFinite (← v.toFloat))
  | "modf" => do return splitFraction (← v.toFloat)
  | "factorial" => do
    let n ← wholeOf v
    if n < 0 then .error .value else .ok (.int (factorial n.toNat))
  | "isqrt" => do
    let n ← wholeOf v
    if n < 0 then .error .value else .ok (.int (root n.toNat))
  | _ => .error .kind
where
  /-- The whole part of the square root, by halving an interval that holds it. -/
  root (n : Nat) : Nat := search n (n.log2 + 2) 0 (n + 1)
  /-- Halves the interval from `low` up to but not including `high`. -/
  search (n : Nat) : Nat → Nat → Nat → Nat
    | 0, low, _ => low
    | k + 1, low, high =>
      if low + 1 < high then
        let mid := (low + high) / 2
        if mid * mid ≤ n then search n k mid high else search n k low mid
      else low

def mathOfTwo (name : String) (v w : Value) : Result Value :=
  match name with
  | "pow" => do return .float (← calculated (Number.powFloat (← v.toFloat) (← w.toFloat)))
  | "atan2" => do return .float (Float.atan2 (← v.toFloat) (← w.toFloat))
  | "fmod" => do remainderOf (← v.toFloat) (← w.toFloat)
  | "copysign" => do
    let x ← v.toFloat
    return .float (Decimal.withSign (Decimal.isNegative (← w.toFloat)) x.abs)
  | "log" => do
    let x ← logarithm Float.log v
    let y ← logarithm Float.log w
    if y == 0.0 then .error .zeroDivision else .ok (.float (x / y))
  | "comb" => do
    let n ← wholeOf v
    let k ← wholeOf w
    if n < 0 || k < 0 then .error .value
    else if n < k then .ok (.int 0)
    else .ok (.int (factorial n.toNat / (factorial k.toNat * factorial (n - k).toNat)))
  | "perm" => do
    let n ← wholeOf v
    let k ← wholeOf w
    if n < 0 || k < 0 then .error .value
    else if n < k then .ok (.int 0)
    else .ok (.int (factorial n.toNat / factorial (n - k).toNat))
  | _ => .error .kind

def mathCall (name : String) (args : List Value) : Result Value :=
  match name with
  | "gcd" => do
    let ns ← args.mapM wholeOf
    let g : Nat := (ns.map Int.natAbs).foldl Nat.gcd 0
    return .int g
  | "lcm" => do
    let ns ← args.mapM wholeOf
    let m : Nat := (ns.map Int.natAbs).foldl Nat.lcm 1
    return .int m
  | name =>
    match args with
    | [v] => mathOfOne name v
    | [v, w] => mathOfTwo name v w
    | _ => .error .kind

end WikiFeed.Lua

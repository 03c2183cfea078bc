/-! # Doubles as exact numbers

A finite double is `± m * 2 ^ q` with natural `m` and integer `q`. `parts` reads the three numbers
off the bits, `nearest` goes back from an exact fraction, with halves to the even mantissa, and the
operations that have no primitive (floored division, floored remainder, exact order against an
integer) are carried out on the exact numbers and rounded once. -/

namespace WikiFeed.Powers

/-- A power with a natural exponent is the one of the type itself, also where an algebraic structure
on the type offers another. -/
scoped instance (priority := 2000) natPower {α : Type} [NatPow α] : Pow α Nat := instPowNat

end WikiFeed.Powers

namespace WikiFeed.Decimal

open scoped Powers

structure Parts where
  negative : Bool
  mantissa : Nat
  exponent : Int
deriving Repr, DecidableEq

def parts (x : Float) : Option Parts :=
  let bits := x.toBits.toNat
  let negative := bits / 2 ^ (63 : Nat) == 1
  let field : Nat := bits / 2 ^ (52 : Nat) % 2 ^ (11 : Nat)
  let fraction : Nat := bits % 2 ^ (52 : Nat)
  if field = 2047 then none
  else if field = 0 then some ⟨negative, fraction, -1074⟩
  else some ⟨negative, 2 ^ (52 : Nat) + fraction, (field : Int) - 1075⟩

/-- The quotient rounded to the nearest natural number, halves to the even one. -/
def roundDiv (num den : Nat) : Nat :=
  let q := num / den
  let r := num % den
  if 2 * r < den then q
  else if den < 2 * r then q + 1
  else if q % 2 = 0 then q else q + 1

/-- `num / den` in units of `2 ^ e`, rounded. -/
def scaled (num den : Nat) (e : Int) : Nat :=
  if e ≥ 0 then roundDiv num (den * 2 ^ e.toNat) else roundDiv (num * 2 ^ (-e).toNat) den

/-- The unit in which `num / den` has `places + 1` binary digits, but never below `2 ^ least`. -/
def binaryUnit (places : Nat) (least : Int) (num den : Nat) : Int :=
  let guess : Int := (Nat.log2 num : Int) - (Nat.log2 den : Int) - places
  let tooSmall := if guess ≥ 0 then num < den * 2 ^ guess.toNat * 2 ^ places
    else num * 2 ^ (-guess).toNat < den * 2 ^ places
  max least (if tooSmall then guess - 1 else guess)

/-- The bits of the number nearest to `num / den`, without a sign, where numbers have `places + 1`
binary digits and are multiples of `2 ^ least`. -/
def nearestBits (places : Nat) (least : Int) (num den : Nat) : Nat :=
  let e := binaryUnit places least num den
  let q := scaled num den e
  if q < 2 ^ places then q else (e - least).toNat * 2 ^ places + q

/-- The double nearest to `num / den`, halves to the even mantissa; infinity beyond the range. -/
def nearest (num den : Nat) : Float :=
  if num = 0 ∨ den = 0 then 0.0
  else
    let bits := nearestBits 52 (-1074) num den
    if bits ≥ 2047 * 2 ^ (52 : Nat) then Float.ofBits 0x7FF0000000000000
    else Float.ofBits bits.toUInt64

def infinity : Float := Float.ofBits 0x7FF0000000000000

def notANumber : Float := Float.ofBits 0x7FF8000000000000

def isNegative (x : Float) : Bool := x.toBits.toNat / 2 ^ (63 : Nat) == 1

def withSign (negative : Bool) (x : Float) : Float := if negative == isNegative x then x else -x

def nearestSigned (negative : Bool) (num den : Nat) : Float := withSign negative (nearest num den)

def ofDyadic (negative : Bool) (m : Nat) (q : Int) : Float :=
  if q ≥ 0 then nearestSigned negative (m * 2 ^ q.toNat) 1
  else nearestSigned negative m (2 ^ (-q).toNat)

def ofInt? (n : Int) : Option Float :=
  let x := nearestSigned (n < 0) n.natAbs 1
  if x.isInf then none else some x

/-- The double nearest to `m * 10 ^ e`. Exponents outside the range of doubles are cut off, so that
no huge power is formed. -/
def ofDecimal (negative : Bool) (m : Nat) (e : Int) : Float :=
  if m = 0 then withSign negative 0.0
  else if e > 400 then withSign negative infinity
  else if e ≥ 0 then nearestSigned negative (m * 10 ^ e.toNat) 1
  else if (Nat.log2 m : Int) / 3 + e < -400 then withSign negative 0.0
  else nearestSigned negative m (10 ^ (-e).toNat)

def truncate? (x : Float) : Option Int :=
  (parts x).map fun p =>
    let n : Nat := if p.exponent ≥ 0 then p.mantissa * 2 ^ p.exponent.toNat
      else p.mantissa / 2 ^ (-p.exponent).toNat
    if p.negative then -(n : Int) else n

def floor? (x : Float) : Option Int := truncate? x.floor

def ceil? (x : Float) : Option Int := truncate? x.ceil

def roundEven? (x : Float) : Option Int :=
  (parts x).map fun p =>
    let n : Nat := if p.exponent ≥ 0 then p.mantissa * 2 ^ p.exponent.toNat
      else roundDiv p.mantissa (2 ^ (-p.exponent).toNat)
    if p.negative then -(n : Int) else n

def isWhole (x : Float) : Bool := (parts x).isSome && x.floor == x

/-- The order of an integer and a double, exact also where the integer has no double; `none` for
what is not a number. -/
def compareInt (n : Int) (x : Float) : Option Ordering :=
  if x.isNaN then none
  else match parts x with
    | none => some (if isNegative x then .gt else .lt)
    | some p =>
      let m : Int := if p.negative then -(p.mantissa : Int) else p.mantissa
      some <| if p.exponent ≥ 0 then compare n (m * 2 ^ p.exponent.toNat)
        else compare (n * 2 ^ (-p.exponent).toNat) m

/-- The remainder with the sign of the dividend, exact. -/
def remainder (x y : Float) : Float :=
  match parts x, parts y with
  | some a, some b =>
    if b.mantissa = 0 then notANumber
    else
      let q := min a.exponent b.exponent
      let m := a.mantissa * 2 ^ (a.exponent - q).toNat
      let n := b.mantissa * 2 ^ (b.exponent - q).toNat
      ofDyadic a.negative (m % n) q
  | some _, none => if y.isNaN then notANumber else x
  | none, _ => notANumber

def floorMod (x y : Float) : Float :=
  let r := remainder x y
  if r == 0.0 then withSign (isNegative y) 0.0
  else if (y < 0.0) != (r < 0.0) then r + y else r

def floorDiv (x y : Float) : Float :=
  let r := remainder x y
  let d := (x - r) / y
  let d := if r != 0.0 && (y < 0.0) != (r < 0.0) then d - 1.0 else d
  if d == 0.0 then withSign (isNegative (x / y)) 0.0
  else if d - d.floor > 0.5 then d.floor + 1.0 else d.floor

end WikiFeed.Decimal

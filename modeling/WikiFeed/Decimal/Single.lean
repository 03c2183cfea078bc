import WikiFeed.Decimal.Double

/-! # Numbers in 32 bits

A number in 32 bits has 24 binary digits. A double is narrowed to the nearest such number, halves to
the even one; beyond the range there is none. -/

namespace WikiFeed.Decimal

open scoped Powers

abbrev Single := UInt32

namespace Single

def nearest? (num den : Nat) : Option Nat :=
  if num = 0 then some 0
  else
    let bits := nearestBits 23 (-149) num den
    if bits < 255 * 2 ^ (23 : Nat) then some bits else none

def ofFloat? (x : Float) : Option Single :=
  let sign : Nat := if isNegative x then 2 ^ (31 : Nat) else 0
  match parts x with
  | some p =>
    let bits := if p.exponent ≥ 0 then nearest? (p.mantissa * 2 ^ p.exponent.toNat) 1
      else nearest? p.mantissa (2 ^ (-p.exponent).toNat)
    bits.map fun b => (sign + b).toUInt32
  | none => some (if x.isNaN then sign + 0x7FC00000 else sign + 0x7F800000).toUInt32

def toFloat (s : Single) : Float :=
  let bits := s.toNat
  let negative := bits / 2 ^ (31 : Nat) == 1
  let field : Nat := bits / 2 ^ (23 : Nat) % 2 ^ (8 : Nat)
  let fraction : Nat := bits % 2 ^ (23 : Nat)
  if field = 255 then if fraction = 0 then withSign negative infinity else notANumber
  else if field = 0 then ofDyadic negative fraction (-149)
  else ofDyadic negative (2 ^ (23 : Nat) + fraction) ((field : Int) - 150)

end Single

end WikiFeed.Decimal

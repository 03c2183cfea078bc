import WikiFeed.Decimal.Double

/-! # The shortest decimal of a double

A decimal names a double when it rounds to it. Among the decimals that name `m * 2 ^ q` the ones
with the fewest digits are looked for on the grids of `1, 2, … 17` digits: on each grid the two
neighbours of the value are the only candidates, and the first grid with a hit wins. -/

namespace WikiFeed.Decimal

open scoped Powers

structure Scientific where
  digits : Nat
  exponent : Int
deriving Repr, DecidableEq

/-- The interval of the numbers that round to a double, in units of `1 / den`: the value, its two
ends and whether the ends belong to it. -/
structure Interval where
  value : Nat
  low : Nat
  high : Nat
  den : Nat
  closed : Bool
deriving Repr, DecidableEq

/-- The interval of the double `m * 2 ^ q`. Below a power of two the neighbour is half as far. -/
def Interval.ofParts (m : Nat) (q : Int) : Interval :=
  let narrow := m = 2 ^ (52 : Nat) ∧ q > -1074
  let unit : Nat := if q ≥ 0 then 4 * 2 ^ q.toNat else 4
  let den : Nat := if q ≥ 0 then 4 else 4 * 2 ^ (-q).toNat
  let quarter := unit / 4
  { value := m * unit
    low := m * unit - (if narrow then quarter else 2 * quarter)
    high := m * unit + 2 * quarter
    den := den
    closed := m % 2 = 0 }

def Interval.contains (i : Interval) (c : Nat) (e : Int) : Bool :=
  let x := if e ≥ 0 then c * 10 ^ e.toNat * i.den else c * i.den
  let s := if e ≥ 0 then 1 else 10 ^ (-e).toNat
  if i.closed then i.low * s ≤ x && x ≤ i.high * s else i.low * s < x && x < i.high * s

/-- The decimals below and above the value on the grid of step `10 ^ e`, each if it names the
double; of two the nearer, of two equally near the one with an even last digit. -/
def Interval.onGrid (i : Interval) (e : Int) : Option Scientific :=
  let num := if e ≥ 0 then i.value else i.value * 10 ^ (-e).toNat
  let den := if e ≥ 0 then i.den * 10 ^ e.toNat else i.den
  let c := num / den
  let r := num % den
  let below := i.contains c e && c != 0
  let above := i.contains (c + 1) e
  if below && above then
    some ⟨if 2 * r < den || (2 * r == den && c % 2 == 0) then c else c + 1, e⟩
  else if below then some ⟨c, e⟩
  else if above then some ⟨c + 1, e⟩
  else none

def leadingExponent (num den : Nat) : Int :=
  let guess : Int := ((num.log2 : Int) - (den.log2 : Int)) * 30103 / 100000 - 2
  let reached (e : Int) : Bool :=
    if e ≥ 0 then den * 10 ^ e.toNat ≤ num else den ≤ num * 10 ^ (-e).toNat
  (List.range 6).foldl
    (fun (best : Int) (k : Nat) => if reached (guess + k) then guess + k else best) guess

/-- The decimal with the fewest digits that names `m * 2 ^ q`, for `m` not zero. -/
def shortest (m : Nat) (q : Int) : Scientific :=
  let i := Interval.ofParts m q
  let lead := leadingExponent i.value i.den
  let grids := (List.range 18).map fun (n : Nat) => lead - n
  (grids.findSome? i.onGrid).getD ⟨0, 0⟩

end WikiFeed.Decimal

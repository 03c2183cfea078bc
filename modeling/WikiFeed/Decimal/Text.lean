import WikiFeed.Decimal.Shortest
import WikiFeed.Text.Class

/-! # Number text

A number is written with the fewest digits that read back. Numbers from `10 ^ -4` up to below
`10 ^ 16` are positional and keep one digit after the point; the others have an exponent of at
least two digits. Fixed places are written from the exact value, halves to the even digit. -/

namespace WikiFeed.Decimal

open scoped Powers

def natDigits (n : Nat) : List Char := Nat.toDigits 10 n

def zeros (n : Nat) : List Char := List.replicate n '0'

structure Placed where
  digits : List Char
  point : Int
deriving Repr, DecidableEq

def Placed.ofScientific (s : Scientific) : Placed :=
  let ds := natDigits s.digits
  let short := (ds.reverse.dropWhile (· == '0')).reverse
  ⟨if short.isEmpty then ['0'] else short, ds.length + s.exponent⟩

def Placed.positional (p : Placed) : List Char :=
  let n := p.digits.length
  if p.point ≤ 0 then '0' :: '.' :: zeros (-p.point).toNat ++ p.digits
  else if p.point ≥ n then p.digits ++ zeros (p.point.toNat - n) ++ ['.', '0']
  else p.digits.take p.point.toNat ++ '.' :: p.digits.drop p.point.toNat

def exponentText (e : Int) : List Char :=
  let ds := natDigits e.natAbs
  (if e < 0 then '-' else '+') :: zeros (2 - ds.length) ++ ds

def Placed.scientific (p : Placed) : List Char :=
  let tail := match p.digits with
    | [] => ['0']
    | [d] => [d]
    | d :: ds => d :: '.' :: ds
  tail ++ 'e' :: exponentText (p.point - 1)

/-- The shorter reading of the two notations. -/
def Placed.text (p : Placed) : List Char :=
  if -4 < p.point && p.point ≤ 16 then p.positional else p.scientific

def text (x : Float) : String :=
  if x.isNaN then "nan"
  else match parts x with
    | none => if isNegative x then "-inf" else "inf"
    | some p =>
      let body := if p.mantissa = 0 then "0.0".toList
        else (Placed.ofScientific (shortest p.mantissa p.exponent)).text
      String.ofList (if p.negative then '-' :: body else body)

def intText (n : Int) : String :=
  String.ofList (if n < 0 then '-' :: natDigits n.natAbs else natDigits n.natAbs)

def padded (width n : Nat) : String :=
  let ds := natDigits n
  String.ofList (zeros (width - ds.length) ++ ds)

def fixed (places : Nat) (x : Float) : String :=
  if x.isNaN then "nan"
  else match parts x with
    | none => if isNegative x then "-inf" else "inf"
    | some p =>
      let num := p.mantissa * 10 ^ places * (if p.exponent ≥ 0 then 2 ^ p.exponent.toNat else 1)
      let den := if p.exponent ≥ 0 then 1 else 2 ^ (-p.exponent).toNat
      let ds := natDigits (roundDiv num den)
      let ds := zeros (places + 1 - ds.length) ++ ds
      let whole := ds.take (ds.length - places)
      let body := if places = 0 then whole else whole ++ '.' :: ds.drop (ds.length - places)
      String.ofList (if p.negative then '-' :: body else body)

/-! ### Reading -/

def ofDigits (ds : List Char) : Nat := ds.foldl (fun n d => n * 10 + (d.toNat - '0'.toNat)) 0

def takeSign : List Char → Bool × List Char
  | '-' :: r => (true, r)
  | '+' :: r => (false, r)
  | r => (false, r)

/-- Reads `digits [. digits] [e exponent]`, with a digit on at least one side of the point. -/
def readDecimal? (cs : List Char) : Option Float :=
  let (negative, cs) := takeSign cs
  let whole := cs.takeWhile Char.isDigit
  let rest := cs.dropWhile Char.isDigit
  let (places, rest) := match rest with
    | '.' :: r => (r.takeWhile Char.isDigit, r.dropWhile Char.isDigit)
    | r => ([], r)
  if whole.isEmpty && places.isEmpty then none
  else
    let value (e : Int) := ofDecimal negative (ofDigits (whole ++ places)) (e - places.length)
    match rest with
    | [] => some (value 0)
    | c :: r =>
      if c == 'e' || c == 'E' then
        let (down, ds) := takeSign r
        if ds.isEmpty || !ds.all Char.isDigit then none
        else some (value (if down then -(ofDigits ds : Int) else ofDigits ds))
      else none

/-- A blank or a digit of any script as the one that numbers are written with. -/
def plain (c : Char) : Char :=
  if c.toNat < 128 then c
  else if Text.isBlank c then ' '
  else ((Text.digitValue? c).map Nat.digitChar).getD c

def isSpace (c : Char) : Bool := c == ' ' || (9 ≤ c.toNat && c.toNat ≤ 13)

/-- The characters without underscores, each of which must stand between two digits. -/
def joined? (digitBefore : Bool) : List Char → Option (List Char)
  | [] => some []
  | c :: r =>
    if c != '_' then (joined? c.isDigit r).map (c :: ·)
    else if digitBefore && r.head?.any Char.isDigit then joined? false r
    else none

/-- A number text without the blanks around it and the underscores in it. -/
def trimmed? (s : String) : Option (List Char) :=
  let cs := (s.toList.map plain).dropWhile isSpace
  joined? false (cs.reverse.dropWhile isSpace).reverse

def lowered (cs : List Char) : List Char := cs.map Char.toLower

/-- Reads a number text as a double, with the names of infinity and of what is not a number in any
case. -/
def readFloat? (s : String) : Option Float := do
  let cs ← trimmed? s
  let (negative, body) := takeSign cs
  let word := String.ofList (lowered body)
  if word == "inf" || word == "infinity" then some (withSign negative infinity)
  else if word == "nan" then some notANumber
  else readDecimal? cs

def readInt? (s : String) : Option Int := do
  let (negative, ds) := takeSign (← trimmed? s)
  if ds.isEmpty || !ds.all Char.isDigit then none
  else some (if negative then -(ofDigits ds : Int) else ofDigits ds)

end WikiFeed.Decimal

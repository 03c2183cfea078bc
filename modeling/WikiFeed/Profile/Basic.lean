import WikiFeed.Places
import WikiFeed.Sprite.Data

/-! # Profiles

A profile gives the traits of a prefab. Profiles stand side by side as the columns of one table, in
which a column that has nothing but numbers is kept as numbers: as whole ones if no trait of the
table is missing in it and all of them are whole, and else as doubles. Texts that spell numbers
count as numbers then. Missing traits are left out of a profile. -/

namespace WikiFeed.Profile

open Sprite (Result Fault)

abbrev Traits := List (String × Json)

/-! ### Columns -/

def numberIn? : Json → Option Float
  | .int n => Decimal.ofInt? n
  | .float x => some x
  | .bool b => some (if b then 1.0 else 0.0)
  | .str s => Decimal.readFloat? s
  | _ => none

def isTruth : Json → Bool
  | .bool _ => true
  | _ => false

def wholeOf (x : Float) : Json :=
  match Decimal.truncate? x with
  | some n => .int n
  | none => .float x

def typed (missing : Bool) (traits : Traits) : Traits :=
  let gap := missing || traits.any fun t => t.2.isNull
  let known := traits.filter fun t => !t.2.isNull
  let numbers := known.filterMap fun t => (numberIn? t.2).map fun x => (t.1, x)
  if numbers.length != known.length || (!gap && known.all fun t => isTruth t.2) then known
  else
    let present := numbers.filter fun t => t.2 == t.2
    if !gap && present.length == numbers.length && present.all fun t => Decimal.isWhole t.2 then
      known.zipWith (fun t x => match t.2 with
        | .int n => (t.1, .int n)
        | _ => (t.1, wholeOf x.2)) numbers
    else present.map fun t => (t.1, .float t.2)

def profilesIn (table : Json) : Result (List (String × Traits)) :=
  match table with
  | .obj members =>
    (Places.lastByKey members).mapM fun c =>
      match c.2 with
      | .obj traits => .ok (c.1, Places.lastByKey traits)
      | _ => .error .value
  | .arr [] => .ok []
  | _ => .error .value

def traitNames (profiles : List (String × Traits)) : List String :=
  (profiles.flatMap fun p => p.2.map (·.1)).eraseDups

/-! ### Names -/

def labels (names : List String) : List Json :=
  match names.mapM Decimal.readInt? with
  | some ns => ns.map .int
  | none => names.map .str

def labelAtMost (a b : Json) : Bool :=
  match a, b with
  | .int m, .int n => decide (m ≤ n)
  | a, b => !(b.asText < a.asText)

def labelText : Json → String
  | .int n => Decimal.intText n
  | j => j.asText

def columns (profiles : List (String × Traits)) : List (Json × Traits) :=
  let names := traitNames profiles
  let column (label : Json) (p : String × Traits) : Json × Traits :=
    (label, typed (decide (p.2.length < names.length)) p.2)
  ((labels (profiles.map (·.1))).zipWith column profiles).mergeSort fun a b => labelAtMost a.1 b.1

/-- The traits of a profile with the name of its prefab, in order. Names of traits that are all
numbers have no order with that of the prefab's name. -/
def withName (numbered : Bool) (label : Json) (traits : Traits) : Result Traits :=
  let named : Traits := (traits.filter fun t => t.1 != "prefab") ++ [("prefab", label)]
  if numbered && !traits.isEmpty then .error .kind
  else .ok (named.mergeSort fun a b => !(b.1 < a.1))

/-! ### Text -/

/-- A quotient rounded to the nearest whole number. Half a unit is rounded up if the whole number
below is odd or zero. -/
def nearestCount (x : Float) : Nat :=
  let low := x.floor.toUInt64.toNat
  let rest := x - x.floor
  if rest > 0.5 || (rest == 0.5 && (low == 0 || low % 2 == 1)) then low + 1 else low

def fractionDigits (n : Nat) : List Char :=
  let ds := (Decimal.padded 10 n).toList
  match (ds.reverse.dropWhile (· == '0')).reverse with
  | [] => ['0']
  | ds => ds

def placesText (x : Float) : String :=
  let whole := x.floor.toUInt64.toNat
  let count := nearestCount ((x - x.floor) * 10000000000.0)
  let (whole, count) := if 10000000000 ≤ count then (whole + 1, 0) else (whole, count)
  toString whole ++ "." ++ String.ofList (fractionDigits count)

def doubleText (x : Float) : String :=
  let size := x.abs
  let sign := if x < 0.0 then "-" else ""
  if size > 9999999999999999.0 || (size != 0.0 && size < 1e-15) then Json.floatText x
  else sign ++ placesText size

def charText (c : Char) : List Char :=
  if c == '/' then ['\\', '/'] else Json.quotedChar true c

mutual

def traitText : Json → String
  | .float x => doubleText x
  | .str s => "\"" ++ String.ofList (s.toList.flatMap charText) ++ "\""
  | .arr xs => "[" ++ ",".intercalate (traitTexts xs) ++ "]"
  | .obj ms => "\x7b" ++ ",".intercalate (memberTexts ms) ++ "\x7d"
  | j => j.text .line

def traitTexts : List Json → List String
  | [] => []
  | x :: xs => traitText x :: traitTexts xs

def memberTexts : List (String × Json) → List String
  | [] => []
  | (k, v) :: r =>
    ("\"" ++ String.ofList (k.toList.flatMap charText) ++ "\":" ++ traitText v) :: memberTexts r

end

def text (traits : Traits) : String := traitText (.obj traits)

end WikiFeed.Profile

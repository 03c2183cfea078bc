import WikiFeed.Decimal.Text

/-! # Numbers

A number is whole and unbounded, or a double. An operation on two whole numbers gives a whole number
where it can; a double makes the result a double. Division of whole numbers is rounded once. Floored
division and remainder go toward minus infinity. -/

namespace WikiFeed

inductive Number where
  | int (n : Int)
  | float (x : Float)

namespace Number

instance : Inhabited Number := ⟨.int 0⟩

inductive Fault where
  | zeroDivision
  /-- a number beyond the range of doubles -/
  | overflow
  /-- a number outside of what a function takes -/
  | domain
deriving DecidableEq

abbrev Outcome := Except Fault

def toFloat : Number → Outcome Float
  | .int n => match Decimal.ofInt? n with
    | some x => .ok x
    | none => .error .overflow
  | .float x => .ok x

def both {α : Type} (whole : Int → Int → Outcome α) (double : Float → Float → Outcome α) :
    Number → Number → Outcome α
  | .int m, .int n => whole m n
  | a, b => do double (← a.toFloat) (← b.toFloat)

def add : Number → Number → Outcome Number :=
  both (fun m n => .ok (.int (m + n))) fun x y => .ok (.float (x + y))

def sub : Number → Number → Outcome Number :=
  both (fun m n => .ok (.int (m - n))) fun x y => .ok (.float (x - y))

def mul : Number → Number → Outcome Number :=
  both (fun m n => .ok (.int (m * n))) fun x y => .ok (.float (x * y))

def quotient : Number → Number → Outcome Float :=
  both
    (fun m n =>
      if n = 0 then .error .zeroDivision
      else
        let x := Decimal.nearestSigned ((m < 0) != (n < 0)) m.natAbs n.natAbs
        if x.isInf then .error .overflow
        else .ok x)
    fun x y => if y == 0.0 then .error .zeroDivision else .ok (x / y)

def div (a b : Number) : Outcome Number := do return .float (← a.quotient b)

def floorDiv : Number → Number → Outcome Number :=
  both (fun m n => if n = 0 then .error .zeroDivision else .ok (.int (m.fdiv n)))
    fun x y => if y == 0.0 then .error .zeroDivision else .ok (.float (Decimal.floorDiv x y))

def mod : Number → Number → Outcome Number :=
  both (fun m n => if n = 0 then .error .zeroDivision else .ok (.int (m.fmod n)))
    fun x y => if y == 0.0 then .error .zeroDivision else .ok (.float (Decimal.floorMod x y))

def neg : Number → Number
  | .int n => .int (-n)
  | .float x => .float (-x)

def compare? : Number → Number → Option Ordering
  | .int m, .int n => some (compare m n)
  | .int m, .float y => Decimal.compareInt m y
  | .float x, .int n => (Decimal.compareInt n x).map Ordering.swap
  | .float x, .float y =>
    if x < y then some .lt else if x == y then some .eq else if x > y then some .gt else none

def less (a b : Number) : Bool := a.compare? b == some .lt

def atMost (a b : Number) : Bool := a.compare? b == some .lt || a.compare? b == some .eq

def min (a b : Number) : Number := if b.less a then b else a

def max (a b : Number) : Number := if a.less b then b else a

def truncate : Number → Outcome Int
  | .int n => .ok n
  | .float x => match Decimal.truncate? x with
    | some n => .ok n
    | none => .error (if x.isNaN then .domain else .overflow)

/-- The power of two doubles, for doubles that are in its domain and give a finite result. -/
def powFloat (x y : Float) : Outcome Float :=
  let finite (z : Float) := !z.isNaN && !z.isInf
  let z := Float.pow x y
  if finite z || z.isNaN && (x.isNaN || y.isNaN) then .ok z
  else if finite x && finite y then
    if z.isNaN then .error .domain
    else if x == 0.0 then .error .domain
    else .error .overflow
  else .ok z

def text : Number → String
  | .int n => Decimal.intText n
  | .float x => Decimal.text x

end Number

end WikiFeed

import WikiFeed.Decimal.Number
import WikiFeed.Lua.Fault

/-! # Arithmetic on plain values

Numbers are calculated with as numbers, where a truth value counts as zero or one. Texts and tuples
are joined by addition and repeated by multiplication. -/

namespace WikiFeed.Lua

open scoped Powers

abbrev Result := Except Fault

def Fault.ofNumber : Number.Fault → Fault
  | .zeroDivision => .zeroDivision
  | .overflow => .overflow
  | .domain => .value

def calculated {α : Type} (r : Number.Outcome α) : Result α :=
  match r with
  | .ok a => .ok a
  | .error e => .error (.ofNumber e)

namespace Value

def ofNumber : Number → Value
  | .int n => .int n
  | .float x => .float x

def num? : Value → Option Number
  | .bool b => some (.int (if b then 1 else 0))
  | .int n => some (.int n)
  | .float x => some (.float x)
  | _ => none

def toFloat (v : Value) : Result Float :=
  match v.num? with
  | some n => calculated n.toFloat
  | none => .error .kind

def copies {α : Type} (n : Int) (xs : List α) : Result (List α) :=
  if n.natAbs * (xs.length + 1) ≥ 2 ^ (31 : Nat) && 0 < n then .error .overflow
  else .ok (List.replicate n.toNat xs).flatten

def onNumbers (op : Number → Number → Number.Outcome Number) (v w : Value) : Result Value :=
  match v.num?, w.num? with
  | some a, some b => do return ofNumber (← calculated (op a b))
  | _, _ => .error .kind

def add : Value → Value → Result Value
  | .str s, .str t => .ok (.str (s ++ t))
  | .tuple xs, .tuple ys => .ok (.tuple (xs ++ ys))
  | v, w => onNumbers Number.add v w

def mul (v w : Value) : Result Value :=
  match v, w with
  | .str s, w => repeatText s w
  | v, .str s => repeatText s v
  | .tuple xs, w => repeatTuple xs w
  | v, .tuple xs => repeatTuple xs v
  | v, w => onNumbers Number.mul v w
where
  /-- A text as often as the number says. -/
  repeatText (s : String) (w : Value) : Result Value :=
    match w.asInt? with
    | some n => do return .str (String.ofList (← copies n s.toList))
    | none => .error .kind
  /-- A tuple as often as the number says. -/
  repeatTuple (xs : List Value) (w : Value) : Result Value :=
    match w.asInt? with
    | some n => do return .tuple (← copies n xs)
    | none => .error .kind

def neg (v : Value) : Result Value :=
  match v.num? with
  | some (.int n) => .ok (.int (-n))
  | some (.float x) => .ok (.float (-x))
  | none => .error .kind

def complement (v : Value) : Result Value :=
  match v.asInt? with
  | some n => .ok (.int (-n - 1))
  | none => .error .kind

def compareText (s t : String) : Ordering := if s < t then .lt else if s == t then .eq else .gt

def holds (op : BinOp) (o : Option Ordering) : Bool :=
  match op with
  | .lt => o == some .lt
  | .gt => o == some .gt
  | .le => o == some .lt || o == some .eq
  | .ge => o == some .gt || o == some .eq
  | .ne => o != some .eq
  | _ => o == some .eq

mutual

def plainEq (v w : Value) : Bool :=
  match v, w with
  | .nil, .nil => true
  | .str s, .str t => s == t
  | .tuple xs, .tuple ys => plainEqs xs ys
  | .rest xs, .rest ys => plainEqs xs ys
  | .object _ r, .object _ q => r == q
  | .func f, .func g => f.label == g.label
  | .native n, .native m => n == m
  | .module n, .module m => n == m
  | .complex a b, .complex c d => a == c && b == d
  | v, w => (v.sameNumber? w).getD false

def plainEqs : List Value → List Value → Bool
  | [], [] => true
  | x :: xs, y :: ys => plainEq x y && plainEqs xs ys
  | _, _ => false

end

/-- Compares two values of the same kind: numbers, texts or tuples. A tuple is compared at its
first place of difference. -/
def order (op : BinOp) : Value → Value → Result Bool
  | .str s, .str t => .ok (holds op (some (compareText s t)))
  | .tuple xs, .tuple ys => orderLists xs ys
  | v, w =>
    match v.num?, w.num? with
    | some a, some b => .ok (holds op (a.compare? b))
    | _, _ => .error .kind
where
  /-- Compares two lists at their first place of difference. -/
  orderLists : List Value → List Value → Result Bool
    | [], [] => .ok (holds op (some .eq))
    | [], _ :: _ => .ok (holds op (some .lt))
    | _ :: _, [] => .ok (holds op (some .gt))
    | x :: xs, y :: ys =>
      if plainEq x y then orderLists xs ys
      else match x, y with
        | .str s, .str t => .ok (holds op (some (compareText s t)))
        | x, y => match x.num?, y.num? with
          | some a, some b => .ok (holds op (a.compare? b))
          | _, _ => .error .kind

end Value

end WikiFeed.Lua

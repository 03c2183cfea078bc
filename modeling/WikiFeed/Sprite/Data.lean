import WikiFeed.Json.Datum
import WikiFeed.Sprite.Fault

/-! # Reading plain data

Access to members and items of plain data, and calculation with the numbers in it. A truth value
counts as a number. -/

namespace WikiFeed.Sprite

def numberOf? : Datum → Option Number
  | .bool b => some (.int (if b then 1 else 0))
  | .int n => some (.int n)
  | .float x => some (.float x)
  | _ => none

def numberOf (d : Datum) : Result Number :=
  match numberOf? d with
  | some n => .ok n
  | none => .error .kind

def ofNumber : Number → Datum
  | .int n => .int n
  | .float x => .float x

def memberAt (d k : Datum) : Result Datum :=
  match d with
  | .dict es =>
    match Datum.lookup es k with
    | some v => .ok v
    | none => .error .key
  | _ => .error .kind

def named (d : Datum) (name : String) : Result Datum := memberAt d (.str name)

def entriesOf : Datum → Result (List (Datum × Datum))
  | .dict es => .ok es
  | _ => .error .member

def itemsOf : Datum → Result (List Datum)
  | .list xs | .tuple xs => .ok xs
  | .dict es => .ok (es.map (·.1))
  | .str s => .ok (s.toList.map fun c => .str c.toString)
  | _ => .error .kind

def itemAt (d : Datum) (i : Nat) : Result Datum :=
  match d with
  | .dict es =>
    match Datum.lookup es (.int i) with
    | some v => .ok v
    | none => .error .key
  | d => do
    match (← itemsOf d)[i]? with
    | some v => .ok v
    | none => .error .position

def sizeOfItems (d : Datum) : Result Nat := do return (← itemsOf d).length

def textOf : Datum → Result String
  | .str s => .ok s
  | _ => .error .kind

/-! ### Calculation -/

def onNumbers (op : Number → Number → Number.Outcome Number) (a b : Datum) : Result Datum := do
  return ofNumber (← calculated (op (← numberOf a) (← numberOf b)))

def plus : Datum → Datum → Result Datum := onNumbers Number.add

def minus : Datum → Datum → Result Datum := onNumbers Number.sub

def times : Datum → Datum → Result Datum := onNumbers Number.mul

def dividedBy : Datum → Datum → Result Datum := onNumbers Number.div

def floorOver : Datum → Datum → Result Datum := onNumbers Number.floorDiv

def negative (d : Datum) : Result Datum := do return ofNumber (← numberOf d).neg

def doubleOf : Datum → Result Float
  | .str s =>
    match Decimal.readFloat? s with
    | some x => .ok x
    | none => .error .value
  | d => do calculated (← numberOf d).toFloat

/-! ### Order -/

/-- Whether one datum is below another: numbers by value, texts by their characters, lists and
tuples at their first place of difference. -/
def below (a b : Datum) : Result Bool :=
  match a, b with
  | .str s, .str t => .ok (decide (s < t))
  | .list xs, .list ys => belowItems xs ys
  | .tuple xs, .tuple ys => belowItems xs ys
  | a, b => do return (← numberOf a).less (← numberOf b)
where
  /-- Whether one list is below another. -/
  belowItems : List Datum → List Datum → Result Bool
    | _, [] => .ok false
    | [], _ :: _ => .ok true
    | x :: xs, y :: ys =>
      if x.same y then belowItems xs ys
      else match x, y with
        | .str s, .str t => .ok (decide (s < t))
        | x, y => do return (← numberOf x).less (← numberOf y)

def insertByKey {α : Type} (k : Datum) (a : α) :
    List (Datum × α) → Result (List (Datum × α))
  | [] => .ok [(k, a)]
  | (l, b) :: r => do
    if ← below k l then return (k, a) :: (l, b) :: r
    else return (l, b) :: (← insertByKey k a r)

def sortByKey {α : Type} (key : α → Result Datum) (items : List α) : Result (List α) := do
  let keyed ← items.mapM fun a => do return (← key a, a)
  let sorted ← keyed.foldlM (fun done e => insertByKey e.1 e.2 done) []
  return sorted.map (·.2)

def least : List Datum → Result Datum
  | [] => .error .value
  | x :: xs => xs.foldlM (fun m y => do return if ← below y m then y else m) x

def greatest : List Datum → Result Datum
  | [] => .error .value
  | x :: xs => xs.foldlM (fun m y => do return if ← below m y then y else m) x

/-! ### Text -/

mutual

def shown : Datum → String
  | .null => "None"
  | .bool b => if b then "True" else "False"
  | .int n => Decimal.intText n
  | .float x => Decimal.text x
  | .str s => Text.quote s
  | .list xs => "[" ++ ", ".intercalate (shownItems xs) ++ "]"
  | .tuple xs =>
    match xs with
    | [x] => "(" ++ shown x ++ ",)"
    | xs => "(" ++ ", ".intercalate (shownItems xs) ++ ")"
  | .dict es => "\x7b" ++ ", ".intercalate (shownEntries es) ++ "\x7d"
  | .other c => c

def shownItems : List Datum → List String
  | [] => []
  | x :: xs => shown x :: shownItems xs

def shownEntries : List (Datum × Datum) → List String
  | [] => []
  | (k, v) :: r => (shown k ++ ": " ++ shown v) :: shownEntries r

end

def display : Datum → String
  | .str s => s
  | d => shown d

end WikiFeed.Sprite

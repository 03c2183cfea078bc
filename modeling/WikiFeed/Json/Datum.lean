import WikiFeed.Json.Basic
import WikiFeed.Lua.Arith

/-! # Plain data

Cells of tables and data read from JSON texts: numbers, texts, lists, tuples and mappings. What is
none of these is known by the name of its class only. Numbers that are equal are the same key of a
mapping. -/

namespace WikiFeed

open Lua (Result Fault)

inductive Datum where
  | null
  | bool (b : Bool)
  | int (n : Int)
  | float (x : Float)
  | str (s : String)
  | list (items : List Datum)
  | tuple (items : List Datum)
  | dict (entries : List (Datum × Datum))
  | other (className : String)

namespace Datum

instance : Inhabited Datum := ⟨.null⟩

def className : Datum → String
  | .null => "NoneType"
  | .bool _ => "bool"
  | .int _ => "int"
  | .float _ => "float"
  | .str _ => "str"
  | .list _ => "list"
  | .tuple _ => "tuple"
  | .dict _ => "dict"
  | .other c => c

def number? : Datum → Option Lua.Value
  | .bool b => some (.bool b)
  | .int n => some (.int n)
  | .float x => some (.float x)
  | _ => none

def sameNumber (a b : Datum) : Bool :=
  match a.number?, b.number? with
  | some v, some w => (v.sameNumber? w).getD false
  | _, _ => false

mutual

/-- Equality: numbers by value, lists and tuples item by item, mappings key by key. -/
def same (a b : Datum) : Bool :=
  match a with
  | .null =>
    match b with
    | .null => true
    | _ => false
  | .str s =>
    match b with
    | .str t => s == t
    | _ => false
  | .list xs =>
    match b with
    | .list ys => sameItems xs ys
    | _ => false
  | .tuple xs =>
    match b with
    | .tuple ys => sameItems xs ys
    | _ => false
  | .dict xs =>
    match b with
    | .dict ys => xs.length == ys.length && sameEntries xs ys
    | _ => false
  | a => a.sameNumber b

def sameItems : List Datum → List Datum → Bool
  | [], [] => true
  | x :: xs, y :: ys => same x y && sameItems xs ys
  | _, _ => false

def sameEntries : List (Datum × Datum) → List (Datum × Datum) → Bool
  | [], _ => true
  | (k, v) :: r, ys => ys.any (fun e => same k e.1 && same v e.2) && sameEntries r ys

end

def isKey : Datum → Bool
  | .list _ | .dict _ => false
  | .tuple xs => xs.attach.all fun x => x.1.isKey
  | _ => true
termination_by d => sizeOf d
decreasing_by
  have := List.sizeOf_lt_of_mem x.2
  simp_wf
  omega

def lookup (entries : List (Datum × Datum)) (k : Datum) : Option Datum :=
  (entries.find? fun e => e.1.same k).map (·.2)

def put (entries : List (Datum × Datum)) (k v : Datum) : List (Datum × Datum) :=
  if (lookup entries k).isSome then entries.map fun e => if e.1.same k then (e.1, v) else e
  else entries ++ [(k, v)]

def erase (entries : List (Datum × Datum)) (k : Datum) : List (Datum × Datum) :=
  entries.filter fun e => !e.1.same k

def isSomething : Datum → Bool
  | .null => false
  | .bool b => b
  | .int n => n != 0
  | .float x => x != 0.0
  | .str s => s != ""
  | .list xs | .tuple xs => !xs.isEmpty
  | .dict es => !es.isEmpty
  | .other _ => true

/-! ### JSON -/

def keyText : Datum → Result String
  | .str s => .ok s
  | .null => .ok "null"
  | .bool b => .ok (if b then "true" else "false")
  | .int n => .ok (Decimal.intText n)
  | .float x => .ok (Json.floatText x)
  | _ => .error .kind

mutual

def toJson : Datum → Result Json
  | .null => .ok .null
  | .bool b => .ok (.bool b)
  | .int n => .ok (.int n)
  | .float x => .ok (.float x)
  | .str s => .ok (.str s)
  | .list xs => do return .arr (← toJsonItems xs)
  | .tuple xs => do return .arr (← toJsonItems xs)
  | .dict es => do return .obj (← toJsonMembers es)
  | .other _ => .error .kind

def toJsonItems : List Datum → Result (List Json)
  | [] => .ok []
  | x :: xs => do
    let j ← toJson x
    return j :: (← toJsonItems xs)

def toJsonMembers : List (Datum × Datum) → Result (List (String × Json))
  | [] => .ok []
  | (k, v) :: r => do
    let name ← keyText k
    let j ← toJson v
    return (name, j) :: (← toJsonMembers r)

end

mutual

/-- The datum of JSON data; of members with one name the last one counts. -/
def ofJson : Json → Datum
  | .null => .null
  | .bool b => .bool b
  | .int n => .int n
  | .float x => .float x
  | .str s => .str s
  | .arr js => .list (ofJsonItems js)
  | .obj ms => .dict (ofJsonMembers [] ms)

def ofJsonItems : List Json → List Datum
  | [] => []
  | j :: js => ofJson j :: ofJsonItems js

def ofJsonMembers (done : List (Datum × Datum)) : List (String × Json) → List (Datum × Datum)
  | [] => done
  | (name, j) :: ms => ofJsonMembers (put done (.str name) (ofJson j)) ms

end

end Datum

end WikiFeed

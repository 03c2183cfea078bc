import WikiFeed.Decimal.Double
import WikiFeed.Lua.Tree

/-! # Values

A value is plain data, a function, or a reference to an object of the store. The kind of an object
never changes, so a reference carries it. Numbers of all three kinds that are equal are one key of
a table; so are all placeholder tables, together with their name. -/

namespace WikiFeed.Lua

abbrev Ref := Nat

inductive Kind where
  | table
  | dummy
  | entity
  | dict
  | list
  | vector
  | asset
  | phrase
  | stub
deriving DecidableEq, Inhabited

inductive Tree where
  | expr (e : Expr)
  | stmt (s : Stmt)

inductive Aspect where
  | keys | values | items
deriving DecidableEq, Inhabited

/-- The values of the evaluators. `rest` holds collected arguments, `spread` arguments that are to
be passed one by one, `lazy` a call that is not made, `native` a function of the library, `module`
a group of them, `method` one that belongs to a value and `view` a live view of an object. -/
inductive Value where
  | nil
  | bool (b : Bool)
  | int (n : Int)
  | float (x : Float)
  | complex (re im : Float)
  | str (s : String)
  | tuple (items : List Value)
  | rest (items : List Value)
  | spread (items : List Value)
  | object (kind : Kind) (ref : Ref)
  | func (f : Func)
  | tree (t : Tree)
  | lazy (t : Tree)
  | native (name : String)
  | module (name : String)
  | method (self : Value) (name : String)
  | view (aspect : Aspect) (kind : Kind) (ref : Ref)

instance : Inhabited Value := ⟨.nil⟩

def Tree.className : Tree → String
  | .expr e => e.className
  | .stmt s => s.className

namespace Value

/-- The whole number that a truth value or an integer stands for. -/
def asInt? : Value → Option Int
  | .bool b => some (if b then 1 else 0)
  | .int n => some n
  | _ => none

def distance (v w : Value) : Nat :=
  match v.asInt?, w.asInt? with
  | some a, some b => (b - a).natAbs
  | _, _ => 0

def isNil : Value → Bool
  | .nil => true
  | _ => false

def isTable : Value → Bool
  | .object .table _ | .object .dummy _ | .object .entity _ => true
  | _ => false

def isDummy : Value → Bool
  | .object .dummy _ | .object .entity _ => true
  | _ => false

def isText : Value → Bool
  | .str _ => true
  | _ => false

def sameNumber? (v w : Value) : Option Bool :=
  match v, w with
  | .float x, .float y => some (x == y)
  | .float x, w => w.asInt?.map fun n => Decimal.compareInt n x == some .eq
  | v, .float y => v.asInt?.map fun n => Decimal.compareInt n y == some .eq
  | v, w => do return (← v.asInt?) == (← w.asInt?)

def dummyKey : String := "DummyTable"

mutual

def sameKey (v w : Value) : Bool :=
  match v with
  | .nil => w.isNil
  | .str s =>
    match w with
    | .str t => s == t
    | w => w.isDummy && s == dummyKey
  | .tuple xs =>
    match w with
    | .tuple ys => sameKeys xs ys
    | _ => false
  | .object k r =>
    match w with
    | .object l q => if (Value.object k r).isDummy then (Value.object l q).isDummy else r == q
    | .str t => (Value.object k r).isDummy && t == dummyKey
    | _ => false
  | .native n =>
    match w with
    | .native m => n == m
    | _ => false
  | .module n =>
    match w with
    | .module m => n == m
    | _ => false
  | v => (v.sameNumber? w).getD false

def sameKeys : List Value → List Value → Bool
  | [], [] => true
  | x :: xs, y :: ys => sameKey x y && sameKeys xs ys
  | _, _ => false

end

/-- Whether a value can be a key. Lists, mappings, views and functions can not, nor tuples that
hold one. -/
def isKey : Value → Bool
  | .rest _ | .func _ | .tree _ | .view .. => false
  | .object .list _ | .object .dict _ => false
  | .tuple xs => xs.attach.all fun x => x.1.isKey
  | _ => true
termination_by v => sizeOf v
decreasing_by
  have := List.sizeOf_lt_of_mem x.2
  simp_wf
  omega

end Value

end WikiFeed.Lua

import WikiFeed.Json.Basic
import WikiFeed.Phrasebook.Basic
import WikiFeed.Record.Machine

/-! # Skill data as JSON text

Tables whose keys are all whole numbers are arrays in the order of the keys; all other tables are
objects. A function counts as true, and a stub as the translation of the phrase that it names, or
as its own path. The text is written piece by piece, so that what was written before a fault is
kept. -/

namespace WikiFeed.Skill

open WikiFeed.Lua

/-- Computations that write text and may fail; the text is kept when they do. -/
abbrev Writer := EStateM Fault String

def emit (s : String) : Writer Unit := modify (· ++ s)

inductive Shape where
  | arr (items : List Value)
  | obj (entries : List (Value × Value))

def shapeOf (t : Table) : Shape :=
  if t.keys.all fun k => k.asInt?.isSome then
    let sorted := t.toList.mergeSort fun a b => (a.1.asInt?.getD 0) ≤ (b.1.asInt?.getD 0)
    .arr (sorted.map (·.2))
  else .obj t.toList

def memberName : Value → Result String
  | .str s => .ok s
  | .nil => .ok "null"
  | .bool b => .ok (if b then "true" else "false")
  | .int n => .ok (Decimal.intText n)
  | .float x => .ok (Json.floatText x)
  | _ => .error .kind

def stubMeaning (book : Option Phrasebook) (path : String) : Result String :=
  if path.startsWith "STRINGS." then
    match book with
    | none => .error .missingFile
    | some b =>
      match b.lookup path with
      | some p => .ok p.text
      | none => .error .key
  else .ok path

def isPlainFunction (f : Func) : Bool :=
  match f.head with
  | .method _ _ => false
  | _ => true

def ofResult {α : Type} : Result α → Writer α
  | .ok a => pure a
  | .error f => throw f

def separator (l : Json.Layout) (depth : Nat) : String := l.between ++ l.newline depth

def writeItems (l : Json.Layout) (depth : Nat) (value : Value → Writer Unit) :
    Bool → List Value → Writer Unit
  | _, [] => pure ()
  | first, v :: vs => do
    unless first do emit (separator l depth)
    value v
    writeItems l depth value false vs

/-- Writes members, each but the first one behind a separator. A name that cannot be written fails
before its separator. -/
def writeMembers (l : Json.Layout) (depth : Nat) (value : Value → Writer Unit) :
    Bool → List (Value × Value) → Writer Unit
  | _, [] => pure ()
  | first, (k, v) :: ms => do
    let name ← ofResult (memberName k)
    unless first do emit (separator l depth)
    emit (Json.quoted l.ascii name ++ l.colon)
    value v
    writeMembers l depth value false ms

def writeShape (l : Json.Layout) (depth : Nat) (value : Value → Writer Unit) : Shape → Writer Unit
  | .arr [] => emit "[]"
  | .obj [] => emit "\x7b\x7d"
  | .arr items => do
    emit ("[" ++ l.newline (depth + 1))
    writeItems l (depth + 1) value true items
    emit (l.newline depth ++ "]")
  | .obj entries => do
    emit ("\x7b" ++ l.newline (depth + 1))
    writeMembers l (depth + 1) value true entries
    emit (l.newline depth ++ "\x7d")

/-- Writes a value at a depth; `path` holds the objects around it. -/
def writeAt (s : Store) (book : Option Phrasebook) (l : Json.Layout) :
    Nat → List Ref → Nat → Value → Writer Unit
  | 0, _, _, _ => throw .tooDeep
  | n + 1, path, depth, v =>
    let object (r : Ref) (shape : Shape) : Writer Unit :=
      if path.contains r then throw .value
      else writeShape l depth (writeAt s book l n (r :: path) (depth + 1)) shape
    match v with
    | .nil => emit "null"
    | .bool b => emit (if b then "true" else "false")
    | .int m => emit (Decimal.intText m)
    | .float x => emit (Json.floatText x)
    | .str t => emit (Json.quoted l.ascii t)
    | .tuple xs => writeShape l depth (writeAt s book l n path (depth + 1)) (.arr xs)
    | .object .table r => object r (shapeOf (s.table r))
    | .object .dict r => object r (.obj (s.table r).toList)
    | .object .list r =>
      match s.cell r with
      | .list xs => object r (.arr xs)
      | _ => throw .kind
    | .object .stub r => do
      emit (Json.quoted l.ascii (← ofResult (stubMeaning book (stubText s r))))
    | .func f => if isPlainFunction f then emit "true" else throw .kind
    | _ => throw .kind

def maxDepth : Nat := 1000

def write (s : Store) (book : Option Phrasebook) (l : Json.Layout) (v : Value) : Writer Unit :=
  writeAt s book l maxDepth [] 0 v

end WikiFeed.Skill

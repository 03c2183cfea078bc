import WikiFeed.Lua.Value

/-! # Tables

A table is a list of entries in the order in which their keys were first written. A key keeps its
place when its value changes and loses it when it is erased. Every entry has a stamp that grows
with the order of writing, so a traversal that is under way can go on behind the last entry it saw,
whatever happened to the table in between. -/

namespace WikiFeed.Lua

/-- A key with its value and the time at which the key was written. -/
structure Entry where
  stamp : Nat
  key : Value
  value : Value

/-- Entries in the order of their stamps, and the next stamp. -/
structure Table where
  entries : List Entry
  clock : Nat

namespace Table

def empty : Table := ⟨[], 0⟩

instance : Inhabited Table := ⟨empty⟩

def size (t : Table) : Nat := t.entries.length

def entry? (t : Table) (k : Value) : Option Entry := t.entries.find? fun e => e.key.sameKey k

def get? (t : Table) (k : Value) : Option Value := (t.entry? k).map (·.value)

def get (t : Table) (k : Value) : Value := (t.get? k).getD .nil

def contains (t : Table) (k : Value) : Bool := (t.entry? k).isSome

def put (t : Table) (k v : Value) : Table :=
  if t.contains k then
    { t with entries := t.entries.map fun e =>
      if e.key.sameKey k then { e with value := v } else e }
  else ⟨t.entries ++ [⟨t.clock, k, v⟩], t.clock + 1⟩

def erase (t : Table) (k : Value) : Table :=
  { t with entries := t.entries.filter fun e => !e.key.sameKey k }

def toList (t : Table) : List (Value × Value) := t.entries.map fun e => (e.key, e.value)

def keys (t : Table) : List Value := t.entries.map (·.key)

def values (t : Table) : List Value := t.entries.map (·.value)

def ofList (pairs : List (Value × Value)) : Table :=
  pairs.foldl (fun t p => t.put p.1 p.2) empty

def ofFields (fields : List (String × Value)) : Table :=
  ofList (fields.map fun p => (.str p.1, p.2))

def next? (t : Table) (moment : Nat) : Option Entry := t.entries.find? fun e => moment ≤ e.stamp

def firstFree (t : Table) : Nat → Int → Int
  | 0, k => k
  | n + 1, k => if t.contains (.int k) then firstFree t n (k + 1) else k

/-- The length of the sequence `1, 2, …` of keys. -/
def border (t : Table) : Int := t.firstFree (t.size + 1) 1 - 1

end Table

/-- An object of the store. A placeholder table may have an answer to calls; an entity also has tags
and the name it is shown under; a phrase and a stub know their name and the object they were asked
for. -/
inductive Cell where
  | table (t : Table)
  | dummy (t : Table) (answer : Option Value)
  | entity (t : Table) (tags : List Value) (override : Value) (answer : Option Value)
  | dict (t : Table)
  | list (items : List Value)
  | vector (x y z : Value)
  | asset (type file param : Value)
  | phrase (name : Value) (parent : Option Ref)
  | stub (t : Table) (name : Value) (parent : Option Ref)

instance : Inhabited Cell := ⟨.table .empty⟩

def Cell.kind : Cell → Kind
  | .table _ => .table
  | .dummy .. => .dummy
  | .entity .. => .entity
  | .dict _ => .dict
  | .list _ => .list
  | .vector .. => .vector
  | .asset .. => .asset
  | .phrase .. => .phrase
  | .stub .. => .stub

def Cell.entries : Cell → Table
  | .table t | .dummy t _ | .entity t _ _ _ | .dict t | .stub t _ _ => t
  | _ => .empty

def Cell.withEntries (t : Table) : Cell → Cell
  | .table _ => .table t
  | .dummy _ a => .dummy t a
  | .entity _ tags o a => .entity t tags o a
  | .dict _ => .dict t
  | .stub _ n p => .stub t n p
  | c => c

structure Store where
  cells : Array Cell

namespace Store

def empty : Store := ⟨#[]⟩

instance : Inhabited Store := ⟨empty⟩

def cell (s : Store) (r : Ref) : Cell := s.cells.getD r default

def update (s : Store) (r : Ref) (f : Cell → Cell) : Store := ⟨s.cells.modify r f⟩

def alloc (s : Store) (c : Cell) : Value × Store :=
  (.object c.kind s.cells.size, ⟨s.cells.push c⟩)

def table (s : Store) (r : Ref) : Table := (s.cell r).entries

def updateTable (s : Store) (r : Ref) (f : Table → Table) : Store :=
  s.update r fun c => c.withEntries (f c.entries)

end Store

end WikiFeed.Lua

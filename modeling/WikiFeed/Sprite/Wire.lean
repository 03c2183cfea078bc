import WikiFeed.Decimal.Single
import WikiFeed.Sprite.Name
import WikiFeed.Text.Utf8

/-! # Fields of animation files

A file is a row of fields: words and numbers in 32 bits, the lowest byte first, single bytes, and
texts behind their lengths. Writing keeps what is written before a fault. Reading hands on the bytes
behind a field, and a field that is cut off is a fault. A row of records keeps those before the
first that cannot be read. -/

namespace WikiFeed.Sprite

open Decimal (Single)
open scoped Powers

abbrev Bytes := List UInt8

def wordBytes (n : UInt32) : Bytes :=
  [n.toNat.toUInt8, (n.toNat / 2 ^ (8 : Nat)).toUInt8, (n.toNat / 2 ^ (16 : Nat)).toUInt8,
    (n.toNat / 2 ^ (24 : Nat)).toUInt8]

def wordOf (a b c d : UInt8) : UInt32 :=
  (a.toNat + 2 ^ (8 : Nat) * (b.toNat + 2 ^ (8 : Nat) *
    (c.toNat + 2 ^ (8 : Nat) * d.toNat))).toUInt32

/-! ### Writing -/

/-- How much a file holds: animations, their frames, and the symbols drawn in those. -/
structure Tally where
  animations : Nat
  frames : Nat
  symbols : Nat

/-- A file that is being written: its pieces, the last one first, the names that stand in it as
codes, and how much it holds. -/
structure Draft where
  pieces : List Bytes
  names : NameTable
  tally : Tally

namespace Draft

def empty : Draft := ⟨[], [], ⟨0, 0, 0⟩⟩

def bytes (d : Draft) : Bytes := d.pieces.reverse.flatten

end Draft

/-- Writing. The draft so far stays when a fault stops it. -/
abbrev Writing := EStateM Fault Draft

namespace Writing

def lift {α : Type} (r : Result α) : Writing α :=
  match r with
  | .ok a => pure a
  | .error e => throw e

def put (bs : Bytes) : Writing Unit := modify fun d => { d with pieces := bs :: d.pieces }

def tally (step : Tally → Tally) : Writing Unit := modify fun d => { d with tally := step d.tally }

def word (n : UInt32) : Writing Unit := put (wordBytes n)

def count (n : Nat) : Writing Unit :=
  if n < 2 ^ (32 : Nat) then word n.toUInt32 else throw .field

def whole (d : Datum) : Writing Unit :=
  match d with
  | .int n => if 0 ≤ n ∧ n < 2 ^ (32 : Nat) then word n.toNat.toUInt32 else throw .field
  | .bool b => word (if b then 1 else 0)
  | _ => throw .field

def narrowed (x : Float) : Result Single :=
  match Single.ofFloat? x with
  | some s => .ok s
  | none => .error .overflow

def singles (xs : List Float) : Writing Unit := do
  put ((← lift (xs.mapM narrowed)).flatMap wordBytes)

def asciiBytes (s : String) : Result Bytes :=
  if s.toList.all fun c => c.toNat < 128 then .ok (s.toList.map fun c => c.toNat.toUInt8)
  else .error .unencodable

def text (s : String) : Writing Unit := do
  let bs ← lift (asciiBytes s)
  if bs.length < 2 ^ (31 : Nat) then put (wordBytes bs.length.toUInt32 ++ bs) else throw .field

def code (d : Datum) : Writing UInt32 := do
  let (code, names) ← lift (NameTable.record (← get).names (← lift (textOf d)))
  modify fun d => { d with names }
  return code

def name (d : Datum) : Writing Unit := do word (← code d)

def nameTable : Writing Unit := do
  let names := (← get).names
  count names.length
  names.forM fun e => do
    word e.1
    text e.2

end Writing

/-! ### Reading -/

abbrev Reading := StateT Bytes Result

namespace Reading

def word : Reading UInt32 := fun bs =>
  match bs with
  | a :: b :: c :: d :: r => .ok (wordOf a b c d, r)
  | _ => .error .field

def byte : Reading UInt8 := fun bs =>
  match bs with
  | a :: r => .ok (a, r)
  | [] => .error .field

def bytes (n : Nat) : Reading Bytes := fun bs =>
  if bs.length < n then .error .field else .ok (bs.take n, bs.drop n)

def single : Reading Float := do return Single.toFloat (← word)

def textOfLength (n : Nat) : Reading String := do
  match Text.decode? (← bytes n) with
  | some s => return s
  | none => throw .undecodable

/-- Reads a text behind its length; a length with its highest bit set is none. -/
def text : Reading String := do
  let n ← word
  if n.toNat < 2 ^ (31 : Nat) then textOfLength n.toNat else throw .field

def longText : Reading String := do textOfLength (← word).toNat

def whole (x : Float) : Reading Int := fun bs =>
  match (Number.float x).truncate with
  | .ok n => .ok (n, bs)
  | .error e => .error (Fault.ofNumber e)

/-- Reads a row of records: those before the first that cannot be read, and the rest of the bytes or
the fault. -/
def several {α : Type} (record : Reading α) : Nat → Bytes → List α × Result Bytes
  | 0, bs => ([], .ok bs)
  | n + 1, bs =>
    match record bs with
    | .error e => ([], .error e)
    | .ok (a, rest) =>
      let (as, r) := several record n rest
      (a :: as, r)

/-- Reads a row of records with items: those before the first whose head cannot be read, the last
one with the items that could be read. -/
def severalNested {α η ι : Type} (head : Reading η) (item : Reading ι) (count : η → UInt32)
    (mk : η → List ι → α) : Nat → Bytes → List α × Result Bytes
  | 0, bs => ([], .ok bs)
  | n + 1, bs =>
    match head bs with
    | .error e => ([], .error e)
    | .ok (a, rest) =>
      match several item (count a).toNat rest with
      | (xs, .error e) => ([mk a xs], .error e)
      | (xs, .ok rest) =>
        let (as, r) := severalNested head item count mk n rest
        (mk a xs :: as, r)

def nameEntry : Reading (UInt32 × String) := do
  let code ← word
  return (code, ← text)

end Reading

/-! ### Names that may still be codes -/

inductive Label where
  | code (n : UInt32)
  | name (s : String)
deriving DecidableEq

def Label.toDatum : Label → Datum
  | .code n => .int n.toNat
  | .name s => .str s

/-- Gives the values under a code to its name, which moves to the end unless it is there already. -/
def relabel {α : Type} (entries : List (Label × α)) (code : UInt32) (name : String) :
    List (Label × α) :=
  match entries.lookup (.code code) with
  | none => entries
  | some v =>
    Places.put (entries.filter fun e => e.1 != .code code) (.name name) v

end WikiFeed.Sprite

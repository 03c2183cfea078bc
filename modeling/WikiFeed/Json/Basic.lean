import WikiFeed.Decimal.Text
import WikiFeed.Text.Quoted

/-! # JSON texts

JSON data with members in the order in which they are written, and its text: on one line, or with
one item a line and an indent for every level. -/

namespace WikiFeed

/-- JSON data. An object may name a member more than once. -/
inductive Json where
  | null
  | bool (b : Bool)
  | int (n : Int)
  | float (x : Float)
  | str (s : String)
  | arr (items : List Json)
  | obj (members : List (String × Json))

namespace Json

instance : Inhabited Json := ⟨.null⟩

/-- How JSON data is laid out: the indent of a level, if every item is to have a line of its own,
whether other characters than ASCII ones are escaped, what stands between two items and between a
name and its value. -/
structure Layout where
  indent : Option Nat
  ascii : Bool
  between : String
  colon : String

def Layout.line : Layout := ⟨none, false, ", ", ": "⟩

def Layout.indented (n : Nat) : Layout := ⟨some n, false, ",", ": "⟩

def Layout.withIndent : Option Nat → Layout
  | some n => indented n
  | none => line

def unitEscape (n : Nat) : List Char := '\\' :: 'u' :: Text.hexadecimal 4 n

def charEscape (c : Char) : List Char :=
  let n := c.toNat
  if n < 0x10000 then unitEscape n
  else unitEscape (0xD800 + (n - 0x10000) / 0x400) ++ unitEscape (0xDC00 + (n - 0x10000) % 0x400)

def quotedChar (ascii : Bool) (c : Char) : List Char :=
  match c with
  | '"' => ['\\', '"']
  | '\\' => ['\\', '\\']
  | '\n' => ['\\', 'n']
  | '\r' => ['\\', 'r']
  | '\t' => ['\\', 't']
  | c =>
    if c.toNat == 8 then ['\\', 'b']
    else if c.toNat == 12 then ['\\', 'f']
    else if c.toNat < 32 || ascii && 127 ≤ c.toNat then charEscape c
    else [c]

def quoted (ascii : Bool) (s : String) : String :=
  "\"" ++ String.ofList (s.toList.flatMap (quotedChar ascii)) ++ "\""

def floatText (x : Float) : String :=
  if x.isNaN then "NaN"
  else if x.isInf then (if x < 0.0 then "-Infinity" else "Infinity")
  else Decimal.text x

def Layout.newline (l : Layout) (depth : Nat) : String :=
  match l.indent with
  | some n => "\n" ++ String.ofList (List.replicate (n * depth) ' ')
  | none => ""

def Layout.enclose (l : Layout) (depth : Nat) (opening closing : String) (items : List String) :
    String :=
  if items.isEmpty then opening ++ closing
  else opening ++ l.newline (depth + 1) ++
    (l.between ++ l.newline (depth + 1)).intercalate items ++ l.newline depth ++ closing

mutual

def textAt (l : Layout) (depth : Nat) : Json → String
  | .null => "null"
  | .bool b => if b then "true" else "false"
  | .int n => Decimal.intText n
  | .float x => floatText x
  | .str s => quoted l.ascii s
  | .arr items => l.enclose depth "[" "]" (itemTexts l depth items)
  | .obj members => l.enclose depth "\x7b" "\x7d" (memberTexts l depth members)

def itemTexts (l : Layout) (depth : Nat) : List Json → List String
  | [] => []
  | j :: js => textAt l (depth + 1) j :: itemTexts l depth js

def memberTexts (l : Layout) (depth : Nat) : List (String × Json) → List String
  | [] => []
  | (name, j) :: ms =>
    (quoted l.ascii name ++ l.colon ++ textAt l (depth + 1) j) :: memberTexts l depth ms

end

def text (l : Layout) (j : Json) : String := textAt l 0 j

/-! ### Parts of data -/

def items : Json → List Json
  | .arr js => js
  | _ => []

def members : Json → List (String × Json)
  | .obj ms => ms
  | _ => []

def get? (j : Json) (name : String) : Option Json := j.members.lookup name

def get (j : Json) (name : String) : Json := (j.get? name).getD .null

def item (j : Json) (i : Nat) : Json := j.items.getD i .null

def pairs (j : Json) : List (Json × Json) := j.items.map fun p => (p.item 0, p.item 1)

def asText? : Json → Option String
  | .str s => some s
  | _ => none

def asText (j : Json) : String := j.asText?.getD ""

def asInt? : Json → Option Int
  | .int n => some n
  | _ => none

def asInt (j : Json) : Int := j.asInt?.getD 0

def asNat (j : Json) : Nat := j.asInt.toNat

def asBool? : Json → Option Bool
  | .bool b => some b
  | _ => none

def isTrue (j : Json) : Bool := j.asBool?.getD false

def word (j : Json) (name : String) : String := (j.get name).asText

def wordAt (j : Json) (i : Nat) : String := (j.item i).asText

def natAt (j : Json) (i : Nat) : Nat := (j.item i).asNat

def intAt (j : Json) (i : Nat) : Int := (j.item i).asInt

def holds (j : Json) (name : String) : Bool := (j.get name).isTrue

def itemsOf (j : Json) (name : String) : List Json := (j.get name).items

def isNull : Json → Bool
  | .null => true
  | _ => false

end Json

end WikiFeed

import WikiFeed.Json.Datum

/-! # Data with tags

JSON data does not tell whole numbers from doubles, lists from tuples, or members from entries with
any key. Data with tags does: what JSON cannot say is an object whose only member names its kind. -/

namespace WikiFeed

def Json.ofFloat (x : Float) : Json := .obj [("f", .str (Decimal.text x))]

def Json.floatOf (j : Json) : Float := (Decimal.readFloat? j.asText).getD 0.0

namespace Datum

mutual

def toTagged : Datum → Json
  | .null => .null
  | .bool b => .bool b
  | .int n => .int n
  | .float x => .ofFloat x
  | .str s => .str s
  | .list xs => .obj [("list", .arr (toTaggedItems xs))]
  | .tuple xs => .obj [("tuple", .arr (toTaggedItems xs))]
  | .dict es => .obj [("dict", .arr (toTaggedEntries es))]
  | .other c => .obj [("obj", .str c)]

def toTaggedItems : List Datum → List Json
  | [] => []
  | x :: xs => toTagged x :: toTaggedItems xs

def toTaggedEntries : List (Datum × Datum) → List Json
  | [] => []
  | (k, v) :: r => .arr [toTagged k, toTagged v] :: toTaggedEntries r

end

/-- The datum of data with tags, nested up to a depth. Kinds that have no datum are known by the
name of their class only. -/
def ofTaggedUpTo (classOf : String → String) : Nat → Json → Datum
  | 0, _ => .null
  | depth + 1, j =>
    let inner := ofTaggedUpTo classOf depth
    match j with
    | .null => .null
    | .bool b => .bool b
    | .int n => .int n
    | .float x => .float x
    | .str s => .str s
    | .arr js => .list (js.map inner)
    | .obj [("f", x)] => .float x.floatOf
    | .obj [("tuple", xs)] => .tuple (xs.items.map inner)
    | .obj [("dict", es)] => .dict (es.pairs.foldl (fun m p => put m (inner p.1) (inner p.2)) [])
    | .obj ms => .other (classOf ((ms.head?.map (·.1)).getD ""))

end Datum

end WikiFeed

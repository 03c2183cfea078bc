import WikiFeed.Lua.Arith
import WikiFeed.Lua.Table
import WikiFeed.Text.Quoted

/-! # The text of values

A value has two texts: `repr` shows it as data, with quotes around text, and `display` is what it
contributes when it is put into a text. An object inside itself is shown by dots. The two
evaluators frame tables differently; a `Style` says how. -/

namespace WikiFeed.Lua

/-- How tables are framed, and whether the text of a table names the tables in it without going
into them. -/
structure Style where
  opening : String
  closing : String
  shallow : Bool

def bracketed (opening closing : String) (items : List String) : String :=
  opening ++ ", ".intercalate items ++ closing

def tupleText (items : List String) : String :=
  match items with
  | [x] => "(" ++ x ++ ",)"
  | xs => bracketed "(" ")" xs

def complexText (re im : Float) : String :=
  let part (x : Float) : String :=
    let t := Decimal.text x
    if t.endsWith ".0" then (t.dropEnd 2).toString else t
  let sign := if Decimal.isNegative im then "" else "+"
  if re == 0.0 && !Decimal.isNegative re then part im ++ "j"
  else "(" ++ part re ++ sign ++ part im ++ "j)"

def builtinNames : List String :=
  ["sqrt", "ceil", "floor", "pow", "sin", "cos", "abs", "asin", "max", "min", "atan2", "print"]

def nativeText (name : String) : String :=
  let short := ((name.splitOn ".").getLast?).getD name
  if name == "tostring" then "<class 'str'>"
  else if name == "string.upper" || name == "string.lower" || name == "string.format" then
    "<method '" ++ short ++ "' of 'str' objects>"
  else if name == "Vector3" || name == "Asset" then "<class 'lua_globals." ++ name ++ "'>"
  else if builtinNames.contains short then "<built-in function " ++ short ++ ">"
  else "<function " ++ name ++ " at 0x0>"

/-- The names from a named object up to its oldest ancestor, that one left out. -/
def phraseNames (s : Store) : Nat → Ref → List Value
  | 0, _ => []
  | n + 1, r =>
    match s.cell r with
    | .phrase name (some p) => name :: phraseNames s n p
    | _ => []

def stubNames (s : Store) : Nat → Ref → List Value
  | 0, _ => []
  | n + 1, r =>
    match s.cell r with
    | .stub _ name (some p) => stubNames s n p ++ [name]
    | .stub _ name none => [name]
    | _ => []

def nameText : Value → String
  | .str t => t
  | .nil => "None"
  | .bool b => if b then "True" else "False"
  | v => (v.num?.map Number.text).getD "?"

def stubText (s : Store) (r : Ref) : String :=
  ".".intercalate ((stubNames s (s.cells.size + 1) r).map nameText)

/-- The text of a value as data. `path` holds the objects that are being shown. -/
def reprIn (st : Style) (s : Store) : Nat → List Ref → Value → String
  | 0, _, _ => "..."
  | n + 1, path, v =>
    let inner (v : Value) : String := reprIn st s n path v
    let mapping (r : Ref) : String :=
      if path.contains r then "\x7b...\x7d"
      else bracketed "\x7b" "\x7d" ((s.table r).toList.map fun (k, v) =>
        reprIn st s n (r :: path) k ++ ": " ++ reprIn st s n (r :: path) v)
    match v with
    | .nil => "None"
    | .bool b => if b then "True" else "False"
    | .int m => Decimal.intText m
    | .float x => Decimal.text x
    | .complex re im => complexText re im
    | .str t => Text.quote t
    | .tuple xs => tupleText (xs.map inner)
    | .rest xs => bracketed "[" "]" (xs.map inner)
    | .spread _ => "<lua_types.LuaUnpack object at 0x0>"
    | .object .dict r => mapping r
    | .object .list r =>
      match s.cell r with
      | .list xs =>
        if path.contains r then "[...]"
        else bracketed "[" "]" (xs.map (reprIn st s n (r :: path)))
      | _ => "[]"
    | .object .vector _ => "<lua_globals.Vector3 object at 0x0>"
    | .object .asset _ => "<lua_globals.Asset object at 0x0>"
    | .object .phrase _ => "<lua_globals.DummyString object at 0x0>"
    | .object .stub r => stubText s r
    | .object _ r => st.opening ++ mapping r ++ st.closing
    | .func f => "<luaparser.astnodes." ++ f.kind ++ " object at 0x0>"
    | .tree t => "<luaparser.astnodes." ++ t.className ++ " object at 0x0>"
    | .lazy _ => "<recipes_parser.LazyMarkUp object at 0x0>"
    | .native m => nativeText m
    | .module _ => "<lua_core.lua_modules.ModuleWrapper object at 0x0>"
    | .method _ m => nativeText m
    | .view aspect _ r =>
      let t := s.table r
      match aspect with
      | .keys => "dict_keys(" ++ bracketed "[" "]" (t.keys.map inner) ++ ")"
      | .values => "dict_values(" ++ bracketed "[" "]" (t.values.map inner) ++ ")"
      | .items => "dict_items(" ++ bracketed "[" "]" (t.toList.map fun (k, v) =>
          tupleText [inner k, inner v]) ++ ")"

def repr (st : Style) (s : Store) (v : Value) : String := reprIn st s 200 [] v

/-- The text of a table that names the tables in it only by their kind. -/
def shallowText (st : Style) (s : Store) (r : Ref) : String :=
  let part (v : Value) : String := if v.isTable then "<LuaTable id=#>" else repr st s v
  bracketed "\x7b" "\x7d" ((s.table r).toList.map fun (k, v) => part k ++ ":" ++ part v)

/-- What a value contributes to a text, with a bound on the depth of vectors in vectors. A phrase
whose names are not all text has none. -/
def displayIn (st : Style) (s : Store) : Nat → Value → Result String
  | 0, _ => .error .tooDeep
  | n + 1, v =>
    match v with
    | .str t => .ok t
    | .object .vector r =>
      match s.cell r with
      | .vector x y z => do
        let parts ← [x, y, z].mapM (displayIn st s n)
        return bracketed "Vector3(" ")" parts
      | _ => .ok ""
    | .object .asset r =>
      match s.cell r with
      | .asset t f _ => do
        return "Asset:" ++ (← displayIn st s n t) ++ "|" ++ (← displayIn st s n f)
      | _ => .ok ""
    | .object .phrase r =>
      let names := phraseNames s (s.cells.size + 1) r
      if names.all Value.isText then .ok (".".intercalate (names.map nameText))
      else .error .kind
    | .object .table r | .object .dummy r | .object .entity r =>
      .ok (if st.shallow then shallowText st s r else repr st s v)
    | v => .ok (repr st s v)

def display (st : Style) (s : Store) (v : Value) : Result String := displayIn st s 100 v

end WikiFeed.Lua

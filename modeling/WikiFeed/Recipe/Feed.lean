import WikiFeed.Json.Reader
import WikiFeed.Phrasebook.Basic
import WikiFeed.Record.Visit
import WikiFeed.Site.Basic
import WikiFeed.Tabular.Tables

/-! # The table of recipes

The recipes of the game's script become the rows of a table, which replaces the table of the wiki
after its differences have been confirmed. -/

namespace WikiFeed.Recipe

open WikiFeed.Lua
open WikiFeed.Tabular (Sheet Row Trouble Outcome)

/-! ### The script -/

def scriptPath : String := "scripts/recipes.lua"

def scriptText (archive : Option Archive) : Result String :=
  match archive with
  | none => .error .missingFile
  | some a =>
    match a.member? scriptPath with
    | none => .error .key
    | some bytes =>
      match Text.decode? bytes with
      | some s => .ok s
      | none => .error .undecodable

def start : Record.Machine := { (default : Record.Machine) with purpose := .recipes }

def collect (source : String) : Result Record.Machine :=
  let body : Record.Eval Unit := do
    Record.bindAll Record.recipeLibrary
    Record.runSource source
  match body start with
  | .ok _ m => .ok m
  | .error (.fault .complete) m => .ok m
  | .error (.fault f) _ => .error f
  | .error .ret _ => .error .strayReturn

def scan (archive : Option Archive) : Result Record.Machine := do collect (← scriptText archive)

def countNote (m : Record.Machine) : String :=
  "成功解析 " ++ Decimal.intText m.recipes.length ++ " 个配方"

/-! ### Rows -/

def className : Value → String
  | .complex _ _ => "complex"
  | .object .table _ => "lua_core.lua_types.LuaTable"
  | .object .list _ => "list"
  | .object .dict _ => "dict"
  | .func f => "luaparser.astnodes." ++ f.kind
  | .tree t => "luaparser.astnodes." ++ t.className
  | .lazy _ => "recipes_parser.LazyMarkUp"
  | .native _ => "type"
  | .module _ => "lua_core.lua_modules.ModuleWrapper"
  | .method (.object _ _) _ => "method"
  | .method _ _ => "builtin_function_or_method"
  | _ => "object"

mutual

def datumOf : Value → Datum
  | .nil => .null
  | .bool b => .bool b
  | .int n => .int n
  | .float x => .float x
  | .str s => .str s
  | .tuple xs => .tuple (dataOf xs)
  | v => .other (className v)

def dataOf : List Value → List Datum
  | [] => []
  | v :: vs => datumOf v :: dataOf vs

end

def ingredientCells : Nat → List Record.Ingredient → Row
  | _, [] => []
  | i, g :: gs =>
    ("ingredient" ++ Decimal.intText i, datumOf g.prefabName) ::
      ("amount" ++ Decimal.intText i, datumOf g.amount) :: ingredientCells (i + 1) gs

def describedAs (s : Store) (r : Record.Recipe) (name : Value) : Value :=
  let setting (key : String) : Value := ((r.config.getD []).lookup key).getD .nil
  if Record.isSomething s (setting "description") then setting "description"
  else if Record.isSomething s (setting "product") then setting "product"
  else name

def descriptionOf (book : Phrasebook) : Value → Result String
  | .str t => .ok (((book.lookup ("STRINGS.RECIPE_DESC." ++ Text.upper t)).map (·.text)).getD "")
  | .object .table _ => .error .kind
  | _ => .error .member

def cellsOf (s : Store) (book : Phrasebook) (name : Value) (r : Record.Recipe) : Result Row := do
  let own : Row := ("recipe_name", datumOf name) :: ingredientCells 1 r.ingredients ++
    [("tech", .str r.tech)]
  let known := Tabular.recipeTable.columns.map (·.key)
  let settings : Row := ((r.config.getD []).filter fun p => known.contains p.1).map fun p =>
    (p.1, datumOf p.2)
  let text ← descriptionOf book (describedAs s r name)
  if settings.any fun p => p.1 == "desc" || (own.lookup p.1).isSome then .error .kind
  else return own ++ settings ++ [("desc", .str text)]

def saveRows (s : Store) (book : Phrasebook) :
    Sheet → List (Value × Record.Recipe) → Sheet × Outcome Unit
  | t, [] => (t, .ok ())
  | t, (name, r) :: rest =>
    match cellsOf s book name r with
    | .error f => (t, .error (.fault f))
    | .ok cells =>
      match t.add cells with
      | .error e => (t, .error e)
      | .ok (t, i) =>
        match t.save i with
        | (t, .ok _) => saveRows s book t rest
        | failed => failed

def tableOfGame (archive : Option Archive) : Sheet × List String × Outcome Unit :=
  let empty := Sheet.ofSchema Tabular.recipeTable
  match archive, scan archive with
  | some a, .ok m =>
    let (book, notes) := Phrasebook.scan a false
    let (t, r) := saveRows m.store book empty m.recipes
    (t, countNote m :: notes, r)
  | _, .error f => (empty, [], .error (.fault f))
  | none, .ok _ => (empty, [], .error (.fault .missingFile))

/-! ### The wiki -/

def pageTitle : String := "Data:DSTRecipes.tabx"

def previousRows (text : String) : Result Datum :=
  match (Json.read? text).map Datum.ofJson with
  | none => .error .notJson
  | some (.dict entries) =>
    match Datum.lookup entries (.str "data") with
    | some d => .ok d
    | none => .error .key
  | some _ => .error .kind

def report (d : Tabular.Difference) : String :=
  let line (what : String) (entries : List (Datum × Datum)) : String :=
    what ++ Decimal.intText entries.length ++ "个配方\n"
  line "新添加了" d.added ++ line "删除了" d.removed ++ line "修改了" d.changed ++
    "是否确认更新? (y/n)"

/-- What an update comes to: the new rows, and either the trouble that stopped it or the new text of
the page, if it is confirmed, with all that is printed. -/
structure Update where
  sheet : Sheet
  outcome : Outcome (Option String × String)

def update (archive : Option Archive) (site : Site) (version : Option String) (answer : String) :
    Update :=
  let (t, notes, saved) := tableOfGame archive
  let rest : Result (Option String × String) := do
    let old ← previousRows (site.text pageTitle)
    let d ← Tabular.difference old t.toList
    let out := String.join (notes.map (· ++ "\n")) ++ report d
    if Text.strip answer == "y" then
      return (some (Json.text (.indented 2) (← (t.document version).toJson)), out)
    else return (none, out)
  ⟨t, do
    saved
    match rest with
    | .ok r => .ok r
    | .error f => .error (.fault f)⟩

end WikiFeed.Recipe

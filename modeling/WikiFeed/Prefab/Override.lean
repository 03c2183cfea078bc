import WikiFeed.Json.Basic
import WikiFeed.Prefab.Visit

/-! # Display names of prefabs

A scan runs the basic scripts and then every prefab script of the game, and collects the instances
that prefabs make. Instances that are shown under the name of another prefab go to a page of the
wiki, between the brackets of a long text in it. -/

namespace WikiFeed.Prefab

open WikiFeed.Lua

/-! ### Scanning -/

def muted {α : Type} (body : Eval α) : Eval α := do
  let out := (← get).out
  ensuring body fun m => { m with out := out }

def scriptText (path : String) : Eval String := do
  match (← get).scripts.bind (·.member? path) with
  | none => fail .missingFile
  | some bytes =>
    match Text.decode? bytes with
    | some s => return Text.withPlainFeeds s
    | none => fail .undecodable

def runFile (path : String) (d : Dialect) (known : Table) : Eval Unit := do
  let source ← scriptText ("scripts/" ++ path ++ ".lua")
  let v ← muted do
    let block ← load source
    start d true
    bindAll known
    visit (.chunk block)
  modify fun m => { m with modules := m.modules.put (.str path) v }

def namesHere : Eval Table := do
  return ((← get).scopes.getD (← here) default).vars

def addNames (t new : Table) : Table := new.toList.foldl (fun t p => t.put p.1 p.2) t

def runBasics : Table → List (String × Dialect) → Eval Table
  | known, [] => return known
  | known, (path, d) :: rest => do
    runFile path d known
    runBasics (addNames known (← namesHere)) rest

def scanOne (path : String) : Eval Bool :=
  tryCatch (do
      let source ← scriptText path
      let _ ← muted (runSource source)
      return false) fun _ => return true

def scanAll (skip : String → Bool) : List String → Eval (List String)
  | [] => return []
  | path :: rest => do
    let name := Archive.baseName path
    if skip name then
      printLine ("skipping " ++ name)
      scanAll skip rest
    else
      printLine ("visiting " ++ name)
      if ← scanOne path then
        printLine ("Failed to parse " ++ name)
        return name :: (← scanAll skip rest)
      else scanAll skip rest

def scanPrefabs (skip : String → Bool) (known : Table) : Eval Unit := do
  newEvaluator .prefabs
  bindAll known
  match (← get).scripts with
  | none => fail .missingFile
  | some archive =>
    let failed ← scanAll skip (archive.children "scripts/prefabs/")
    if !failed.isEmpty then
      printLine ("\n--- Failed to parse (" ++ Decimal.intText failed.length ++ ") ---")
      failed.forM fun name => printLine ("  " ++ name)

def basicScripts : List (String × Dialect) :=
  [("class", .plain), ("constants", .constants), ("simutil", .plain), ("vecutil", .plain),
   ("prefabutil", .plain), ("tuning", .constants)]

def characters : List String :=
  ["wilson", "willow", "wolfgang", "wendy", "wx78", "wickerbottom", "woodie", "wes", "waxwell",
   "wathgrithr", "webber", "winona", "warly", "wortox", "wormwood", "wurt", "walter", "wanda",
   "wonkey"]

def skippedPrefabs : List String :=
  ["skinprefabs", "cave", "world", "forest", "frontend", "balloonparty", "meteorwarning",
   "minimap", "carnival_food", "waxed_plants", "snowman", "treasurechest", "nightmarecreature",
   "shadowcreature", "container_classified", "walter", "tentacle_pillar", "nightmarerock",
   "woby_rack", "ugc_swap_fx"]

def stem (name : String) : String :=
  match name.splitOn "." with
  | [s] => s
  | parts => ".".intercalate parts.dropLast

def isSkipped (name : String) : Bool :=
  !name.endsWith ".lua" || skippedPrefabs.contains (stem name) || characters.contains (stem name) ||
    name.startsWith "quagmire" || name.startsWith "lava" && !name.startsWith "lavae"

def scanGame : Eval Unit := do
  let known ← runBasics (← get).library basicScripts
  scanPrefabs isSkipped known

/-! ### The overrides -/

def keyText : Value → Result String
  | .str s => .ok s
  | .nil => .ok "null"
  | .bool b => .ok (if b then "true" else "false")
  | .int n => .ok (Decimal.intText n)
  | .float x => .ok (Json.floatText x)
  | _ => .error .kind

def jsonUpTo (s : Store) : Nat → Value → Result Json
  | 0, _ => .error .value
  | n + 1, v =>
    match v with
    | .nil => .ok .null
    | .bool b => .ok (.bool b)
    | .int k => .ok (.int k)
    | .float x => .ok (.float x)
    | .str t => .ok (.str t)
    | .tuple xs | .rest xs => do return .arr (← xs.mapM (jsonUpTo s n))
    | .object .list r =>
      match s.cell r with
      | .list xs => do return .arr (← xs.mapM (jsonUpTo s n))
      | _ => .error .kind
    | .object .dict r => do
      return .obj (← (s.table r).toList.mapM fun (k, v) => do
        return (← keyText k, ← jsonUpTo s n v))
    | _ => .error .kind

def overrideOf (s : Store) (inst : Value) : Value :=
  match inst with
  | .object .entity r =>
    match s.cell r with
    | .entity _ _ o _ => o
    | _ => .nil
  | _ => .nil

def comparable (v w : Value) : Bool :=
  match compareWith .lt v w with
  | .ok _ => true
  | .error _ => false

def sortedPrefabs (t : Table) : Result (List (Value × Value)) :=
  match t.toList with
  | [] => .ok []
  | p :: ps =>
    if ps.all fun q => comparable p.1 q.1 then
      .ok ((p :: ps).mergeSort fun a b =>
        match compareWith .lt b.1 a.1 with
        | .ok after => !after
        | .error _ => true)
    else .error .kind

def overrides (s : Store) (prefabs : Table) : Result Json := do
  let sorted ← sortedPrefabs prefabs
  let named := sorted.filterMap fun (name, inst) =>
    let o := overrideOf s inst
    if isSomething s o then some (name, o) else none
  return .obj (← named.mapM fun (name, o) => do return (← keyText name, ← jsonUpTo s 900 o))

def overridesText : Eval String := do
  let m ← get
  return (← lift (overrides m.store m.prefabs)).text (.indented 4)

def dumpOverrides : Eval String := do
  let text ← overridesText
  printLine "Dumped prefab overrides to prefab_name_overrides.json"
  return text

/-! ### The page -/

def overridesPage : String := "模块:ItemTable/PrefabOverrides"

/-- A page while its data is replaced: whether the line that opens a long text has been found, then
the one that closes it, and the new text so far. -/
structure Splicing where
  opened : Bool
  closed : Bool
  text : String

/-- The data follows the first line that opens a long text, and the lines up to the next one that
closes a long text are left out. -/
def Splicing.next (data : String) (s : Splicing) (line : String) : Splicing :=
  let kept := s.text ++ (line ++ "\n")
  if !s.opened then
    if Text.occurs "[[" line then { s with opened := true, text := kept ++ (data ++ "\n") }
    else { s with text := kept }
  else if !s.closed then
    if Text.occurs "]]" line then { s with closed := true, text := kept } else s
  else { s with text := kept }

def updatedPage (page data : String) : String :=
  ((Text.lines page).foldl (Splicing.next data) ⟨false, false, ""⟩).text

def updateOverrides (page : String) : Eval String := do
  scanGame
  return updatedPage page (← overridesText)

end WikiFeed.Prefab

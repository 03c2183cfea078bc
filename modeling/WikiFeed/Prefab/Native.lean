import WikiFeed.Lua.Mathematics
import WikiFeed.Lua.Methods
import WikiFeed.Prefab.Copy
import WikiFeed.Text.Pattern

/-! # Library functions of the prefab evaluator

Each library function has a name, a range for the number of its arguments and a rule. Functions
that work with the evaluator get it as a receiver: they call functions, evaluate values and run
required files through `Host`. -/

namespace WikiFeed.Prefab

open WikiFeed.Lua

structure Host where
  /-- evaluates a value once more -/
  visit : Value → Eval Value
  /-- runs a chunk -/
  run : Block → Eval Value
  /-- calls a function -/
  call : Value → List Value → Eval Value

def needsEvaluator : List String := ["require", "setmetatable", "assert", "Prefab"]

/-- The name of functions that do nothing and whose arguments are not looked at. -/
def ignoredName : String := "ignored"

def arity : String → Nat × Option Nat
  | "math.sqrt" | "math.ceil" | "math.floor" | "math.sin" | "math.cos" | "math.abs"
  | "math.asin" => (1, some 1)
  | "math.pow" | "math.atan2" => (2, some 2)
  | "math.random" => (0, some 2)
  | "math.max" | "math.min" => (1, none)
  | "math.clamp" => (3, some 3)
  | "table.insert" => (2, some 3)
  | "table.unpack" => (1, some 3)
  | "table.concat" => (1, some 4)
  | "table.contains" => (2, some 2)
  | "table.remove" => (1, some 2)
  | "string.len" | "string.upper" | "string.lower" => (1, some 1)
  | "string.find" => (2, some 4)
  | "string.gsub" => (3, some 4)
  | "string.char" => (0, none)
  | "string.format" => (1, none)
  | "string.sub" => (2, some 3)
  | "string.match" => (2, some 2)
  | "require" => (1, some 1)
  | "setmetatable" => (2, some 2)
  | "assert" => (1, some 2)
  | "Prefab" => (2, some 5)
  | "type" | "next" | "deepcopy" | "SpawnPrefab" | "GetMaxItemSlots" | "GetTickTime"
  | "IsDedicated" | "GetIsClient" | "GetServerGameMode" | "GetDownVec"
  | "SetLunarHailBuildupAmountSmall" | "MakeCollidesWithElectricField" | "PRNG_Uniform"
  | "GetCurrentAnimationNumFrames" => (1, some 1)
  | "tostring" => (0, some 1)
  | "SetSharedLootTable" | "HasTag" | "SetPrefabNameOverride" => (2, some 2)
  | "AtlasContains" => (3, some 3)
  | "Asset" => (1, some 3)
  | "PushEvent" => (1, none)
  | "AddTag" | "AddComponent" => (2, none)
  | "IsSteamDeck" | "IsConsole" | "IsNotConsole" | "IsLinux" | "IsPS4" | "GetGhostEnabled"
  | "GetTextScale" | "GetTime" => (0, some 0)
  | _ => (0, none)

/-! ### Mathematics -/

def extreme (op : BinOp) : Value → List Value → Eval Value
  | best, [] => return best
  | best, v :: r => do extreme op (if ← lift (compareWith op v best) then v else best) r

def extremeOf (op : BinOp) (args : List Value) : Eval Value := do
  let xs ← match args with
    | [v] => items v
    | vs => pure vs
  match xs with
  | [] => fail .value
  | v :: r => extreme op v r

def clamp (num low high : Value) : Eval Value := do
  let s := (← get).store
  let atLow ← lift (compareWith .le num low)
  if atLow && isSomething s low then return low
  let atHigh ← lift (compareWith .ge num high)
  if atHigh && isSomething s high then return high
  return num

/-- A number that stands in for chance: the middle of the unit interval, or the lower bound. -/
def chance : List Value → Eval Value
  | [] | [.nil] | [.nil, .nil] => return .int 0
  | [a] | [a, .nil] => do lift (arithmetic (← get).store .mul a (.float 0.5))
  | a :: b :: _ => do
    match a.asInt?, b.asInt? with
    | some m, some n => if n < m then fail .value else return .int m
    | _, _ => fail .kind

/-! ### Tables -/

def insertFrom (r : Ref) (v : Value) : Nat → Value → Eval Unit
  | 0, _ => fail .tooDeep
  | n + 1, k => do
    if !k.isKey then fail .kind
    if (← tableOf r).contains k then
      insertFrom r v n (← lift (arithmetic (← get).store .add k (.int 1)))
    else modifyTable r (·.put k v)

/-- Puts a value into a table, at the first free key from a position on. -/
def tableInsert (t : Value) (position v : Value) : Eval Value := do
  match t with
  | .object _ r =>
    if !t.isTable then fail (.check "table.insert only call on a luatable")
    let (k, v) := if v.isNil then (.int 1, position)
      else (if position.isNil then .int 1 else position, v)
    insertFrom r v ((← tableOf r).size + 2) k
    return .nil
  | _ => fail (.check "table.insert only call on a luatable")

/-- The values at the keys from `k` on while they are there, ending behind the bound. -/
def collectFrom (r : Ref) (bound : Value) : Nat → Value → Eval (List Value)
  | 0, _ => return []
  | n + 1, k => do
    if !k.isKey then fail .kind
    match (← tableOf r).get? k with
    | none => return []
    | some v =>
      let s := (← get).store
      let past ← if isSomething s bound then lift (compareWith .gt k bound) else pure false
      if past then return [v]
      return v :: (← collectFrom r bound n (← lift (arithmetic s .add k (.int 1))))

def tableUnpack (t first bound : Value) : Eval Value := do
  match t with
  | .nil => return .nil
  | .object _ r =>
    if !t.isTable then fail .member
    let k := if isSomething (← get).store first then first else .int 1
    return .spread (← collectFrom r bound ((← tableOf r).size + 1) k)
  | _ => fail .member

def textsFrom (t last : Value) : Nat → Value → Eval (List String)
  | 0, _ => fail .tooDeep
  | n + 1, k => do
    if ← lift (compareWith .le k last) then
      let text ← displayed (← member t k)
      return text :: (← textsFrom t last n (← lift (arithmetic (← get).store .add k (.int 1))))
    return []

def tableConcat (t separator before last : Value) : Eval Value := do
  let first ← lift (arithmetic (← get).store .add before (.int 1))
  let last ← if last.isNil then lengthOf t else pure last
  let texts ← textsFrom t last 1000000 first
  match separator with
  | .str sep => return .str (sep.intercalate texts)
  | _ => fail .member

def shiftDown (r : Ref) (last : Int) : Nat → Value → Eval Unit
  | 0, _ => return
  | n + 1, k => do
    if ← lift (compareWith .lt k (.int last)) then
      let next ← lift (arithmetic (← get).store .add k (.int 1))
      if !next.isKey then fail .kind
      match (← tableOf r).get? next with
      | none => fail .key
      | some v =>
        modifyTable r (·.put k v)
        shiftDown r last n next

/-- Takes the last value of a sequence away, or moves the values behind a position down. -/
def tableRemove (t position : Value) : Eval Value := do
  match t with
  | .object _ r =>
    if !t.isTable then fail .member
    let table ← tableOf r
    let last := table.border
    if position.isNil then
      if table.contains (.int last) then modifyTable r (·.erase (.int last)) else fail .key
    else if last != 0 then shiftDown r last (table.size + 2) position
    else fail (.other "no number idx in LuaTable while remove")
    return .nil
  | _ => fail .member

def tableContains (t v : Value) : Eval Value := do
  match t with
  | .object _ r => if t.isTable then return .bool (isAmong v (← tableOf r).values) else fail .member
  | _ => fail .member

/-! ### Texts -/

def sliceValue (v : Value) (start : Int) (stop : Option Int) : Eval Value := do
  match v with
  | .str t => return .str (String.ofList (between t.toList start stop))
  | .tuple xs => return .tuple (between xs start stop)
  | .object .table _ => return .nil
  | .object .list r =>
    match (← get).store.cell r with
    | .list xs => alloc (.list (between xs start stop))
    | _ => fail .kind
  | _ => fail .kind

def stringFind (s pattern first : Value) : Eval Value := do
  match first.asInt? with
  | none => fail .kind
  | some i =>
    match ← sliceValue s (i - 1) none, pattern with
    | .str t, .str p =>
      let start : Int := match Text.find? p.toList t.toList with
        | some k => k + 1
        | none => 0
      return .tuple [.int (start + i - 1), .int (start + p.length + i - 1)]
    | .str _, _ => fail .kind
    | _, _ => fail .member

def stringGsub (s pattern new limit : Value) : Eval Value := do
  match s with
  | .str t =>
    match pattern, new, (if limit.isNil then some (-1) else limit.asInt?) with
    | .str p, .str q, some n =>
      let cs := t.toList
      let k := if n < 0 then cs.length + 1 else n.toNat
      return .str (String.ofList (Text.replaceUpTo k p.toList q.toList cs))
    | _, _, _ => fail .kind
  | _ => fail .member

def stringChar : List Value → Eval String
  | [] => return ""
  | v :: r => do
    match v.asInt? with
    | none => fail .kind
    | some n =>
      if n < 0 || 0x110000 ≤ n then fail .value
      return String.singleton (Char.ofNat n.toNat) ++ (← stringChar r)

def stringSub (s first last : Value) : Eval Value := do
  let shifted (v : Value) (op : BinOp) : Eval Value := do
    if ← lift (compareWith op v (.int 0)) then
      lift (arithmetic (← get).store .sub v (.int 1))
    else pure v
  let a ← shifted first .ge
  let b ← if last.isNil then pure .nil else shifted last .gt
  match a.asInt?, b with
  | none, _ => fail .kind
  | some i, .nil => sliceValue s i none
  | some i, b =>
    match b.asInt? with
    | some j => sliceValue s i (some j)
    | none => fail .kind

def stringMatch (s pattern : Value) : Eval Value := do
  match pattern with
  | .str p =>
    match Text.readPattern? p with
    | none => fail .pattern
    | some (p, groups) =>
      match s with
      | .str t =>
        let cs := t.toList
        match p.search? cs with
        | none => return .nil
        | some f =>
          if groups = 0 then fail .position
          match f.group? cs 1 with
          | some g => return .str (String.ofList g)
          | none => return .nil
      | _ => fail .kind
  | _ => fail .kind

def cased (f : String → String) : Value → Eval Value
  | .str t => return .str (f t)
  | _ => fail .kind

/-! ### Basic functions -/

def typeName (v : Value) : Eval Value := do
  match v with
  | .nil => return .str "nil"
  | .bool _ | .int _ | .float _ => return .str "number"
  | .str _ => return .str "string"
  | .func _ => return .str "function"
  | v =>
    if v.isTable then return .str "table"
    fail (.other ("unknown type " ++ (← displayed v)))

/-- The library functions that are not written in the language of the library. -/
def isPrimitive (name : String) : Bool :=
  ["math.sqrt", "math.ceil", "math.floor", "math.pow", "math.sin", "math.cos", "math.abs",
   "math.asin", "math.max", "math.min", "math.atan2", "print", "GetTime", "string.upper",
   "string.lower", "string.format"].contains name

def takesMembers : Value → Bool
  | .nil | .bool _ | .int _ | .float _ | .complex _ _ | .str _ | .tuple _ => false
  | .object .dict _ | .object .list _ => false
  | .native n => !isPrimitive n && n != "tostring"
  | _ => true

def assertion (h : Host) (condition : Value) (message : Value) : Eval Value := do
  let v ← h.visit condition
  if !isSomething (← get).store v then
    let text ← displayed (← h.visit message)
    printLine ("Lua Assert: " ++ text)
  return .nil

def passedOver (path : String) : Bool :=
  ["stategraphs/", "screens/", "widgets/"].any (fun p => path.startsWith p) || path == "strings"

def modulePath (name : String) : String :=
  if name.startsWith "/" then name ++ ".lua" else "scripts/" ++ name ++ ".lua"

def load (source : String) : Eval Block := do
  match readChunk (← get).labels source with
  | .error e => fail (.unreadable e)
  | .ok (b, labels) =>
    modify fun m => { m with labels := labels }
    return b

def require (h : Host) (name : Value) : Eval Value := do
  if !name.isKey then fail .kind
  let m ← get
  match m.modules.get? name with
  | some v => return v
  | none =>
    match name with
    | .str path =>
      if passedOver path then return .nil
      match m.scripts with
      | none => fail .missingFile
      | some archive =>
        match archive.member? (modulePath path) with
        | none => fail (.other ("require path " ++ path ++ " not exists"))
        | some bytes =>
          let block ← load (Text.withPlainFeeds (Text.decodeLossy bytes))
          let v ← h.run block
          modify fun m => { m with modules := m.modules.put name v }
          return v
    | _ => fail .member

def registerPrefab (h : Host) (name make : Value) : Eval Value := do
  let inst ← h.call make []
  if inst.isNil then
    printLine ("Prefab:" ++ (← displayed name) ++ " resolve to None")
    return .nil
  if !name.isKey then fail .kind
  modify fun m => { m with prefabs := m.prefabs.put name inst }
  return inst

/-! ### Entities and the world -/

def newEntity : Eval Value := do
  let components ← newDummy
  let entity ← newDummy
  let anim ← alloc (.dummy (.ofFields
    [("GetCurrentAnimationNumFrames", .native "GetCurrentAnimationNumFrames")]) none)
  alloc (.entity (.ofFields
    [("components", components), ("entity", entity), ("AnimState", anim),
     ("AddTag", .native "AddTag"), ("SetPrefabNameOverride", .native "SetPrefabNameOverride"),
     ("AddComponent", .native "AddComponent")]) [] .nil none)

def addTag (self tag : Value) : Eval Value := do
  match self with
  | .object .entity r =>
    if !tag.isKey then fail .kind
    modifyStore (·.update r fun c => match c with
      | .entity t tags o a => .entity t (if tags.any tag.sameKey then tags else tags ++ [tag]) o a
      | c => c)
    return .nil
  | _ => fail .member

def setOverride (self name : Value) : Eval Value := do
  match self with
  | .object .entity r =>
    modifyStore (·.update r fun c => match c with
      | .entity t tags _ a => .entity t tags name a
      | c => c)
    return .nil
  | v => if takesMembers v then return .nil else fail .member

def addComponent (self name : Value) : Eval Value := do
  let d ← newDummy
  setMember (← member self (.str "components")) name d
  return d

def gameMode : Eval Value := do
  let recipes ← alloc (.dict .empty)
  alloc (.dict (.ofFields
    [("modded_mode", .bool true), ("text", .str "game_mode_text"), ("description", .str ""),
     ("level_type", .str "survival"), ("mod_game_mode", .bool true), ("spawn_mode", .str "fixed"),
     ("resource_renewal", .bool false), ("ghost_sanity_drain", .bool false),
     ("ghost_enabled", .bool true), ("portal_rez", .bool true), ("reset_time", .bool true),
     ("invalid_recipes", recipes)]))

def sequence (vs : List Value) : Eval Value :=
  alloc (.table (vs.foldl (fun t v => t.put (.int (t.border + 1)) v) .empty))

def arg (args : List Value) (i : Nat) : Value := args.getD i .nil

/-- What the functions that only ask about the world answer; functions without an effect answer
nil. -/
def fixedAnswer : String → Value
  | "IsSteamDeck" | "IsConsole" | "GetGhostEnabled" | "HasTag" | "AtlasContains" | "IsDedicated" =>
    .bool true
  | "IsNotConsole" | "IsLinux" | "IsPS4" | "GetIsClient" => .bool false
  | "GetTickTime" => .float 0.03333
  | "GetTime" => .float 0.0
  | "GetTextScale" => .int 1
  | "GetMaxItemSlots" => .int 15
  | "GetCurrentAnimationNumFrames" => .int 30
  | _ => .nil

def plainRule (name : String) (args : List Value) : Eval Value := do
  let a := arg args
  let s := (← get).store
  match name with
  | "math.sqrt" => lift (mathCall "sqrt" args)
  | "math.sin" => lift (mathCall "sin" args)
  | "math.cos" => lift (mathCall "cos" args)
  | "math.asin" => lift (mathCall "asin" args)
  | "math.ceil" => lift (mathCall "ceil" args)
  | "math.floor" => lift (mathCall "floor" args)
  | "math.pow" => lift (mathCall "pow" args)
  | "math.atan2" => lift (mathCall "atan2" args)
  | "math.abs" => lift (absolute (a 0))
  | "math.max" => extremeOf .gt args
  | "math.min" => extremeOf .lt args
  | "math.clamp" => clamp (a 0) (a 1) (a 2)
  | "math.random" => chance args
  | "table.insert" => tableInsert (a 0) (a 1) (a 2)
  | "table.unpack" => tableUnpack (a 0) (a 1) (a 2)
  | "table.concat" =>
    tableConcat (a 0) (args.getD 1 (.str "")) (args.getD 2 (.int 0)) (a 3)
  | "table.contains" => tableContains (a 0) (a 1)
  | "table.remove" => tableRemove (a 0) (a 1)
  | "string.len" => lengthOf (a 0)
  | "string.find" => stringFind (a 0) (a 1) (args.getD 2 (.int 1))
  | "string.gsub" => stringGsub (a 0) (a 1) (a 2) (a 3)
  | "string.char" => do return .str (← stringChar args)
  | "string.upper" => cased Text.upper (a 0)
  | "string.lower" => cased Text.lower (a 0)
  | "string.format" =>
    match a 0 with
    | .str t => do return .str (← lift (fillTemplate style s t args.tail))
    | _ => fail .kind
  | "string.sub" => stringSub (a 0) (a 1) (a 2)
  | "string.match" => stringMatch (a 0) (a 1)
  | "setmetatable" => if takesMembers (a 0) then return .nil else fail .member
  | "type" => typeName (a 0)
  | "print" => do
    printLine (" ".intercalate (← args.mapM displayed))
    return .nil
  | "tostring" => if args.isEmpty then return .str "" else return .str (← displayed (a 0))
  | "next" =>
    match a 0 with
    | .object _ r => return if (a 0).isTable then ((s.table r).values.head?).getD .nil else .nil
    | _ => return .nil
  | "SetSharedLootTable" => do
    setEntry (← get).loot (a 0) (a 1)
    return .nil
  | "Vector3" =>
    alloc (.vector (args.getD 0 (.int 0)) (args.getD 1 (.int 0)) (args.getD 2 (.int 0)))
  | "Asset" => alloc (.asset (a 0) (a 1) (a 2))
  | "CreateEntity" | "SpawnPrefab" => newEntity
  | "event_server_data" | "PRNG_Uniform" => newDummy
  | "GetServerGameMode" => gameMode
  | "GetDownVec" => alloc (.vector (.int 0) (.int 0) (.int 0))
  | "AddTag" => addTag (a 0) (a 1)
  | "SetPrefabNameOverride" => setOverride (a 0) (a 1)
  | "AddComponent" => addComponent (a 0) (a 1)
  | name => return fixedAnswer name

def applyRule (h : Host) (name : String) (args : List Value) : Eval Value :=
  match name with
  | "require" => require h (arg args 0)
  | "assert" => assertion h (arg args 0) (args.getD 1 (.str "no assert msg"))
  | "Prefab" => registerPrefab h (arg args 0) (arg args 1)
  | "deepcopy" => deepCopy (arg args 0)
  | name => plainRule name args

/-- A value in the place of the evaluator, which has none of its functions. -/
def Host.missing : Host := ⟨fun _ => fail .member, fun _ => fail .member, fun _ _ => fail .member⟩

/-- Applies a library function. One that is passed the evaluator and gets another receiver in its
place can only do what does not need the evaluator. -/
def applyNative (h : Host) (name : String) (received : Bool) (args : List Value) : Eval Value := do
  let receiver := needsEvaluator.contains name && !received
  if receiver && args.isEmpty then fail .kind
  let args := if receiver then args.tail else args
  let (least, most) := arity name
  if args.length < least || most.any (· < args.length) then fail .kind
  applyRule (if receiver then .missing else h) name args

/-- Calls a value that the evaluator does not run itself: a library function, or a table, which
answers with its constructor. -/
def applyValue (h : Host) (f : Value) (received : Bool) (args : List Value) : Eval Value := do
  match f with
  | .native n => applyNative h n received args
  | .method (.object .vector r) _ =>
    if args.length != 1 then fail .kind
    match (← get).store.cell r with
    | .vector x y z => sequence [x, y, z]
    | _ => return .nil
  | .object .table r => return (← tableOf r).get (.str "_ctor")
  | .object _ r =>
    match (← get).store.cell r with
    | .dummy _ (some v) | .entity _ _ _ (some v) => return v
    | _ => newDummy
  | _ => fail .kind

def isCallable : Value → Bool
  | .native _ | .method _ _ => true
  | v => v.isTable

def ignoresArguments : Value → Bool
  | .native n => n == ignoredName
  | v => v.isDummy

end WikiFeed.Prefab

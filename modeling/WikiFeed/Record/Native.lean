import WikiFeed.Record.Object

/-! # Library functions of the record evaluator -/

namespace WikiFeed.Record

open WikiFeed.Lua

def insertFrom (r : Ref) (v : Value) : Nat → Value → Eval Unit
  | 0, _ => fail .tooDeep
  | n + 1, k => do
    if !k.isKey then fail .kind
    if (← tableOf r).contains k then
      insertFrom r v n (← lift (addValues (← get).store k (.int 1)))
    else modifyTable r (·.put k v)

def tableInsert (t v position : Value) : Eval Value := do
  match t with
  | .object .table r =>
    let k := if isSomething (← get).store position then position else .int 1
    insertFrom r v ((← tableOf r).size + 2) k
    return .nil
  | _ => fail (.check "table.insert only call on a Luatable")

def tableContains (t v : Value) : Eval Value := do
  match t with
  | .object .table r => return .bool ((← tableOf r).values.any fun w => w.plainEq v)
  | _ => fail (.check "table.contains only call on a Luatable")

def entriesOf (v : Value) : Eval (List (Value × Value)) := do
  match v with
  | .object .table r | .object .dict r => return ((← get).store.table r).toList
  | v => (← items v).mapM fun p => do
      match ← items p with
      | [k, w] => if k.isKey then return (k, w) else fail .kind
      | _ => fail .value

def newTable (args : List Value) (named : List (Value × Value)) : Eval Value := do
  let entries ← match args with
    | [] => pure []
    | [v] => entriesOf v
    | _ => fail .kind
  alloc (.table (.ofList (entries ++ named)))

def eraseMember (r : Ref) (k : Value) : Eval Unit := do
  if !k.isKey then fail .kind
  if (← tableOf r).contains k then modifyTable r (·.erase k) else fail .key

def setStubMember (r : Ref) (k v : Value) : Eval Unit :=
  modifyStore (·.update r fun c =>
    match c, k with
    | .stub t _ p, .str "name" => .stub t v p
    | .stub t n _, .str "parent" => .stub t n (match v with
      | .object .stub q => some q
      | _ => none)
    | .stub t n p, k => .stub (t.put k v) n p
    | c, _ => c)

def callTextMethod (name : String) (s : String) (args : List Value) : Eval Value := do
  let list (xs : List String) : Eval Value := alloc (.list (xs.map Value.str))
  match name with
  | "split" | "rsplit" => list (← lift (splitMethod s.toList args))
  | "splitlines" => list (Text.lines s)
  | _ =>
    let inner ← if name == "join" then
        match args with
        | [v] => items v
        | _ => pure []
      else pure []
    lift (textMethod style (← get).store name s args inner)

def lockText (number : Nat) : Eval Value := do
  match ← alloc (.stub .empty (.str "STRINGS") none) with
  | .object _ r =>
    match ← stubMember r (.str "SKILLTREE") with
    | .object _ q => stubMember q (.str ("ALLEGIANCE_LOCK_" ++ Decimal.intText number ++ "_DESC"))
    | v => return v
  | v => return v

def makeLock (number : Nat) (extra notRoot : Value) : Eval Value := do
  let text ← lockText number
  let root := !isSomething (← get).store notRoot
  let tags ← alloc (.table (.ofList [(.int 0, .str "allegiance"), (.int 1, .str "lock")]))
  let lock ← alloc (.table (.ofFields
    [("desc", text), ("root", .bool root), ("group", .str "allegiance"), ("tags", tags),
     ("lock_open", .bool true)]))
  if extra.isNil then return lock
  setMember lock (.str "pos") (← ownMember extra "pos")
  setMember lock (.str "connects") (← ownMember extra "connects")
  let group ← ownMember extra "group"
  if isSomething (← get).store group then setMember lock (.str "group") group
  return lock

def callSkillFunction (name : String) (args : List Value) : Eval Value := do
  let lock (number : Nat) : Eval Value :=
    if 2 < args.length then fail .kind else makeLock number (args.getD 0 .nil) (args.getD 1 .nil)
  match name with
  | "MakeFuelWeaverLock" => lock 2
  | "MakeNoShadowLock" => lock 5
  | "MakeCelestialChampionLock" => lock 3
  | "MakeNoLunarLock" => lock 4
  | _ => return .nil

def shortName (group name : String) : Option String :=
  if (group ++ ".").toList.isPrefixOf name.toList then
    some (String.ofList (name.toList.drop (group.length + 1)))
  else none

def callNative (name : String) (args : List Value) : Eval Value := do
  match shortName "math" name, shortName "string" name, shortName "SkillTreeFns" name with
  | some n, _, _ => lift (mathCall n args)
  | _, some n, _ =>
    match args with
    | .str s :: rest => callTextMethod n s rest
    | _ => fail .kind
  | _, _, some n => callSkillFunction n args
  | _, _, _ =>
    match name, args with
    | "pairs", [v] => pairsOf v
    | "require", [_] => return .nil
    | "table.insert", [t, v] => tableInsert t v .nil
    | "table.insert", [t, v, i] => tableInsert t v i
    | "table.contains", [t, v] => tableContains t v
    | _, _ => fail .kind

def callValue (f : Value) (args : List Value) : Eval Value := do
  match f with
  | .native n => callNative n args
  | .method (.str s) n => callTextMethod n s args
  | _ => fail .kind

def dataLibrary : List (String × Value) :=
  [("math", .module "math"), ("string", .module "string"), ("pairs", .native "pairs"),
   ("table", .module "table")]

def skillLibrary : List (String × Value) :=
  [("math", .module "math"), ("string", .module "string"), ("table", .module "table"),
   ("pairs", .native "pairs"), ("require", .native "require")]

def recipeLibrary : List (String × Value) := constantGroups.map fun g => (g.1, .native g.1)

def bindAll (names : List (String × Value)) : Eval Unit := do
  let m ← get
  let top := outermost m.scopes m.here
  modifyScopes fun ss => names.foldl (fun ss p => define ss top (.str p.1) p.2) ss

def skillStubs : List String := ["STRINGS", "SPELLTYPES", "UPGRADETYPES", "TUNING"]

def bindStubs (stubs : List (String × Value)) : Eval Unit :=
  bindAll (stubs ++ [("SkillTreeFns", .module "SkillTreeFns")])

def bindSkillNames : Eval Unit := do
  bindStubs (← skillStubs.mapM fun n => do return (n, ← alloc (.stub .empty (.str n) none)))

end WikiFeed.Record

import WikiFeed.Prefab.Native

/-! # The names that every script knows

Library functions, the state of the world, and placeholders for all that only matters while the
game runs. -/

namespace WikiFeed.Prefab

open WikiFeed.Lua

def tileNumbers : List (String × Int) :=
  [("INVALID", 65535), ("IMPASSABLE", 1), ("ROAD", 2), ("ROCKY", 3), ("DIRT", 4), ("SAVANNA", 5),
   ("GRASS", 6), ("FOREST", 7), ("MARSH", 8), ("WEB", 9), ("WOODFLOOR", 10), ("CARPET", 11),
   ("CHECKER", 12), ("CAVE", 13), ("FUNGUS", 14), ("SINKHOLE", 15), ("UNDERROCK", 16),
   ("MUD", 17), ("BRICK", 18), ("BRICK_GLOW", 19), ("TILES", 20), ("TILES_GLOW", 21),
   ("TRIM", 22), ("TRIM_GLOW", 23), ("FUNGUSRED", 24), ("FUNGUSGREEN", 25), ("DECIDUOUS", 30),
   ("DESERT_DIRT", 31), ("SCALE", 32), ("LAVAARENA_FLOOR", 33), ("LAVAARENA_TRIM", 34),
   ("QUAGMIRE_PEATFOREST", 35), ("QUAGMIRE_PARKFIELD", 36), ("QUAGMIRE_PARKSTONE", 37),
   ("QUAGMIRE_GATEWAY", 38), ("QUAGMIRE_SOIL", 39), ("QUAGMIRE_CITYSTONE", 41),
   ("PEBBLEBEACH", 42), ("METEOR", 43), ("SHELLBEACH", 44), ("ARCHIVE", 45), ("FUNGUSMOON", 46),
   ("FARMING_SOIL", 47), ("FUNGUSMOON_NOISE", 120), ("METEORMINE_NOISE", 121),
   ("METEORCOAST_NOISE", 122), ("DIRT_NOISE", 123), ("ABYSS_NOISE", 124), ("GROUND_NOISE", 125),
   ("CAVE_NOISE", 126), ("FUNGUS_NOISE", 127), ("UNDERGROUND", 128), ("WALL_ROCKY", 151),
   ("WALL_DIRT", 152), ("WALL_MARSH", 153), ("WALL_CAVE", 154), ("WALL_FUNGUS", 155),
   ("WALL_SINKHOLE", 156), ("WALL_MUD", 157), ("WALL_TOP", 158), ("WALL_WOOD", 159),
   ("WALL_HUNESTONE", 160), ("WALL_HUNESTONE_GLOW", 161), ("WALL_STONEEYE", 162),
   ("WALL_STONEEYE_GLOW", 163), ("FAKE_GROUND", 200), ("OCEAN_START", 201),
   ("OCEAN_COASTAL", 201), ("OCEAN_COASTAL_SHORE", 202), ("OCEAN_SWELL", 203),
   ("OCEAN_ROUGH", 204), ("OCEAN_BRINEPOOL", 205), ("OCEAN_BRINEPOOL_SHORE", 206),
   ("OCEAN_HAZARDOUS", 207), ("OCEAN_WATERLOG", 208), ("OCEAN_END", 247)]

def worldState : List (String × Value) :=
  [("season", .str "autumn"), ("isautumn", .bool true), ("iswinter", .bool false),
   ("isspring", .bool false), ("issummer", .bool false), ("israining", .bool false),
   ("remainingdaysinseason", .int 15), ("snowlevel", .int 0), ("iswet", .bool false),
   ("cycles", .int 5), ("issnowcovered", .bool false), ("issnowing", .bool false),
   ("time", .int 1), ("isday", .bool true), ("isdusk", .bool false), ("isnight", .bool false),
   ("iscaveday", .bool true), ("iscavenight", .bool false), ("isfullmoon", .bool false),
   ("isacidraining", .bool false), ("timeinphase", .float 0.2), ("temperature", .int 25),
   ("precipitationrate", .float 0.5), ("autumnlength", .int 20), ("winterlength", .int 15),
   ("sprintlength", .int 20), ("summerlength", .int 15), ("wetness", .int 0),
   ("phase", .str "day"), ("lunarhaillevel", .int 0)]

def functionsOf (group : String) (names : List String) : List (String × Value) :=
  names.map fun n => (n, .native (group ++ "." ++ n))

def functionsNamed (names : List String) : List (String × Value) :=
  names.map fun n => (n, .native n)

def mathFields : List (String × Value) :=
  [("pi", .float 3.141592653589793), ("huge", .float Decimal.infinity)] ++
  functionsOf "math"
    ["sqrt", "ceil", "floor", "pow", "sin", "cos", "abs", "asin", "random", "max", "min", "atan2",
     "clamp"]

def tableFields : List (String × Value) :=
  functionsOf "table" ["insert", "unpack", "concat", "contains", "remove"]

def stringFields : List (String × Value) :=
  functionsOf "string"
    ["len", "find", "gsub", "char", "upper", "lower", "format", "sub", "match"]

def plainFunctions : List String :=
  ["require", "type", "setmetatable", "assert", "print", "tostring", "next", "Prefab",
   "SetSharedLootTable", "Vector3", "Asset", "IsSteamDeck", "IsConsole", "IsNotConsole", "IsLinux",
   "IsPS4", "deepcopy", "CreateEntity", "event_server_data", "SpawnPrefab", "GetGhostEnabled",
   "GetMaxItemSlots", "GetTime", "SetLunarHailBuildupAmountSmall", "MakeCollidesWithElectricField",
   "PRNG_Uniform"]

def placeholderNames : List String :=
  ["EnvelopeManager", "CreateSphereEmitter", "EmitterManager", "ACTIONS", "GetGameModeProperty",
   "MakeInventoryPhysics", "MakeCharacterPhysics", "MakeInventoryFloatable", "net_float",
   "net_bool", "net_tinybyte", "net_smallbytearray", "Profile"]

def plainNames : List (String × Value) :=
  [("overrides", .nil), ("RADIANS", .float (180.0 / 3.14)),
   ("PLAYER_CAMERA_SEE_DISTANCE", .float 40.0), ("FRAMES", .float (1.0 / 30.0)),
   ("BRANCH", .str "staging"), ("PLATFORM", .str "WIN32_STEAM"),
   ("unpack", .native "table.unpack")]

def tableWith (fields : List (String × Value)) : Eval Value := alloc (.table (.ofFields fields))

def libraryTables : Eval (List (String × Value)) := do
  let state ← tableWith worldState
  let components ← newDummy
  let loot ← tableWith []
  match loot with
  | .object _ r => modify fun m => { m with loot := r }
  | _ => pure ()
  return [
    ("math", ← tableWith mathFields),
    ("table", ← tableWith tableFields),
    ("string", ← tableWith stringFields),
    ("WORLD_TILES", ← tableWith (tileNumbers.map fun p => (p.1, .int p.2))),
    ("LootTables", loot),
    ("STRINGS", ← alloc (.phrase (.str "STRINGS") none)),
    ("TheWorld", ← tableWith
      [("ismastersim", .bool false), ("state", state), ("HasTag", .native "HasTag"),
       ("components", components), ("PushEvent", .native "PushEvent")]),
    ("TheSim", ← tableWith (functionsNamed ["GetTickTime", "AtlasContains"])),
    ("TheNet", ← tableWith (functionsNamed ["IsDedicated", "GetIsClient", "GetServerGameMode"])),
    ("LOC", ← tableWith (functionsNamed ["GetTextScale"])),
    ("AllPlayers", ← tableWith []),
    ("AllRecipes", ← tableWith []),
    ("TheCamera", ← alloc (.dummy (.ofFields (functionsNamed ["GetDownVec"])) none))]

def loadLibrary : Eval Unit := do
  let tables ← libraryTables
  let placeholders ← placeholderNames.mapM fun n => do return (n, ← newDummy)
  modify fun m =>
    { m with
      library := .ofFields (plainNames ++ functionsNamed plainFunctions ++ tables ++ placeholders) }

def Dialect.ignoredFunctions : Dialect → List String
  | .constants => ["rawget"]
  | .prefabs =>
    ["AddDefaultRippleSymbols", "bit", "CreateBoxEmitter", "CreateDiscEmitter",
     "CreateCircleEmitter", "GetIdealUnsignedNetVarForCount", "IsRestrictedCharacter",
     "JoinArrays", "PRNG_Uniform", "MakeSmallBurnable", "MakeMediumBurnable", "MakePlacer",
     "MakeSmallPropagator", "MakeMediumPropagator", "MakeSnowCovered", "MakeObstaclePhysics",
     "MakeWaterObstaclePhysics", "MakeSmallObstaclePhysics", "MakeHeavyObstaclePhysics",
     "MakeGhostPhysics", "MakeGlobalTrackingIcons", "MakeProjectilePhysics",
     "MakeTinyFlyingCharacterPhysics", "MakeFlyingCharacterPhysics", "MakeGiantCharacterPhysics",
     "MakeFlyingGiantCharacterPhysics", "MakeTinyGhostPhysics", "MakePondPhysics",
     "MakeSmallHeavyObstaclePhysics", "MakeSnowCoveredPristine",
     "MakeSmallPerishableCreaturePristine", "MakeFeedableSmallLivestockPristine",
     "MakeDeployableFertilizerPristine", "net_smallbyte", "net_event", "net_entity", "net_byte",
     "net_shortint", "net_string", "net_hash", "net_ushortint", "net_uint",
     "RemovePhysicsColliders", "rawget", "setmetatable", "SeasonalSpawningChanges",
     "SetDesiredMaxTakeCountFunction", "TintByOceanTile"]
  | _ => []

def Dialect.ignoredNames : Dialect → List String
  | .constants => ["FE_MUSIC"]
  | .prefabs => ["brain", "LanguageTranslator", "deepcopy", "RiftConfirmScreen", "STRINGS"]
  | _ => []

def bindAll (t : Table) : Eval Unit := do
  let i := outermost (← get).scopes (← here)
  modifyScopes fun ss => t.toList.foldl (fun ss p => define ss i p.1 p.2) ss

def newEvaluator (d : Dialect) : Eval Unit := do
  let n := (← get).evaluators.size
  let scope ← newScope none (some n)
  modify fun m =>
    { m with
      evaluators := m.evaluators.push ⟨scope, [], none, d, d == .tuning⟩
      active := n }
  bindAll (.ofFields (d.ignoredFunctions.map fun f => (f, .native ignoredName)))

end WikiFeed.Prefab

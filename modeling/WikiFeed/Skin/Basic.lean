import WikiFeed.Places
import WikiFeed.Text.Search

/-! # Skins

What the files of the game say about skins is read line by line. A skin has an id; lines that stand
before any id belong to the skin without one. -/

namespace WikiFeed.Skin

abbrev Id := Option String

abbrev Table := List (Id × String)

namespace Table

def get? (t : Table) (id : Id) : Option String := t.lookup id

def put (t : Table) (id : Id) (text : String) : Table := Places.put t id text

def getD (t : Table) (id : Id) : String := (t.get? id).getD "n/a"

def filled? (t : Table) (id : Id) : Option String := (t.get? id).filter (· != "")

end Table

/-! ### Cutting lines -/

def between (start fromEnd : Nat) (line : List Char) : List Char :=
  (line.take (line.length - fromEnd)).drop start

def without (mark line : String) : List Char :=
  Text.trim (Text.replace mark.toList [] line.toList)

def cutEnd (mark line : String) (n : Nat) : String :=
  String.ofList ((without mark line).take ((without mark line).length - n))

def quotedWords : List Char → List String
  | [] => []
  | c :: r =>
    let word := r.takeWhile Text.isWord
    if c == '"' && !word.isEmpty && (r.drop word.length).head? == some '"' then
      String.ofList word :: quotedWords (r.drop (word.length + 1))
    else quotedWords r
termination_by cs => cs.length
decreasing_by all_goals simp_all; try omega

def wordBefore? (ending : String) (line : String) : Option String :=
  let cs := Text.trim line.toList
  let word := cs.takeWhile Text.isWord
  if !word.isEmpty && cs.drop word.length == ending.toList then some (String.ofList word) else none

/-! ### Names and phrases -/

def nameIn (line : List Char) : String × String :=
  let place := (Text.find? ['='] line).getD 0
  let id := if place == 0 then between 1 1 line else (line.take (place - 1)).drop 1
  (String.ofList (Text.trim id), String.ofList (Text.trim (between (place + 3) 3 line)))

def nameStep (state : Bool × Table) (line : String) : Bool × Table :=
  if Text.occurs "SKIN_NAMES" line then (true, state.2)
  else if Text.occurs "\x7d" line then (false, state.2)
  else if state.1 && Text.occurs "=" line then
    let (id, name) := nameIn line.toList
    (true, state.2.put (some id) name)
  else state

def names (lines : List String) : Table := (lines.foldl nameStep (false, [])).2

/-- Takes in a line of a catalog: a comment with a mark gives an id, and the next text belongs to
it. -/
def phraseStep (mark : String) (state : String × Table) (line : String) : String × Table :=
  if Text.occurs mark line then (String.ofList (without mark line), state.2)
  else if state.1 != "" && Text.occurs "msgstr \"" line then
    ("", state.2.put (some state.1) (cutEnd "msgstr \"" line 1))
  else state

def phrases (mark : String) (lines : List String) : Table :=
  (lines.foldl (phraseStep mark) ("", [])).2

def stripped (t : Table) : Table := t.map fun e => (e.1, Text.strip e.2)

/-! ### Facts -/

structure Facts where
  rarityNames : Table
  collectionNames : Table
  names : Table
  chineseNames : Table
  descriptions : Table
  kinds : Table
  bases : Table
  overrides : Table
  rarities : Table
  modifiers : Table
  collections : Table
  trades : Table
  extras : Table

def Facts.ofPhrases (nameLines catalog : List String) : Facts where
  rarityNames := phrases "#. STRINGS.UI.RARITY." catalog
  collectionNames := phrases "#. STRINGS.SKIN_TAG_CATEGORIES.COLLECTION." catalog
  names := Skin.names nameLines
  chineseNames := stripped (phrases "#. STRINGS.SKIN_NAMES." catalog)
  descriptions := stripped (phrases "#. STRINGS.SKIN_DESCRIPTIONS." catalog)
  kinds := []
  bases := []
  overrides := []
  rarities := []
  modifiers := []
  collections := []
  trades := []
  extras := []

def Facts.collect (f : Facts) (id : Id) (tags : List String) : Facts :=
  tags.foldl (fun f tag =>
    match f.collectionNames.filled? (some tag) with
    | some name => { f with collections := f.collections.put id name }
    | none => f) f

def Facts.line (f : Facts) (depth : String) (id : Id) (line : String) : Facts :=
  let mark (name : String) : String := depth ++ name ++ " = \""
  let has (name : String) : Bool := Text.occurs (mark name) line
  let value (name : String) : String := cutEnd (mark name) line 2
  if has "type" then { f with kinds := f.kinds.put id (value "type") }
  else if has "build_name_override" then
    { f with overrides := f.overrides.put id (value "build_name_override") }
  else if has "rarity" then
    { f with rarities := f.rarities.put id (f.rarityNames.getD (some (value "rarity"))) }
  else if has "rarity_modifier" then
    { f with modifiers := f.modifiers.put id (f.rarityNames.getD (some (value "rarity_modifier"))) }
  else if Text.occurs (depth ++ "skin_tags = \x7b ") line then
    f.collect id (quotedWords line.toList)
  else if Text.occurs "marketable = true," line then { f with trades := f.trades.put id "可交易" }
  else f

def skinStart? (line : String) : Option String :=
  (Text.find? "CreatePrefabSkin".toList line.toList).map fun place =>
    String.ofList (Text.trim (between (place + 18) 3 line.toList))

def Facts.thingLine (state : Facts × Id) (line : String) : Facts × Id :=
  let (f, id) := state
  let mark := "\tbase_prefab = \""
  match skinStart? line with
  | some id => (f, some id)
  | none =>
    if Text.occurs mark line then ({ f with bases := f.bases.put id (cutEnd mark line 2) }, id)
    else (f.line "\t" id line, id)

def Facts.things (f : Facts) (lines : List String) : Facts :=
  (lines.foldl Facts.thingLine (f, none)).1

/-- What a skin hands on to one that is granted with it: the collection if that one has none, and
the description if that one has the text for "not available". -/
def Facts.grant (id : Id) (f : Facts) (granted : String) : Facts :=
  let f := match f.collections.filled? id, f.collections.filled? (some granted) with
    | some c, none => { f with collections := f.collections.put (some granted) c }
    | _, _ => f
  match f.descriptions.filled? id, f.descriptions.get? (some granted) with
  | some d, some "n/a" => { f with descriptions := f.descriptions.put (some granted) d }
  | _, _ => f

def Facts.grantLine (state : Facts × Id) (line : String) : Facts × Id :=
  let (f, id) := state
  match skinStart? line with
  | some id => (f, some id)
  | none =>
    if Text.occurs "\tgranted_items = \x7b " line then
      ((quotedWords line.toList).foldl (Facts.grant id) f, id)
    else state

def Facts.grants (f : Facts) (lines : List String) : Facts :=
  (lines.foldl Facts.grantLine (f, none)).1

structure Spot where
  started : Bool
  id : Id

def Facts.clothLine (name : String) (state : Facts × Spot) (line : String) : Facts × Spot :=
  let (f, spot) := state
  if Text.occurs (name ++ " =") line then (f, { spot with started := true })
  else if Text.occurs (name ++ "_SYMBOLS") line then (f, { spot with started := false })
  else if !spot.started then state
  else match (wordBefore? " =" line).filter (· != "data") with
    | some id => (f, { spot with id := some id })
    | none => (f.line "\t\t" spot.id line, spot)

def Facts.clothes (f : Facts) (name : String) (lines : List String) : Facts :=
  (lines.foldl (Facts.clothLine name) (f, ⟨false, none⟩)).1

def extrasIn (lines : List String) : Table :=
  lines.foldl (fun t line =>
    match wordBefore? " = true," line with
    | some id => t.put (some id) "附加财物"
    | none => t) []

/-! ### Rows -/

structure Row where
  kind : String
  base : String
  id : Id
  name : String
  chineseName : String
  description : String
  modifier : String
  rarity : String
  collection : String
  trade : String
  extra : String
  icon : String

def icon (id : Id) : String := "File:" ++ id.getD "None" ++ "_icon.png"

def Facts.plainRow (f : Facts) (id : Id) (kind : String) : Row where
  kind := kind
  base := f.bases.getD id
  id := id
  name := f.names.getD id
  chineseName := f.chineseNames.getD id
  description := f.descriptions.getD id
  modifier := f.modifiers.getD id
  rarity := (f.rarities.get? id).getD "普通"
  collection := f.collections.getD id
  trade := f.trades.getD id
  extra := f.extras.getD id
  icon := icon id

def Facts.overridden (f : Facts) (r : Row) : Row :=
  match f.overrides.filled? r.id with
  | none => r
  | some other =>
    let fill (t : Table) (text : String) : String :=
      if text == "n/a" then (t.filled? (some other)).getD text else text
    { r with
      icon := if r.base == f.bases.getD (some other) || r.rarity == "角色" then icon (some other)
        else r.icon
      name := fill f.names r.name
      chineseName := fill f.chineseNames r.chineseName
      description := fill f.descriptions r.description
      collection := fill f.collections r.collection }

def Facts.rows (f : Facts) : List Row := f.kinds.map fun e => f.overridden (f.plainRow e.1 e.2)

end WikiFeed.Skin

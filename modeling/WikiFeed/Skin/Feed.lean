import WikiFeed.Errand.Basic
import WikiFeed.Skin.Basic

/-! # The tables of skins

The files of the game become three tables: skins of things, of players, and of the rest. Rows are
sorted by kind, base and id. -/

namespace WikiFeed.Skin

open Errand
open Sprite (Result Fault)

structure Sources where
  names : List String
  catalog : List String
  things : List String
  clothing : List String
  beefaloClothing : List String
  emotes : List String
  misc : List String
  blacklist : List String

def Sources.facts (s : Sources) : Facts :=
  let f := ((Facts.ofPhrases s.names s.catalog).things s.things).grants s.things
  let f := (f.clothes "CLOTHING" s.clothing).clothes "BEEFALO_CLOTHING" s.beefaloClothing
  let f := (f.clothes "EMOTE_ITEMS" s.emotes).clothes "MISC_ITEMS" s.misc
  { f with extras := extrasIn s.blacklist }

/-- Whether one row stands before another or in its place. Rows of one kind and base need ids. -/
def Row.atMost (a b : Row) : Bool :=
  if a.kind != b.kind then decide (a.kind < b.kind)
  else if a.base != b.base then decide (a.base < b.base)
  else !(b.id.getD "" < a.id.getD "")

/-- Whether all rows can be put in order: a row without an id is alone with its kind and base. -/
def canSort (rows : List Row) : Bool :=
  rows.all fun a => a.id.isSome || rows.all fun b =>
    b.id.isNone || a.kind != b.kind || a.base != b.base

def sortRows (rows : List Row) : Result (List Row) :=
  if canSort rows then .ok (rows.mergeSort Row.atMost) else .error .kind

/-! ### Pages -/

def columns : List String := ["main_category", "type", "base", "id", "name", "name_cn", "desc_cn",
  "rarity_modifier", "rarity", "collection", "marketable", "blacklist", "huijiwiki_icon"]

def Row.cells (r : Row) : List Json :=
  [.str "skin", .str r.kind, .str r.base, (r.id.map Json.str).getD .null, .str r.name,
    .str r.chineseName, .str r.description, .str r.modifier, .str r.rarity, .str r.collection,
    .str r.trade, .str r.extra, .str r.icon]

def pages : List (String × List String) := [
  ("Item", ["item"]),
  ("Player", ["base", "body", "feet", "hand", "legs"]),
  ("Other", ["beard", "beef_body", "beef_feet", "beef_head", "beef_horn", "beef_tail", "emote",
    "emoji", "playerportrait", "profileflair", "loading"])]

def tableText (kinds : List String) (rows : List Row) : String :=
  (Json.obj [("schema", .obj [("fields", textColumns columns)]),
    ("data", .arr ((rows.filter fun r => kinds.contains r.kind).map fun r => .arr r.cells))]).text
      (.indented 4)

/-! ### The errand -/

def linesOf (c : Content) : Result (List String) := do
  return (Text.feedLines [] (← plainText c).toList).map String.ofList

def sources : Errand Sources := do
  let members ← scripts
  let member (name : String) : Errand Content :=
    lift (memberOf members ("scripts/" ++ name))
  let names ← member "skin_strings.lua"
  let catalog ← member "languages/chinese_s.po"
  let things ← member "prefabs/skinprefabs.lua"
  let clothing ← member "clothing.lua"
  let beefaloClothing ← member "beefalo_clothing.lua"
  let emotes ← member "emote_items.lua"
  let misc ← member "misc_items.lua"
  let blacklist ← member "item_blacklist.lua"
  let lines (c : Content) : Errand (List String) := lift (linesOf c)
  return ⟨← lines names, ← lines catalog, ← lines things, ← lines clothing, ← lines beefaloClothing,
    ← lines emotes, ← lines misc, ← lines blacklist⟩

def feed : Errand Unit := do
  let rows ← lift (sortRows (← sources).facts.rows)
  pages.forM fun p =>
    save ("Data:DST Skins " ++ p.1 ++ ".tabx") (tableText p.2 rows) none

end WikiFeed.Skin

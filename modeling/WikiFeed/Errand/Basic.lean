import WikiFeed.Archive.Basic
import WikiFeed.Json.Reader
import WikiFeed.Site.Action
import WikiFeed.Site.Basic
import WikiFeed.Studio.Basic

/-! # Errands

An errand reads the wiki and the files of the game, works in a folder, and asks for actions. What it
did before a fault stays. -/

namespace WikiFeed

open Sprite (Result Fault)

/-- A delivery of files: the folder that it goes to, how often asking for it is in vain at first,
and its files. -/
structure Delivery where
  place : String
  failures : Nat
  files : List (String × Content)

structure Account where
  name : String
  password : String

/-- Where an errand is done: the wiki, the path of the game, the account, the studio with its files,
the deliveries that can be asked for, and the actions so far. -/
structure Desk where
  site : Site
  game : String
  account : Account
  studio : Studio
  deliveries : List (String × Delivery)
  actions : List Action

abbrev Errand := EStateM Fault Desk

namespace Errand

def lift {α : Type} (r : Result α) : Errand α :=
  match r with
  | .ok a => pure a
  | .error e => throw e

def inStudio {α : Type} (work : Work α) : Errand α := do
  match work (← get).studio with
  | .ok a studio => do
    modify fun d => { d with studio }
    return a
  | .error e studio => do
    modify fun d => { d with studio }
    throw e

def print (s : String) : Errand Unit := inStudio (Studio.print s)

def site : Errand Site := do return (← get).site

def ask (a : Action) : Errand Unit := modify fun d => { d with actions := d.actions ++ [a] }

def save (title text : String) (summary : Option String) : Errand Unit :=
  ask (.save title text summary)

def pageText (title : String) : Errand String := do return (← site).text title

def pageData (title : String) : Errand Datum := do
  match Json.read? (← pageText title) with
  | some j => return .ofJson j
  | none => throw .notJson

/-! ### Files -/

def has (path : String) : Errand Bool := do return (← get).studio.folder.has path

def fileAt (path : String) : Errand Content := inStudio (Studio.fileAt path)

def fileText (path : String) : Errand String := do
  return Text.withPlainFeeds (← lift (← fileAt path).toText)

def storeText (path text : String) : Errand Unit := inStudio (Studio.storeFile path (.ofText text))

def remove (path : String) : Errand Unit :=
  inStudio (Studio.changeFolder fun f => .ok (f.remove path))

def gamePath (path : String) : Errand String := do return (← get).game ++ "/" ++ path

def membersAt (path : String) : Errand (List (String × Content)) := do lift (← fileAt path).members

def memberOf (members : List (String × Content)) (name : String) : Result Content :=
  match members.reverse.lookup name with
  | some c => .ok c
  | none => .error .key

def scripts : Errand (List (String × Content)) := do
  membersAt (← gamePath "data/databundles/scripts.zip")

def plainText (c : Content) : Result String := do return Text.withPlainFeeds (← c.toText)

def gameVersion : Errand String := do return Text.strip (← fileText (← gamePath "version.txt"))

end Errand

/-! ### Tables of the wiki -/

def textColumns (names : List String) : Json :=
  .arr (names.map fun n => .obj [("name", .str n), ("type", .str "string"),
    ("title", .obj [("en", .str n), ("zh", .str "")])])

def columnPlace? (names : List String) (fields : List Datum) : Result (Option Nat) :=
  fields.zipIdx.foldlM (fun place f => do
    match ← Sprite.named f.1 "name" with
    | .str n => return if names.contains n then some f.2 else place
    | _ => return place) none

def tableFields (table : Datum) : Result (List Datum) := do
  Sprite.itemsOf (← Sprite.named (← Sprite.named table "schema") "fields")

def tableRows (table : Datum) : Result (List Datum) := do
  Sprite.itemsOf (← Sprite.named table "data")

def Datum.asJson (d : Datum) : Json :=
  match d.toJson with
  | .ok j => j
  | .error _ => .null

end WikiFeed

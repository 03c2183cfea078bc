import WikiFeed.Errand.Basic
import WikiFeed.Site.Tagged
import WikiFeed.Studio.Tagged

/-! # Errands as JSON data

Where an errand is done, as it is given, and the actions that it asks for. -/

namespace WikiFeed

def Action.toJson : Action → Json
  | .save title text summary =>
    .arr [.str "save", .str title, .str text, (summary.map Json.str).getD .null]
  | .edit title text summary =>
    .arr [.str "edit", .str title, .str text, (summary.map Json.str).getD .null]
  | .touch title => .arr [.str "touch", .str title]
  | .delete title reason => .arr [.str "delete", .str title, .str reason]
  | .upload name text replace picture =>
    .arr [.str "upload", .str name, .str text, .bool replace, picture.toJson true]
  | .command line => .arr [.str "system", .str line]

def filesOfTagged (j : Json) : List (String × Content) :=
  j.pairs.map fun p => (p.1.asText, Content.ofTagged 8 p.2)

def Delivery.ofTagged (j : Json) : Delivery :=
  ⟨j.word "dir", (j.get "fail").asNat, filesOfTagged (j.get "files")⟩

def Desk.ofTagged (game version : String) (account : Account) (j : Json) : Desk :=
  let inGame (f : String × Content) : String × Content := (game ++ "/" ++ f.1, f.2)
  let scripts := (j.get? "files").toList.map fun fs =>
    ("data/databundles/scripts.zip", Content.archive (filesOfTagged fs))
  let files := filesOfTagged (j.get "cwd") ++
    ((("version.txt", Content.ofText version) :: scripts) ++ filesOfTagged (j.get "dst")).map inGame
  { site := .ofJson (j.get "site"), game, account
    studio := .ofFolder (files.foldl (fun f e => f.place e.1 e.2) .empty)
    deliveries := (j.get "downloads").members.map fun d => (d.1, .ofTagged d.2)
    actions := [] }

def Desk.log (d : Desk) : Json := .arr (d.actions.map Action.toJson)

def Desk.files (d : Desk) (paths : List String) : List (String × Json) :=
  paths.filterMap fun p =>
    match d.studio.folder.read p with
    | .ok c => some (p, c.toTagged true p)
    | .error _ => none

end WikiFeed

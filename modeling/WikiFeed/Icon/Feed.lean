import WikiFeed.Errand.Basic
import WikiFeed.Studio.Convert

/-! # Icons of skins

For each skin in the tables of the wiki that has no icon there, an animation is put together from
the files of the game, and the picture of its icon is uploaded. -/

namespace WikiFeed.Icon

open Errand
open Sprite (Result Fault)

/-! ### Skins without an icon -/

def listedTitle (title : String) : String :=
  let spaced := Text.substitute "_" " " title
  match "File:".toList.isPrefixOf? spaced.toList with
  | some [] => "文件:"
  | some (c :: r) => "文件:" ++ String.ofList (Text.capital c ++ r)
  | none => spaced

def skinOf (icon : String) : String :=
  Text.substitute "_icon.png" "" (Text.substitute "File:" "" icon)

structure Places where
  icons : Option Nat
  notes : Option Nat

def Places.update (p : Places) (fields : List Datum) : Result Places := do
  let icons ← columnPlace? ["huijiwiki_icon"] fields
  let notes ← columnPlace? ["blacklist"] fields
  return ⟨icons.or p.icons, notes.or p.notes⟩

def cell (row : Datum) : Option Nat → Result Datum
  | some i => Sprite.itemAt row i
  | none => .error .unset

def iconsIn (p : Places) (rows : List Datum) : Result (List Datum) := do
  let found ← rows.mapM fun row => do
    match ← cell row p.notes with
    | .str "n/a" => return some (← cell row p.icons)
    | _ => return none
  return found.filterMap id

def lacks (s : Site) (icon : String) : Bool :=
  !(s.images.map (·.1)).contains (listedTitle icon) && !s.contains icon

def skinsIn (s : Site) (icons : List Datum) : Result (List String) := do
  let found ← icons.mapM fun icon =>
    match icon with
    | .str name => .ok (if lacks s name then some (skinOf name) else none)
    | _ => .error .member
  return found.filterMap id

def takeTable (done : Places × List String) (name : String) : Errand (Places × List String) := do
  let table ← pageData ("Data:DST Skins " ++ name ++ ".tabx")
  let places ← lift (do done.1.update (← tableFields table))
  let icons ← lift (do iconsIn places (← tableRows table))
  return (places, done.2 ++ (← lift (skinsIn (← site) icons)))

/-! ### One icon -/

def texturePath : String := "data/anim/dynamic"

def scratch : String := "temp.zip"

def addFrom (archive name : String) : Errand Unit := do
  let content ← lift (memberOf (← membersAt archive) name)
  inStudio (Studio.addMember scratch name content)

def buildArchive (skin : String) : Errand String := do
  let path := "builds/anim/dynamic/" ++ skin ++ ".zip"
  return if ← has path then path else "builds/anim/" ++ skin ++ ".zip"

def textureArchive (folder skin : String) : Errand String := do
  let scrambled := folder ++ "/" ++ skin ++ ".dyn"
  if ← has scrambled then
    inStudio (Studio.convert scrambled)
    return folder ++ "/" ++ skin ++ ".zip"
  else return "/data/anim/" ++ skin ++ ".zip"

def addTextures (archive : String) : Errand Unit := do
  (← membersAt archive).forM fun m => do
    if Text.occurs "atlas" m.1 then addFrom archive m.1

def upload (skin : String) : Errand Unit := do
  let folder ← gamePath texturePath
  inStudio (Studio.storeFile scratch (.archive []))
  addFrom (← gamePath "data/anim/accountitem_frame.zip") "anim.bin"
  addFrom (← buildArchive skin) "build.bin"
  addTextures (← textureArchive folder skin)
  inStudio (Studio.convert scratch)
  remove scratch
  remove (folder ++ "/" ++ skin ++ ".zip")
  let picture ← inStudio (Studio.readPicture (skin ++ "/swap_icon/swap_icon-0.png"))
  ask (.upload (skin ++ "_icon.png") "[[分类:皮肤]]" true picture)

/-! ### The errand -/

def anyway {α : Type} (body : Errand α) (behind : Errand Unit) : Errand α := do
  let outcome ← tryCatch (do return Except.ok (← body)) fun e => return Except.error e
  behind
  lift outcome

def tryUpload (skin : String) : Errand Bool :=
  anyway (tryCatch (do upload skin; return true) fun e =>
    match e with
    | .missingFile => return false
    | e => throw e) (do if skin != "" then remove skin)

def uploadAll : List String → List String → Errand Unit
  | [], failed => report failed
  | skin :: rest, failed => do
    match ← tryCatch (do return Except.ok (← tryUpload skin)) fun e => return Except.error e with
    | .ok true => uploadAll rest failed
    | .ok false => uploadAll rest (failed ++ [skin])
    | .error e => do
      report failed
      throw e
where
  /-- Lists the skins that failed. -/
  report (failed : List String) : Errand Unit := do
    remove "builds"
    print "以下皮肤上传失败：\n"
    failed.forM fun skin => print ("  - " ++ skin ++ "\n")

def feed : Errand Unit := do
  let (_, skins) ← ["Item", "Player", "Other"].foldlM takeTable (⟨none, none⟩, [])
  print (Sprite.shown (.list (skins.map .str)) ++ "\n")
  let builds ← membersAt (← gamePath "data/databundles/anim_dynamic.zip")
  inStudio (Studio.changeFolder fun f =>
    .ok (builds.foldl (fun f m => f.place ("builds/" ++ m.1) m.2) f))
  uploadAll skins []

end WikiFeed.Icon

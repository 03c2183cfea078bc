import WikiFeed.Archive.Cipher
import WikiFeed.Scene.Write
import WikiFeed.Studio.Save

/-! # Conversion

Animations are turned into scenes and scenes into animations, pictures into atlas pages and pages
into pictures, textures into pictures and archives into their scrambled form. What is done with a
path is decided by its ending, or by the files that a folder holds. -/

namespace WikiFeed.Studio

open Sprite (Result Fault Bank Build Building Members)

/-! ### Scenes -/

def saveSceneFile (i : Nat) (folder : String) (f : Scene.File) : Work Unit := do
  let path := Path.join folder (f.stem ++ ".png")
  match f.source with
  | .portrait name => savePortrait i name path
  | .blank => do savePicture path (.ofPicture (← lift (Building.blankPicture f.width f.height)))

def saveDrawer (i : Nat) (target : String) (d : Scene.Drawer) : Work Unit := do
  let path := Path.join target (← lift (Sprite.textOf d.name))
  ensureFolder path
  d.files.forM (saveSceneFile i path)
  match d.fault with
  | some e => throw e
  | none => return

def saveDrawers (i : Nat) (bankData : Members) (target : String) (mapping : Bool) :
    Work (List Scene.Drawer) := do
  let b ← build i
  let symbols ← lift (do Sprite.entriesOf (← Sprite.named (.dict b.data) "Symbol"))
  let folders ← lift (Scene.symbolFolders mapping symbols)
  if mapping then
    let portraits ← lift (Scene.mappedPortraits b.portraits symbols)
    onBuild i (Building.change fun b => { b with portraits })
  let folders ← lift (Scene.addAllDrawn folders bankData)
  let drawers := folders.map (Scene.drawerOf (← build i).portraits)
  drawers.forM (saveDrawer i target)
  return drawers

def saveScene (a : Animation) (target : String) (mapping : Bool) (name : Option String) :
    Work Unit := do
  match a.bank, a.build with
  | none, _ => print "missing bank\n"
  | _, none => print "missing build\n"
  | some i, some j => do
    onBank i Bank.ready
    onBuild j Building.ready
    if let some n := name then onBuild j (Building.put "name" (.str n))
    let title ← buildName j
    let path := Path.join target title
    ensureFolder path
    let data := (← bank i).data
    let drawers ← saveDrawers j data path mapping
    let scene ← lift (Scene.markupOf drawers data)
    storeFile (Path.join path (title ++ ".scml")) (.ofText (scene.text false))

def readMarkup (path : String) : Work Markup := do
  match (← fileAt path).toText with
  | .error _ => throw .notMarkup
  | .ok s => match Markup.read? s with
    | some m => return m
    | none => throw .notMarkup

def fromScene {α : Type} (body : Scene.Reading α) : Work α := do
  match body [] with
  | .ok a notes => do
    print (String.join notes)
    return a
  | .error e notes => do
    print (String.join notes)
    throw e

def sceneBuild (path : String) (scale : Datum) : Work (Members × List (String × String)) := do
  fromScene (Scene.buildOf path (← readMarkup path) scale)

def buildScene (path target : String) (scale : Datum) : Work Unit := do
  let scene ← readMarkup path
  let (buildData, paths) ← fromScene (Scene.buildOf path scene scale)
  let bankData ← fromScene (Scene.banksOf scene)
  let i ← addBank (.ofData bankData)
  let workFolder ← newWorkFolder
  let portraits ← portraitsAt paths
  let j ← addBuild { Build.ofData buildData workFolder with portraits }
  let a : Animation := ⟨some i, some j⟩
  closing a (saveFiles a (.folder target))

/-! ### Atlas pages -/

/-- How the pictures of a folder are put on a page, by the name of the folder: their size, the
margin around them, and what their names begin with. -/
structure PageStyle where
  size : Option (Nat × Nat)
  margin : Nat
  nameStart : String

def pageStyles : List (String × PageStyle) := [
  ("inventoryimages", ⟨some (64, 64), 0, ""⟩),
  ("cookbook", ⟨some (256, 256), 0, "cookbook_"⟩),
  ("road", ⟨none, 4, ""⟩)]

def pageStyle (name : String) : PageStyle :=
  match pageStyles.find? fun s => Text.occurs s.1 name with
  | some s => s.2
  | none => ⟨none, 0, ""⟩

def styled (style : PageStyle) (p : Picture) : Picture :=
  let p := match style.size with
    | some (w, h) => p.resize .lobes w h
    | none => p
  p.expand style.margin

def makePage (path : String) : Work Unit := do
  let name := Path.name path
  let target := path ++ "/output"
  ensureFolder target
  let files := ((← filesIn path).filter fun f => f.endsWith ".png" && !f.startsWith ".").mergeSort
    fun a b => !(b < a)
  print ("Processing " ++ name ++ "\n")
  let style := pageStyle name
  let items ← files.mapM fun f => do
    let p := styled style (← readPicture (Path.join path f))
    return (⟨Path.stem f ++ ".tex", p.width, p.height, p⟩ : Atlas.Item Picture)
  let pages ← lift (Atlas.pack Building.pageLimit (.int 1) items)
  match pages with
  | [page] => do
    let workFolder ← newWorkFolder
    let picture := Path.join workFolder (name ++ ".png")
    let p := page.picture id false
    savePicture picture (.ofPicture p)
    let texture := Path.join target (name ++ ".tex")
    pictureToTexture picture texture
    let inset := Number.float (Float.ofNat style.margin + 0.5)
    let list ← lift (Atlas.pageList (name ++ ".tex") p.width p.height page.boxes (some inset)
      style.nameStart)
    storeFile (Path.join target (name ++ ".xml")) (.ofText (list.text true))
  | _ => throw (.check "")

structure Region where
  name : String
  left : Float
  right : Float
  top : Float
  bottom : Float

def regionOf (m : Markup) : Result Region := do
  let name ← Scene.attributeOf m "name"
  let left ← Scene.doubleAttribute m "u1" none
  let right ← Scene.doubleAttribute m "u2" none
  let top := 1.0 - (← Scene.doubleAttribute m "v2" none)
  let bottom := 1.0 - (← Scene.doubleAttribute m "v1" none)
  return ⟨Text.substitute ".tex" ".png" name, left, right, top, bottom⟩

def Region.cut (r : Region) (page : Picture) : Result Picture :=
  let across (x : Float) : Datum := .float (x * Float.ofNat page.width)
  let down (y : Float) : Datum := .float (y * Float.ofNat page.height)
  Building.cropped page (across r.left) (down r.top) (across r.right) (down r.bottom)

def splitPage (list target texture : String) : Work Unit := do
  let root ← readMarkup list
  let regions ← lift ((root.descendants "Element").mapM regionOf)
  let regions := regions.foldl (fun rs r => Places.put rs r.name r) []
  textureToPicture texture (Path.folder texture)
  let page ← readPicture (Text.substitute ".tex" ".png" texture)
  print ("Spliting " ++ toString regions.length ++ " images\n")
  let name ← lift (do Scene.attributeOf (← Scene.found (root.find? "Texture")) "filename")
  let path := target ++ "/" ++ Text.substitute ".tex" "" name
  ensureFolder path
  regions.forM fun r => do
    writePicture (path ++ "/" ++ r.1) (← lift (r.2.cut page))

def convertArchive (path : String) : Work Unit := do
  print (Cipher.opening path)
  match ← fileAt path with
  | .archive ms => do
    storeFile (Cipher.target path) (.archive ms)
    print Cipher.plainNote
  | content => do
    let bytes := content.toBytes
    storeFile (Cipher.target path) (.bytes (Cipher.convert path bytes))
    print (Cipher.closing path bytes)

/-! ### Any path -/

def buildSceneOf (folder file : String) : Work Unit := do
  let scale : Datum := match Decimal.readFloat? (← ask) with
    | some x => .float x
    | none => .int 1
  print ("image scale " ++ Sprite.display scale ++ "\n")
  buildScene (Path.join folder file) folder scale

def saveScenesOf (folder : String) (files : List String) : Work Unit := do
  let mapping := (← ask) == "1"
  if mapping then print "use symbol mapping\n"
  let animations ← files.mapM fun f => load (Path.join folder f)
  match animations with
  | [] => return
  | first :: rest => do
    let merged ← rest.foldlM mergeAnimations first
    let name := if 1 < files.length then some (Path.stem (Path.name folder)) else none
    saveScene merged folder mapping name
    (merged :: rest).forM closeAnimation

def convertLoaded (path target : String) : Work Unit := do
  let a ← load path
  closing a (convertAnimation a (.folder target))

/-- Converts a folder by the files in it: a list of pictures on a page, pictures, scrambled
archives, scenes, or archives. -/
def convertFolder (path : String) : Work Unit := do
  let files ← filesIn path
  let holding (ending : String) := files.filter (Text.occurs ending)
  match holding ".xml", holding ".png", holding ".dyn", holding ".scml", holding ".zip" with
  | list :: _, _, _, _, _ => do
    let root ← readMarkup (Path.join path list)
    match (root.find? "Texture").bind (·.get? "filename") with
    | some name => splitPage (Path.join path list) path (Path.join path name)
    | none => convertLoaded path path
  | [], _ :: _, _, _, _ => makePage path
  | [], [], dyns@(_ :: _), _, _ => do
    dyns.forM fun f => convertArchive (Path.join path f)
    convertLoaded path path
  | [], [], [], scenes@(_ :: _), _ => scenes.forM (buildSceneOf path)
  | [], [], [], [], zips@(_ :: _) => saveScenesOf path zips
  | [], [], [], [], [] => convertLoaded path path

def convert (path : String) : Work Unit := do
  let ending := Path.ending path
  let target := if ending == "" then path else Path.folder path
  print ("output_path: " ++ target ++ "\n")
  match ending with
  | "" => convertFolder path
  | ".dyn" => convertArchive path
  | ".tex" => textureToPicture path target
  | ".png" => pictureToTexture path (Text.substitute ".png" ".tex" path)
  | _ => pure ()
  if ending != "" then convertLoaded path target

end WikiFeed.Studio

import WikiFeed.Json.Reader
import WikiFeed.Scene.Read
import WikiFeed.Studio.Basic

/-! # Loading and saving

Animations are loaded from files, archives and folders, and saved as files of their formats or as
texts. A build with pages is saved as an archive with its pages, and its bank goes with it. -/

namespace WikiFeed.Studio

open Sprite (Result Fault Bank Build Building Bytes Cutout)

inductive Target where
  | folder (path : String)
  | archive (path : String)

def Target.toFolder : Target → Result String
  | .folder p => .ok p
  | .archive _ => .error .kind

def saveContent (t : Target) (name : String) (content : Option Bytes) : Work Unit := do
  match t with
  | .folder p => do
    storeFile (Path.join p name) (.bytes (content.getD []))
    if content.isNone then throw .kind
  | .archive p =>
    match content with
    | some bs => addMember p name (.bytes bs)
    | none => throw .kind

def saveText (path : String) (text : String × Option Fault) : Work Unit := do
  storeFile path (.ofText text.1)
  match text.2 with
  | some e => throw e
  | none => return

/-! ### Banks -/

def saveBank (i : Nat) (t : Target) (name : Option String) : Work Target := do
  onBank i Bank.written
  let name := match t with
    | .folder _ => "anim.bin"
    | .archive _ => name.getD "anim.bin"
  saveContent t name (← bank i).content
  return t

def saveBankText (i : Nat) (t : Target) (indent : String) : Work Target := do
  onBank i Bank.ready
  saveText (Path.join (← lift t.toFolder) "anim.json") (Bank.text indent (← bank i).data)
  return t

def convertBank (i : Nat) (t : Target) : Work Target := do
  if (← bank i).data.isEmpty then saveBankText i t "    " else saveBank i t none

/-! ### Builds -/

def buildName (i : Nat) : Work String := do
  let b ← build i
  lift (do Sprite.textOf (← Sprite.named (.dict b.data) "name"))

def gatherBuild (i : Nat) (name : String) : Work Unit := do
  onBuild i Building.ready
  onBuild i (Building.gather name)

def savePage (i : Nat) (archive : String) (page : Datum × Nat) : Work Unit := do
  let b ← build i
  let texture := Path.join b.workFolder (← lift (Sprite.textOf page.1))
  let picture := Text.substitute ".tex" ".png" texture
  match b.pages[page.2]? with
  | none => throw .position
  | some c => do
    savePicture picture c
    pictureToTexture picture texture
    addMember archive ("atlas-" ++ toString page.2 ++ ".tex") (← fileAt texture)

def savePages (i : Nat) (archive : String) : Work Unit := do
  let b ← build i
  let names ← lift (do Sprite.itemsOf (← Sprite.named (.dict b.data) "Atlas"))
  names.zipIdx.forM (savePage i archive)

def saveBuild (i : Nat) (t : Target) (name : Option String) : Work Target := do
  if !(← build i).portraits.isEmpty then gatherBuild i "atlas"
  onBuild i Building.written
  let b ← build i
  let t ← match t, b.pages with
    | .folder p, _ :: _ => do
      let name ← match name with
        | some n => pure n
        | none => buildName i
      let path := Path.join p (name ++ ".zip")
      storeFile path (.archive [])
      savePages i path
      pure (.archive path)
    | t, _ => pure t
  saveContent t "build.bin" (← build i).content
  return t

def savePortrait (i : Nat) (frame path : String) : Work Unit := do
  savePicture path (← onBuild i (Building.portrait frame))

/-- Saves the pictures of a symbol in a folder of its own. With `repeated`, a picture is saved for
every number that its frame lasts. -/
def saveSymbol (i : Nat) (folder : String) (repeated : Bool) (s : Datum × Datum) :
    Work Unit := do
  let symbol ← lift (Sprite.textOf s.1)
  let path := Path.join folder symbol
  ensureFolder path
  (← lift (Sprite.itemsOf s.2)).forM fun frame => do
    let number ← lift (Sprite.named frame "framenum")
    let name := symbol ++ "-" ++ Sprite.display number
    savePortrait i name (Path.join path (name ++ ".png"))
    if repeated then
      let n ← lift (do Building.wholeOf (← Sprite.named frame "duration"))
      (List.range' 1 (n.toNat - 1)).forM fun d => do
        let later ← lift (Sprite.plus number (.int d))
        savePortrait i name (Path.join path (symbol ++ "-" ++
          Sprite.display later ++ "'(duration" ++
          Sprite.display number ++ "').png"))

def saveSymbols (i : Nat) (folder : String) (repeated : Bool) : Work Unit := do
  let b ← build i
  (← lift (do Sprite.entriesOf (← Sprite.named (.dict b.data) "Symbol"))).forM
    (saveSymbol i folder repeated)

def saveBuildText (i : Nat) (t : Target) (indent : String) : Work Target := do
  onBuild i Building.ready
  let p ← lift t.toFolder
  let p ← if (← build i).portraits.isEmpty then pure p else do
    let p := Path.join p (← buildName i)
    ensureFolder p
    saveSymbols i p false
    pure p
  let path := Path.join p "build.json"
  storeFile path (.ofText "")
  if (Datum.lookup (← build i).data (.str "scale")).isNone then
    onBuild i (Building.put "scale" (.int 1))
  saveText path (Build.text indent (← build i).data)
  return .folder p

def convertBuild (i : Nat) (t : Target) : Work Target := do
  if (← build i).data.isEmpty then saveBuildText i t "    " else saveBuild i t none

/-! ### Loading pictures -/

def isPortraitFile (name : String) : Bool :=
  Text.occurs ".png" name && !Text.occurs "(missing)" name &&
    (Scene.durationMark? name.toList).isNone

def portraitsIn (path : String) : Work Sprite.Portraits := do
  match ← listing path with
  | none => throw .kind
  | some (symbols, _) => symbols.foldlM (fun ps symbol => do
      let path := Path.join path symbol
      ((← filesIn path).filter isPortraitFile).foldlM (fun ps file => do
        let p ← readPicture (Path.join path file)
        return ps.put (Text.lower (Path.stem file)) (.ofPicture p)) ps) []

def portraitsAt (paths : List (String × String)) : Work Sprite.Portraits :=
  (paths.filter fun p => isPortraitFile p.2).foldlM (fun ps p => do
    return ps.put (Text.lower p.1) (.ofPicture (← readPicture p.2))) []

def pageNumber (file : String) : Result Int :=
  match (Text.splitChar '-' file.toList)[1]? with
  | none => .error .position
  | some part =>
    match Decimal.readInt? (String.ofList (part.takeWhile (· != '.'))) with
    | some n => .ok n
    | none => .error .value

def pagesIn (path workFolder : String) : Work (List Cutout) := do
  let files := (← filesIn path).filter (Text.occurs ".tex")
  let numbered ← lift (files.mapM fun f => do return (← pageNumber f, f))
  (numbered.mergeSort fun a b => decide (a.1 ≤ b.1)).mapM fun e => do
    let picture := Path.join workFolder (Text.substitute ".tex" ".png" e.2)
    textureToPicture (Path.join path e.2) picture
    return .ofPicture (← readPicture picture)

def pagesOf (members : List (String × Content)) (workFolder : String) : Work (List Cutout) := do
  (members.filter fun m => Text.occurs ".tex" m.1).forM fun m =>
    changeFolder fun f => .ok (f.place (Path.join workFolder m.1) m.2)
  pagesIn workFolder workFolder

/-! ### Loading animations -/

def loadArchive (path : String) : Work Animation := do
  let members ← lift (← fileAt path).members
  let bank ← match members.reverse.lookup "anim.bin" with
    | some c => do pure (some (← addBank (.ofBytes c.toBytes)))
    | none => pure none
  let build ← match members.reverse.lookup "build.bin" with
    | some c => do
      let workFolder ← newWorkFolder
      let pages ← pagesOf members workFolder
      pure (some (← addBuild { Build.ofBytes c.toBytes workFolder with pages }))
    | none => pure none
  return ⟨bank, build⟩

inductive FileKind where
  | bank
  | build
  | unknown

def fileKind (content : Bytes) : Result FileKind :=
  if content.length < 8 then .error .field
  else if content.take 8 == [0x41, 0x4E, 0x49, 0x4D] ++ Sprite.wordBytes Sprite.bankVersion then
    .ok .bank
  else if content.take 8 == [0x42, 0x49, 0x4C, 0x44] ++ Sprite.wordBytes Sprite.buildVersion then
    .ok .build
  else .ok .unknown

def loadContent (content : Bytes) (pages : String → Work (List Cutout)) : Work Animation := do
  match ← lift (fileKind content) with
  | .bank => return ⟨some (← addBank (.ofBytes content)), none⟩
  | .build => do
    let workFolder ← newWorkFolder
    let pages ← pages workFolder
    return ⟨none, some (← addBuild { Build.ofBytes content workFolder with pages })⟩
  | .unknown => return .empty

def loadBytes (content : Bytes) : Work Animation :=
  loadContent content fun _ => if content.contains 0x2F then throw .value else return []

/-- Loads an animation from data, into one that may have a bank or a build already. -/
def loadData (a : Animation) (data : Datum) (portraits : Work Sprite.Portraits) :
    Work Animation := do
  let entries := match data with
    | .dict es => es
    | _ => []
  match ← lift (Sprite.named data "type") with
  | .str "Anim" => return { a with bank := some (← addBank (.ofData entries)) }
  | .str "Build" => do
    let workFolder ← newWorkFolder
    let portraits ← portraits
    return { a with build := some (← addBuild { Build.ofData entries workFolder with portraits }) }
  | _ => return a

def loadText (a : Animation) (path : String) (portraits : Work Sprite.Portraits) :
    Work Animation := do
  let text ← lift (← fileAt path).toText
  match Json.read? text with
  | some j => loadData a (.ofJson j) portraits
  | none => throw .notJson

def loadFolder (path : String) : Work Animation := do
  let files ← filesIn path
  let a ← if files.contains "build.json" then
      loadText .empty (Path.join path "build.json") (portraitsIn path)
    else pure .empty
  if files.contains "anim.json" then loadText a (Path.join path "anim.json") (pure [])
  else return a

def load (path : String) : Work Animation := do
  if path == "" then return .empty
  match Path.ending path with
  | ".bin" => do
    let content := (← fileAt path).toBytes
    loadContent content (pagesIn (Path.folder path))
  | ".json" => loadText .empty path (pure [])
  | ".zip" => loadArchive path
  | "" => loadFolder path
  | _ => return .empty

/-! ### Animations -/

def readAnimation (a : Animation) : Work Unit := do
  a.build.forM fun i => onBuild i Building.read
  a.bank.forM fun i => onBank i Bank.read

def saveTexts (a : Animation) (t : Target) : Work Unit := do
  let t ← match a.build with
    | some i => saveBuildText i t "    "
    | none => pure t
  a.bank.forM fun i => do let _ ← saveBankText i t "    "

def saveFiles (a : Animation) (t : Target) : Work Unit := do
  let t ← match a.build with
    | some i => saveBuild i t none
    | none => pure t
  a.bank.forM fun i => do let _ ← saveBank i t none

def convertAnimation (a : Animation) (t : Target) : Work Unit := do
  let t ← match a.build with
    | some i => convertBuild i t
    | none => pure t
  a.bank.forM fun i => do let _ ← convertBank i t

def mergeAnimations (a b : Animation) : Work Animation := do
  match a.build, b.build with
  | some i, some j => mergeBuilds i j
  | _, _ => pure ()
  match a.bank, b.bank with
  | some i, some j => mergeBanks i j
  | _, _ => pure ()
  return ⟨a.bank.or b.bank, a.build.or b.build⟩

def closeAnimation (a : Animation) : Work Unit := a.build.forM closeBuild

def closing {α : Type} (a : Animation) (body : Work α) : Work α := do
  match ← tryCatch (do return Except.ok (← body)) (fun e => return Except.error e) with
  | .ok r => do
    closeAnimation a
    return r
  | .error e => do
    closeAnimation a
    throw e

end WikiFeed.Studio

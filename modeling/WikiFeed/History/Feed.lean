import WikiFeed.Errand.Basic
import WikiFeed.History.Basic

/-! # The table of first versions

The states of the game since the last one that was seen are asked for one by one. Each brings its
version and its list of strings, and the prefabs that are new in a list get its version. -/

namespace WikiFeed.History

open Errand
open Sprite (Result Fault)

def home : String := "Prefab History"

def inHome (path : String) : String := home ++ "/" ++ path

def pageTitle : String := "Data:DST Updates.tabx"

/-! ### Deliveries -/

def request (a : Account) (m : Manifest) : String :=
  "DepotDownloader.exe -username " ++ a.name ++ " -password " ++ a.password ++
    " -remember-password -use-lancache -filelist files.txt -app 322330 -depot 322331 -manifest " ++
    m.number ++ " -branch " ++ m.branch

def order (m : Manifest) : Errand Unit := do
  ask (.command (request (← get).account m))
  match (← get).deliveries.lookup m.number with
  | none => return
  | some d =>
    if 0 < d.failures then
      modify fun desk => { desk with
        deliveries := (m.number, { d with failures := d.failures - 1 }) :: desk.deliveries }
    else
      let place (f : Folder) (file : String × Content) : Folder :=
        f.place (inHome ("depots/322331/" ++ d.place ++ "/" ++ file.1)) file.2
      inStudio (Studio.changeFolder fun f => .ok (d.files.foldl place f))

def orderUpTo (m : Manifest) (folder : String) : Nat → Errand Unit
  | 0 => throw .tooDeep
  | n + 1 => do
    order m
    if !(← has (folder ++ "version.txt")) then orderUpTo m folder n

def branchFolder (publicBranch branch : String) : String :=
  inHome ("depots/322331/" ++ (if branch == "public" then publicBranch else "0") ++ "/")

def takeList (folder : String) : Errand Content := do
  let archive := folder ++ "data/databundles/scripts.zip"
  let list := folder ++ "data/scripts/languages/strings.pot"
  if ← has archive then
    lift (memberOf (← membersAt archive) "scripts/languages/strings.pot")
  else if ← has list then fileAt list
  else throw .missingFile

def fetch (publicBranch : String) (m : Manifest) : Errand Unit := do
  let target := inHome ("pot/" ++ m.number)
  if ← has target then return
  let failures := (((← get).deliveries.lookup m.number).map (·.failures)).getD 0
  let folder := branchFolder publicBranch m.branch
  orderUpTo m folder (failures + 2)
  let version := Text.strip (← fileText (folder ++ "version.txt"))
  let list ← takeList folder
  inStudio (Studio.changeFolder (·.makeFolders target))
  inStudio (Studio.storeFile (target ++ "/" ++ version ++ ".pot") list)
  remove (inHome "depots")

/-! ### Lists -/

/-- The entries of a list, which is given a header if it has none; none if its bytes are no text. -/
def entriesOf (p : Pot) : Errand (Option (List Catalog.Entry)) := do
  let content ← fileAt (inHome p.path)
  match plainText content with
  | .error _ => return none
  | .ok text => do
    let bytes := withHeader content.toBytes text
    inStudio (Studio.storeFile (inHome p.path) (.bytes bytes))
    match plainText (.bytes bytes) with
    | .error _ => return none
    | .ok text =>
      match Catalog.read? text with
      | some entries => return some entries
      | none => throw .notCatalog

def takePot (vs : Versions) (p : Pot) : Errand Versions := do
  match ← entriesOf p with
  | some entries => lift (vs.takeAll p.version entries)
  | none => do
    print ("UnicodeDecodeError in file " ++ p.path ++ "\n")
    return vs

def pots : Errand (List Pot) := do
  let paths := (← get).studio.folder.files.map (·.1)
  let start := inHome ""
  return potsAmong ((paths.filter (·.startsWith (inHome "pot/"))).map fun p =>
    (p.drop start.length).toString)

/-! ### The errand -/

def tableText (vs : Versions) : String :=
  (Json.obj [("schema", .obj [("fields", textColumns ["id", "ver"])]),
    ("data", .arr (vs.map fun e => .arr [e.1.asJson, e.2.asJson]))]).text (.indented 4)

/-- Adds the prefabs in the lists at hand to the versions that are known, and saves the table. -/
def saveVersions (versions : Versions) : Errand Unit := do
  let lists ← pots
  print (potsText lists ++ "\n")
  let versions ← lists.foldlM takePot versions
  save pageTitle (tableText (← lift versions.sorted)) none

def feed : Errand Unit := do
  if !(← get).studio.folder.hasFolder home then throw .missingFile
  let page := Hypertext.ofText (← fileText
    (inHome "Depot 322331 (Don't Starve Together - Windows) · SteamDB.html"))
  let manifests ← lift (manifestsOn page)
  remove (inHome "depots")
  remove (inHome "pot")
  let table ← pageData pageTitle
  let fields ← lift (tableFields table)
  let ids ← lift (columnPlace? ["id"] fields)
  let places ← lift (columnPlace? ["ver"] fields)
  let versions ← lift (do versionsIn (← tableRows table) ids places)
  let begin := Text.strip (← fileText (inHome "begin_manifest.txt"))
  match publicBranch? page with
  | none => throw .unset
  | some branch => (since begin manifests).forM (fetch branch)
  storeText (inHome "begin_manifest.txt") ((manifests.head?.map (·.number)).getD "")
  if manifests.isEmpty then throw .unset
  remove (inHome "scripts")
  saveVersions versions

end WikiFeed.History

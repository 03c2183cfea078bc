import WikiFeed.Folder.Tree
import WikiFeed.Sprite.Build
import WikiFeed.Text.Pattern

/-! # The studio

Work on animations takes place in a folder, with banks and builds that are known by numbers, so that
two animations can share them. It prints lines, asks for answers, and calls the two texture tools,
which here copy pictures. -/

namespace WikiFeed

open Sprite (Result Fault Bank Build Building Bytes)

structure Animation where
  bank : Option Nat
  build : Option Nat

def Animation.empty : Animation := ⟨none, none⟩

/-- The studio: its files, what it has printed, the answers to its questions, the exit code of its
tools and their calls, its banks, builds and animations, and how many work folders there were. -/
structure Studio where
  folder : Folder
  printed : String
  answers : List String
  exitCode : Int
  calls : List (List String)
  banks : List Bank
  builds : List Build
  animations : List Animation
  workFolders : Nat

/-- Work in the studio. What is done before a fault stays. -/
abbrev Work := EStateM Fault Studio

namespace Studio

def ofFolder (f : Folder) : Studio := ⟨f, "", [], 0, [], [], [], [], 0⟩

def lift {α : Type} (r : Result α) : Work α :=
  match r with
  | .ok a => pure a
  | .error e => throw e

def print (s : String) : Work Unit := modify fun m => { m with printed := m.printed ++ s }

def ask : Work String := do
  match (← get).answers with
  | [] => throw .noAnswer
  | a :: rest => do
    modify fun m => { m with answers := rest }
    return a

/-! ### Files -/

def fileAt (path : String) : Work Content := do lift ((← get).folder.read path)

def readPicture (path : String) : Work Picture := do lift (← fileAt path).toPicture

def changeFolder (f : Folder → Result Folder) : Work Unit := do
  let folder ← lift (f (← get).folder)
  modify fun m => { m with folder }

def storeFile (path : String) (c : Content) : Work Unit := changeFolder (·.write path c)

def ensureFolder (path : String) : Work Unit := changeFolder (·.ensure path)

def writePicture (path : String) (p : Picture) : Work Unit :=
  if p.width == 0 || p.height == 0 then throw .emptyPicture else storeFile path (.picture p)

def savePicture (path : String) (c : Sprite.Cutout) : Work Unit := do
  let p ← lift c.opened
  if Text.lower (Path.ending path) == ".png" then writePicture path p else throw .value

def addMember (archive name : String) (c : Content) : Work Unit := changeFolder fun f => do
  match ← f.read archive with
  | .archive ms => f.write archive (.archive (ms ++ [(name, c)]))
  | _ => .error .value

def listing (path : String) : Work (Option (List String × List String)) := do
  return (← get).folder.listing? path

def filesIn (path : String) : Work (List String) := do
  return ((← listing path).map (·.2)).getD []

def newWorkFolder : Work String := do
  let n := (← get).workFolders
  let path := "/work/" ++ toString n
  modify fun m => { m with workFolders := n + 1 }
  changeFolder (·.makeFolders path)
  return path

/-! ### Banks and builds -/

def addBank (b : Bank) : Work Nat := do
  let n := (← get).banks.length
  modify fun m => { m with banks := m.banks ++ [b] }
  return n

def addBuild (b : Build) : Work Nat := do
  let n := (← get).builds.length
  modify fun m => { m with builds := m.builds ++ [b] }
  return n

def bank (i : Nat) : Work Bank := do
  match (← get).banks[i]? with
  | some b => return b
  | none => throw .position

def build (i : Nat) : Work Build := do
  match (← get).builds[i]? with
  | some b => return b
  | none => throw .position

def addAnimation (a : Animation) : Work Unit :=
  modify fun m => { m with animations := m.animations ++ [a] }

def animation (i : Nat) : Work Animation := do
  match (← get).animations[i]? with
  | some a => return a
  | none => throw .position

def onBank (i : Nat) (f : Bank → Bank × Option Fault) : Work Unit := do
  let (b, e) := f (← bank i)
  modify fun m => { m with banks := m.banks.set i b }
  match e with
  | some e => throw e
  | none => return

def onBuild {α : Type} (i : Nat) (body : Building α) : Work α := do
  let keep (s : Build × List String) : Work Unit := do
    modify fun m => { m with builds := m.builds.set i s.1 }
    print (String.join s.2)
  match body (← build i, []) with
  | .ok a s => do
    keep s
    return a
  | .error e s => do
    keep s
    throw e

def mergeBanks (i j : Nat) : Work Unit := do
  onBank i Bank.ready
  onBank j Bank.ready
  let ((b, notes), e) := (← bank i).merge (← bank j)
  print (String.join notes)
  onBank i fun _ => (b, e)

def mergeBuilds (i j : Nat) : Work Unit := do
  onBuild i Building.ready
  onBuild j Building.ready
  onBuild i (Building.merge (← build j) (i == j))

def closeBuild (i : Nat) : Work Unit := do
  let b ← build i
  modify fun m =>
    { m with builds := m.builds.set i b.close, folder := m.folder.remove b.workFolder }

/-! ### Texture tools -/

def withoutFolders (s : String) : String :=
  let step (done : List Char × List Char) (c : Char) : List Char × List Char :=
    if c == '/' then (done.1, [])
    else if c == ' ' || c == ';' then (c :: (done.2 ++ done.1), [])
    else (done.1, c :: done.2)
  let (done, word) := s.toList.foldl step ([], [])
  String.ofList (word ++ done).reverse

def call (command : List String) : Work Int := do
  modify fun m => { m with calls := m.calls ++ [command.map withoutFolders] }
  return (← get).exitCode

def copyFile (source target : String) : Work Unit := do
  let f := (← get).folder
  match f.read source with
  | .error _ => return
  | .ok c =>
    if f.hasFolder target then
      storeFile (Path.join target (Path.stem (Path.name source) ++ ".png")) c
    else storeFile target c

def textureToPicture (texture target : String) : Work Unit := do
  if (← call ["ktech.exe", texture, target]) == 0 then copyFile texture target

structure TextureOptions where
  format : String := "bc3"
  platform : String := "opengl"
  mipmaps : Bool := false
  premultiplied : Bool := true
  width : Option String := none
  height : Option String := none
  shown : Bool := false
  failureAllowed : Bool := false

def TextureOptions.command (o : TextureOptions) (pictures : List String) (target : String) :
    List String :=
  ["TextureConverter.exe", "--swizzle", "--format " ++ o.format, "--platform " ++ o.platform,
    "-i " ++ ";".intercalate pictures, "-o " ++ target] ++
  (if o.mipmaps then ["--mipmap"] else []) ++
  (if o.premultiplied then ["--premultiply"] else []) ++
  (o.width.toList.map ("-w " ++ ·)) ++ o.height.toList.map ("-h " ++ ·)

def picturesToTexture (o : TextureOptions) (pictures : List String) (target : String) :
    Work Unit := do
  let command := o.command pictures target
  if o.shown then print (" ".intercalate command ++ "\n")
  if (← call command) == 0 then
    match pictures with
    | p :: _ => copyFile p target
    | [] => return
  else if !o.failureAllowed then throw .toolFailed

def pictureToTexture (picture target : String) : Work Unit :=
  picturesToTexture {} [picture] target

end Studio

end WikiFeed

import WikiFeed.Folder.Path
import WikiFeed.Picture.Basic
import WikiFeed.Places
import WikiFeed.Sprite.Fault
import WikiFeed.Text.Search
import WikiFeed.Text.Utf8

/-! # Folders of files

A folder is the list of the paths below it in the order in which they were made. A path leads to a
folder or to a file, and files hold bytes, a picture, or an archive of members. -/

namespace WikiFeed

open Sprite (Result Fault)

inductive Content where
  | bytes (bs : List UInt8)
  | picture (p : Picture)
  | archive (members : List (String × Content))

namespace Content

def ofText (s : String) : Content := .bytes (Text.encode s)

def toBytes : Content → List UInt8
  | .bytes bs => bs
  | _ => []

def toText (c : Content) : Result String :=
  match Text.decode? c.toBytes with
  | some s => .ok s
  | none => .error .undecodable

def toPicture : Content → Result Picture
  | .picture p => .ok p
  | _ => .error .notPicture

def members : Content → Result (List (String × Content))
  | .archive ms => .ok ms
  | _ => .error .notArchive

end Content

namespace Path

def steps (path : String) : List String :=
  ((Text.splitChar '/' path.toList).map String.ofList).filter fun s => s != "" && s != "."

def plain (path : String) : String :=
  (if path.startsWith "/" then "/" else "") ++ "/".intercalate (steps path)

end Path

/-- Paths and what they lead to: a folder, or a file with its content. -/
structure Folder where
  entries : List (String × Option Content)

namespace Folder

def empty : Folder := ⟨[]⟩

def find? (f : Folder) (path : String) : Option (Option Content) :=
  if path == "" then none
  else match Path.plain path with
    | "" | "/" => some none
    | p => f.entries.lookup p

def hasFolder (f : Folder) (path : String) : Bool :=
  match f.find? path with
  | some none => true
  | _ => false

def has (f : Folder) (path : String) : Bool := (f.find? path).isSome

def read (f : Folder) (path : String) : Result Content :=
  match f.find? path with
  | some (some c) => .ok c
  | some none => .error .isFolder
  | none => .error .missingFile

def hasParent (f : Folder) (path : String) : Bool :=
  match Path.folder (Path.plain path) with
  | "" => true
  | p => f.hasFolder p

def put (f : Folder) (path : String) (c : Option Content) : Folder :=
  ⟨Places.put f.entries path c⟩

def write (f : Folder) (path : String) (c : Content) : Result Folder :=
  if path == "" || !f.hasParent path then .error .missingFile
  else if f.hasFolder path then .error .isFolder
  else .ok (f.put (Path.plain path) (some c))

def makeFolders (f : Folder) (path : String) : Result Folder :=
  let start := if path.startsWith "/" then "/" else ""
  let step (done : String × Folder) (name : String) : Result (String × Folder) :=
    let p := if done.1 == "" || done.1 == "/" then done.1 ++ name else done.1 ++ "/" ++ name
    match done.2.find? p with
    | some none => .ok (p, done.2)
    | some (some _) => .error .isFile
    | none => .ok (p, done.2.put p none)
  if path == "" then .error .missingFile
  else do return (← (Path.steps path).foldlM step (start, f)).2

def ensure (f : Folder) (path : String) : Result Folder :=
  if f.has path then .ok f else f.makeFolders path

def place (f : Folder) (path : String) (c : Content) : Folder :=
  let f := match f.makeFolders (Path.folder (Path.plain path)) with
    | .ok f => f
    | .error _ => f
  f.put (Path.plain path) (some c)

def remove (f : Folder) (path : String) : Folder :=
  let p := Path.plain path
  ⟨f.entries.filter fun e => e.1 != p && !e.1.startsWith (p ++ "/")⟩

def children (f : Folder) (path : String) : List (String × Option Content) :=
  let p := Path.plain path
  (f.entries.filter fun e => Path.folder e.1 == p).reverse.map fun e => (Path.name e.1, e.2)

def listing? (f : Folder) (path : String) : Option (List String × List String) :=
  if f.hasFolder path then
    let (folders, files) := (f.children path).partition (·.2.isNone)
    some (folders.map (·.1), files.map (·.1))
  else none

def files (f : Folder) : List (String × Content) :=
  f.entries.filterMap fun e => e.2.map fun c => (e.1, c)

end Folder

end WikiFeed

import WikiFeed.Catalog.Basic
import WikiFeed.Folder.Path
import WikiFeed.Hypertext.Reader
import WikiFeed.Sprite.Data
import WikiFeed.Text.Case
import WikiFeed.Text.Utf8

/-! # The history of prefabs

For each prefab the version is kept in which it first occurred. Each version of the game has a list
of strings, which names its prefabs; the lists are taken in the order of their versions as texts. -/

namespace WikiFeed.History

open Sprite (Result Fault)

/-! ### Manifests -/

/-- A state of the game that can be asked for: its number and its branch. -/
structure Manifest where
  number : String
  branch : String

def manifestIn (cell : Hypertext) : Result Manifest :=
  match cell.find? "a" with
  | none => .error .member
  | some a => .ok ⟨a.strippedText, ((cell.find? "code").map (·.strippedText)).getD "public"⟩

def manifestsOn (page : Hypertext) : Result (List Manifest) :=
  (page.elements fun name attributes =>
    name == "td" && Hypertext.hasClass "tabular-nums" attributes).mapM manifestIn

/-- The number of the public branch: the last link to notes that is a number. -/
def publicBranch? (page : Hypertext) : Option String :=
  let links := page.elements fun name attributes =>
    name == "a" && Text.occurs "steamdb.info/patchnotes" ((attributes.lookup "href").getD "")
  ((links.map (·.wholeText)).filter fun t => t != "" && t.toList.all Text.isDecimalDigit).getLast?

/-- The manifests behind one, up to the latest one, in the order of time. A page lists the latest
one first. -/
def since (begin : String) (manifests : List Manifest) : List Manifest :=
  let later := manifests.reverse.dropWhile fun m => m.number != begin
  later.filter fun m => m.number != begin

/-! ### Versions -/

abbrev Versions := List (Datum × Datum)

/-- The versions in a table of the wiki. The places of its columns have to be known where there is a
row. -/
def versionsIn (rows : List Datum) (ids versions : Option Nat) : Result Versions :=
  rows.foldlM (fun done row => do
    match ids, versions with
    | some i, some j => do
      let id ← Sprite.itemAt row i
      let version ← Sprite.itemAt row j
      if id.isKey then return Datum.put done id version else .error .kind
    | _, _ => .error .unset) []

def prefabIn (e : Catalog.Entry) : Result (Option String) :=
  match e.context with
  | none => .error .member
  | some context =>
    match (Text.splitChar '.' context.toList).map String.ofList with
    | _ :: "NAMES" :: name :: _ => .ok (some (Text.lower name))
    | _ :: "NAMES" :: [] | [] | [_] => .error .position
    | _ => .ok none

/-- Takes in an entry of the list of a version: a prefab that is already known keeps its version. -/
def Versions.take (version : String) (vs : Versions) (e : Catalog.Entry) : Result Versions := do
  match ← prefabIn e with
  | none => return vs
  | some name =>
    if (Datum.lookup vs (.str name)).isSome then return vs
    else return vs ++ [(.str name, .str version)]

def Versions.takeAll (version : String) (vs : Versions) (entries : List Catalog.Entry) :
    Result Versions :=
  entries.foldlM (Versions.take version) vs

def Versions.sorted (vs : Versions) : Result Versions :=
  Sprite.sortByKey (fun e => .ok (.list [e.1, e.2])) vs

/-! ### Lists of strings -/

structure Pot where
  version : String
  path : String
  deriving DecidableEq

def Pot.atMost (a b : Pot) : Bool :=
  if a.version != b.version then decide (a.version < b.version) else !(b.path < a.path)

def potsAmong (paths : List String) : List Pot :=
  let lists := paths.filter (·.endsWith ".pot")
  (lists.map fun p => ⟨Text.substitute ".pot" "" (Path.name p), p⟩).mergeSort Pot.atMost

def potsText (pots : List Pot) : String :=
  "[" ++ ", ".intercalate (pots.map fun p =>
    "(" ++ Text.quote p.version ++ ", " ++ Text.quote p.path ++ ")") ++ "]"

def potHeader : String := "msgid \"\"\nmsgstr \"\"\n"

/-- The bytes of a list that begins with the header, given its bytes and its text. The header is
written over the old bytes, and what is behind the new text stays. -/
def withHeader (bytes : List UInt8) (text : String) : List UInt8 :=
  if text.startsWith potHeader then bytes
  else
    let new := Text.encode (potHeader ++ text)
    new ++ bytes.drop new.length

end WikiFeed.History

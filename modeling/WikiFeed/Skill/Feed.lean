import WikiFeed.Record.Visit
import WikiFeed.Site.Basic
import WikiFeed.Skill.Encode

/-! # The skill trees of all characters

Each character with a skill script gets a file with the skills in it. A skill whose icon is on the
wiki gets the address of the icon. The scripts of one run share the stubs, with all members that any
of them has asked for, and the addresses of the icons that were found. -/

namespace WikiFeed.Skill

open WikiFeed.Lua
open WikiFeed.Record (Machine Eval fail member setMember inCall visit)

def scriptPath : String := "scripts/prefabs/skilltree_w"

def characterOf (path : String) : String :=
  (((path.splitOn "_").getLast?.getD "").splitOn ".").headD ""

def fileName (character : String) : String := "skilltree_" ++ character ++ ".json"

/-- What the scripts of one run share, and the files so far: the objects, the addresses of the icons
that were found, and the texts of the files by their names. -/
structure Run where
  store : Store
  icons : Table
  files : List (String × String)

def stubs : List (String × Value) :=
  Record.skillStubs.zipIdx.map fun p => (p.1, .object .stub p.2)

def Run.start : Run :=
  ⟨⟨(Record.skillStubs.map fun n => Cell.stub .empty (.str n) none).toArray⟩, .empty, []⟩

def start (s : Store) : Machine := { (default : Machine) with store := s, reports := true }

def builder : Eval (Block × Record.ScopeId) := do
  let m ← get
  match m.script with
  | none => fail .kind
  | some i =>
    match (Record.varsOf m.scopes i).get? (.str "BuildSkillsData") with
    | none => fail .key
    | some (.func f) =>
      match m.closures.lookup f.label with
      | some scope => return (f.body, scope)
      | none => fail .member
    | some (.object .table _) => fail .kind
    | some _ => fail .member

def skillsOf (source : String) : Eval Value := do
  Record.bindAll Record.skillLibrary
  Record.bindStubs stubs
  Record.runSource source
  let (body, scope) ← builder
  inCall scope do
    let _ ← visit (.block body)
  member (← get).result (.str "SKILLS")

def hasIcon (skill : Value) : Eval Bool := do
  let m ← get
  match skill with
  | .object .table r | .object .dict r => return (m.store.table r).contains (.str "icon")
  | .str t => return Text.occurs "icon" t
  | .tuple xs => return xs.any fun v => v.plainEq (.str "icon")
  | .object .list r =>
    match m.store.cell r with
    | .list xs => return xs.any fun v => v.plainEq (.str "icon")
    | _ => return false
  | _ => fail .kind

/-- Adds the address of its icon to a skill. The wiki is asked for icons that have not been found
before. Gives the addresses of the icons found so far. -/
def addIcon (site : Site) (icons : Table) (skill : Value) : Eval Table := do
  if ← hasIcon skill then
    let icon ← member skill (.str "icon")
    if !icon.isKey then fail .kind
    match icons.get? icon with
    | some url =>
      setMember skill (.str "icon_url") url
      return icons
    | none =>
      let name ← Record.lift (display Record.style (← get).store icon)
      match site.urls.lookup (name ++ ".png") with
      | some url =>
        setMember skill (.str "icon_url") (.str url)
        return icons.put icon (.str url)
      | none => return icons
  else return icons

def skillsWithIcons (site : Site) (icons : Table) (source : String) : Eval (Value × Table) := do
  let skills ← skillsOf source
  match skills with
  | .object .table r | .object .dict r =>
    return (skills, ← (← Record.tableOf r).values.foldlM (addIcon site) icons)
  | .object .stub _ => fail .kind
  | _ => fail .member

def faultOf : Record.Signal → Fault
  | .fault f => f
  | .ret => .strayReturn

/-- Adds the file for one script. A file that is cut short by a fault is kept. -/
def addFile (site : Site) (book : Option Phrasebook) (run : Run) (path : String)
    (bytes : List UInt8) : Run × Option Fault :=
  match Text.decode? bytes with
  | none => (run, some .undecodable)
  | some source =>
    match skillsWithIcons site run.icons source (start run.store) with
    | .error e _ => (run, some (faultOf e))
    | .ok (skills, icons) m =>
      let put (text : String) : Run :=
        ⟨m.store, icons, Phrasebook.put run.files (fileName (characterOf path)) text⟩
      match write m.store book (.indented 4) skills "" with
      | .ok _ text => (put text, none)
      | .error f text => (put text, some f)

def addFiles (site : Site) (book : Option Phrasebook) :
    Run → List (String × List UInt8) → Run × Option Fault
  | run, [] => (run, none)
  | run, (path, bytes) :: rest =>
    match addFile site book run path bytes with
    | (run, none) => addFiles site book run rest
    | failed => failed

def scripts (archive : Archive) : List (String × List UInt8) :=
  archive.members.filter fun m => m.1.startsWith scriptPath

def runAll (archive : Archive) (site : Site) : Run × Option Fault :=
  addFiles site (some (Phrasebook.scan archive false).1) .start (scripts archive)

def feed (archive : Option Archive) (site : Site) : List (String × String) × Option Fault :=
  match archive with
  | none => ([], some .missingFile)
  | some a =>
    let (run, fault) := runAll a site
    (run.files, fault)

end WikiFeed.Skill

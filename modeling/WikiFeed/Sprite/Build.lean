import WikiFeed.Atlas.Page
import WikiFeed.Picture.Resize
import WikiFeed.Places
import WikiFeed.Region.Tree
import WikiFeed.Sprite.Bank
import WikiFeed.Sprite.BuildFile
import WikiFeed.Sprite.Geometry

/-! # Builds

A build is known by the content of its file, by its data, and by pictures: those of its frames, and
the atlas pages that hold them. Frames are gathered on pages, with the corners that show them, and
are cut from pages along those corners. -/

namespace WikiFeed.Sprite

/-- A picture of a frame or a page: how far it was moved when it was trimmed, and whether it can
still be used. -/
structure Cutout where
  picture : Picture
  offset : Option (Int × Int)
  closed : Bool

namespace Cutout

def ofPicture (p : Picture) : Cutout := ⟨p, none, false⟩

def opened (c : Cutout) : Result Picture := if c.closed then .error .value else .ok c.picture

def close (c : Cutout) : Cutout := { c with closed := true }

end Cutout

abbrev Portraits := List (String × Cutout)

def Portraits.put (ps : Portraits) (name : String) (c : Cutout) : Portraits :=
  Places.put ps name c

/-- A build: the content of its file, its data, its pictures and pages, and the folder in which it
works. -/
structure Build where
  content : Option Bytes
  data : Members
  portraits : Portraits
  pages : List Cutout
  workFolder : String

/-- Work on a build, with notes. What is done before a fault stays. -/
abbrev Building := EStateM Fault (Build × List String)

namespace Building

def lift {α : Type} (r : Result α) : Building α :=
  match r with
  | .ok a => pure a
  | .error e => throw e

def build : Building Build := do return (← get).1

def change (f : Build → Build) : Building Unit := modify fun s => (f s.1, s.2)

def note (line : String) : Building Unit := modify fun s => (s.1, s.2 ++ [line])

def put (name : String) (d : Datum) : Building Unit :=
  change fun b => { b with data := Datum.put b.data (.str name) d }

def member (name : String) : Building Datum := do lift (named (.dict (← build).data) name)

def portray (name : String) (c : Cutout) : Building Unit :=
  change fun b => { b with portraits := b.portraits.put name c }

def portrait (name : String) : Building Cutout := do
  match (← build).portraits.lookup name with
  | some c => return c
  | none => throw .key

def frameName (symbol : Datum) (frame : Datum) : Building String := do
  return display symbol ++ "-" ++ display (← lift (named frame "framenum"))

def corner (frame : Datum) (place size : String) : Building Datum := do
  let p ← lift (named frame place)
  let s ← lift (named frame size)
  lift (do minus p (← floorOver s (.int 2)))

/-! ### Gathering frames on pages -/

def trimBlock : Int := 32

def pageLimit : Number := .int 2048

def itemOf (name : String) (t : Trimmed) : Atlas.Item Trimmed :=
  ⟨name, t.picture.width, t.picture.height, t⟩

/-- Trims the picture of a frame and adds it to the items. A picture that needs no second cut keeps
its offset, and its regions count for all items that show it. -/
def trimFrame (symbol : Datum) (items : List (Atlas.Item Trimmed)) (frame : Datum) :
    Building (List (Atlas.Item Trimmed)) := do
  let name ← frameName symbol frame
  let c ← portrait name
  let t ← lift (do (← c.opened).trim trimBlock)
  let kept := t.offset.isNone
  let t := { t with offset := t.offset.or c.offset }
  portray name ⟨t.picture, t.offset, false⟩
  let items := if kept then items.map fun i =>
    if i.name == name then itemOf name t else i else items
  return items ++ [itemOf name t]

def trimSymbol (items : List (Atlas.Item Trimmed)) (s : Datum × Datum) :
    Building (List (Atlas.Item Trimmed)) := do
  (← lift (itemsOf s.2)).foldlM (trimFrame s.1) items

structure Sheet where
  index : Nat
  width : Int
  height : Int
  boxes : List (String × Box)
  items : List (Atlas.Item Trimmed)

def sheetOf (p : Atlas.Page Trimmed × Nat) : Sheet :=
  let (w, h) := p.1.size false
  ⟨p.2, w, h, p.1.boxes, p.1.items⟩

def unitPart (x : Float) : Float :=
  let x := if x < 1.0 then x else 1.0
  if 0.0 < x then x else 0.0

def cornerDatum (x y : Datum) (u v : Float) (page : Nat) : Datum :=
  .dict [(.str "x", x), (.str "y", y), (.str "z", .int 0), (.str "u", .float u),
    (.str "v", .float v),
    (.str "w", .int page)]

def regionCorners (s : Sheet) (place : Box) (offset : Int × Int) (x0 y0 : Datum) (r : Box) :
    Result (List Datum) := do
  let left ← plus x0 (.int r.x)
  let right ← plus left (.int r.w)
  let top ← plus y0 (.int r.y)
  let bottom ← plus top (.int r.h)
  let across (n : Int) : Float := Float.ofInt n / Float.ofInt s.width
  let down (n : Int) : Float := Float.ofInt n / Float.ofInt s.height
  let u := place.x + r.x - offset.1
  let v := place.y + r.y - offset.2
  let u0 := unitPart (across u)
  let u1 := unitPart (across (u + r.w))
  let v0 := unitPart (1.0 - down v)
  let v1 := unitPart (1.0 - down (v + r.h))
  return [cornerDatum left top u0 v0 s.index, cornerDatum right top u1 v0 s.index,
    cornerDatum left bottom u0 v1 s.index, cornerDatum right top u1 v0 s.index,
    cornerDatum right bottom u1 v1 s.index, cornerDatum left bottom u0 v1 s.index]

def frameCorners (name : String) (x0 y0 : Datum) (s : Sheet) : Result (List Datum) :=
  match s.items.find? (·.name == name), s.boxes.lookup name with
  | some i, some place => do
    let t := i.content
    let offset := t.offset.getD (0, 0)
    let corners ← (t.regions.mixed ++ t.regions.solid).mapM (regionCorners s place offset x0 y0)
    return corners.flatten
  | _, _ => .ok []

def framesOf (symbol : Datum) : Building (List Datum) := do
  let symbols ← member "Symbol"
  lift (do itemsOf (← memberAt symbols symbol))

def putFrame (symbol : Datum) (i : Nat) (frame : Datum) : Building Unit := do
  let frames ← framesOf symbol
  let entries ← lift (entriesOf (← member "Symbol"))
  put "Symbol" (.dict (Datum.put entries symbol (.list (frames.set i frame))))

/-- Adds the corners of a frame to those in the data and tells the frame where they are. -/
def showFrame (sheets : List Sheet) (symbol : Datum) (f : Datum × Nat) : Building Unit := do
  let name ← frameName symbol f.1
  let x0 ← corner f.1 "x" "w"
  let y0 ← corner f.1 "y" "h"
  let more ← lift (sheets.mapM (frameCorners name x0 y0))
  let corners ← lift (itemsOf (← member "Vert"))
  let entries ← lift (entriesOf f.1)
  let entries := Datum.put entries (.str "alphaidx") (.int corners.length)
  let entries := Datum.put entries (.str "alphacount") (.int more.flatten.length)
  putFrame symbol f.2 (.dict entries)
  put "Vert" (.list (corners ++ more.flatten))

def showSymbol (sheets : List Sheet) (symbol : Datum) : Building Unit := do
  (← framesOf symbol).zipIdx.forM (showFrame sheets symbol)

def symbolOrder (symbols : Datum) : Result (List Datum) := do
  let coded ← (← itemsOf symbols).mapM fun s => do return (← nameCode (← textOf s), s)
  return (coded.mergeSort fun a b => decide (a.1 ≤ b.1)).map (·.2)

def scaledPage (scale : Number) (p : Picture) : Result Cutout := do
  let side (n : Nat) : Result Int := calculated do
    let x ← ((Number.int n).mul scale)
    match x with
    | .int n => .ok n
    | .float x => match Decimal.ceil? x with
      | some n => .ok n
      | none => .error (if x.isNaN then .domain else .overflow)
  let w ← side p.width
  let h ← side p.height
  if w < 1 || h < 1 then .error .value
  else return .ofPicture (p.resize .lobes w.toNat h.toNat)

def gatherWith (roomOf : Number → List (Nat × Nat) → Result Atlas.Room) (name : String) :
    Building Unit := do
  let symbols ← member "Symbol"
  let items ← (← lift (entriesOf symbols)).foldlM trimSymbol []
  let scale ← member "scale"
  let number ← lift (numberOf scale)
  let pages ← lift (Atlas.packWith (roomOf number) items)
  put "Vert" (.list [])
  (← lift (symbolOrder symbols)).forM (showSymbol (pages.zipIdx.map sheetOf))
  change fun b => { b with pages := [] }
  put "Atlas" (.list [])
  let pictures ← lift (pages.mapM fun p => scaledPage number (p.picture (·.picture) false))
  change fun b => { b with pages := pictures }
  put "Atlas" (.list (pages.zipIdx.map fun p => .str (name ++ "-" ++ toString p.2 ++ ".tex")))

def gather : String → Building Unit := gatherWith (Atlas.roomFor pageLimit)

/-! ### Cutting frames from pages -/

/-- A position counted from the end if it is negative, inside of a list. -/
def position (n : Int) (size : Nat) : Nat :=
  if n < 0 then (n + size).toNat else min n.toNat size

def slice {α : Type} (xs : List α) (start stop : Int) : List α :=
  let a := position start xs.length
  (xs.take (position stop xs.length)).drop a

def wholeOf : Datum → Result Int
  | .int n => .ok n
  | .bool b => .ok (if b then 1 else 0)
  | _ => .error .kind

def blankPicture (w h : Datum) : Result Picture := do
  if (← below w (.int 0)) || (← below h (.int 0)) then .error .value
  else return Picture.blank (← wholeOf w).toNat (← wholeOf h).toNat

def groups (corners : List Datum) : List (List Datum) :=
  match corners with
  | [] => []
  | c :: rest => (c :: rest.take 5) :: groups (rest.drop 5)
termination_by corners.length
decreasing_by
  rw [List.length_drop, List.length_cons]
  omega

def ofEach (regions : List (List Datum)) (i : Nat) (name : String) : Result (List Datum) :=
  regions.mapM fun r => match r[i]? with
    | some c => named c name
    | none => .error .position

def truncated (d : Datum) : Result Int :=
  match d with
  | .str s => match Decimal.readInt? s with
    | some n => .ok n
    | none => .error .value
  | d => do calculated (← numberOf d).truncate

def nearestWhole (d : Datum) : Result Int := do
  match ← numberOf d with
  | .int n => return n
  | .float x => match Decimal.roundEven? x with
    | some n => return n
    | none => .error (if x.isNaN then .value else .overflow)

def cropped (p : Picture) (left top right bottom : Datum) : Result Picture := do
  if (← below right left) || (← below bottom top) then .error .value
  else
    let left ← nearestWhole left
    let top ← nearestWhole top
    let right ← nearestWhole right
    return p.crop left top right (← nearestWhole bottom)

abbrev Ratios := Datum × Int

def distance (a b : Datum) : Result Int := do roundWhole (← numberOf (← minus a b))

def cutPage (page : Picture) (us vs : List Datum) : Result Picture := do
  let left ← times (← least us) (.int page.width)
  let top ← times (← minus (.int 1) (← greatest vs)) (.int page.height)
  let right ← times (← greatest us) (.int page.width)
  let bottom ← times (← minus (.int 1) (← least vs)) (.int page.height)
  cropped page left top right bottom

def fitted (ratios : Ratios) (p : Picture) (w h : Int) : Result (Picture × Ratios) := do
  if (p.width : Int) == w && (p.height : Int) == h then return (p, ratios)
  else
    let sum ← plus (← dividedBy (.int p.width) (.int w)) (← dividedBy (.int p.height) (.int h))
    let ratios := (← plus ratios.1 sum, ratios.2 + 2)
    if w < 1 || h < 1 then .error .value
    else return (p.resize .cubic w.toNat h.toNat, ratios)

def cutFrame (symbol : Datum) (ratios : Ratios) (frame : Datum) : Building Ratios := do
  let name ← frameName symbol frame
  let all ← lift (itemsOf (← member "Vert"))
  let start ← lift (do wholeOf (← named frame "alphaidx"))
  let n ← lift (do wholeOf (← named frame "alphacount"))
  let corners := slice all start (start + n)
  let x0 ← corner frame "x" "w"
  let y0 ← corner frame "y" "h"
  let w ← lift (named frame "w")
  let h ← lift (named frame "h")
  let us ← lift (corners.mapM (named · "u"))
  let flat ← lift (if us.isEmpty then .ok true
    else do return (← greatest us).same (← least us))
  if flat then
    portray name (.ofPicture (← lift (blankPicture w h)))
    return ratios
  let regions := groups corners
  let left ← lift (do least (← ofEach regions 0 "x"))
  let right ← lift (do greatest (← ofEach regions 1 "x"))
  let top ← lift (do least (← ofEach regions 0 "y"))
  let bottom ← lift (do greatest (← ofEach regions 2 "y"))
  let rx ← lift (distance left x0)
  let ry ← lift (distance top y0)
  let rw ← lift (distance right left)
  let rh ← lift (distance bottom top)
  let index ← lift (do truncated (← named (corners.getD 0 .null) "w"))
  let pages := (← build).pages
  let page ← match pages[(if index < 0 then index + pages.length else index).toNat]? with
    | some p => if index < -(pages.length : Int) then throw .position else pure p
    | none => throw .position
  let vs ← lift (corners.mapM (named · "v"))
  let cut ← lift (do cutPage (← page.opened) us vs)
  let (cut, ratios) ← lift (fitted ratios cut rw rh)
  let differs (n : Nat) (d : Datum) : Bool := !(Datum.int n).same d
  if differs cut.width w || differs cut.height h then
    if ← lift (do return (← below w (.int (cut.width + rx))) ||
      (← below h (.int (cut.height + ry)))) then
      note ("Waring, can't resize " ++ name ++ " to recorded size\n")
      portray name (.ofPicture cut)
    else portray name (.ofPicture ((← lift (blankPicture w h)).paste cut rx ry))
  else portray name (.ofPicture cut)
  return ratios

/-- Cuts the frames of a symbol from their pages; the scale of the build is then the mean ratio. -/
def cutSymbol (ratios : Ratios) (symbol : Datum) : Building Ratios := do
  let ratios ← (← framesOf symbol).foldlM (cutFrame symbol) ratios
  put "scale" (← lift (if 0 < ratios.2 then dividedBy ratios.1 (.int ratios.2) else .ok (.int 1)))
  return ratios

def cut : Building Unit := do
  let _ ← (← lift (itemsOf (← member "Symbol"))).foldlM cutSymbol (.int 0, 0)

/-! ### Files -/

def read : Building Unit := do
  let b ← build
  match b.content with
  | none | some [] => return
  | some bs =>
    match Filling.buildFile bs b.data with
    | .ok _ data => change fun b => { b with data }
    | .error e data => do
      change fun b => { b with data }
      throw e
    if !b.pages.isEmpty then cut

def ready : Building Unit := do if (← build).data.isEmpty then read

def write : Building Unit := do
  let data := (← build).data
  if data.isEmpty then return
  match Writing.buildFile (.dict data) .empty with
  | .ok _ d => change fun b => { b with content := some d.bytes }
  | .error e d => do
    change fun b => { b with content := some d.bytes }
    throw e

def written : Building Unit := do
  match (← build).content with
  | none | some [] => write
  | some _ => return

/-! ### Merging -/

def framePlaces (frames : List Datum) : Result Members := do
  frames.zipIdx.foldlM (fun ps f => do
    return Datum.put ps (← named f.1 "framenum") (.int f.2)) []

/-- Own frames of a symbol with another frame: over the own one of its number, or behind all. -/
def mergeFrame (symbol : Datum) (places : Members) (own : List Datum) (frame : Datum) :
    Result (List Datum × List String) := do
  let number ← named frame "framenum"
  match Datum.lookup places number with
  | some (.int i) => return (own.set i.toNat frame,
      ["symbol over: " ++ display symbol ++ "-" ++ display number ++ "\n"])
  | _ => return (own ++ [frame], [])

def mergeEach (symbol : Datum) (places : Members) (own : List Datum) :
    List Datum → (List Datum × List String) × Option Fault
  | [] => ((own, []), none)
  | f :: rest =>
    match mergeFrame symbol places own f with
    | .error e => ((own, []), some e)
    | .ok (own, notes) =>
      let ((own, more), e) := mergeEach symbol places own rest
      ((own, notes ++ more), e)

/-- Own frames of a symbol with other frames, by number. What is merged before a fault is not
sorted. -/
def mergeFrames (symbol : Datum) (own other : List Datum) :
    (List Datum × List String) × Option Fault :=
  match framePlaces own with
  | .error e => ((own, []), some e)
  | .ok places =>
    match mergeEach symbol places own other with
    | ((frames, notes), some e) => ((frames, notes), some e)
    | ((frames, notes), none) =>
      match sortByKey (named · "framenum") frames with
      | .ok sorted => ((sorted, notes), none)
      | .error e => ((frames, notes), some e)

def mergeSymbol (s : Datum × Datum) : Building Unit := do
  let own ← lift (entriesOf (← member "Symbol"))
  match Datum.lookup own s.1 with
  | none => put "Symbol" (.dict (Datum.put own s.1 s.2))
  | some mine => do
    let mine ← lift (itemsOf mine)
    let ((frames, notes), e) := mergeFrames s.1 mine (← lift (itemsOf s.2))
    notes.forM note
    put "Symbol" (.dict (Datum.put own s.1 (.list frames)))
    match e with
    | some e => throw e
    | none => return

/-- Merges another build that is ready, or the build itself: the lesser scale, the other symbols and
the other pictures. An own picture that is replaced can no longer be used. -/
def merge (other : Build) (itself : Bool) : Building Unit := do
  let own ← member "scale"
  let theirs ← lift (named (.dict other.data) "scale")
  put "scale" (← lift (least [own, theirs]))
  (← lift (do entriesOf (← named (.dict other.data) "Symbol"))).forM mergeSymbol
  other.portraits.forM fun p => portray p.1 (if itself then p.2.close else p.2)

end Building

/-! ### Text -/

/-- The pieces of the text of a build, each as far as it can be written. -/
def Build.textPieces (indent : String) (data : Members) : List (Result String) :=
  let d := Datum.dict data
  let corner (c : Datum) : Result String := do
    return Bank.deep indent 2 ++ "\x7b" ++ ", ".intercalate ((← entriesOf c).map fun e =>
      "\"" ++ display e.1 ++ "\": " ++ display e.2) ++ "\x7d"
  let symbol (s : Datum × Datum) : Result String := do
    let frames ← (← itemsOf s.2).mapM fun f => do return Bank.deep indent 3 ++ (← lineText f)
    return Bank.deep indent 2 ++ "\"" ++ display s.1 ++ "\": [\n" ++ Bank.listed frames ++ "\n" ++
      Bank.deep indent 2 ++ "]"
  [ do return "\x7b\n" ++ indent ++ "\"type\": \"Build\", \"version\": " ++
      toString buildVersion.toNat ++ ", \"name\": \"" ++ display (← named d "name") ++
      "\", \"scale\": " ++ display (← named d "scale") ++ ",\n",
    do return indent ++ "\"Atlas\": [" ++
        ", ".intercalate ((← itemsOf (← named d "Atlas")).map fun a => "\"" ++ display a ++ "\"") ++
        "],\n",
    .ok (indent ++ "\"Symbol\": \x7b\n"),
    do return Bank.listed (← (← entriesOf (← named d "Symbol")).mapM symbol) ++ "\n" ++ indent ++
      "\x7d,\n",
    .ok (indent ++ "\"Vert\": [\n"),
    do return Bank.listed (← (← itemsOf (← named d "Vert")).mapM corner) ++ "\n",
    .ok (indent ++ "]\n\x7d")]

def joinPieces : List (Result String) → String × Option Fault
  | [] => ("", none)
  | .error e :: _ => ("", some e)
  | .ok s :: rest =>
    let (t, e) := joinPieces rest
    (s ++ t, e)

def Build.text (indent : String) (data : Members) : String × Option Fault :=
  joinPieces (textPieces indent data)

namespace Build

def ofBytes (bs : Bytes) (workFolder : String) : Build := ⟨some bs, [], [], [], workFolder⟩

def ofData (data : Members) (workFolder : String) : Build := ⟨none, data, [], [], workFolder⟩

def close (b : Build) : Build :=
  { b with
    portraits := b.portraits.map fun p => (p.1, p.2.close)
    pages := b.pages.map Cutout.close }

end Build

end WikiFeed.Sprite

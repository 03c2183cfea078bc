import WikiFeed.Sprite.Build
import WikiFeed.Sprite.Matrix

/-! # Writing scenes

A scene is markup for an editor of animations. It has a folder for every symbol, with a file for
every number from zero to that of the last frame, and an entity for every bank. An animation has a
timeline for every frame that is drawn at one time, with a key for every time at which it is drawn;
the keys of its main line refer to these. -/

namespace WikiFeed.Scene

open Sprite

/-! ### Folders -/

inductive Source where
  | portrait (frame : String)
  | blank

structure File where
  number : Int
  stem : String
  width : Datum
  height : Datum
  pivotX : Datum
  pivotY : Datum
  source : Source

structure Drawer where
  name : Datum
  files : List File
  fault : Option Fault

def framesByNumber (frames : Datum) : Result Members := do
  (← itemsOf frames).foldlM (fun es f => do return Datum.put es (← named f "framenum") f) []

/-- The symbols as folders. With `mapping`, a symbol that stands for another goes by its name. -/
def symbolFolders (mapping : Bool) (symbols : Members) : Result Members :=
  symbols.foldlM (fun fs s => do
    let name ← if mapping then do pure (Datum.str (swapSymbol (← textOf s.1))) else pure s.1
    return Datum.put fs name (.dict (← framesByNumber s.2))) []

def mappedPortraits (portraits : Portraits) (symbols : Members) : Result Portraits :=
  symbols.foldlM (fun ps s => do
    let name ← textOf s.1
    let other := swapSymbol name
    if other == name then return ps
    else return (← framesByNumber s.2).foldl (fun ps f =>
      match ps.lookup (name ++ "-" ++ display f.1) with
      | some c => ps.put (other ++ "-" ++ display f.1) { c with offset := none }
      | none => ps) ps) portraits

def unknownFrame (number w h : Datum) : Datum :=
  .dict [(.str "framenum", number), (.str "duration", .int 1), (.str "x", .int 0),
    (.str "y", .int 0),
    (.str "w", w), (.str "h", h)]

def addDrawn (frame : Datum) (folders : Members) (e : Datum) : Result Members := do
  let name ← named e "name"
  let own := match Datum.lookup folders name with
    | some (.dict es) => es
    | _ => []
  let number ← named e "frame"
  if (Datum.lookup own number).isSome then return Datum.put folders name (.dict own)
  else
    let w ← named frame "w"
    let side ← calculated (← numberOf (← greatest [w, .int 1])).truncate
    return Datum.put folders name (.dict (Datum.put own number
      (unknownFrame number (.int side) (.int side))))

def addAllDrawn (folders : Members) (bank : Members) : Result Members := do
  (← entriesOf (← named (.dict bank) "banks")).foldlM (fun fs b => do
    (← entriesOf b.2).foldlM (fun fs a => do
      (← itemsOf (← named a.2 "frames")).foldlM (fun fs f => do
        (← itemsOf (← named f "elements")).foldlM (addDrawn f) fs) fs) fs) folders

def firstFile (portraits : Portraits) (folder : String) (number : Int) (frame : Datum) :
    Result File := do
  let name := folder ++ "-" ++ Decimal.intText number
  let x ← named frame "x"
  let y ← named frame "y"
  let w ← named frame "w"
  let h ← named frame "h"
  let pivotX ← minus (.float 0.5) (← dividedBy x w)
  let pivotY ← plus (.float 0.5) (← dividedBy y h)
  if (portraits.lookup name).isSome then return ⟨number, name, w, h, pivotX, pivotY, .portrait name⟩
  else return ⟨number, name ++ "(missing)", w, h, pivotX, pivotY, .blank⟩

def laterFile (folder : String) (first : File) (d : Nat) : File :=
  let number := Decimal.intText first.number
  { first with
    number := first.number + d
    stem := folder ++ "-" ++ Decimal.intText (first.number + d) ++ "(duration'" ++ number ++ "')"
    source := .portrait (folder ++ "-" ++ number) }

def laterFiles (folder : String) (first : File) (frame : Datum) : Result (List File) := do
  let duration ← Building.wholeOf (← named frame "duration")
  return (List.range' 1 (duration.toNat - 1)).map (laterFile folder first)

def frameAt (frames : Members) (number : Int) : Result Datum :=
  match Datum.lookup frames (.int number) with
  | some f => .ok f
  | none => do
    let first := (frames.map (·.2)).headD .null
    return unknownFrame (.int number) (← named first "w") (← named first "h")

def filesUpTo (portraits : Portraits) (folder : String) (frames : Members) :
    List Int → List Int → List File × Option Fault
  | [], _ => ([], none)
  | n :: rest, taken =>
    if taken.contains n then filesUpTo portraits folder frames rest taken
    else
      let found : Result (Datum × File) := do
        let frame ← frameAt frames n
        return (frame, ← firstFile portraits folder n frame)
      match found with
      | .error e => ([], some e)
      | .ok (frame, first) =>
        match laterFiles folder first frame with
        | .error e => ([first], some e)
        | .ok later =>
          let (more, e) := filesUpTo portraits folder frames rest (taken ++ later.map (·.number))
          (first :: later ++ more, e)

def drawerOf (portraits : Portraits) (f : Datum × Datum) : Drawer :=
  let found : Result (String × Members × Int) := do
    let name ← textOf f.1
    let frames ← entriesOf f.2
    if frames.isEmpty then return (name, frames, -1)
    else return (name, frames, ← Building.wholeOf (← greatest (frames.map (·.1))))
  match found with
  | .error e => ⟨f.1, [], some e⟩
  | .ok (name, frames, last) =>
    let numbers := (List.range (last + 1).toNat).map Int.ofNat
    let (files, e) := filesUpTo portraits name frames numbers []
    ⟨f.1, files, e⟩

def File.toMarkup (folder : String) (f : File) : Markup :=
  .element "file" [("id", Decimal.intText f.number), ("name", folder ++ "/" ++ f.stem ++ ".png"),
    ("width", display f.width), ("height", display f.height), ("pivot_x", display f.pivotX),
    ("pivot_y", display f.pivotY)] []

def Drawer.toMarkup (d : Drawer × Nat) : Markup :=
  .element "folder" [("id", toString d.2), ("name", display d.1.name)]
    (d.1.files.map (File.toMarkup (display d.1.name)))

/-! ### Timelines -/

def threeDigits (n : Nat) : String :=
  let s := toString n
  String.ofList (List.replicate (3 - s.length) '0') ++ s

def numbered (names : List String) : List String :=
  (names.foldl (fun (done : List String × List String) n =>
    (n :: done.1, (n ++ "_" ++ threeDigits (done.1.count n)) :: done.2)) ([], [])).2.reverse

/-- The frames that are drawn at one time, with numbers for equal ones, and their layers. -/
def drawnNames (frame : Datum) : Result (List (String × Datum)) := do
  let es ← itemsOf (← named frame "elements")
  let pairs ← es.mapM fun e => do
    let name ← textOf (← named e "name")
    return (name ++ display (← named e "frame"), ← named e "layername")
  return (numbered (pairs.map (·.1))).zip (pairs.map (·.2))

def placeOf? (timelines : List (String × Datum)) (name : String) : Option Nat :=
  timelines.findIdx? (·.1 == name)

/-- Timelines with those of the frames drawn at one more time. A new one goes behind the last known
one before it, or in front of the next known one, or to the end. -/
def addTimelines (timelines : List (String × Datum)) (place : Option Nat) :
    List (String × Datum) → List (String × Datum)
  | [] => timelines
  | e :: rest =>
    match placeOf? timelines e.1, place with
    | some i, _ => addTimelines timelines (some i) rest
    | none, some i => addTimelines (timelines.insertIdx (i + 1) e) place rest
    | none, none =>
      match rest.findSome? fun r => placeOf? timelines r.1 with
      | some i => addTimelines (timelines.insertIdx i e) (some i) rest
      | none => addTimelines (timelines ++ [e]) none rest

def timelinesOf (frames : List Datum) : Result (List (String × Datum)) :=
  frames.foldlM (fun ts f => do return addTimelines ts none (← drawnNames f)) []

/-! ### Keys -/

abbrev Poses := List (String × Pose)

def degrees (angle : Number) : Result Float := do
  let x ← calculated angle.toFloat
  let x := if angle.less (.int 0) then x + 2.0 * 3.141592653589793 else x
  return x * (180.0 / 3.141592653589793)

def matrixOf (e : Datum) : Result Matrix := do
  let ms ← transformNames.mapM (named e)
  let m (i : Nat) : Datum := ms.getD i .null
  return ⟨[[m 0, m 2, m 4], [m 1, m 3, m 5], [.int 0, .int 0, .int 1]]⟩

def folderId (folders : List String) (name : String) : Result String :=
  match folders.findIdx? (· == name) with
  | some i => .ok (toString i)
  | none => .error .member

def depthOf (total index : Nat) : String := Decimal.intText ((total : Int) - 1 - index)

/-- What a time of an animation leaves: the reference in the main line, the key and its timeline. -/
structure Drawn where
  reference : Markup
  timeline : String
  key : Markup

def drawnOf (folders : List String) (timelines : List (String × Datum)) (index : Nat)
    (time : Datum) (total : Nat) (poses : Poses) (e : (Datum × String) × Nat) :
    Result (Poses × Drawn) := do
  let m ← matrixOf e.1.1
  let name := e.1.2
  let known := poses.lookup name
  let (pose, spin) ← Pose.ofMatrix m (known.getD .rest) known.isNone
  let angle ← degrees pose.angle
  let (x, y) := m.place
  let file ← named e.1.1 "frame"
  let folder ← folderId folders (← textOf (← named e.1.1 "name"))
  let object := Markup.element "object" [("folder", folder), ("file", display file),
    ("x", display x), ("y", display (← negative y)), ("scale_x", pose.scaleX.text),
    ("scale_y", pose.scaleY.text), ("angle", Decimal.text angle)] []
  let key := Markup.element "key" [("id", toString index), ("time", display time),
    ("spin", Decimal.intText spin)] [object]
  let reference := Markup.element "object_ref" [("id", toString e.2),
    ("timeline", toString ((placeOf? timelines name).getD 0)), ("key", toString index),
    ("z_index", depthOf total e.2)] []
  return ((name, pose) :: poses, ⟨reference, name, key⟩)

/-- Goes through a list with a state, and keeps what each step leaves. -/
def through {σ α β : Type} (step : σ → α → Result (σ × β)) : σ → List α → Result (σ × List β)
  | s, [] => .ok (s, [])
  | s, a :: rest => do
    let (s, b) ← step s a
    let (s, bs) ← through step s rest
    return (s, b :: bs)

def timeOf (folders : List String) (timelines : List (String × Datum)) (duration : Datum)
    (poses : Poses) (f : Datum × Nat) : Result (Poses × Markup × List Drawn) := do
  let es ← itemsOf (← named f.1 "elements")
  let names ← drawnNames f.1
  let time ← times (.int f.2) duration
  let (poses, drawn) ← through (drawnOf folders timelines f.2 time es.length) poses
    (es.zip (names.map (·.1))).zipIdx
  return (poses, .element "key" [("id", toString f.2), ("time", display time)]
    (drawn.map (·.reference)), drawn)

def animationMarkup (folders : List String) (a : (Datum × Datum) × Nat) : Result Markup := do
  let data := a.1.2
  let duration ← floorOver (.int 1000) (← named data "framerate")
  let length ← times duration
    (← greatest [.int 1, ← minus (← named data "numframes") (.int 1)])
  let frames ← itemsOf (← named data "frames")
  let timelines ← timelinesOf frames
  let (_, keys) ← through (timeOf folders timelines duration) [] frames.zipIdx
  let drawn := keys.flatMap (·.2)
  let titles := numbered (timelines.map fun t => display t.2)
  let lines := (timelines.zip titles).zipIdx.map fun t =>
    Markup.element "timeline" [("id", toString t.2), ("name", t.1.2)]
      ((drawn.filter (·.timeline == t.1.1.1)).map (·.key))
  return .element "animation" [("id", toString a.2), ("name", display a.1.1),
    ("length", display length)] (.element "mainline" [] (keys.map (·.1)) :: lines)

def entityMarkup (folders : List String) (b : (Datum × Datum) × Nat) : Result Markup := do
  let animations ← (← entriesOf b.1.2).zipIdx.mapM (animationMarkup folders)
  return .element "entity" [("id", toString b.2), ("name", display b.1.1)] animations

def markupOf (drawers : List Drawer) (bank : Members) : Result Markup := do
  let names := drawers.map fun d => display d.name
  let entities ← (← entriesOf (← named (.dict bank) "banks")).zipIdx.mapM (entityMarkup names)
  return .element "spriter_data" [("scml_version", "1.0"), ("generator", "BrashMonkey Spriter"),
    ("generator_version", "b5")] (drawers.zipIdx.map Drawer.toMarkup ++ entities)

end WikiFeed.Scene

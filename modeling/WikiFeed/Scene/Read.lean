import WikiFeed.Folder.Path
import WikiFeed.Markup.Reader
import WikiFeed.Sprite.Bank
import WikiFeed.Sprite.BuildFile
import WikiFeed.Sprite.Matrix

/-! # Reading scenes

The folders of a scene become the symbols of a build, and its entities become banks. Files that are
marked as missing leave nothing, and a file that is marked with the number of a frame makes that
frame last longer. -/

namespace WikiFeed.Scene

open Sprite

/-- Reading a scene, with notes. What is noted before a fault stays. -/
abbrev Reading := EStateM Fault (List String)

def lift {α : Type} (r : Result α) : Reading α :=
  match r with
  | .ok a => pure a
  | .error e => throw e

def note (line : String) : Reading Unit := modify (· ++ [line])

/-! ### Attributes -/

def attributeOf (m : Markup) (name : String) : Result String :=
  match m.get? name with
  | some s => .ok s
  | none => .error .member

def wholeAttribute (m : Markup) (name : String) (default : Option Int) : Result Int :=
  match m.get? name, default with
  | some s, _ => match Decimal.readInt? s with
    | some n => .ok n
    | none => .error .value
  | none, some n => .ok n
  | none, none => .error .kind

def doubleAttribute (m : Markup) (name : String) (default : Option Float) : Result Float :=
  match m.get? name, default with
  | some s, _ => match Decimal.readFloat? s with
    | some x => .ok x
    | none => .error .value
  | none, some x => .ok x
  | none, none => .error .kind

/-! ### Symbols -/

structure SymbolFrame where
  number : Int
  duration : Int
  x : Datum
  y : Datum
  w : Int
  h : Int

def SymbolFrame.toDatum (f : SymbolFrame) : Datum :=
  .dict [(.str "framenum", .int f.number), (.str "duration", .int f.duration), (.str "x", f.x),
    (.str "y", f.y), (.str "w", .int f.w), (.str "h", .int f.h)]

def durationMark? : List Char → Option (List Char)
  | [] => none
  | c :: r =>
    let word := "duration'".toList
    let rest := (c :: r).drop word.length
    match word.isPrefixOf (c :: r), rest with
    | true, x :: more =>
      let inner := more.takeWhile fun c => c != '\'' && c != '\n'
      if x != '\n' && (more.drop inner.length).head? == some '\'' then some (x :: inner)
      else durationMark? r
    | _, _ => durationMark? r

def firstNumber (cs : List Char) : Result Int :=
  match (cs.dropWhile fun c => !Text.isDecimalDigit c).takeWhile Text.isDecimalDigit with
  | [] => .error .position
  | ds => match Decimal.readInt? (String.ofList ds) with
    | some n => .ok n
    | none => .error .value

def prolong (number : Int) : List SymbolFrame → List SymbolFrame
  | [] => []
  | f :: rest =>
    if f.number == number then { f with duration := f.duration + 1 } :: rest
    else f :: prolong number rest

/-- What the files of a folder leave: frames, paths of pictures by the names of the frames, and the
numbers that are taken. -/
structure Shelf where
  frames : List SymbolFrame
  paths : List (String × String)
  taken : List Int

def frameOf (file : Markup) (number duration : Int) : Result SymbolFrame := do
  let w ← wholeAttribute file "width" none
  let h ← wholeAttribute file "height" none
  let pivotX ← doubleAttribute file "pivot_x" (some 0.0)
  let x ← minus (.int (w.fdiv 2)) (← times (.float pivotX) (.int w))
  let pivotY ← doubleAttribute file "pivot_y" (some 0.0)
  let y ← minus (.int (h.fdiv 2)) (← times (.float pivotY) (.int h))
  return ⟨number, duration, x, ← negative y, w, h⟩

def addFile (root symbol : String) (s : Shelf) (file : Markup) : Result Shelf := do
  let number ← wholeAttribute file "id" (some 0)
  if s.taken.contains number then return s
  else
    let duration ← wholeAttribute file "duration" (some 1)
    let taken := s.taken ++ (List.range' 1 (duration.toNat - 1)).map fun (i : Nat) => number + i
    let name ← attributeOf file "name"
    match durationMark? name.toList with
    | some mark => return { s with frames := prolong (← firstNumber mark) s.frames, taken }
    | none =>
      let frame ← frameOf file number duration
      return ⟨s.frames ++ [frame],
        s.paths ++ [(symbol ++ "-" ++ Decimal.intText number, Path.join root name)], taken⟩

structure Symbols where
  frames : List (String × List SymbolFrame)
  paths : List (String × String)

def addFolder (root : String) (s : Symbols) (folder : Markup) : Reading Symbols := do
  let name := Text.lower (← lift (attributeOf folder "name"))
  note ("build symbol: " ++ name ++ "\n")
  let files ← lift ((folder.findAll "file").filterM fun f => do
    return !Text.occurs "(missing)" (← attributeOf f "name"))
  if files.isEmpty then return s
  else
    let shelf ← lift (files.foldlM (addFile root name) ⟨[], [], []⟩)
    return ⟨Places.put s.frames name shelf.frames,
      shelf.paths.foldl (fun ps p => Places.put ps p.1 p.2) s.paths⟩

def symbolsOf (path : String) (scene : Markup) : Reading Symbols :=
  (scene.findAll "folder").foldlM (addFolder (Path.folder path)) ⟨[], []⟩

def Symbols.toMembers (s : Symbols) (name : String) (scale : Datum) : Members :=
  [(.str "type", .str "Build"), (.str "version", .int buildVersion.toNat), (.str "name", .str name),
    (.str "scale", scale), (.str "Symbol", .dict (s.frames.map fun e =>
      (.str e.1, .list (e.2.map SymbolFrame.toDatum))))]

def buildOf (path : String) (scene : Markup) (scale : Datum) :
    Reading (Members × List (String × String)) := do
  let s ← symbolsOf path scene
  return (s.toMembers (Path.stem (Path.name path)) scale, s.paths)

/-! ### Banks -/

def frameRate : Int := 30

def frameTime : Int := 1000 / frameRate

def childWith? (m : Markup) (tag name : String) (value : Option String) : Option Markup :=
  (m.findAllWith tag name (value.getD "None")).head?

def found (m : Option Markup) : Result Markup :=
  match m with
  | some m => .ok m
  | none => .error .member

/-- A text without an underscore and digits at its end. -/
def withoutNumber (s : String) : String :=
  let cs := s.toList.reverse
  let (feed, cs) := match cs with
    | '\n' :: r => (['\n'], r)
    | cs => ([], cs)
  let digits := cs.takeWhile Text.isDecimalDigit
  match digits, cs.drop digits.length with
  | _ :: _, '_' :: r => String.ofList (feed ++ r).reverse
  | _, _ => s

/-- What a reference of the main line leads to: its timeline, the object there, and the folder and
the file of that. -/
structure Referred where
  timeline : Markup
  object : Markup
  file : Markup

def follow (scene animation reference : Markup) : Result Referred := do
  let timeline ← found (childWith? animation "timeline" "id" (reference.get? "timeline"))
  let key ← found (childWith? timeline "key" "id" (reference.get? "key"))
  let object ← found (key.find? "object")
  let folders := scene.findAllWith "folder" "id" ((object.get? "folder").getD "None")
  let file ← found (folders.findSome? fun f => childWith? f "file" "id" (object.get? "file"))
  return ⟨timeline, object, file⟩

def cornersAt (x y px py w h : Datum) : Result (List (Datum × Datum)) := do
  let left ← minus x (← times px w)
  let right ← plus x (← times (← minus (.int 1) px) w)
  let low ← minus y (← times (← minus (.int 1) py) h)
  let high ← plus y (← times py h)
  return [(left, low), (right, low), (left, high), (right, high)]

structure Placed where
  element : Datum
  place : Datum × Datum
  corners : List (Datum × Datum)

def placedOf (scene animation : Markup) (total : Nat) (reference : Markup) : Result Placed := do
  let r ← follow scene animation reference
  let o := r.object
  let px ← doubleAttribute r.file "pivot_x" none
  let py ← doubleAttribute r.file "pivot_y" none
  let w ← doubleAttribute r.file "width" none
  let h ← doubleAttribute r.file "height" none
  let folder ← found (childWith? scene "folder" "id" (some ((o.get? "folder").getD "0")))
  let name : Datum := match folder.get? "name" with
    | some s => .str s
    | none => .null
  let layer := withoutNumber ((r.timeline.get? "name").getD "")
  let number ← wholeAttribute o "file" (some 0)
  let px ← doubleAttribute o "pivot_x" (some px)
  let py ← doubleAttribute o "pivot_y" (some py)
  let x ← doubleAttribute o "x" (some 0.0)
  let y ← doubleAttribute o "y" (some 0.0)
  let sx ← doubleAttribute o "scale_x" (some 1.0)
  let sy ← doubleAttribute o "scale_y" (some 1.0)
  let angle := (← doubleAttribute o "angle" (some 0.0)) * (3.141592653589793 / 180.0)
  let z := (total : Int) - (← wholeAttribute reference "z_index" none) - 1
  let corners ← (← cornersAt (.float x) (.float y) (.float px) (.float py) (.float w)
    (.float h)).mapM
    fun c => do
      let (tx, ty) ← turned c.1 c.2 (.float x) (.float y) (.float angle)
      stretched tx ty (.float x) (.float y) (.float sx) (.float sy)
  let m ← transformation (.tuple [.float x, .float (-y)]) (.float angle)
    (.tuple [.float sx, .float sy]) (.tuple [.int 0, .int 0])
  let element := Datum.dict [(.str "name", name), (.str "frame", .int number),
    (.str "layername", .str layer), (.str "m_a", m.entry 0 0), (.str "m_b", m.entry 1 0),
    (.str "m_c", m.entry 0 1), (.str "m_d", m.entry 1 1), (.str "m_tx", m.entry 0 2),
    (.str "m_ty", m.entry 1 2), (.str "z_index", .int z)]
  return ⟨element, (.float x, .float y), corners⟩

def orZero (f : List Datum → Result Datum) (ds : List Datum) : Result Datum :=
  if ds.isEmpty then .ok (.int 0) else f ds

def mean (ds : List Datum) : Result Datum := do
  dividedBy (← ds.foldlM plus (.int 0)) (.int ds.length)

/-- The start and the size of a frame along one axis: it spans the corners, and its middle is moved
from the mean of the places. -/
def span (corners places : List Datum) : Result (Datum × Datum) := do
  let low ← orZero least corners
  let high ← orZero greatest corners
  let middle ← orZero mean places
  let size ← minus high low
  return (← minus (← dividedBy size (.int 2)) (← minus middle low), size)

def frameData (scene animation key : Markup) : Result Datum := do
  let references := key.findAll "object_ref"
  let placed ← references.mapM (placedOf scene animation references.length)
  let corners := placed.flatMap (·.corners)
  let (x, w) ← span (corners.map (·.1)) (placed.map (·.place.1))
  let (y, h) ← span (corners.map (·.2)) (placed.map (·.place.2))
  return .dict [(.str "elements", .list (placed.map (·.element))), (.str "x", x),
    (.str "y", ← negative y), (.str "w", w), (.str "h", h)]

/-- Reads the frames of an animation. The times between keys are multiples of the time that a frame
takes. -/
def framesOf (scene animation : Markup) (name : String) :
    Int → List Markup → Result (List Datum)
  | _, [] => .ok []
  | last, key :: rest => do
    let time ← wholeAttribute key "time" (some 0)
    if (time - last) % frameTime != 0 then
      .error (.check (name ++ " error, The frame duration must be " ++ Decimal.intText frameTime))
    else
      let frame ← frameData scene animation key
      return frame :: (← framesOf scene animation name time rest)

/-- How many members a frame has, which is what an animation gives as the number of its frames. -/
def frameMembers : Int := 5

def animationOf (scene : Markup) (done : Members) (animation : Markup) : Reading Members := do
  let name ← match animation.get? "name" with
    | some n => pure n
    | none => throw .kind
  note ("convert animation: " ++ name ++ "\n")
  let mainline ← lift (found (animation.find? "mainline"))
  let frames ← lift (framesOf scene animation name 0 (mainline.findAll "key"))
  let count := if frames.isEmpty then [] else [(Datum.str "numframes", Datum.int frameMembers)]
  return Datum.put done (.str name) (.dict ([(.str "framerate", .int frameRate),
    (.str "frames", .list frames)] ++ count))

def bankOf (scene : Markup) (done : Members) (entity : Markup) : Reading Members := do
  let name : Datum := match entity.get? "name" with
    | some n => .str n
    | none => .null
  let animations ← (entity.findAll "animation").foldlM (animationOf scene) []
  return Datum.put done name (.dict animations)

def banksOf (scene : Markup) : Reading Members := do
  let banks ← (scene.findAll "entity").foldlM (bankOf scene) []
  return [(.str "type", .str "Anim"), (.str "version", .int bankVersion.toNat),
    (.str "banks", .dict banks)]

end WikiFeed.Scene

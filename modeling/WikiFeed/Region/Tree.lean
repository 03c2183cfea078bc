import WikiFeed.Picture.Basic
import WikiFeed.Region.Box
import WikiFeed.Sprite.Fault

/-! # Regions of a picture

A picture is divided into quarters until a part is all clear, all opaque or not larger than a block.
The parts that are not clear, joined where they share whole edges, are the regions of the picture:
the opaque ones and those of mixed opacity. A picture is cut down to the part that its mixed regions
span. -/

namespace WikiFeed

open Sprite (Result Fault)

inductive Cover where
  | solid
  | clear
  | mixed
  /-- a part that is divided further -/
  | divided
deriving DecidableEq, Inhabited

def Cover.name : Cover → String
  | .solid => "Opaque"
  | .clear => "Empty"
  | .mixed => "Alpha"
  | .divided => "Unknown"

namespace Picture

def around? (p : Picture) (x y : Int) : Option Pixel :=
  let x := if x < 0 then x + p.width else x
  let y := if y < 0 then y + p.height else y
  if p.contains x y then some (p.pixel x.toNat y.toNat) else none

def pointsOf (b : Box) : List (Int × Int) :=
  (List.range b.h.toNat).flatMap fun (j : Nat) =>
    (List.range b.w.toNat).map fun (i : Nat) => (b.x + (i : Int), b.y + (j : Int))

def coverOf (ps : List Pixel) : Cover :=
  if ps.all fun p => Pixel.alpha p == 255 then .solid
  else if ps.all fun p => Pixel.alpha p == 0 then .clear
  else .mixed

def analyze (p : Picture) (b : Box) : Result Cover := do
  let ps ← (pointsOf b).mapM fun q =>
    match p.around? q.1 q.2 with
    | some c => .ok c
    | none => .error Fault.position
  return coverOf ps

end Picture

def Box.quarters (b : Box) : List Box :=
  let w := b.w / 2
  let h := b.h / 2
  [⟨b.x, b.y, w, h⟩, ⟨b.x + w, b.y, b.w - w, h⟩, ⟨b.x, b.y + h, w, b.h - h⟩,
    ⟨b.x + w, b.y + h, b.w - w, b.h - h⟩]

inductive RegionTree where
  | leaf (block : Cover) (box : Box)
  | node (box : Box) (quarters : List RegionTree)

namespace RegionTree

def block : RegionTree → Cover
  | .leaf b _ => b
  | .node _ _ => .divided

/-- The parts of a box, quartered `depth` times at most. A box of no more than a block's width or
height is not divided, nor is one whose quarters are all of one kind, unless they are mixed and a
further division is possible. Quarters that all turn out mixed are put together again. -/
def build (p : Picture) (blockSize : Int) : Nat → Box → Result RegionTree
  | 0, b => do return .leaf (← p.analyze b) b
  | depth + 1, b => do
    if b.w > blockSize && b.h > blockSize then
      let kinds ← b.quarters.mapM p.analyze
      let kind := kinds.headD .mixed
      let last := b.w / 2 < blockSize || b.h / 2 < blockSize
      if kinds.all (· == kind) && (kind != .mixed || last) then return .leaf kind b
      else
        let quarters ← b.quarters.mapM (build p blockSize depth)
        if quarters.all fun t => t.block == .mixed then return .leaf .mixed b
        else return .node b quarters
    else return .leaf (← p.analyze b) b

def ofPicture (p : Picture) (blockSize : Int) : Result RegionTree :=
  build p blockSize p.width ⟨0, 0, p.width, p.height⟩

def boxes (kind : Cover) : RegionTree → List Box
  | .leaf b box => if b = kind then [box] else []
  | .node _ quarters => quarters.attach.flatMap fun t => boxes kind t.1
termination_by t => sizeOf t
decreasing_by
  have := List.sizeOf_lt_of_mem t.2
  simp_wf
  omega

/-- The lines of a tree, nested parts set in by tabs: one for each part, divided ones included. -/
def printed (depth : Nat) : RegionTree → String
  | .leaf b box => String.ofList (List.replicate depth '\t') ++ b.name ++ " " ++ box.text ++ "\n"
  | .node box quarters =>
    String.ofList (List.replicate depth '\t') ++ Cover.divided.name ++ " " ++ box.text ++ "\n" ++
      String.join (quarters.attach.map fun t => printed (depth + 1) t.1)
termination_by t => sizeOf t
decreasing_by
  have := List.sizeOf_lt_of_mem t.2
  simp_wf
  omega

def text (depth : Nat) : RegionTree → String
  | .leaf b box => String.ofList (List.replicate depth '\t') ++ b.name ++ " " ++ box.text
  | .node _ quarters =>
    String.ofList (List.replicate depth '\t') ++ "->\n" ++
      "\n".intercalate (quarters.attach.map fun t => text (depth + 1) t.1)
termination_by t => sizeOf t
decreasing_by
  have := List.sizeOf_lt_of_mem t.2
  simp_wf
  omega

end RegionTree

structure Regions where
  mixed : List Box
  solid : List Box
deriving DecidableEq, Inhabited

def RegionTree.regions (t : RegionTree) : Regions where
  solid := Box.joinAll (Box.largestFirst (t.boxes .solid))
  mixed := Box.joinAll (Box.largestFirst (t.boxes .mixed))

structure Window where
  left : Int
  top : Int
  right : Int
  bottom : Int
deriving DecidableEq, Inhabited

def window? (width height : Int) (boxes : List Box) : Option Window :=
  let step (s : Window) (b : Box) : Window :=
    ⟨min s.left (min b.x width), min s.top (min b.y height),
      max s.right (min (b.x + b.w) width), max s.bottom (min (b.y + b.h) height)⟩
  let s := boxes.foldl step ⟨width, height, 0, 0⟩
  if 0 < s.right - s.left && 0 < s.bottom - s.top then some s else none

/-- A picture cut down to what its mixed regions span, with its regions, its size before, and how
far the cut moved it, if it was cut. -/
structure Trimmed where
  picture : Picture
  regions : Regions
  wholeWidth : Nat
  wholeHeight : Nat
  offset : Option (Int × Int)

def Picture.trim (p : Picture) (blockSize : Int) : Result Trimmed := do
  let regions := (← RegionTree.ofPicture p blockSize).regions
  match window? p.width p.height regions.mixed with
  | some s =>
    return ⟨p.crop s.left s.top s.right s.bottom, regions, p.width, p.height, some (s.left, s.top)⟩
  | none => return ⟨p, regions, p.width, p.height, none⟩

end WikiFeed

import WikiFeed.Atlas.Page
import WikiFeed.Json.Tagged
import WikiFeed.Picture.Tagged
import WikiFeed.Region.Tree
import WikiFeed.Sprite.Matrix

/-! # Shapes as JSON data

Boxes, poses, trimmed pictures and atlas pages, as they are reported. -/

namespace WikiFeed

def Json.ofInts (ns : List Int) : Json := .arr (ns.map .int)

def Box.ofJson (j : Json) : Box := ⟨j.intAt 0, j.intAt 1, j.intAt 2, j.intAt 3⟩

def Box.toJson (b : Box) : Json := .ofInts [b.x, b.y, b.w, b.h]

def Picture.toJsonIf (shown : Bool) (p : Picture) : Json := if shown then p.toJson true else .null

def Sprite.Pose.entries (p : Sprite.Pose) : List (Datum × Datum) :=
  [(.str "scale_x", ofNumber p.scaleX), (.str "scale_y", ofNumber p.scaleY),
    (.str "angle", ofNumber p.angle)]

def Trimmed.report (t : Trimmed) (tree : RegionTree) (shown : Bool) : List (String × Json) := [
  ("tree", .str (tree.text 0)), ("printed", .str (tree.printed 0)),
  ("alpha", .arr (t.regions.mixed.map Box.toJson)),
  ("opaque", .arr (t.regions.solid.map Box.toJson)),
  ("size", .ofInts [t.picture.width, t.picture.height]),
  ("really", .ofInts [t.wholeWidth, t.wholeHeight]),
  ("offset", match t.offset with
    | some (x, y) => .ofInts [x, y]
    | none => .arr [.null, .null]),
  ("image", t.picture.toJsonIf shown)]

def Atlas.Page.report (p : Page Picture) (name : String) (square shown : Bool)
    (list : Option Markup) : Json :=
  let (w, h) := p.size square
  .obj [("name", .str name), ("size", .ofInts [w, h]),
    ("src", .arr (p.items.map fun i => .str i.name)),
    ("boxes", .arr (p.boxes.map fun b => .arr [.str b.1, b.2.toJson])),
    ("xml", match list with
      | some m => .str (m.text false)
      | none => .null),
    ("image", (p.picture id square).toJsonIf shown)]

end WikiFeed

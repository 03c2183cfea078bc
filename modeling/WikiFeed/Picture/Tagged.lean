import WikiFeed.Json.Basic
import WikiFeed.Picture.Basic
import WikiFeed.Text.Hexadecimal

/-! # Pictures as data

A picture is described by its size, the colour that fills it and rectangles that are painted over
it. It is written as its size and the runs of equal colours, row by row. -/

namespace WikiFeed.Picture

def colourOf (j : Json) : Pixel :=
  let part (i : Nat) : UInt8 := (j.item i).asNat.toUInt8
  Pixel.ofParts (part 0) (part 1) (part 2) (part 3)

def ofJson (j : Json) : Picture :=
  let start := plain (j.get "w").asNat (j.get "h").asNat (colourOf (j.get "fill"))
  ((j.get "rects").items.foldl (fun p r =>
    p.paint (r.item 0).asInt (r.item 1).asInt (r.item 2).asNat (r.item 3).asNat
      (colourOf (r.item 4))) start).settle

def runs (ps : List Pixel) : List (Nat × Pixel) :=
  (ps.foldl (fun done p =>
    match done with
    | (n, q) :: rest => if p == q then (n + 1, q) :: rest else (1, p) :: done
    | [] => [(1, p)]) []).reverse

def toJson (colours : Bool) (p : Picture) : Json :=
  let run (r : Nat × Pixel) : Json := .arr [.int r.1, .str (Text.toHexadecimal (Pixel.parts r.2))]
  .obj ([("w", .int p.width), ("h", .int p.height)] ++
    if colours then [("runs", .arr ((runs p.toList).map run))] else [])

end WikiFeed.Picture

/-! # Pictures

A picture has a width, a height and a colour for every point inside. What lies outside is clear.
Cutting out, laying one picture over another and growing a border are maps between points. -/

namespace WikiFeed

/-- A colour with its opacity: red, green, blue and opacity in eight bits each, from the highest
bits down. -/
abbrev Pixel := UInt32

namespace Pixel

def ofParts (r g b a : UInt8) : Pixel :=
  (r.toUInt32 <<< 24) ||| (g.toUInt32 <<< 16) ||| (b.toUInt32 <<< 8) ||| a.toUInt32

def alpha (p : Pixel) : UInt8 := p.toUInt8

def clear : Pixel := 0

def parts (p : Pixel) : List UInt8 :=
  [(p >>> 24).toUInt8, (p >>> 16).toUInt8, (p >>> 8).toUInt8, p.toUInt8]

end Pixel

structure Picture where
  width : Nat
  height : Nat
  pixel : Nat → Nat → Pixel

namespace Picture

def contains (p : Picture) (x y : Int) : Bool :=
  0 ≤ x && x < p.width && 0 ≤ y && y < p.height

def colourAt (p : Picture) (x y : Int) : Pixel :=
  if p.contains x y then p.pixel x.toNat y.toNat else Pixel.clear

def plain (width height : Nat) (colour : Pixel) : Picture := ⟨width, height, fun _ _ => colour⟩

def blank (width height : Nat) : Picture := plain width height Pixel.clear

def toList (p : Picture) : List Pixel :=
  (List.range p.height).flatMap fun y => (List.range p.width).map fun x => p.pixel x y

def settle (p : Picture) : Picture :=
  let table : Thunk (Array Pixel) := Thunk.mk fun _ =>
    Array.ofFn fun (i : Fin (p.width * p.height)) => p.pixel (i.val % p.width) (i.val / p.width)
  ⟨p.width, p.height, fun x y => table.get.getD (y * p.width + x) Pixel.clear⟩

def crop (p : Picture) (left top right bottom : Int) : Picture :=
  ⟨(right - left).toNat, (bottom - top).toNat, fun x y => p.colourAt (left + x) (top + y)⟩

def paste (p q : Picture) (left top : Int) : Picture :=
  ⟨p.width, p.height, fun x y =>
    let u := (x : Int) - left
    let v := (y : Int) - top
    if q.contains u v then q.pixel u.toNat v.toNat else p.pixel x y⟩

def paint (p : Picture) (left top : Int) (width height : Nat) (colour : Pixel) : Picture :=
  p.paste (plain width height colour) left top

def same (p q : Picture) : Bool :=
  p.width == q.width && p.height == q.height && p.toList == q.toList

/-- Repeats the outermost rows, then the outermost columns, one step outward. The inner part lies
`margin` steps inside and has the given size. -/
def growRing (width height margin : Nat) (p : Picture) (i : Nat) : Picture :=
  let left : Int := margin - i
  let right : Int := margin + width + i
  let top : Int := margin - i
  let bottom : Int := (margin + height + i : Int) - 1
  let upper := p.crop left top right (top + 1)
  let lower := p.crop left bottom right (bottom + 1)
  let p := p.paste upper left (top - 1)
  let p := p.paste lower left (bottom + 1)
  let first := p.crop left (top - 1) (left + 1) (bottom + 2)
  let last := p.crop (right - 1) (top - 1) right (bottom + 2)
  let p := p.paste first (left - 1) (top - 1)
  p.paste last right (top - 1)

def expand (p : Picture) (margin : Nat) : Picture :=
  let framed := (blank (p.width + 2 * margin) (p.height + 2 * margin)).paste p margin margin
  (List.range margin).foldl (growRing p.width p.height margin) framed

end Picture

end WikiFeed

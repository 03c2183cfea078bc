import WikiFeed.Decimal.Double
import WikiFeed.Picture.Basic

/-! # Pictures in other sizes

A picture is brought to another size in one pass for each direction. A new point is a mean of the
old points around its place, weighted by a kernel that is stretched when the picture shrinks.
Weights are fractions of `2 ^ 22`, and each pass rounds to whole values. Colours are weighted by
their opacity before the passes and freed from it afterwards. -/

namespace WikiFeed.Picture

open scoped Powers

structure Kernel where
  reach : Float
  weight : Float → Float

def Kernel.cubic : Kernel where
  reach := 2.0
  weight x :=
    let x := if x < 0.0 then -x else x
    let a : Float := -0.5
    if x < 1.0 then ((a + 2.0) * x - (a + 3.0)) * x * x + 1.0
    else if x < 2.0 then (((x - 5.0) * x + 8.0) * x - 4.0) * a
    else 0.0

def wave (x : Float) : Float :=
  if x == 0.0 then 1.0
  else
    let y := x * 3.141592653589793
    y.sin / y

def Kernel.lobes : Kernel where
  reach := 3.0
  weight x := if -3.0 ≤ x && x < 3.0 then wave x * wave (x / 3.0) else 0.0

def weightDigits : Nat := 22

structure Mix where
  first : Nat
  weights : Array Int

def Kernel.mix (k : Kernel) (old new i : Nat) : Mix :=
  let ratio := old.toFloat / new.toFloat
  let stretch := if ratio < 1.0 then 1.0 else ratio
  let reach := k.reach * stretch
  let centre := (i.toFloat + 0.5) * ratio
  let whole (x : Float) : Int := (Decimal.truncate? x).getD 0
  let first := (max 0 (whole (centre - reach + 0.5))).toNat
  let stop := (min (old : Int) (whole (centre + reach + 0.5))).toNat
  let inverse := 1.0 / stretch
  let raw := (List.range (stop - first)).map fun j =>
    k.weight (((j + first).toFloat - centre + 0.5) * inverse)
  let total := raw.foldl (· + ·) 0.0
  let scaled (w : Float) : Int :=
    let w := if total != 0.0 then w / total else w
    let unit := (2 ^ weightDigits : Nat).toFloat
    if w < 0.0 then whole (-0.5 + w * unit) else whole (0.5 + w * unit)
  ⟨first, (raw.map scaled).toArray⟩

def clipped (n : Int) : UInt8 := (max 0 (min 255 n)).toNat.toUInt8

def Mix.value (m : Mix) (old : Nat → UInt8) : UInt8 :=
  let step (acc : Int × Nat) (w : Int) : Int × Nat :=
    (acc.1 + w * ((old (m.first + acc.2)).toNat : Int), acc.2 + 1)
  clipped ((m.weights.foldl step (2 ^ (weightDigits - 1), 0)).1 >>> weightDigits)

def Mix.colour (m : Mix) (old : Nat → Pixel) : Pixel :=
  let part (shift : UInt32) : UInt8 := m.value fun i => (old i >>> shift).toUInt8
  Pixel.ofParts (part 24) (part 16) (part 8) (part 0)

def weighted (p : Pixel) : Pixel :=
  let a := (Pixel.alpha p).toNat
  let part (shift : UInt32) : UInt8 :=
    let t := (p >>> shift).toUInt8.toNat * a + 128
    ((t / 256 + t) / 256).toUInt8
  Pixel.ofParts (part 24) (part 16) (part 8) (Pixel.alpha p)

def freed (p : Pixel) : Pixel :=
  let a := (Pixel.alpha p).toNat
  let part (shift : UInt32) : UInt8 := clipped (255 * (p >>> shift).toUInt8.toNat / a : Nat)
  if a = 0 ∨ a = 255 then p
  else Pixel.ofParts (part 24) (part 16) (part 8) (Pixel.alpha p)

def widened (k : Kernel) (p : Picture) (width : Nat) : Picture :=
  if width = p.width then p
  else
    let mixes := (List.range width).toArray.map (k.mix p.width width)
    settle ⟨width, p.height, fun x y => (mixes.getD x ⟨0, #[]⟩).colour fun i => p.pixel i y⟩

def heightened (k : Kernel) (p : Picture) (height : Nat) : Picture :=
  if height = p.height then p
  else
    let mixes := (List.range height).toArray.map (k.mix p.height height)
    settle ⟨p.width, height, fun x y => (mixes.getD y ⟨0, #[]⟩).colour fun i => p.pixel x i⟩

def mapPixels (f : Pixel → Pixel) (p : Picture) : Picture :=
  settle ⟨p.width, p.height, fun x y => f (p.pixel x y)⟩

def resize (k : Kernel) (p : Picture) (width height : Nat) : Picture :=
  if width = p.width ∧ height = p.height then p
  else (heightened k (widened k (p.mapPixels weighted) width) height).mapPixels freed

end WikiFeed.Picture

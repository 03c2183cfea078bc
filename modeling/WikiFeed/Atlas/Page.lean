import WikiFeed.Atlas.Place
import WikiFeed.Markup.Basic
import WikiFeed.Picture.Basic
import WikiFeed.Places
import WikiFeed.Sprite.Fault

/-! # Pages

Pictures are put onto pages, the largest first. The side of a page is a power of two by the area and
the longest side of the pictures that are left. A picture goes to the first page that has a place
for it, else to a new page. In the end a page is halved in each direction in which one half is
enough. -/

namespace WikiFeed.Atlas

open Sprite (Result Fault calculated)

/-! ### Sides -/

def nextMultiple (n target : Number) : Result Number := do
  let r ← calculated (n.mod target)
  if r.compare? (.int 0) == some .eq then return n
  else calculated (n.add (← calculated (target.sub r)))

def clamp (lower upper value : Number) : Number := lower.max (upper.min value)

/-- The least power of two that is not below a number, by logarithms. -/
def powerAbove (n : Number) : Result Number := do
  let x ← calculated n.toFloat
  if !(0.0 < x) && !x.isNaN then .error .value
  else
    let exponent := (x.log / (2.0 : Float).log).ceil
    match Decimal.truncate? exponent with
    | none => .error (if exponent.isNaN then .value else .overflow)
    | some _ =>
      let side := Float.pow 2.0 exponent
      if side.isInf then .error .overflow else return .float side

/-- The side of a page for pictures of some sizes: a power of two whose square is well above their
area and which is not below their longest side, but not above a limit, in a scale. -/
def pageSide (align limit scale : Number) (sizes : List (Nat × Nat)) : Result Float := do
  let area ← sizes.foldlM (fun tally s => calculated do
    tally.add (← (← (Number.int (s.1 * s.2 : Nat)).mul scale).mul scale)) (Number.int 0)
  let sides ← sizes.mapM fun s => calculated ((Number.int (max s.1 s.2 : Nat)).mul scale)
  let longest ← match sides with
    | [] => .error Fault.value
    | s :: rest => nextMultiple (rest.foldl Number.max s) align
  let spread ← calculated (← calculated (area.mul (.float 1.25))).toFloat
  if spread < 0.0 then .error .value
  else
    let byArea ← powerAbove (.float spread.sqrt)
    let bySide ← powerAbove longest
    calculated ((limit.min (byArea.max bySide)).quotient scale)

def Room.ofSide (side : Float) : Result Room :=
  match Decimal.floor? side, Decimal.ceil? side with
  | some inner, some outer => .ok ⟨inner, outer⟩
  | _, _ => .error (if side.isNaN then .value else .overflow)

def roomFor (limit scale : Number) (sizes : List (Nat × Nat)) : Result Room := do
  Room.ofSide (← pageSide (.int step) limit scale sizes)

/-! ### Packing -/

structure Item (α : Type) where
  name : String
  width : Nat
  height : Nat
  content : α

structure Placed (α : Type) where
  item : Item α
  box : Box

structure Page (α : Type) where
  room : Room
  placed : List (Placed α)

variable {α : Type}

def Item.size (i : Item α) : Nat × Nat := (i.width, i.height)

def largestFirst (items : List (Item α)) : List (Item α) :=
  items.mergeSort fun a b => decide (b.width * b.height ≤ a.width * a.height)

def putOnPages (room : Room) (i : Item α) : List (Page α) → Option (List (Page α))
  | [] => none
  | p :: rest =>
    match place? room i.width i.height (p.placed.map (·.box)) with
    | some box => some ({ p with placed := p.placed ++ [⟨i, box⟩] } :: rest)
    | none => (putOnPages room i rest).map (p :: ·)

/-- Puts items on pages. The room in which places are searched is that of the latest page. -/
def putAll (roomOf : List (Nat × Nat) → Result Room) (first room : Room) (pages : List (Page α)) :
    List (Item α) → Result (List (Page α))
  | [] => .ok pages
  | i :: rest => do
    if (i.width : Int) > first.inner || (i.height : Int) > first.inner then .error .oversize
    else match putOnPages room i pages with
      | some pages => putAll roomOf first room pages rest
      | none =>
        let room ← roomOf ((i :: rest).map Item.size)
        let page : Page α := ⟨room, [⟨i, ⟨0, 0, i.width, i.height⟩⟩]⟩
        putAll roomOf first room (pages ++ [page]) rest

/-- Puts items on pages whose rooms are found by a rule for the items that are left. -/
def packWith (roomOf : List (Nat × Nat) → Result Room) (items : List (Item α)) :
    Result (List (Page α)) := do
  let room ← roomOf (items.map Item.size)
  putAll roomOf room room [⟨room, []⟩] (largestFirst items)

def pack (limit scale : Number) (items : List (Item α)) : Result (List (Page α)) :=
  packWith (roomFor limit scale) items

/-! ### Finished pages -/

def Page.extent (p : Page α) : Int × Int :=
  p.placed.foldl (fun e i => (max e.1 (i.box.x + i.box.w), max e.2 (i.box.y + i.box.h))) (0, 0)

def Page.size (p : Page α) (square : Bool) : Int × Int :=
  let side := p.room.inner
  if square then (side, side)
  else
    let e := p.extent
    (if e.1 ≤ side / 2 then side / 2 else side, if e.2 ≤ side / 2 then side / 2 else side)

def Page.boxes (p : Page α) : List (String × Box) :=
  Places.lastByKey (p.placed.map fun i => (i.item.name, i.box))

def Page.items (p : Page α) : List (Item α) :=
  p.placed.foldl (fun done i =>
    if done.any fun d => d.name == i.item.name then done else done ++ [i.item]) []

def Page.picture (pictureOf : α → Picture) (square : Bool) (p : Page α) : Picture :=
  let size := p.size square
  p.placed.foldl (fun page i => page.paste (pictureOf i.item.content) i.box.x i.box.y)
    (Picture.blank size.1.toNat size.2.toNat)

/-- The element that tells where a picture is on a page, from 0 to 1 in each direction, upward. Its
edges are moved inward by an amount. -/
def elementOf (width height : Int) (inset : Number) (nameStart : String) (e : String × Box) :
    Result Markup := calculated do
  let w ← (Number.int width).toFloat
  let h ← (Number.int height).toFloat
  let dx ← inset.quotient (.int width)
  let dy ← inset.quotient (.int height)
  let part (n : Int) (side : Float) : Number.Outcome Float := (Number.int n).quotient (.float side)
  let bounded (x : Float) : String := (clamp (.float 0.0) (.float 1.0) (.float x)).text
  let u1 := (← part e.2.x w) + dx
  let v1 := 1.0 - (← part (e.2.y + e.2.h) h) + dy
  let u2 := (← part (e.2.x + e.2.w) w) - dx
  let v2 := 1.0 - (← part e.2.y h) - dy
  return .element "Element" [("name", nameStart ++ e.1), ("u1", bounded u1), ("v1", bounded v1),
    ("u2", bounded u2), ("v2", bounded v2)] []

def pageList (texture : String) (width height : Int) (boxes : List (String × Box))
    (inset : Option Number) (nameStart : String) : Result Markup := do
  let inset := inset.getD (.float 0.5)
  let _ ← calculated (inset.quotient (.int width))
  let _ ← calculated (inset.quotient (.int height))
  let elements ← boxes.mapM (elementOf width height inset nameStart)
  return .element "Atlas" [] [
    .element "Texture" [("filename", texture)] [],
    .element "Elements" [] elements]

end WikiFeed.Atlas

import WikiFeed.Sprite.Wire

/-! # Bank files

A bank file holds animations: frames, and in each frame the symbols that are drawn, from front to
back, with their transformations. Names of banks, symbols and layers are codes. The facing of an
animation is a byte of its own, which in the data is an ending of the animation's name. -/

namespace WikiFeed.Sprite

open Decimal (Single)
open scoped Powers

def bankVersion : UInt32 := 4

def frameDepth : Float := 10.0

/-! ### Writing -/

def transformNames : List String := ["m_a", "m_b", "m_c", "m_d", "m_tx", "m_ty"]

def doublesOf (d : Datum) (names : List String) : Result (List Float) :=
  names.mapM fun n => do doubleOf (← named d n)

namespace Writing

def element (total : Nat) (e : Datum × Nat) : Writing Unit := do
  name (← lift (named e.1 "name"))
  whole (← lift (named e.1 "frame"))
  name (← lift (named e.1 "layername"))
  let depth := Decimal.nearest e.2 total * frameDepth - frameDepth * 0.5
  singles ((← lift (doublesOf e.1 transformNames)) ++ [depth])

def frame (f : Datum) : Writing Unit := do
  let items ← lift (do itemsOf (← named f "elements"))
  tally fun t => { t with symbols := t.symbols + items.length }
  let sorted ← lift (sortByKey (fun e => named e "z_index") items)
  singles (← lift (doublesOf f ["x", "y", "w", "h"]))
  count 0
  count sorted.length
  sorted.zipIdx.forM (element items.length)

def animation (bank : Datum) (a : Datum × Datum) : Writing Unit := do
  let n ← lift (do sizeOfItems (← named a.2 "frames"))
  tally fun t => { t with frames := t.frames + n }
  let (facing, stem) := splitFacing (← lift (textOf a.1))
  text stem
  put [facing]
  name bank
  singles [← lift (do doubleOf (← named a.2 "framerate"))]
  count n
  (← lift (do itemsOf (← named a.2 "frames"))).forM frame

def bank (b : Datum × Datum) : Writing Unit := do
  let n ← lift (sizeOfItems b.2)
  tally fun t => { t with animations := t.animations + n }
  (← lift (entriesOf b.2)).forM (animation b.1)

def bankHead (t : Tally) : Bytes :=
  [0x41, 0x4E, 0x49, 0x4D] ++ [bankVersion, t.symbols.toUInt32, t.frames.toUInt32, 0,
    t.animations.toUInt32].flatMap wordBytes

def bankFile (data : Datum) : Writing Unit := do
  (← lift (do entriesOf (← named data "banks"))).forM bank
  nameTable
  let t := (← get).tally
  if t.animations < 2 ^ (32 : Nat) ∧ t.frames < 2 ^ (32 : Nat) ∧ t.symbols < 2 ^ (32 : Nat) then
    modify fun d => { d with pieces := d.pieces ++ [bankHead t] }
  else throw .field

end Writing

/-! ### Reading -/

structure Element where
  name : Label
  frame : UInt32
  layer : Label
  transform : List Float
  index : Nat

structure Frame where
  bounds : List Float
  elements : List Element

structure Animation where
  name : String
  bank : UInt32
  rate : Int
  count : UInt32
  frames : List Frame

namespace Reading

def singles : Nat → Reading (List Float)
  | 0 => return []
  | n + 1 => do
    let x ← single
    return x :: (← singles n)

def element (index : Nat) : Reading Element := do
  let name ← word
  let frame ← word
  let layer ← word
  let transform ← singles 6
  let _ ← single
  return ⟨.code name, frame, .code layer, transform, index⟩

def elements : Nat → Nat → Reading (List Element)
  | 0, _ => return []
  | n + 1, index => do
    let e ← element index
    return e :: (← elements n (index + 1))

def frame : Reading Frame := do
  let bounds ← singles 4
  let events ← word
  let _ ← bytes (4 * events.toNat)
  let n ← word
  return ⟨bounds, ← elements n.toNat 0⟩

def animationHead : Reading Animation := do
  let name ← text
  let facing ← byte
  let bank ← word
  let rate ← whole (← single)
  let n ← word
  return ⟨name ++ facingEnding facing.toNat, bank, rate, n, []⟩

def animations : Nat → Bytes → List Animation × Result Bytes :=
  severalNested animationHead frame Animation.count fun a frames => { a with frames }

end Reading

/-! ### Names for codes -/

def resolveAll {α : Type} (resolve : α → α × Option Fault) : List α → List α × Option Fault
  | [] => ([], none)
  | a :: rest =>
    match resolve a with
    | (a, some e) => (a :: rest, some e)
    | (a, none) =>
      let (rest, e) := resolveAll resolve rest
      (a :: rest, e)

def Element.resolve (names : NameTable) (e : Element) : Element × Option Fault :=
  let nameOf (l : Label) : Option String := match l with
    | .code n => names.name? n
    | .name s => some s
  match nameOf e.name with
  | none => (e, some .key)
  | some n =>
    let e := { e with name := .name (Text.lower n) }
    match nameOf e.layer with
    | none => (e, some .key)
    | some l => ({ e with layer := .name l }, none)

def Frame.resolve (names : NameTable) (f : Frame) : Frame × Option Fault :=
  let (elements, e) := resolveAll (Element.resolve names) f.elements
  ({ f with elements }, e)

def Animation.resolve (names : NameTable) (a : Animation) : Animation × Option Fault :=
  let (frames, e) := resolveAll (Frame.resolve names) a.frames
  ({ a with frames }, e)

/-! ### Data -/

def doubleMembers (names : List String) (xs : List Float) : List (Datum × Datum) :=
  names.zipWith (fun n x => (.str n, .float x)) xs

def Element.toDatum (e : Element) : Datum :=
  .dict ([(.str "name", e.name.toDatum), (.str "frame", .int e.frame.toNat),
    (.str "layername", e.layer.toDatum)] ++ doubleMembers transformNames e.transform ++
    [(.str "z_index", .int e.index)])

def Frame.toDatum (f : Frame) : Datum :=
  .dict (doubleMembers ["x", "y", "w", "h"] f.bounds ++
    [(.str "elements", .list (f.elements.map Element.toDatum))])

def Animation.toDatum (a : Animation) : Datum :=
  .dict [(.str "framerate", .int a.rate), (.str "numframes", .int a.count.toNat),
    (.str "frames", .list (a.frames.map Frame.toDatum))]

def labelEntries (entries : List (Label × Datum)) : List (Datum × Datum) :=
  entries.map fun e => (e.1.toDatum, e.2)

/-- Banks of animations: of animations with one name the last one counts. -/
def groupBanks (as : List Animation) : List (Label × List (Label × Datum)) :=
  as.foldl (fun banks a =>
    let bank := (banks.lookup (.code a.bank)).getD []
    Places.put banks (.code a.bank) (Places.put bank (.name a.name) a.toDatum)) []

def banksData (banks : List (Label × List (Label × Datum))) : List (Datum × Datum) :=
  [(.str "banks", .dict (labelEntries (banks.map fun b => (b.1, .dict (labelEntries b.2)))))]

def readBankFile (content : Bytes) : List (Datum × Datum) × Option Fault :=
  match Reading.word (content.drop 20) with
  | .error e => ([], some e)
  | .ok (n, rest) =>
    let (as, r) := Reading.animations n.toNat rest
    match r with
    | .error e => (banksData (groupBanks as), some e)
    | .ok rest =>
      match Reading.word rest with
      | .error e => (banksData (groupBanks as), some e)
      | .ok (n, rest) =>
        let (names, r) := Reading.several Reading.nameEntry n.toNat rest
        let relabelled (as : List Animation) :=
          banksData (names.foldl (fun bs e => relabel bs e.1 e.2) (groupBanks as))
        match r with
        | .error e => (relabelled as, some e)
        | .ok _ =>
          let table := names.foldl (fun t e => NameTable.put t e.1 e.2) []
          let (as, e) := resolveAll (Animation.resolve table) as
          (relabelled as, e)

end WikiFeed.Sprite

import WikiFeed.Sprite.BankFile

/-! # Build files

A build file holds the symbols of a character or a thing: for every symbol its frames with their
sizes, and the corners of the triangles that show each frame on the atlas pages. Symbols are written
in the order of their codes. -/

namespace WikiFeed.Sprite

def buildVersion : UInt32 := 6

def cornerNames : List String := ["x", "y", "z", "u", "v", "w"]

/-! ### Writing -/

def singleOf (d : Datum) : Result Decimal.Single :=
  match (numberOf? d).map Number.toFloat with
  | some (.ok x) => Writing.narrowed x
  | _ => .error .field

def nameText (d : Datum) : Result String :=
  match d with
  | .str s => .ok s
  | _ => .error .member

namespace Writing

def symbolFrame (f : Datum) : Writing Unit := do
  whole (← lift (named f "framenum"))
  whole (← lift (named f "duration"))
  let bounds ← lift (["x", "y", "w", "h"].mapM (named f))
  put ((← lift (bounds.mapM singleOf)).flatMap wordBytes)
  whole (← lift (named f "alphaidx"))
  whole (← lift (named f "alphacount"))

def symbol (symbols : Datum) (code : UInt32) : Writing Unit := do
  word code
  let name := ((← get).names.name? code).getD ""
  let frames ← lift (named symbols name)
  count (← lift (sizeOfItems frames))
  (← lift (itemsOf frames)).forM symbolFrame

def pageName (a : Datum) : Writing Unit := do
  let _ ← lift (sizeOfItems a)
  text (← lift (nameText a))

def corner (c : Datum) : Writing Unit := do singles (← lift (doublesOf c cornerNames))

def buildFile (data : Datum) : Writing Unit := do
  put ([0x42, 0x49, 0x4C, 0x44] ++ wordBytes buildVersion)
  let symbols ← lift (named data "Symbol")
  count (← lift (sizeOfItems symbols))
  let sizes ← lift (do (← entriesOf symbols).mapM fun e => sizeOfItems e.2)
  count (sizes.foldl (· + ·) 0)
  text (← lift (do nameText (← named data "name")))
  let pages ← lift (do itemsOf (← named data "Atlas"))
  count pages.length
  pages.forM pageName
  let codes ← (← lift (itemsOf symbols)).mapM code
  (codes.mergeSort fun a b => decide (a ≤ b)).forM (symbol symbols)
  let corners ← lift (do itemsOf (← named data "Vert"))
  count corners.length
  corners.forM corner
  nameTable

end Writing

/-! ### Reading -/

namespace Reading

def symbolFrame : Reading Datum := do
  let number ← word
  let duration ← word
  let x ← single
  let y ← single
  let w ← single
  let h ← single
  let first ← word
  let corners ← word
  return .dict [(.str "framenum", .int number.toNat), (.str "duration", .int duration.toNat),
    (.str "x", .float x), (.str "y", .float y), (.str "w", .int (← whole w)),
    (.str "h", .int (← whole h)), (.str "alphaidx", .int first.toNat),
    (.str "alphacount", .int corners.toNat)]

def corner : Reading Datum := do return .dict (doubleMembers cornerNames (← singles 6))

def symbolHead : Reading (UInt32 × UInt32) := do return (← word, ← word)

def symbols : Nat → Bytes → List (UInt32 × List Datum) × Result Bytes :=
  severalNested symbolHead symbolFrame Prod.snd fun s frames => (s.1, frames)

def buildHead (content : Bytes) : Result (UInt32 × String × Bytes) := do
  let (n, _) ← word (content.drop 8)
  let (name, rest) ← longText (content.drop 16)
  return (n, name, rest)

end Reading

/-- Reading into data that may hold members already. They stay when a fault stops it. -/
abbrev Filling := EStateM Fault (List (Datum × Datum))

namespace Filling

def lift {α : Type} (r : Result α) : Filling α :=
  match r with
  | .ok a => pure a
  | .error e => throw e

def put (name : String) (d : Datum) : Filling Unit := modify fun es => Datum.put es (.str name) d

def buildFile (content : Bytes) : Filling Unit := do
  let (n, name, rest) ← lift (Reading.buildHead content)
  put "name" (.str name)
  let (pages, rest) ← lift (Reading.word rest)
  let (names, r) := Reading.several Reading.longText pages.toNat rest
  put "Atlas" (.list (names.map .str))
  let (symbols, r) := Reading.symbols n.toNat (← lift r)
  let table := symbols.foldl (fun t s => Places.put t (.code s.1) (Datum.list s.2)) []
  put "Symbol" (.dict (labelEntries table))
  let rest ← lift r
  let (n, rest) ← lift (Reading.word rest)
  let (corners, r) := Reading.several Reading.corner n.toNat rest
  put "Vert" (.list corners)
  let rest ← lift r
  let (n, rest) ← lift (Reading.word rest)
  let (names, r) := Reading.several Reading.nameEntry n.toNat rest
  let table := names.foldl (fun t e => relabel t e.1 (Text.lower e.2)) table
  put "Symbol" (.dict (labelEntries table))
  let _ ← lift r

end Filling

end WikiFeed.Sprite

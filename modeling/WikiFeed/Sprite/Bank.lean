import WikiFeed.Sprite.BankFile

/-! # Banks

A bank is known by the content of its file, by its data, or by both. Reading replaces the data by
those in the content, writing replaces the content by that of the data. A merge takes the other
bank's animations over one's own and writes the outcome. -/

namespace WikiFeed.Sprite

abbrev Members := List (Datum × Datum)

def lineText (d : Datum) : Result String :=
  match d.toJson with
  | .ok j => .ok (j.text { Json.Layout.line with ascii := true })
  | .error _ => .error .kind

structure Bank where
  content : Option Bytes
  data : Members

namespace Bank

def ofBytes (bs : Bytes) : Bank := ⟨some bs, []⟩

def ofData (data : Members) : Bank := ⟨none, data⟩

def read (b : Bank) : Bank × Option Fault :=
  match b.content with
  | none | some [] => (b, none)
  | some bs =>
    let (data, e) := readBankFile bs
    ({ b with data }, e)

def ready (b : Bank) : Bank × Option Fault := if b.data.isEmpty then b.read else (b, none)

/-- Writes the data, if there are any. What is written before a fault stays. -/
def write (b : Bank) : Bank × Option Fault :=
  if b.data.isEmpty then (b, none)
  else match Writing.bankFile (.dict b.data) .empty with
    | .ok _ d => ({ b with content := some d.bytes }, none)
    | .error e d => ({ b with content := some d.bytes }, some e)

def written (b : Bank) : Bank × Option Fault :=
  match b.content with
  | none | some [] => b.write
  | some _ => (b, none)

/-! ### Merging -/

def overlay (own other : Members) : Members := other.foldl (fun es e => Datum.put es e.1 e.2) own

def overlayNotes (own other : Members) : List String :=
  (other.filter fun e => (Datum.lookup own e.1).isSome).map fun e =>
    "animtion over: " ++ display e.1 ++ "\n"

def mergeBank (own : Members) (b : Datum × Datum) : Result (Members × List String) :=
  match Datum.lookup own b.1 with
  | none => .ok (Datum.put own b.1 b.2, [])
  | some mine => do
    let other ← entriesOf b.2
    if other.isEmpty then return (own, [])
    else match mine with
      | .dict mine =>
        return (Datum.put own b.1 (.dict (overlay mine other)), overlayNotes mine other)
      | _ => .error .kind

def mergeBanks (own : Members) : Members → (Members × List String) × Option Fault
  | [] => ((own, []), none)
  | b :: rest =>
    match mergeBank own b with
    | .error e => ((own, []), some e)
    | .ok (own, notes) =>
      let ((own, more), e) := mergeBanks own rest
      ((own, notes ++ more), e)

def mergeData (own other : Members) : (Members × List String) × Option Fault :=
  match (do entriesOf (← named (.dict other) "banks") : Result Members) with
  | .error e => ((own, []), some e)
  | .ok [] => ((own, []), none)
  | .ok banks =>
    match named (.dict own) "banks" with
    | .ok (.dict mine) =>
      let ((mine, notes), e) := mergeBanks mine banks
      ((Datum.put own (.str "banks") (.dict mine), notes), e)
    | .ok _ => ((own, []), some .kind)
    | .error e => ((own, []), some e)

def merge (b other : Bank) : (Bank × List String) × Option Fault :=
  let ((data, notes), e) := mergeData b.data other.data
  let b := { b with data }
  match e with
  | some e => ((b, notes), some e)
  | none =>
    let (b, e) := b.write
    ((b, notes), e)

/-! ### Text -/

def deep (indent : String) (n : Nat) : String := String.join (List.replicate n indent)

def listed (texts : List String) : String := ",\n".intercalate texts

def memberText (d : Datum) (name : String) : Result String := do
  return "\"" ++ name ++ "\": " ++ display (← named d name)

def membersText (d : Datum) (names : List String) : Result String := do
  return ", ".intercalate (← names.mapM (memberText d))

def frameText (indent : String) (f : Datum) : Result String := do
  let bounds ← membersText f ["x", "y", "w", "h"]
  let elements ← (← itemsOf (← named f "elements")).mapM fun e => do
    return deep indent 7 ++ (← lineText e)
  return deep indent 5 ++ "\x7b\n" ++ deep indent 6 ++ bounds ++ ",\n" ++ deep indent 6 ++
    "\"elements\": [\n" ++ listed elements ++ "\n" ++ deep indent 6 ++ "]\n" ++ deep indent 5 ++
    "\x7d"

def animationText (indent : String) (a : Datum × Datum) : Result String := do
  let frames ← (← itemsOf (← named a.2 "frames")).mapM (frameText indent)
  return deep indent 3 ++ "\"" ++ display a.1 ++ "\": \x7b\n" ++ deep indent 4 ++
    (← membersText a.2 ["framerate", "numframes"]) ++ ",\n" ++ deep indent 4 ++ "\"frames\": [\n" ++
    listed frames ++ "\n" ++ deep indent 4 ++ "]\n" ++ deep indent 3 ++ "\x7d"

def bankText (indent : String) (b : Datum × Datum) : Result String := do
  let animations ← (← entriesOf b.2).mapM (animationText indent)
  return deep indent 2 ++ "\"" ++ display b.1 ++ "\": \x7b\n" ++ listed animations ++ "\n" ++
    deep indent 2 ++ "\x7d"

def text (indent : String) (data : Members) : String × Option Fault :=
  let head := "\x7b\n" ++ indent ++ "\"type\": \"Anim\", \"version\": " ++
    toString bankVersion.toNat ++ ",\n" ++ indent ++ "\"banks\": \x7b\n"
  let banks : Result (List String) := do
    (← entriesOf (← named (.dict data) "banks")).mapM (bankText indent)
  match banks with
  | .ok banks => (head ++ listed banks ++ "\n" ++ indent ++ "\x7d\n\x7d", none)
  | .error e => (head, some e)

end Bank

end WikiFeed.Sprite

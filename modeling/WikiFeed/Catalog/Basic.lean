import WikiFeed.Text.Search

/-! # Catalogs

A catalog is a list of entries: a context, an id and the text that stands for the id. It is written
line by line. A keyword begins a part of an entry, a line with quotes alone goes on with the part
before it, and comments stand before an entry. After each kind of line only some kinds may follow
(`Place.allows`); a catalog that breaks this is refused as a whole.

The entry with an empty id is the header of the catalog and does not count as an entry
(`header?`). -/

namespace WikiFeed.Catalog

structure Entry where
  context : Option String := none
  id : String := ""
  text : String := ""
  obsolete : Bool := false

inductive Place where
  | opening
  | remark
  | note
  | mark
  | earlier
  | context
  | id
  | plural
  | text
  | texts
deriving DecidableEq

/-- What a line says: that a part begins, with its value, or that the part goes on. -/
inductive Line where
  | part (place : Place) (value : String)
  | more (value : String)

/-! ### Lines -/

def unescape : List Char → List Char
  | [] => []
  | '\\' :: 'n' :: r => '\n' :: unescape r
  | '\\' :: 't' :: r => '\t' :: unescape r
  | '\\' :: 'r' :: r => '\r' :: unescape r
  | '\\' :: '\\' :: r => '\\' :: unescape r
  | '\\' :: '"' :: r => '"' :: unescape r
  | c :: r => c :: unescape r

def hasBareQuote : Char → List Char → Bool
  | _, [] => false
  | p, c :: r => (c == '"' && p != '\\') || hasBareQuote c r

def inner (token : List Char) : List Char := (token.drop 1).dropLast

def value? (token : List Char) : Option String :=
  if hasBareQuote ' ' (inner token) then none
  else some (String.ofList (unescape (inner token)))

def firstWord (cs : List Char) : List Char × List Char :=
  (cs.takeWhile fun c => !Text.isBlank c, Text.trimStart (cs.dropWhile fun c => !Text.isBlank c))

def keyword? (word : List Char) : Option Place :=
  [("msgctxt", Place.context), ("msgid", .id), ("msgid_plural", .plural), ("msgstr", .text)].lookup
    (String.ofList word)

def readEarlier? (rest : List Char) : Option Line :=
  let (word, value) := firstWord rest
  if word.head? == some '"' then some (.more (String.ofList (unescape (inner rest))))
  else if value.isEmpty then none
  else match keyword? word with
    | some .text | none => none
    | some _ => some (.part .earlier "")

def readNumbered? (line : List Char) : Option Line :=
  match line.drop 7 with
  | d :: _ => if Text.isDecimalDigit d then some (.part .texts "") else none
  | [] => none

/-- Reads a line that is not blank and has no mark of an obsolete entry: nothing for a line that is
passed over, and no result for one that does not belong into a catalog. -/
def readPlain? (line : List Char) : Option (Option Line) :=
  let (word, rest) := firstWord line
  let comment (place : Place) : Option (Option Line) :=
    some (if rest.isEmpty then none else some (.part place ""))
  match if rest.isEmpty then none else keyword? word with
  | some place => do return some (.part place (← value? rest))
  | none =>
    if line.head? == some '"' then do return some (.more (← value? line))
    else if "msgstr[".toList.isPrefixOf line then do return some (← readNumbered? line)
    else match String.ofList word with
      | "#:" | "#," => comment .mark
      | "#." => comment .note
      | "#" => some (some (.part .remark ""))
      | "#|" => do return some (← readEarlier? rest)
      | _ => if "##".toList.isPrefixOf word then some (some (.part .remark "")) else none

/-- A line that was read: whether it belongs to an obsolete entry, whether it ends as a comment, and
what it says. -/
structure Reading where
  obsolete : Bool
  commented : Bool
  line : Option Line

def readLine? (line : List Char) : Option Reading :=
  let (word, rest) := firstWord line
  let plain (obsolete : Bool) (line : List Char) : Option Reading := do
    return ⟨obsolete, line.head? == some '#', ← readPlain? line⟩
  if word == "#~|".toList then some ⟨false, true, none⟩
  else if word == "#~".toList && !rest.isEmpty then plain true rest
  else plain false line

/-! ### Entries -/

def Place.allows : Place → Place → Bool
  | .opening, p => p != .plural && p != .text && p != .texts
  | .remark, _ => true
  | .note, p => p != .text && p != .texts
  | .mark, p => p != .plural && p != .text && p != .texts
  | .earlier, p => p != .text && p != .texts
  | .context, p => [.note, .mark, .earlier, .id].contains p
  | .id, p => p != .context && p != .id
  | .plural, p => p != .context && p != .id && p != .plural
  | .text, p => p != .plural && p != .text && p != .texts
  | .texts, p => p != .plural && p != .text

def Place.goesOn : Place → Bool
  | .opening | .remark | .note | .mark => false
  | _ => true

/-- A catalog that is being read: the entries so far, the latest first, the entry that is being
read, the last part, and whether the last line was a comment. -/
structure Progress where
  done : List Entry
  entry : Entry
  place : Place
  commented : Bool

def Progress.start : Progress := ⟨[], {}, .opening, true⟩

def Entry.put (e : Entry) (obsolete : Bool) (place : Place) (value : String) : Entry :=
  match place with
  | .context => { e with context := some value }
  | .id => { e with id := value, obsolete }
  | .text => { e with text := value }
  | _ => e

def Entry.extend (e : Entry) (place : Place) (value : String) : Entry :=
  match place with
  | .context => { e with context := some (e.context.getD "" ++ value) }
  | .id => { e with id := e.id ++ value }
  | .text => { e with text := e.text ++ value }
  | _ => e

/-- Whether a part begins a new entry when it follows another one. -/
def Place.ends (last next : Place) : Bool :=
  (last == .text || last == .texts) && next != .texts

def Place.after (last next : Place) : Place :=
  if last == .opening && next == .remark then .opening else next

def Progress.step (p : Progress) (obsolete : Bool) : Line → Option Progress
  | .part place value =>
    if !p.place.allows place then none
    else
      let (done, entry) := if p.place.ends place then (p.entry :: p.done, {}) else (p.done, p.entry)
      some { p with done, entry := entry.put obsolete place value, place := p.place.after place }
  | .more value =>
    if p.place.goesOn then some { p with entry := p.entry.extend p.place value } else none

def Progress.take (p : Progress) (line : List Char) : Option Progress :=
  match Text.trim line with
  | [] => some p
  | line => do
    let r ← readLine? line
    let p := { p with commented := r.commented }
    match r.line with
    | some l => p.step r.obsolete l
    | none => some p

def Progress.entries (p : Progress) : List Entry :=
  (if p.commented then p.done else p.entry :: p.done).reverse

/-! ### The header -/

/-- The place of the header: the entry with an empty id that is not obsolete. Of several it is the
last one without a context, and else the first one. -/
def header? (entries : List Entry) : Option Nat :=
  let empties := (entries.zipIdx.filter fun e => !e.1.obsolete && e.1.id == "")
  match empties with
  | [] => none
  | [e] => some e.2
  | e :: _ =>
    match (empties.filter fun e => e.1.context.getD "" == "").getLast? with
    | some e => some e.2
    | none => some e.2

def withoutHeader (entries : List Entry) : List Entry :=
  match header? entries with
  | some i => entries.eraseIdx i
  | none => entries

/-- The lines of a text; a mark of the byte order at its start is dropped. -/
def linesOf (s : String) : List (List Char) :=
  Text.feedLines [] (match s.toList with
    | c :: r => if c.toNat == 0xFEFF then r else c :: r
    | [] => [])

/-- The entries of a catalog whose lines end in line feeds, if it is well formed. -/
def read? (s : String) : Option (List Entry) := do
  let p ← (linesOf s).foldlM Progress.take .start
  return withoutHeader p.entries

end WikiFeed.Catalog

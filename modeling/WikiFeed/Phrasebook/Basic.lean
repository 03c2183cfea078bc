import WikiFeed.Archive.Basic
import WikiFeed.Places
import WikiFeed.Text.Case

/-! # Phrase books

A phrase book holds phrases of the game with their translations, by their contexts. It is written
line by line: a context, the phrase and its translation, each behind a keyword and between quotes;
a line that starts with a quote goes on with the context or phrase before it. A translation ends
its entry. -/

namespace WikiFeed

structure Phrase where
  context : String
  source : String
  text : String

/-- Phrases by their contexts, in the order in which the contexts first occur. -/
abbrev Phrasebook := List (String × Phrase)

namespace Phrasebook

export Places (put)

/-! ### Reading -/

def unquote (s : List Char) : List Char :=
  let s := Text.trim s
  if s.head? == some '"' && s.getLast? == some '"' then s.tail.dropLast else s

inductive Line where
  | context (value : List Char)
  | source (value : List Char)
  | text (value : List Char)
  | more (value : List Char)
  | other

def Line.ofChars (s : List Char) : Line :=
  match "msgctxt".toList.isPrefixOf? s with
  | some r => .context (unquote (Text.trim r))
  | none =>
    match "msgid".toList.isPrefixOf? s with
    | some r => .source (unquote (Text.trim r))
    | none =>
      match "msgstr".toList.isPrefixOf? s with
      | some r => .text (unquote (Text.trim r))
      | none => if s.head? == some '"' then .more (unquote s) else .other

inductive Slot where
  | context
  | source

structure Draft where
  context : Option (List Char)
  source : Option (List Char)
  slot : Option Slot

def Draft.empty : Draft := ⟨none, none, none⟩

def Draft.extend (d : Draft) (more : List Char) : Draft :=
  match d.slot with
  | some .context => { d with context := some (d.context.getD [] ++ more) }
  | some .source => { d with source := some (d.source.getD [] ++ more) }
  | none => d

def step (state : Phrasebook × Draft) (line : Line) : Phrasebook × Draft :=
  let (book, d) := state
  match line with
  | .context v => (book, ⟨some v, none, some .context⟩)
  | .source v => (book, { d with source := some v, slot := some .source })
  | .text v =>
    match d.context, d.source with
    | some c, some s =>
      let context := String.ofList c
      (put book context ⟨context, String.ofList s, String.ofList v⟩, .empty)
    | _, _ => (book, .empty)
  | .more v => (book, d.extend v)
  | .other => (book, d)

def byteLines (acc : List UInt8) : List UInt8 → List (List UInt8)
  | [] => [acc.reverse]
  | b :: r => if b == 10 then acc.reverse :: byteLines [] r else byteLines (b :: acc) r

def contentLines (bytes : List UInt8) : List (List Char) :=
  ((byteLines [] bytes).filterMap Text.decode?).map (fun s => Text.trim s.toList)
    |>.filter fun s => !s.isEmpty && s.head? != some '#'

def readInto (book : Phrasebook) (bytes : List UInt8) : Phrasebook :=
  (((contentLines bytes).map Line.ofChars).foldl step (book, Draft.empty)).1

def fileNames (withTemplates : Bool) : List String :=
  if withTemplates then ["strings.pot", "chinese_s.po"] else ["chinese_s.po"]

def scanFile (archive : Archive) (state : Phrasebook × List String) (name : String) :
    Phrasebook × List String :=
  let path := "scripts/languages/" ++ name
  match archive.member? path with
  | some bytes => (readInto state.1 bytes, state.2)
  | none => (state.1, state.2 ++ ["zip 中未找到文件: " ++ path])

def scan (archive : Archive) (withTemplates : Bool) : Phrasebook × List String :=
  (fileNames withTemplates).foldl (scanFile archive) ([], [])

/-! ### Names -/

inductive Named where
  | one (p : Phrase)
  | many (ps : List Phrase)

def addName (names : List (String × Named)) (name : String) (p : Phrase) :
    List (String × Named) :=
  match names.lookup name with
  | none => put names name (.one p)
  | some (.one q) => put names name (.many [q, p])
  | some (.many qs) => put names name (.many (qs ++ [p]))

def lastPart (context : String) : String :=
  String.ofList (context.toList.reverse.takeWhile (· != '.')).reverse

/-- Adds one phrase under its code, its wording and its translation, with notes on phrases that
are not translated. -/
def nameStep (codesOnly : Bool) (state : List (String × Named) × List String) (p : Phrase) :
    List (String × Named) × List String :=
  let (names, notes) := state
  let code := Text.lower (lastPart p.context)
  let names := put names code (.one p)
  if codesOnly || p.source == "" then (names, notes)
  else
    let names := addName names p.source p
    if p.source == p.text then
      (names, notes ++ ["中英文重名 id:" ++ code ++ ", msgid:" ++ p.source ++ ", msgstr:" ++ p.text])
    else if p.text == "" then
      (names, notes ++ ["未翻译词条 id:" ++ code ++ ", msgid:" ++ p.source])
    else (addName names p.text p, notes)

def names (book : Phrasebook) (codesOnly : Bool) : List (String × Named) × List String :=
  ((book.map (·.2)).filter fun p => p.context.startsWith "STRINGS.NAMES.").foldl
    (nameStep codesOnly) ([], [])

/-! ### Crafting stations and speech -/

def below (book : Phrasebook) (path : String) : List (String × Phrase) :=
  ((book.map (·.2)).filter fun p => p.context.startsWith path).foldl
    (fun m p => put m (lastPart p.context) p) []

def stationNames (book : Phrasebook) : List (String × Phrase) :=
  below book "STRINGS.UI.CRAFTING_STATION_FILTERS."

def filterNames (book : Phrasebook) : List (String × Phrase) :=
  below book "STRINGS.UI.CRAFTING_FILTERS."

/-- The beginning of the contexts of the lines that a character speaks, or all characters. -/
def speechPath (character : String) : String :=
  if character == "" then "STRINGS.CHARACTERS"
  else
    let name := if Text.lower character == "wilson" then "generic" else character
    "STRINGS.CHARACTERS." ++ Text.upper name

def speech (book : Phrasebook) (character : String) : Phrasebook × List String :=
  let lines := book.filter fun p => p.1.startsWith (speechPath character)
  (lines, (lines.filter fun p => p.2.source != "" && p.2.text == "").map fun p =>
    "未翻译台词: " ++ p.1 ++ ", msgid: " ++ p.2.source)

end Phrasebook

end WikiFeed

import WikiFeed.Wikitext.Basic

/-! # Reading wikitext

Every text is wikitext. What is opened and never closed, or closed in a place where it cannot be, is
plain text. A reader is given what ends it (`Mode`) and hands on the rest; the number of steps is
bounded by the length of the text, since every step takes a character. -/

namespace WikiFeed.Wikitext

/-- What a run of pieces belongs to, and so where it ends. -/
inductive Mode where
  | whole
  | template
  | slot
  | link
  | tag (name : List Char)

/-- A run of pieces that is being read: the parts before, the latest first, and the pieces and the
characters of this part, the latest first. -/
structure Run where
  parts : List Wikitext
  pieces : List Piece
  chars : List Char
  /-- whether this part has a divider -/
  divided : Bool

namespace Run

def start (pieces : List Piece) : Run := ⟨[], pieces.reverse, [], false⟩

def closed (r : Run) : List Piece :=
  if r.chars.isEmpty then r.pieces else .text r.chars.reverse :: r.pieces

def char (r : Run) (c : Char) : Run := { r with chars := c :: r.chars }

def piece (r : Run) (p : Piece) : Run := { r with pieces := p :: r.closed, chars := [] }

def add (r : Run) (ps : List Piece) : Run := ps.foldl piece r

def next (r : Run) : Run := ⟨r.closed.reverse :: r.parts, [], [], false⟩

def all (r : Run) : List Wikitext := (r.closed.reverse :: r.parts).reverse

def divide (r : Run) : Run := { r.piece .divider with divided := true }

def canDivide (r : Run) : Bool := !r.parts.isEmpty && !r.divided

end Run

/-! ### Names -/

/-- Whether text can stand in the name of a template: behind a line end that follows text there are
only blanks. -/
def nameText (cs : List Char) : Bool :=
  cs.all (fun c => !(['<', '>', '[', ']', '\x7b', '\x7d'].contains c)) &&
    ((Text.trimStart cs).dropWhile (· != '\n')).all Text.isBlank

def isName (w : Wikitext) : Bool :=
  let plain (p : Piece) : List Char := match p with
    | .text s => s
    | _ => []
  let other (p : Piece) : Bool := match p with
    | .template _ | .slot _ => true
    | _ => false
  let wrong (p : Piece) : Bool := match p with
    | .link _ | .tag _ _ _ => true
    | _ => false
  !w.any wrong && nameText (w.flatMap plain) &&
    (w.any other || !(w.flatMap plain).all Text.isBlank)

/-- Whether pieces can be what a link holds: the title is on one line, and other pieces in it count
as letters. -/
def isLink (w : Wikitext) : Bool :=
  let letters (p : Piece) : List Char := match p with
    | .text s => s
    | _ => ['x']
  let title := (w.flatMap letters).takeWhile (· != '|')
  !title.isEmpty && title.all fun c => !(['\n', '[', ']', '\x7b', '\x7d', '<', '>'].contains c)

/-! ### Tags -/

def verbatimTags : List String := ["categorytree", "ce", "chem", "gallery", "graph", "hiero",
  "imagemap", "inputbox", "math", "nowiki", "pre", "score", "section", "source",
  "syntaxhighlight", "templatedata", "timeline"]

def singleTags : List String := ["br", "wbr", "hr", "meta", "link", "img"]

/-- The tag that a text behind an opening mark begins with: its name, its text to the closing mark,
and the rest. -/
def openingTag? (cs : List Char) : Option (List Char × List Char × List Char) :=
  let name := cs.takeWhile fun c => c.isAlpha || c.isDigit
  let inside := cs.takeWhile fun c => c != '>' && c != '<'
  if name.isEmpty then none
  else match cs.drop inside.length with
    | '>' :: rest => some (name.map Char.toLower, '<' :: inside ++ ['>'], rest)
    | _ => none

def closingTag? (name cs : List Char) : Option (List Char × List Char) :=
  let mark := '<' :: '/' :: name ++ ['>']
  if (cs.take mark.length).map Char.toLower == mark then
    some (cs.take mark.length, cs.drop mark.length)
  else none

/-- The text before the closing tag of a name, the closing tag, and the rest. -/
def cutClosing? (name : List Char) : List Char → Option (List Char × List Char × List Char)
  | [] => none
  | c :: r =>
    match closingTag? name (c :: r) with
    | some (mark, rest) => some ([], mark, rest)
    | none => (cutClosing? name r).map fun (a, b) => (c :: a, b)

/-! ### Pieces -/

/-- What a reader of a run gives: its parts and the rest behind its end. -/
abbrev Reader := Mode → List Piece → List Char → Option (List Wikitext × List Char × List Char)

def readTag? (read : Reader) (cs : List Char) : Option (Piece × List Char) := do
  let (name, opening, rest) ← openingTag? cs
  if (opening.dropLast).getLast? == some '/' || singleTags.contains (String.ofList name) then
    return (.verbatim opening, rest)
  else if verbatimTags.contains (String.ofList name) then
    let (inside, mark, rest) ← cutClosing? name rest
    return (.verbatim (opening ++ inside ++ mark), rest)
  else
    let (parts, mark, rest) ← read (.tag name) [] rest
    return (.tag opening (parts.headD []) mark, rest)

def readComment? (cs : List Char) : Option (Piece × List Char) := do
  let rest ← "!--".toList.isPrefixOf? cs
  let (inside, rest) ← Text.cut? "-->".toList rest
  return (.verbatim ("<!--".toList ++ inside ++ "-->".toList), rest)

def readLink? (read : Reader) (cs : List Char) : Option (Piece × List Char) := do
  let _ ← Text.find? [']', ']'] cs
  let (parts, _, rest) ← read .link [] cs
  if isLink (parts.headD []) then return (.link (parts.headD []), rest) else none

def readTemplate? (read : Reader) (inside : List Piece) (cs : List Char) :
    Option (Piece × List Char) := do
  let _ ← Text.find? ['\x7d', '\x7d'] cs
  let (parts, _, rest) ← read .template inside cs
  if isName (parts.headD []) then return (.template parts, rest) else none

def readSlot? (read : Reader) (inside : List Piece) (cs : List Char) :
    Option (Piece × List Char) := do
  let _ ← Text.find? ['\x7d', '\x7d', '\x7d'] cs
  let (parts, _, rest) ← read .slot inside cs
  return (.slot (parts.headD []), rest)

/-- The pieces behind some opening braces: slots take three of them, templates two, and what is left
is text. The pieces that are there already are inside of what is opened next. -/
def openBraces (read : Reader) : Nat → List Piece → List Char → List Piece × List Char
  | 0, inside, cs => (inside, cs)
  | 1, inside, cs => (.text ['\x7b'] :: inside, cs)
  | 2, inside, cs =>
    match readTemplate? read inside cs with
    | some (p, rest) => ([p], rest)
    | none => (.text ['\x7b', '\x7b'] :: inside, cs)
  | n + 3, inside, cs =>
    match readSlot? read inside cs with
    | some (p, rest) => openBraces read n [p] rest
    | none =>
      match readTemplate? read inside cs with
      | some (p, rest) => openBraces read (n + 1) [p] rest
      | none => (.text (List.replicate (n + 3) '\x7b') :: inside, cs)

/-- The rest behind the end of a run and the text of the end, where a text begins with it. -/
def Mode.ends? (m : Mode) (cs : List Char) : Option (List Char × List Char) :=
  match m, cs with
  | .template, '\x7d' :: '\x7d' :: rest => some (['\x7d', '\x7d'], rest)
  | .slot, '\x7d' :: '\x7d' :: '\x7d' :: rest => some (['\x7d', '\x7d', '\x7d'], rest)
  | .link, ']' :: ']' :: rest => some ([']', ']'], rest)
  | .tag name, cs => closingTag? name cs
  | _, _ => none

def Mode.splits : Mode → Bool
  | .template => true
  | _ => false

/-- A piece that is neither text nor opened by braces, where a text begins with one. -/
def special? (read : Reader) (cs : List Char) : Option (Piece × List Char) :=
  match cs with
  | '<' :: r => (readComment? r).or (readTag? read r)
  | '[' :: '[' :: r => readLink? read r
  | _ => none

/-- Reads a run to its end, in at most a number of steps. -/
def readRun : Nat → Mode → Run → List Char → Option (List Wikitext × List Char × List Char)
  | 0, _, _, _ => none
  | n + 1, mode, run, cs =>
    let read : Reader := fun m inside cs => readRun n m (.start inside) cs
    match cs, mode.ends? cs with
    | _, some (mark, rest) => some (run.all, mark, rest)
    | [], none =>
      match mode with
      | .whole => some (run.all, [], [])
      | _ => none
    | '\x7b' :: '\x7b' :: rest, none =>
      let more := rest.takeWhile (· == '\x7b')
      let (pieces, rest) := openBraces read (more.length + 2) [] (rest.drop more.length)
      readRun n mode (run.add pieces) rest
    | c :: rest, none =>
      match special? read (c :: rest) with
      | some (p, rest) => readRun n mode (run.piece p) rest
      | none =>
        if mode.splits && c == '|' then readRun n mode run.next rest
        else if mode.splits && c == '=' && run.canDivide then readRun n mode run.divide rest
        else readRun n mode (run.char c) rest

def ofText (s : String) : Wikitext :=
  let cs := s.toList
  match readRun (cs.length + 1) .whole (.start []) cs with
  | some (parts, _) => parts.headD []
  | none => [.text cs]

end WikiFeed.Wikitext

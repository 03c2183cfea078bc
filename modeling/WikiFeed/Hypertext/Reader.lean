import WikiFeed.Hypertext.Basic

/-! # Reading hypertext

The text is cut into marks and texts, and these are put together from the inside out. -/

namespace WikiFeed.Hypertext

/-! ### Characters with names -/

def namedChars : List (String × Char) := [("amp", '&'), ("lt", '<'), ("gt", '>'), ("quot", '"'),
  ("apos", '\''), ("nbsp", Char.ofNat 0xA0), ("middot", Char.ofNat 0xB7), ("copy", Char.ofNat 0xA9)]

def numberIn? (base : Nat) (ds : List Char) : Option Nat :=
  if ds.isEmpty then none
  else ds.foldlM (fun n d =>
    let v := if '0' ≤ d && d ≤ '9' then d.toNat - 48
      else if 'a' ≤ d.toLower && d.toLower ≤ 'f' then d.toLower.toNat - 87 else 99
    if v < base then some (n * base + v) else none) 0

def referred? (name : List Char) : Option Char :=
  match name with
  | '#' :: 'x' :: ds | '#' :: 'X' :: ds => (numberIn? 16 ds).map Char.ofNat
  | '#' :: ds => (numberIn? 10 ds).map Char.ofNat
  | name => namedChars.lookup (String.ofList name)

def resolve : List Char → List Char
  | [] => []
  | c :: r =>
    let name := r.takeWhile fun d => d.isAlphanum || d == '#'
    match if c == '&' then referred? name else none with
    | some d =>
      let rest := r.drop name.length
      d :: resolve (if rest.head? == some ';' then rest.tail else rest)
    | none => c :: resolve r
termination_by cs => cs.length
decreasing_by
  · split <;> simp only [List.length_tail, List.length_drop, List.length_cons] <;> omega
  · rw [List.length_cons]
    omega

/-! ### Marks -/

inductive Token where
  | text (s : List Char)
  | opening (name : String) (attributes : List (String × String)) (closed : Bool)
  | closing (name : String)

def endsName (c : Char) : Bool := Text.isBlank c || c == '/' || c == '>'

def readValue (cs : List Char) : List Char × List Char :=
  match cs with
  | q :: r =>
    if q == '"' || q == '\'' then (r.takeWhile (· != q), (r.dropWhile (· != q)).drop 1)
    else
      let v := cs.takeWhile fun c => !Text.isBlank c && c != '>'
      (v, cs.drop v.length)
  | [] => ([], [])

def readAttributes? : Nat → List (String × String) → List Char →
    Option (List (String × String) × Bool × List Char)
  | 0, _, _ => none
  | n + 1, done, cs =>
    match Text.trimStart cs with
    | [] => none
    | '>' :: rest => some (done, false, rest)
    | '/' :: '>' :: rest => some (done, true, rest)
    | '/' :: rest => readAttributes? n done rest
    | c :: rest =>
      let name := c :: rest.takeWhile fun d => !endsName d && d != '='
      let behind := Text.trimStart ((c :: rest).drop name.length)
      let key := String.ofList (name.map Char.toLower)
      match behind with
      | '=' :: r =>
        let (value, rest) := readValue (Text.trimStart (r.dropWhile (· == '=')))
        readAttributes? n ((key, String.ofList (resolve value)) :: done) rest
      | behind => readAttributes? n ((key, "") :: done) behind

def plainElements : List String := ["script", "style"]

def cutEnd (name : List Char) : List Char → List Char × List Char
  | [] => ([], [])
  | c :: r =>
    let mark := '<' :: '/' :: name
    if ((c :: r).take mark.length).map Char.toLower == mark then ([], c :: r)
    else
      let (a, b) := cutEnd name r
      (c :: a, b)

def behind? (mark : String) (cs : List Char) : Option (List Char) :=
  (Text.cut? mark.toList cs).map (·.2)

def readMark? (cs : List Char) : Option (List Token × List Char) :=
  match cs with
  | '!' :: '-' :: '-' :: r => (behind? "-->" r).map fun rest => ([], rest)
  | '!' :: r | '?' :: r => (behind? ">" r).map fun rest => ([], rest)
  | '/' :: r =>
    if (r.head?.map Char.isAlpha).getD false then
      let name := r.takeWhile fun c => !endsName c
      (behind? ">" r).map fun rest => ([.closing (String.ofList (name.map Char.toLower))], rest)
    else none
  | cs =>
    if (cs.head?.map Char.isAlpha).getD false then do
      let name := cs.takeWhile fun c => !endsName c
      let small := name.map Char.toLower
      let (attributes, closed, rest) ← readAttributes? (cs.length + 1) [] (cs.drop name.length)
      let token := Token.opening (String.ofList small) attributes closed
      if plainElements.contains (String.ofList small) && !closed then
        let (inside, rest) := cutEnd small rest
        return ([token, .text inside], rest)
      else return ([token], rest)
    else none

def tokens : Nat → List Char → List Token
  | 0, _ => []
  | _, [] => []
  | n + 1, '<' :: r =>
    match readMark? r with
    | some (ts, rest) => ts ++ tokens n rest
    | none => .text ['<'] :: tokens n r
  | n + 1, cs =>
    let s := cs.takeWhile (· != '<')
    .text (resolve s) :: tokens n (cs.drop s.length)

/-! ### Trees -/

structure Open where
  name : String
  attributes : List (String × String)
  children : List Hypertext

def addChild (h : Hypertext) : List Open → List Open
  | [] => []
  | e :: r => { e with children := h :: e.children } :: r

def closeOne : List Open → List Open
  | [] => []
  | [e] => [e]
  | e :: r => addChild (.element e.name e.attributes e.children.reverse) r

def closeTo (name : String) : Nat → List Open → List Open
  | 0, stack => stack
  | _, [] => []
  | n + 1, e :: r =>
    if e.name == name then closeOne (e :: r) else closeTo name n (closeOne (e :: r))

def emptyElements : List String := ["area", "base", "br", "col", "embed", "hr", "img", "input",
  "keygen", "link", "menuitem", "meta", "param", "source", "track", "wbr", "basefont", "bgsound",
  "command", "frame", "image", "isindex", "nextid", "spacer"]

def grow (stack : List Open) : Token → List Open
  | .text s => addChild (.text (String.ofList s)) stack
  | .opening name attributes closed =>
    if closed || emptyElements.contains name then addChild (.element name attributes []) stack
    else ⟨name, attributes, []⟩ :: stack
  | .closing name =>
    if (stack.dropLast).any (·.name == name) then closeTo name stack.length stack else stack

def ofText (s : String) : Hypertext :=
  let stack := (tokens (s.length + 1) s.toList).foldl grow [⟨"", [], []⟩]
  let closed := (List.range stack.length).foldl (fun s _ => closeOne s) stack
  .element "" [] ((closed.flatMap (·.children)).reverse)

end WikiFeed.Hypertext

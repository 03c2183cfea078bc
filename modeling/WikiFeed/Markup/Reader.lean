import WikiFeed.Markup.Basic
import WikiFeed.Text.Search

/-! # Reading markup

A text of markup is cut into tags, and a tree is built of them with the open elements on a stack.
Comments, instructions, declarations and character data leave nothing in the tree, but have to be
well-formed. -/

namespace WikiFeed.Markup

inductive Tag where
  | opening (name : String) (attributes : List (String × String))
  | closing (name : String)
  | single (name : String) (attributes : List (String × String))
  /-- character data other than blanks -/
  | data

def isSpace (c : Char) : Bool := c == ' ' || c == '\t' || c == '\n' || c == '\r'

def startsName (c : Char) : Bool := c.isAlpha || c == '_' || c == ':' || 127 < c.toNat

def continuesName (c : Char) : Bool := startsName c || c.isDigit || c == '-' || c == '.'

def isAllowed (c : Char) : Bool :=
  32 ≤ c.toNat && c.toNat != 0xFFFE && c.toNat != 0xFFFF || isSpace c

def readName? (cs : List Char) : Option (String × List Char) :=
  match cs with
  | c :: _ => if startsName c then
      some (String.ofList (cs.takeWhile continuesName), cs.dropWhile continuesName)
    else none
  | [] => none

/-! ### References -/

def digitsValue? (base : Nat) (digits : List Char) : Option Nat :=
  let value (c : Char) : Option Nat :=
    if c.isDigit then some (c.toNat - 48)
    else if base == 16 && 'a' ≤ c && c ≤ 'f' then some (c.toNat - 87)
    else if base == 16 && 'A' ≤ c && c ≤ 'F' then some (c.toNat - 55)
    else none
  if digits.isEmpty then none
  else digits.foldlM (fun n c => (value c).map fun d => n * base + d) 0

def charOf? (n : Nat) : Option Char :=
  if n.isValidChar && isAllowed (Char.ofNat n) then some (Char.ofNat n) else none

def referenced? (name : List Char) : Option Char :=
  match name with
  | '#' :: 'x' :: ds => (digitsValue? 16 ds).bind charOf?
  | '#' :: ds => (digitsValue? 10 ds).bind charOf?
  | name => [("lt", '<'), ("gt", '>'), ("amp", '&'), ("quot", '"'), ("apos", '\'')].lookup
      (String.ofList name)

def expand? (plain : Char → Char) : Nat → List Char → Option (List Char)
  | 0, _ => none
  | _ + 1, [] => some []
  | n + 1, '&' :: r => do
    let name := r.takeWhile (· != ';')
    let c ← referenced? name
    match r.dropWhile (· != ';') with
    | _ :: rest => return c :: (← expand? plain n rest)
    | [] => none
  | n + 1, c :: r => do
    if isAllowed c then return plain c :: (← expand? plain n r) else none

/-! ### Tags -/

def attributeValue? (raw : List Char) : Option String := do
  if raw.contains '<' then none
  else
    let raw := Text.replace ['\r', '\n'] ['\n'] raw
    let cs ← expand? (fun c => if isSpace c then ' ' else c) (raw.length + 1) raw
    return String.ofList cs

def readAttribute? (cs : List Char) : Option ((String × String) × List Char) := do
  let (name, rest) ← readName? cs
  match rest.dropWhile isSpace with
  | '=' :: rest =>
    match rest.dropWhile isSpace with
    | q :: rest =>
      if q != '"' && q != '\'' then none
      else match rest.dropWhile (· != q) with
        | _ :: behind =>
          return ((name, ← attributeValue? (rest.takeWhile (· != q))), behind)
        | [] => none
    | [] => none
  | _ => none

def readAttributes? : Nat → List (String × String) → List Char →
    Option (List (String × String) × List Char)
  | 0, _, _ => none
  | n + 1, done, cs =>
    match cs.dropWhile isSpace with
    | '>' :: _ | '/' :: _ => some (done, cs.dropWhile isSpace)
    | rest => do
      if rest.length == cs.length then none
      else
        let (a, rest) ← readAttribute? rest
        if (done.lookup a.1).isSome then none
        else readAttributes? n (done ++ [a]) rest

def readTag? (cs : List Char) : Option (Tag × List Char) :=
  match cs with
  | '/' :: r => do
    let (name, rest) ← readName? r
    match rest.dropWhile isSpace with
    | '>' :: rest => return (.closing name, rest)
    | _ => none
  | cs => do
    let (name, rest) ← readName? cs
    let (attributes, rest) ← readAttributes? (rest.length + 1) [] rest
    match rest with
    | '>' :: rest => return (.opening name attributes, rest)
    | '/' :: '>' :: rest => return (.single name attributes, rest)
    | _ => none

def skipComment? (cs : List Char) : Option (List Char) := do
  let (_, rest) ← Text.cut? ['-', '-'] cs
  match rest with
  | '>' :: rest => return rest
  | _ => none

def skipDeclaration? (cs : List Char) : Option (List Char) :=
  match cs.dropWhile fun c => c != '>' && c != '[' with
  | '>' :: rest => some rest
  | '[' :: rest => match (rest.dropWhile (· != ']')).drop 1 |>.dropWhile isSpace with
    | '>' :: rest => some rest
    | _ => none
  | _ => none

def readTags? : Nat → List Char → Option (List Tag)
  | 0, _ => none
  | _ + 1, [] => some []
  | n + 1, '<' :: r =>
    match r with
    | '!' :: '-' :: '-' :: r => do readTags? n (← skipComment? r)
    | '?' :: r => do
      let (target, r) ← readName? r
      if target == "xml" then none
      else
        let (_, rest) ← Text.cut? ['?', '>'] r
        readTags? n rest
    | '!' :: '[' :: 'C' :: 'D' :: 'A' :: 'T' :: 'A' :: '[' :: r => do
      let (_, rest) ← Text.cut? [']', ']', '>'] r
      return .data :: (← readTags? n rest)
    | '!' :: r => do readTags? n (← skipDeclaration? r)
    | r => do
      let (t, rest) ← readTag? r
      return t :: (← readTags? n rest)
  | n + 1, cs => do
    let raw := cs.takeWhile (· != '<')
    let _ ← expand? id (raw.length + 1) raw
    if (Text.find? [']', ']', '>'] raw).isSome then none
    else
      let rest ← readTags? n (cs.dropWhile (· != '<'))
      return if raw.all isSpace then rest else .data :: rest

/-! ### Trees -/

structure Open where
  name : String
  attributes : List (String × String)
  children : List Markup

/-- The tree that tags make, with the open elements, the innermost first, and the finished root. -/
def build? : List Open → Option Markup → List Tag → Option Markup
  | [], root, [] => root
  | _ :: _, _, [] => none
  | [], none, .opening name as :: rest => build? [⟨name, as, []⟩] none rest
  | [], none, .single name as :: rest => build? [] (some (.element name as [])) rest
  | [], _, _ :: _ => none
  | os, root, .data :: rest => build? os root rest
  | os, root, .opening name as :: rest => build? (⟨name, as, []⟩ :: os) root rest
  | o :: os, root, .single name as :: rest =>
    build? ({ o with children := .element name as [] :: o.children } :: os) root rest
  | o :: os, root, .closing name :: rest =>
    if o.name != name then none
    else
      let m := Markup.element o.name o.attributes o.children.reverse
      match os with
      | [] => build? [] (some m) rest
      | p :: os => build? ({ p with children := m :: p.children } :: os) root rest

def skipHead? (cs : List Char) : Option (List Char) :=
  let cs := match cs with
    | '\uFEFF' :: cs => cs
    | cs => cs
  match cs with
  | '<' :: '?' :: 'x' :: 'm' :: 'l' :: c :: r =>
    if isSpace c then (Text.cut? ['?', '>'] r).map (·.2) else some cs
  | cs => some cs

def read? (s : String) : Option Markup := do
  let cs ← skipHead? s.toList
  build? [] none (← readTags? (cs.length + 1) cs)

end WikiFeed.Markup

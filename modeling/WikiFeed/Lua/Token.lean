import WikiFeed.Decimal.Text
import WikiFeed.Lua.Tree

/-! # Tokens of Lua

The text is cut into tokens from left to right, each as long as possible. A token takes its first
character and a number of further ones, so what is left is always shorter. Characters that start no
token are dropped, together with the unfinished token in front of them. -/

namespace WikiFeed.Lua

/-- A token. A numeral that is no number of the language is kept as `malformed`. -/
inductive Token where
  | name (s : String)
  | word (s : String)
  | sign (s : String)
  | string (s : String)
  | number (n : Numeral)
  | malformed
deriving Inhabited

structure Lexeme where
  token : Token
  onNewLine : Bool
deriving Inhabited

/-- What the scanner finds at a character: a token or something to drop, and how many characters
after the first belong to it. -/
inductive Scan where
  | token (t : Token) (more : Nat)
  | skip (more : Nat)

def reserved : List String :=
  ["and", "break", "do", "else", "elseif", "end", "false", "for", "function", "goto", "if", "in",
   "local", "nil", "not", "or", "repeat", "return", "then", "true", "until", "while"]

def signs : List String :=
  ["...", "..", ".", "==", "=", "~=", "~", "<=", "<<", "<", ">=", ">>", ">", "//", "/", "::", ":",
   "+", "-", "*", "%", "^", "#", "&", "|", "(", ")", "\x7b", "\x7d", "[", "]", ";", ","]

def startsName (c : Char) : Bool := c.isAlpha || c == '_'

def continuesName (c : Char) : Bool := c.isAlphanum || c == '_'

def isHexDigit (c : Char) : Bool :=
  c.isDigit || ('a' ≤ c && c ≤ 'f') || ('A' ≤ c && c ≤ 'F')

def hexValue (c : Char) : Nat :=
  if c.isDigit then c.toNat - '0'.toNat
  else if 'a' ≤ c then c.toNat - 'a'.toNat + 10 else c.toNat - 'A'.toNat + 10

/-! ### Numbers -/

def exponentLength (small capital : Char) : List Char → Nat
  | c :: r =>
    if c == small || c == capital then
      let signed := match r with
        | s :: _ => if s == '+' || s == '-' then 1 else 0
        | [] => 0
      let n := ((r.drop signed).takeWhile Char.isDigit).length
      if n = 0 then 0 else 1 + signed + n
    else 0
  | [] => 0

def hexLength (cs : List Char) : Nat × Bool :=
  let whole := (cs.takeWhile isHexDigit).length
  let rest := cs.drop whole
  match rest with
  | '.' :: r =>
    let places := (r.takeWhile isHexDigit).length
    if whole = 0 && places = 0 then (0, false)
    else (whole + 1 + places + exponentLength 'p' 'P' (r.drop places), true)
  | _ =>
    if whole = 0 then (0, false)
    else
      let e := exponentLength 'p' 'P' rest
      (whole + e, e != 0)

def decimalLength (cs : List Char) : Nat × Bool :=
  let whole := (cs.takeWhile Char.isDigit).length
  let rest := cs.drop whole
  match rest with
  | '.' :: r =>
    let places := (r.takeWhile Char.isDigit).length
    (whole + 1 + places + exponentLength 'e' 'E' (r.drop places), true)
  | _ =>
    let e := exponentLength 'e' 'E' rest
    (whole + e, e != 0)

def decimalNumeral (cs : List Char) (fractional : Bool) : Token :=
  if fractional then
    match Decimal.readDecimal? cs with
    | some x => .number (.float x)
    | none => .malformed
  else if cs.head? == some '0' && cs.any (· != '0') then
    .number (.float (Decimal.ofDecimal false (Decimal.ofDigits cs) 0))
  else .number (.int (Decimal.ofDigits cs))

def scanNumber (cs : List Char) : Token × Nat :=
  let decimal :=
    let (n, fractional) := decimalLength cs
    (decimalNumeral (cs.take n) fractional, n)
  match cs with
  | '0' :: x :: r =>
    if x == 'x' || x == 'X' then
      match hexLength r with
      | (0, _) => decimal
      | (n, true) => (.malformed, n + 2)
      | (n, false) =>
        (.number (.int ((r.take n).foldl (fun v d => v * 16 + hexValue d) 0 : Nat)), n + 2)
    else decimal
  | _ => decimal

/-! ### Strings -/

/-- How many characters a valid escape has behind its backslash; `none` if there is no escape. -/
def escapeLength : List Char → Option Nat
  | 'x' :: a :: b :: _ => if isHexDigit a && isHexDigit b then some 3 else none
  | '\r' :: '\n' :: _ => some 2
  | c :: _ => if "abfnrtvz\"'\\\n".contains c || c.isDigit then some 1 else none
  | [] => none

def brokenEscape : List Char → Nat
  | 'x' :: a :: _ => if isHexDigit a then 2 else 1
  | 'x' :: [] => 1
  | '\r' :: _ => 1
  | _ => 0

/-- Reads a quoted string behind its first quote. `read` characters are already taken and `skip` of
the next ones belong to an escape. A string is closed by its quote; a line break, a wrong escape or
the end of the text breaks it off. -/
def scanString (quote : Char) (read skip : Nat) : List Char → Except Nat Nat
  | [] => .error read
  | c :: r =>
    match skip with
    | k + 1 => scanString quote (read + 1) k r
    | 0 =>
      if c == quote then .ok read
      else if c == '\n' || c == '\r' then .error (read + 1)
      else if c == '\\' then
        match escapeLength r with
        | some n => scanString quote (read + 1) n r
        | none => .error (min (read + 2 + brokenEscape r) (read + 1 + r.length))
      else scanString quote (read + 1) 0 r

def longLevel? (cs : List Char) : Option Nat :=
  let level := (cs.takeWhile (· == '=')).length
  if cs[level]? == some '[' then some level else none

def longLength (level : Nat) : List Char → Option Nat
  | [] => none
  | c :: r =>
    if (']' :: List.replicate level '=' ++ [']']).isPrefixOf (c :: r) then some 0
    else (longLength level r).map (· + 1)

def scanLong (cs : List Char) : Option (Nat × List Char × Nat) :=
  match longLevel? cs with
  | none => none
  | some level =>
    let body := cs.drop (level + 1)
    match longLength level body with
    | none => none
    | some n => some (level, body.take n, level + 1 + n + level + 2)

/-- The value of a long string: its body, but with its brackets if it has a level and a line
break. -/
def longValue (level : Nat) (body : List Char) : List Char :=
  if level ≥ 1 && body.contains '\n' then
    let bars := List.replicate level '='
    '[' :: bars ++ '[' :: body ++ ']' :: bars ++ [']']
  else body

/-! ### The scanner -/

def lineLength (cs : List Char) : Nat := (cs.takeWhile fun c => c != '\n' && c != '\r').length

/-- The length of a comment behind its two strokes, if it is one: a long comment up to its closing
bracket, else the rest of the line. A long comment that is never closed is none. -/
def commentLength (cs : List Char) : Option Nat :=
  match cs with
  | '[' :: r =>
    match longLevel? r with
    | some _ => (scanLong r).map fun (_, _, n) => n + 1
    | none => some (lineLength cs)
  | _ => some (lineLength cs)

def scanSign (cs : List Char) : Option (String × Nat) :=
  (signs.find? fun s => s.toList.isPrefixOf cs).map fun s => (s, s.length)

def scan (c : Char) (r : List Char) : Scan :=
  let sign := match scanSign (c :: r) with
    | some (s, n) => Scan.token (.sign s) (n - 1)
    | none => .skip 0
  if startsName c then
    let more := r.takeWhile continuesName
    let s := String.ofList (c :: more)
    .token (if reserved.contains s then .word s else .name s) more.length
  else if c.isDigit || (c == '.' && (r.head?.map Char.isDigit).getD false) then
    let (t, n) := scanNumber (c :: r)
    .token t (n - 1)
  else if c == '"' || c == '\'' then
    match scanString c 0 0 r with
    | .ok n => .token (.string (String.ofList (r.take n))) (n + 1)
    | .error n => .skip n
  else if c == '[' then
    match scanLong r with
    | some (level, body, n) => .token (.string (String.ofList (longValue level body))) n
    | none => sign
  else if c == '-' && r.head? == some '-' then
    match commentLength r.tail with
    | some n => .skip (n + 1)
    | none => sign
  else if c == '#' && r.head? == some '!' then .skip (lineLength r)
  else sign

def tokensFrom (newLine : Bool) : List Char → List Lexeme
  | [] => []
  | c :: r =>
    match scan c r with
    | .token t more => ⟨t, newLine⟩ :: tokensFrom false (r.drop more)
    | .skip more => tokensFrom (newLine || (c :: r.take more).contains '\n') (r.drop more)
termination_by cs => cs.length
decreasing_by all_goals (simp only [List.length_drop, List.length_cons]; omega)

def tokens (source : String) : List Lexeme := tokensFrom false source.toList

end WikiFeed.Lua

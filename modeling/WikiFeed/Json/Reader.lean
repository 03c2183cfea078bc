import WikiFeed.Json.Basic

/-! # Reading JSON texts

A text is read from left to right; each reader gives what it has read and the rest of the text. The
names `NaN` and `Infinity` are numbers. Control characters in quoted texts are refused. -/

namespace WikiFeed.Json

def isSpace (c : Char) : Bool := c == ' ' || c == '\t' || c == '\n' || c == '\r'

def skipSpace (cs : List Char) : List Char := cs.dropWhile isSpace

def hexValue? (c : Char) : Option Nat :=
  if '0' ≤ c && c ≤ '9' then some (c.toNat - 48)
  else if 'a' ≤ c && c ≤ 'f' then some (c.toNat - 87)
  else if 'A' ≤ c && c ≤ 'F' then some (c.toNat - 55)
  else none

def readUnit? : List Char → Option (Nat × List Char)
  | a :: b :: c :: d :: r => do
    let n := (((← hexValue? a) * 16 + (← hexValue? b)) * 16 + (← hexValue? c)) * 16 +
      (← hexValue? d)
    return (n, r)
  | _ => none

def readEscapedUnit? (cs : List Char) : Option (Char × List Char) := do
  let (n, r) ← readUnit? cs
  if 0xD800 ≤ n && n < 0xDC00 then
    match r with
    | '\\' :: 'u' :: r' =>
      match readUnit? r' with
      | some (m, r'') =>
        if 0xDC00 ≤ m && m < 0xE000 then
          return (Char.ofNat (0x10000 + (n - 0xD800) * 0x400 + (m - 0xDC00)), r'')
        else return (Char.ofNat 0xFFFD, r)
      | none => none
    | _ => return (Char.ofNat 0xFFFD, r)
  else if 0xDC00 ≤ n && n < 0xE000 then return (Char.ofNat 0xFFFD, r)
  else return (Char.ofNat n, r)

def escaped? : Char → Option Char
  | '"' => some '"'
  | '\\' => some '\\'
  | '/' => some '/'
  | 'b' => some (Char.ofNat 8)
  | 'f' => some (Char.ofNat 12)
  | 'n' => some '\n'
  | 'r' => some '\r'
  | 't' => some '\t'
  | _ => none

def readQuoted? : Nat → List Char → List Char → Option (String × List Char)
  | 0, _, _ => none
  | n + 1, acc, cs =>
    match cs with
    | [] => none
    | '"' :: r => some (String.ofList acc.reverse, r)
    | '\\' :: 'u' :: r => do
      let (c, r) ← readEscapedUnit? r
      readQuoted? n (c :: acc) r
    | '\\' :: c :: r => do readQuoted? n ((← escaped? c) :: acc) r
    | c :: r => if c.toNat < 32 then none else readQuoted? n (c :: acc) r

def takeDigits (cs : List Char) : List Char × List Char :=
  (cs.takeWhile Char.isDigit, cs.dropWhile Char.isDigit)

def takeFraction (cs : List Char) : List Char × List Char :=
  match cs with
  | '.' :: r =>
    let (ds, r') := takeDigits r
    if ds.isEmpty then ([], cs) else ('.' :: ds, r')
  | _ => ([], cs)

def takeExponent (cs : List Char) : List Char × List Char :=
  match cs with
  | e :: r =>
    if e == 'e' || e == 'E' then
      let (sign, r') := match r with
        | '+' :: r' => (['+'], r')
        | '-' :: r' => (['-'], r')
        | r' => ([], r')
      let (ds, r'') := takeDigits r'
      if ds.isEmpty then ([], cs) else (e :: sign ++ ds, r'')
    else ([], cs)
  | [] => ([], cs)

/-- Reads a number. A number that starts with zero has no further digits in front of the point. -/
def readNumber? (cs : List Char) : Option (Json × List Char) := do
  let (sign, r) := match cs with
    | '-' :: r => (['-'], r)
    | r => ([], r)
  let (whole, r) ← match r with
    | '0' :: r => some (['0'], r)
    | r =>
      let (ds, r') := takeDigits r
      if ds.isEmpty then none else some (ds, r')
  let (fraction, r) := takeFraction r
  let (exponent, r) := takeExponent r
  if fraction.isEmpty && exponent.isEmpty then
    return (.int (← Decimal.readInt? (String.ofList (sign ++ whole))), r)
  else
    let digits := String.ofList (sign ++ whole ++ fraction ++ exponent)
    return (.float (← Decimal.readFloat? digits), r)

def wordValues : List (String × Json) :=
  [("null", .null), ("true", .bool true), ("false", .bool false),
   ("NaN", .float Decimal.notANumber), ("Infinity", .float Decimal.infinity),
   ("-Infinity", .float (-Decimal.infinity))]

def readWord? (cs : List Char) : Option (Json × List Char) :=
  wordValues.findSome? fun (w, j) => (w.toList.isPrefixOf? cs).map fun r => (j, r)

def readItems? (value : List Char → Option (Json × List Char)) :
    Nat → List Json → List Char → Option (Json × List Char)
  | 0, _, _ => none
  | n + 1, acc, cs => do
    let (j, r) ← value (skipSpace cs)
    match skipSpace r with
    | ',' :: r => readItems? value n (j :: acc) r
    | ']' :: r => return (.arr (j :: acc).reverse, r)
    | _ => none

def readMembers? (value : List Char → Option (Json × List Char)) :
    Nat → List (String × Json) → List Char → Option (Json × List Char)
  | 0, _, _ => none
  | n + 1, acc, cs => do
    match skipSpace cs with
    | '"' :: r =>
      let (name, r) ← readQuoted? (r.length + 1) [] r
      match skipSpace r with
      | ':' :: r =>
        let (j, r) ← value (skipSpace r)
        match skipSpace r with
        | ',' :: r => readMembers? value n ((name, j) :: acc) r
        | '}' :: r => return (.obj ((name, j) :: acc).reverse, r)
        | _ => none
      | _ => none
    | _ => none

def readValueWith? (value : List Char → Option (Json × List Char)) (cs : List Char) :
    Option (Json × List Char) :=
  match cs with
  | '"' :: r => (readQuoted? (r.length + 1) [] r).map fun (s, r) => (.str s, r)
  | '[' :: r =>
    match skipSpace r with
    | ']' :: r => some (.arr [], r)
    | _ => readItems? value (r.length + 1) [] r
  | '{' :: r =>
    match skipSpace r with
    | '}' :: r => some (.obj [], r)
    | _ => readMembers? value (r.length + 1) [] r
  | cs => (readWord? cs).or (readNumber? cs)

def readValue? : Nat → List Char → Option (Json × List Char)
  | 0, _ => none
  | n + 1, cs => readValueWith? (readValue? n) cs

def read? (s : String) : Option Json := do
  let cs := s.toList
  let (j, r) ← readValue? (cs.length + 1) (skipSpace cs)
  if (skipSpace r).isEmpty then return j else none

end WikiFeed.Json

import WikiFeed.Lua.Show
import WikiFeed.Text.Case

/-! # Templates

Two sorts of templates are filled with values: fields in braces, numbered or in order, and fields
behind a percent sign. Both share the layout of a field: fill character, alignment, width and
number of places. -/

namespace WikiFeed.Lua

structure Layout where
  fill : Char
  align : Option Char
  sign : Option Char
  alternate : Bool
  width : Nat
  grouped : Bool
  precision : Option Nat
  type : Option Char

def Layout.plain : Layout := ⟨' ', none, none, false, 0, false, none, none⟩

def Layout.ofType (l : Layout) (t : Option Char) : Layout := { l with type := t }

def Layout.whole (l : Layout) : Layout := { l with precision := none }

def Layout.pad (l : Layout) (default : Char) (sign : String) (body : String) : String :=
  let missing := l.width - (sign.length + body.length)
  let fill (n : Nat) : String := String.ofList (List.replicate n l.fill)
  match l.align.getD default with
  | '<' => sign ++ body ++ fill missing
  | '^' => fill (missing / 2) ++ sign ++ body ++ fill (missing - missing / 2)
  | '=' => sign ++ fill missing ++ body
  | _ => fill missing ++ sign ++ body

def Layout.signText (l : Layout) (negative : Bool) : String :=
  if negative then "-"
  else match l.sign with
    | some '+' => "+"
    | some ' ' => " "
    | _ => ""

def groupDigits (ds : List Char) : List Char :=
  let rec go : Nat → List Char → List Char
    | _, [] => []
    | 0, d :: r => ',' :: d :: go 2 r
    | n + 1, d :: r => d :: go n r
  (go 3 ds.reverse).reverse

def Layout.digits (l : Layout) (type : Char) (n : Nat) : Option (String × String) :=
  let mark (m : String) : String := if l.alternate then m else ""
  let base (b : Nat) : String := String.ofList (Nat.toDigits b n)
  match type with
  | 'd' =>
    let ds := Decimal.natDigits n
    some ("", String.ofList (if l.grouped then groupDigits ds else ds))
  | 'x' => some (mark "0x", base 16)
  | 'X' => some (mark "0X", Text.upper (base 16))
  | 'o' => some (mark "0o", base 8)
  | 'b' => some (mark "0b", base 2)
  | _ => none

def Layout.fixed (l : Layout) (x : Float) : String :=
  let t := Decimal.fixed (l.precision.getD 6) x.abs
  if l.grouped then
    match t.splitOn "." with
    | whole :: rest => ".".intercalate (String.ofList (groupDigits whole.toList) :: rest)
    | [] => t
  else t

def Layout.float (l : Layout) (x : Float) : Result String :=
  let negative := Decimal.isNegative x && !x.isNaN
  match l.type with
  | none =>
    if l.precision.isSome then .error .value
    else .ok (l.pad '>' (l.signText negative) (Decimal.text x.abs))
  | some 'f' | some 'F' => .ok (l.pad '>' (l.signText negative) (l.fixed x))
  | some '%' =>
    .ok (l.pad '>' (l.signText negative) (l.fixed (x * 100.0) ++ "%"))
  | some _ => .error .value

def Layout.int (l : Layout) (n : Int) : Result String :=
  match l.type.getD 'd' with
  | 'f' | 'F' | '%' => do l.float (← calculated (Number.int n).toFloat)
  | 'c' =>
    if 0 ≤ n && n < 0x110000 then .ok (l.pad '<' "" (String.singleton (Char.ofNat n.toNat)))
    else .error .overflow
  | t =>
    if l.precision.isSome then .error .value
    else match l.digits t n.natAbs with
      | some (mark, body) => .ok (l.pad '>' (l.signText (n < 0) ++ mark) body)
      | none => .error .value

def Layout.text (l : Layout) (t : String) : Result String :=
  if l.sign.isSome || l.align == some '=' || (l.type.getD 's') != 's' || l.grouped ||
      l.alternate then
    .error .value
  else
    let t := match l.precision with
      | some p => String.ofList (t.toList.take p)
      | none => t
    .ok (l.pad '<' "" t)

def Layout.value (st : Style) (s : Store) (bare : Bool) (l : Layout) (v : Value) : Result String :=
  if bare then display st s v
  else match v with
    | .str t => l.text t
    | .float x => l.float x
    | v => match v.asInt? with
      | some n => l.int n
      | none => .error .kind

def takeNat (cs : List Char) : Option Nat × List Char :=
  let ds := cs.takeWhile Char.isDigit
  (if ds.isEmpty then none else some (Decimal.ofDigits ds), cs.dropWhile Char.isDigit)

def takeOne (among : List Char) : List Char → Option Char × List Char
  | c :: r => if among.contains c then (some c, r) else (none, c :: r)
  | [] => (none, [])

def readLayout (cs : List Char) : Result Layout :=
  let aligns := ['<', '>', '^', '=']
  let (fill, align, cs) : Option Char × Option Char × List Char := match cs with
    | f :: a :: r => if aligns.contains a then (some f, some a, r)
      else if aligns.contains f then (none, some f, a :: r) else (none, none, cs)
    | [a] => if aligns.contains a then (none, some a, []) else (none, none, cs)
    | [] => (none, none, [])
  let (sign, cs) := takeOne ['+', '-', ' '] cs
  let (alternate, cs) := takeOne ['#'] cs
  let (zero, cs) := takeOne ['0'] cs
  let (width, cs) := takeNat cs
  let (group, cs) := takeOne [','] cs
  let (precision, cs, broken) := match cs with
    | '.' :: r =>
      let (p, r) := takeNat r
      (p, r, p.isNone)
    | r => (none, r, false)
  let layout (type : Option Char) : Layout :=
    { fill := fill.getD (if zero.isSome then '0' else ' ')
      align := if align.isSome then align else if zero.isSome then some '=' else none
      sign := sign, alternate := alternate.isSome, width := width.getD 0, grouped := group.isSome
      precision := precision, type := type }
  if broken then .error .value
  else match cs with
    | [] => .ok (layout none)
    | [t] => .ok (layout (some t))
    | _ => .error .value

/-! ### Fields in braces -/

inductive Part where
  | text (c : Char)
  | field (name : List Char) (conversion : Option Char) (layout : List Char)

def splitField (cs : List Char) : Result Part :=
  let head := cs.takeWhile fun c => c != ':' && c != '!'
  match cs.dropWhile fun c => c != ':' && c != '!' with
  | [] => .ok (.field head none [])
  | ':' :: layout => .ok (.field head none layout)
  | '!' :: c :: ':' :: layout => .ok (.field head (some c) layout)
  | '!' :: c :: [] => .ok (.field head (some c) [])
  | _ => .error .value

/-- The parts of a template. The first argument is the text of the open field in reverse. -/
def templateParts : Option (List Char) → List Char → Result (List Part)
  | none, [] => .ok []
  | some _, [] => .error .value
  | some acc, c :: r =>
    if c == '\x7d' then do return (← splitField acc.reverse) :: (← templateParts none r)
    else if c == '\x7b' then .error .value
    else templateParts (some (c :: acc)) r
  | none, '\x7b' :: '\x7b' :: r => do return .text '\x7b' :: (← templateParts none r)
  | none, '\x7d' :: '\x7d' :: r => do return .text '\x7d' :: (← templateParts none r)
  | none, '\x7b' :: r => templateParts (some []) r
  | none, '\x7d' :: _ => .error .value
  | none, c :: r => do return .text c :: (← templateParts none r)

inductive Numbering where
  | open
  | automatic (next : Nat)
  | manual

def fieldArgument (args : List Value) (name : List Char) (n : Numbering) :
    Result (Value × Numbering) :=
  let at_ (i : Nat) : Result Value := match args[i]? with
    | some v => .ok v
    | none => .error .position
  if name.isEmpty then
    match n with
    | .manual => .error .value
    | .open => do return (← at_ 0, .automatic 1)
    | .automatic i => do return (← at_ i, .automatic (i + 1))
  else if name.all Char.isDigit then
    match n with
    | .automatic _ => .error .value
    | _ => do return (← at_ (Decimal.ofDigits name), .manual)
  else .error .key

def fillParts (st : Style) (s : Store) (args : List Value) : Numbering → List Part → Result String
  | _, [] => .ok ""
  | n, .text c :: r => do return String.singleton c ++ (← fillParts st s args n r)
  | n, .field name conversion layout :: r => do
    let (v, n) ← fieldArgument args name n
    let v ← match conversion with
      | none => pure v
      | some 's' => pure (.str (← display st s v))
      | some 'r' => pure (.str (repr st s v))
      | some _ => .error .value
    let l ← readLayout layout
    return (← l.value st s layout.isEmpty v) ++ (← fillParts st s args n r)

def fillTemplate (st : Style) (s : Store) (template : String) (args : List Value) :
    Result String := do
  fillParts st s args .open (← templateParts none template.toList)

/-! ### Fields behind percent signs -/

def percentField (st : Style) (s : Store) (l : Layout) (type : Char) (v : Value) :
    Result String :=
  match type with
  | 's' => do (l.ofType none).text (← display st s v)
  | 'r' | 'a' => (l.ofType none).text (repr st s v)
  | 'd' | 'i' | 'u' =>
    match v.num? with
    | some (.int n) => (l.ofType (some 'd')).whole.int n
    | some (.float x) =>
      match Decimal.truncate? x with
      | some n => (l.ofType (some 'd')).whole.int n
      | none => .error (if x.isNaN then .value else .overflow)
    | none => .error .kind
  | 'x' | 'X' | 'o' =>
    match v.asInt? with
    | some n => (l.ofType (some type)).whole.int n
    | none => .error .kind
  | 'f' | 'F' => do (l.ofType (some 'f')).float (← v.toFloat)
  | 'c' =>
    match v with
    | .str t => if t.length == 1 then (l.ofType none).text t else .error .kind
    | v => match v.asInt? with
      | some n => (l.ofType (some 'c')).int n
      | none => .error .kind
  | _ => .error .value

def percentFlags (l : Layout) : List Char → Layout × List Char
  | '-' :: r => percentFlags { l with align := some '<' } r
  | '0' :: r =>
    percentFlags (if l.align == some '<' then l else { l with fill := '0', align := some '=' }) r
  | '+' :: r => percentFlags { l with sign := some '+' } r
  | ' ' :: r => percentFlags { l with sign := some ' ' } r
  | '#' :: r => percentFlags { l with alternate := true } r
  | r => (l, r)

/-- Fills a template from left to right; `n` bounds the number of fields. Gives the text and the
arguments that were not used. -/
def fillPercent (st : Style) (s : Store) : Nat → List Char → List Value →
    Result (String × List Value)
  | 0, _, args => .ok ("", args)
  | _ + 1, [], args => .ok ("", args)
  | n + 1, '%' :: r, args =>
    let (l, r) := percentFlags { Layout.plain with align := some '>' } r
    let (width, r) := takeNat r
    let (precision, r) := match r with
      | '.' :: r' =>
        let (p, r') := takeNat r'
        (some (p.getD 0), r')
      | r => (none, r)
    let l := { l with width := width.getD 0, precision := precision }
    match r with
    | [] => .error .value
    | '%' :: r => do
      let (t, args) ← fillPercent st s n r args
      return ("%" ++ t, args)
    | type :: r =>
      if !"srdiuxXofFca".contains type then .error .value
      else match args with
        | [] => .error .kind
        | v :: args => do
          let head ← percentField st s l type v
          let (t, args) ← fillPercent st s n r args
          return (head ++ t, args)
  | n + 1, c :: r, args => do
    let (t, args) ← fillPercent st s n r args
    return (String.singleton c ++ t, args)

def mayBeLeft : Value → Bool
  | .object _ _ => true
  | .rest _ => true
  | _ => false

/-- Fills the fields behind percent signs: a tuple gives several arguments, any other value one,
and all must be used unless the value has members. -/
def percent (st : Style) (s : Store) (template : String) (v : Value) : Result Value := do
  let args := match v with
    | .tuple xs => xs
    | v => [v]
  let (t, left) ← fillPercent st s (template.length + 1) template.toList args
  if left.isEmpty || mayBeLeft v then return .str t else throw .kind

end WikiFeed.Lua

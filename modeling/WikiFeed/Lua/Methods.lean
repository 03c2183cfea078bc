import WikiFeed.Lua.Format
import WikiFeed.Text.Search

/-! # Methods of texts

What can be asked of a text by the name of a method. Positions count characters; a negative one
counts from the end. -/

namespace WikiFeed.Lua

def textMethods : List String :=
  ["capitalize", "casefold", "center", "count", "encode", "endswith", "expandtabs", "find",
   "format", "format_map", "index", "isalnum", "isalpha", "isascii", "isdecimal", "isdigit",
   "isidentifier", "islower", "isnumeric", "isprintable", "isspace", "istitle", "isupper", "join",
   "ljust", "lower", "lstrip", "maketrans", "partition", "removeprefix", "removesuffix", "replace",
   "rfind", "rindex", "rjust", "rpartition", "rsplit", "rstrip", "split", "splitlines",
   "startswith", "strip", "swapcase", "title", "translate", "upper", "zfill"]

/-- The place that a position in a sequence of `n` items stands for: negative ones count from the
end, and all are cut to the sequence. -/
def place (n : Nat) (i : Int) : Nat :=
  if i < 0 then (i + n).toNat else min i.toNat n

def between {α : Type} (xs : List α) (start : Int) (stop : Option Int) : List α :=
  let a := place xs.length start
  let b := match stop with
    | some j => place xs.length j
    | none => xs.length
  (xs.take b).drop a

/-- A text with every word in lower case but for its first letter. A word starts behind a
character without case. -/
def titleFrom (inWord : Bool) : List Char → String
  | [] => ""
  | c :: r =>
    let s := String.singleton c
    let hasCase := Text.upper s != s || Text.lower s != s
    (if inWord then Text.lower s else Text.upper s) ++ titleFrom hasCase r

def findLast? (sub s : List Char) : Option Nat :=
  (List.range (s.length + 1)).reverse.find? fun (k : Nat) => sub.isPrefixOf (s.drop k)

def occurrences (sub s : List Char) : Nat :=
  if sub.isEmpty then s.length + 1 else (Text.split sub s).length - 1

def boundsOf (n : Nat) (args : List Value) : Result (Nat × Nat) := do
  let bound (v : Value) (default : Nat) : Result Nat :=
    match v with
    | .nil => .ok default
    | v =>
      match v.asInt? with
      | some i => .ok (place n i)
      | none => .error .kind
  match args with
  | [] => return (0, n)
  | [a] => return (← bound a 0, n)
  | [a, b] => return (← bound a 0, ← bound b n)
  | _ => .error .kind

def searchText (find : List Char → List Char → Option Nat) (s : List Char) (args : List Value) :
    Result (Option Nat) :=
  match args with
  | .str sub :: bounds => do
    let (a, b) ← boundsOf s.length bounds
    if b < a then return none
    return (find sub.toList ((s.take b).drop a)).map (· + a)
  | _ => .error .kind

def dropStart (args : List Value) (s : List Char) : Result (List Char) :=
  match args with
  | [] | [.nil] => .ok (Text.trimStart s)
  | [.str cs] => .ok (s.dropWhile cs.toList.contains)
  | _ => .error .kind

def dropEnd (args : List Value) (s : List Char) : Result (List Char) :=
  match args with
  | [] | [.nil] => .ok (Text.trimEnd s)
  | [.str cs] => .ok (s.reverse.dropWhile cs.toList.contains).reverse
  | _ => .error .kind

def standsAt (test : List Char → Bool) : Value → Result Bool
  | .str t => .ok (test t.toList)
  | .tuple ts => do
    let bs ← ts.mapM fun t => match t with
      | .str t => Except.ok (test t.toList)
      | _ => .error .kind
    return bs.any id
  | _ => .error .kind

def joinedTexts (items : List Value) : Result (List String) :=
  items.mapM fun v => match v with
    | .str t => .ok t
    | _ => .error .kind

def words (s : List Char) : List (List Char) :=
  (s.splitBy fun a b => Text.isBlank a == Text.isBlank b).filter fun w =>
    !(w.head?.map Text.isBlank).getD true

def splitMethod (s : List Char) (args : List Value) : Result (List String) :=
  let limited (limit : Value) : Result Nat :=
    match limit.asInt? with
    | some n => .ok (if n < 0 then s.length + 1 else n.toNat)
    | none => .error .kind
  let strings (xs : List (List Char)) : List String := xs.map String.ofList
  match args with
  | [] | [.nil] => .ok (strings (words s))
  | [.str sep] => if sep == "" then .error .value else .ok (strings (Text.split sep.toList s))
  | [.str sep, limit] => do
    let n ← limited limit
    if sep == "" then .error .value
    else .ok (strings (Text.pieces sep.toList n 0 [] s))
  | _ => .error .kind

def zeroFilled (s : List Char) (width : Int) : List Char :=
  let fill := List.replicate (width.toNat - s.length) '0'
  match s with
  | '-' :: r => '-' :: fill ++ r
  | '+' :: r => '+' :: fill ++ r
  | s => fill ++ s

/-- A method that gives a value other than a list; `items` are the items of the first argument. -/
def textMethod (st : Style) (store : Store) (name : String) (s : String) (args : List Value)
    (items : List Value) : Result Value :=
  let cs := s.toList
  let text (xs : List Char) : Value := .str (String.ofList xs)
  let plain (v : String) : Result Value := if args.isEmpty then .ok (.str v) else .error .kind
  match name with
  | "upper" => plain (Text.upper s)
  | "lower" | "casefold" => plain (Text.lower s)
  | "title" => plain (titleFrom false cs)
  | "capitalize" =>
    plain (match cs with
      | [] => ""
      | c :: r => Text.upper (String.singleton c) ++ Text.lower (String.ofList r))
  | "swapcase" =>
    plain (String.join (cs.map fun c =>
      let one := String.singleton c
      if Text.upper one == one then Text.lower one else Text.upper one))
  | "strip" => do return text (← dropEnd args (← dropStart args cs))
  | "lstrip" => do return text (← dropStart args cs)
  | "rstrip" => do return text (← dropEnd args cs)
  | "find" => do return .int (((← searchText Text.find? cs args).map Int.ofNat).getD (-1))
  | "rfind" => do return .int (((← searchText findLast? cs args).map Int.ofNat).getD (-1))
  | "index" => do
    match ← searchText Text.find? cs args with
    | some n => return .int n
    | none => .error .value
  | "rindex" => do
    match ← searchText findLast? cs args with
    | some n => return .int n
    | none => .error .value
  | "count" =>
    match args with
    | .str sub :: bounds => do
      let (a, b) ← boundsOf cs.length bounds
      return .int (occurrences sub.toList ((cs.take b).drop a))
    | _ => .error .kind
  | "replace" =>
    match args with
    | [.str old, .str new] => .ok (.str (Text.substitute old new s))
    | [.str old, .str new, limit] => do
      let n ← match limit.asInt? with
        | some n => Except.ok n
        | none => .error .kind
      let k := if n < 0 then cs.length + 1 else n.toNat
      return text (Text.replaceUpTo k old.toList new.toList cs)
    | _ => .error .kind
  | "startswith" =>
    match args with
    | [v] => do return .bool (← standsAt (fun t => t.isPrefixOf cs) v)
    | _ => .error .kind
  | "endswith" =>
    match args with
    | [v] => do return .bool (← standsAt (fun t => t.isSuffixOf cs) v)
    | _ => .error .kind
  | "join" => if args.length == 1 then do return .str (s.intercalate (← joinedTexts items))
    else .error .kind
  | "zfill" =>
    match args with
    | [v] =>
      match v.asInt? with
      | some n => .ok (text (zeroFilled cs n))
      | none => .error .kind
    | _ => .error .kind
  | "format" => do return .str (← fillTemplate st store s args)
  | _ => .error .kind

end WikiFeed.Lua

import WikiFeed.Text.Class

/-! # Searching and cutting text

All functions work on lists of characters from left to right. Separators are found at the leftmost
place and do not overlap; the part of a separator that was already read is counted down, so each
function is a recursion on the text. -/

namespace WikiFeed.Text

def find? (sub : List Char) : List Char → Option Nat
  | [] => if sub.isEmpty then some 0 else none
  | c :: r => if sub.isPrefixOf (c :: r) then some 0 else (find? sub r).map (· + 1)

def cut? (sub : List Char) : List Char → Option (List Char × List Char)
  | [] => if sub.isEmpty then some ([], []) else none
  | c :: r =>
    match sub.isPrefixOf? (c :: r) with
    | some rest => some ([], rest)
    | none => (cut? sub r).map fun (a, b) => (c :: a, b)

/-- The pieces between separators. `skip` characters of a separator are still to be dropped, `acc`
is the piece so far in reverse, and at most `limit` separators are used. -/
def pieces (sep : List Char) (limit skip : Nat) (acc : List Char) : List Char → List (List Char)
  | [] => [acc.reverse]
  | c :: r =>
    match skip with
    | k + 1 => pieces sep limit k acc r
    | 0 =>
      match limit with
      | l + 1 =>
        if sep.isPrefixOf (c :: r) then acc.reverse :: pieces sep l (sep.length - 1) [] r
        else pieces sep (l + 1) 0 (c :: acc) r
      | 0 => pieces sep 0 0 (c :: acc) r

def split (sep s : List Char) : List (List Char) := pieces sep (s.length + 1) 0 [] s

def splitChar (sep : Char) (s : List Char) : List (List Char) := split [sep] s

/-- Puts `new` in front of the first `n` characters, and at the end if there are fewer. -/
def interleave (new : List Char) : Nat → List Char → List Char
  | 0, s => s
  | _ + 1, [] => new
  | n + 1, c :: r => new ++ c :: interleave new n r

/-- Replaces the first `limit` occurrences of `old`. The empty text occurs before each character
and at the end. -/
def replaceUpTo (limit : Nat) (old new s : List Char) : List Char :=
  if old.isEmpty then interleave new limit s
  else List.intercalate new (pieces old limit 0 [] s)

def replace (old new s : List Char) : List Char := replaceUpTo (s.length + 1) old new s

def substitute (old new s : String) : String :=
  String.ofList (replace old.toList new.toList s.toList)

def occurs (sub s : String) : Bool := (find? sub.toList s.toList).isSome

def trimStart (cs : List Char) : List Char := cs.dropWhile isBlank

def trimEnd (cs : List Char) : List Char := (cs.reverse.dropWhile isBlank).reverse

def trim (cs : List Char) : List Char := trimEnd (trimStart cs)

def strip (s : String) : String := String.ofList (trim s.toList)

def lineList (acc : List Char) : List Char → List (List Char)
  | [] => if acc.isEmpty then [] else [acc.reverse]
  | '\r' :: '\n' :: r => acc.reverse :: lineList [] r
  | c :: r => if isLineEnd c then acc.reverse :: lineList [] r else lineList (c :: acc) r

def lines (s : String) : List String := (lineList [] s.toList).map String.ofList

/-- The lines of a text cut after each line feed, which stays with its line. -/
def feedLines (acc : List Char) : List Char → List (List Char)
  | [] => if acc.isEmpty then [] else [acc.reverse]
  | c :: r => if c == '\n' then (c :: acc).reverse :: feedLines [] r else feedLines (c :: acc) r

def plainFeeds : List Char → List Char
  | [] => []
  | '\r' :: '\n' :: r => '\n' :: plainFeeds r
  | '\r' :: r => '\n' :: plainFeeds r
  | c :: r => c :: plainFeeds r

end WikiFeed.Text

import WikiFeed.Text.Case
import WikiFeed.Text.Search

/-! # Wikitext

Wikitext is a list of pieces: plain text, templates with their parameters, slots, links and tags.
The parts of a template are its name and its parameters; in a parameter that has a name of its own,
a divider stands between the name and the value. Parameters without a name are counted from one. -/

namespace WikiFeed

inductive Piece where
  | text (s : List Char)
  /-- a comment, or a tag whose content is not wikitext -/
  | verbatim (s : List Char)
  | divider
  | template (parts : List (List Piece))
  | slot (inside : List Piece)
  | link (inside : List Piece)
  /-- a tag with what stands in it -/
  | tag (opening : List Char) (inside : List Piece) (closing : List Char)

abbrev Wikitext := List Piece

namespace Piece

mutual

def source : Piece → List Char
  | .text s | .verbatim s => s
  | .divider => ['=']
  | .template parts => '\x7b' :: '\x7b' :: sourceOfParts parts ++ ['\x7d', '\x7d']
  | .slot inside => '\x7b' :: '\x7b' :: '\x7b' :: sourceOf inside ++ ['\x7d', '\x7d', '\x7d']
  | .link inside => '[' :: '[' :: sourceOf inside ++ [']', ']']
  | .tag opening inside closing => opening ++ sourceOf inside ++ closing

def sourceOf : List Piece → List Char
  | [] => []
  | p :: r => source p ++ sourceOf r

def sourceOfParts : List (List Piece) → List Char
  | [] => []
  | [p] => sourceOf p
  | p :: r => sourceOf p ++ '|' :: sourceOfParts r

end

def shown : Piece → List Char
  | .text s => s
  | .divider => ['=']
  | .link inside => sourceOf inside
  | .tag _ inside _ => sourceOf inside
  | _ => []

end Piece

structure Parameter where
  name : String
  value : String

structure Template where
  name : String
  shownName : String
  parameters : List Parameter

namespace Template

def isDivider : Piece → Bool
  | .divider => true
  | _ => false

def textOf (w : Wikitext) : String := String.ofList (Piece.sourceOf w)

def parametersFrom (n : Nat) : List Wikitext → List Parameter
  | [] => []
  | p :: r =>
    match p.dropWhile fun x => !isDivider x with
    | _ :: value => ⟨textOf (p.takeWhile fun x => !isDivider x), textOf value⟩ :: parametersFrom n r
    | [] => ⟨toString n, textOf p⟩ :: parametersFrom (n + 1) r

def ofParts (parts : List Wikitext) : Template where
  name := textOf (parts.headD [])
  shownName := String.ofList ((parts.headD []).flatMap Piece.shown)
  parameters := parametersFrom 1 parts.tail

def parameter? (t : Template) (name : String) : Option Parameter :=
  t.parameters.reverse.find? fun p => Text.strip p.name == Text.strip name

def value? (t : Template) (name : String) : Option String :=
  (t.parameter? name).map fun p => Text.strip p.value

def normalized (title : String) : String :=
  match (Text.strip title).toList with
  | [] => ""
  | c :: r => String.ofList (Text.replace ['_'] [' '] (Text.capital c ++ r))

def isNamed (t : Template) (name : String) : Bool := normalized t.shownName == normalized name

end Template

namespace Wikitext

mutual

def templatesIn : Piece → List Template
  | .template parts => Template.ofParts parts :: templatesOfParts parts
  | .slot inside | .link inside | .tag _ inside _ => templates inside
  | _ => []

def templates : List Piece → List Template
  | [] => []
  | p :: r => templatesIn p ++ templates r

def templatesOfParts : List (List Piece) → List Template
  | [] => []
  | p :: r => templates p ++ templatesOfParts r

end

mutual

def replacedIn (f : Template → Option String) : Piece → List Char
  | .template parts =>
    match f (Template.ofParts parts) with
    | some s => s.toList
    | none => '\x7b' :: '\x7b' :: replacedParts f parts ++ ['\x7d', '\x7d']
  | .slot inside => '\x7b' :: '\x7b' :: '\x7b' :: replaced f inside ++ ['\x7d', '\x7d', '\x7d']
  | .link inside => '[' :: '[' :: replaced f inside ++ [']', ']']
  | .tag opening inside closing => opening ++ replaced f inside ++ closing
  | p => p.source

def replaced (f : Template → Option String) : List Piece → List Char
  | [] => []
  | p :: r => replacedIn f p ++ replaced f r

def replacedParts (f : Template → Option String) : List (List Piece) → List Char
  | [] => []
  | [p] => replaced f p
  | p :: r => replaced f p ++ '|' :: replacedParts f r

end

mutual

def nestsIn (test : Template → Bool) : Piece → Bool
  | .template parts =>
    (test (Template.ofParts parts) && (templatesOfParts parts).any test) || nestsInParts test parts
  | .slot inside | .link inside | .tag _ inside _ => nests test inside
  | _ => false

def nests (test : Template → Bool) : List Piece → Bool
  | [] => false
  | p :: r => nestsIn test p || nests test r

def nestsInParts (test : Template → Bool) : List (List Piece) → Bool
  | [] => false
  | p :: r => nests test p || nestsInParts test r

end

end Wikitext

end WikiFeed

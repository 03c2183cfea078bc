import WikiFeed.Text.Search

/-! # Hypertext

Hypertext is a tree of elements and texts. Reading never fails: an element that is not closed ends
with the element around it, and the end of an element that is not open is passed over. -/

namespace WikiFeed

inductive Hypertext where
  | text (s : String)
  | element (name : String) (attributes : List (String × String)) (children : List Hypertext)

namespace Hypertext

/-! ### Searching -/

mutual

def texts : Hypertext → List String
  | .text s => [s]
  | .element _ _ children => textsOf children

def textsOf : List Hypertext → List String
  | [] => []
  | h :: r => texts h ++ textsOf r

end

mutual

def elements (test : String → List (String × String) → Bool) : Hypertext → List Hypertext
  | .text _ => []
  | .element name attributes children =>
    let inner := elementsOf test children
    if test name attributes then .element name attributes children :: inner else inner

def elementsOf (test : String → List (String × String) → Bool) : List Hypertext → List Hypertext
  | [] => []
  | h :: r => elements test h ++ elementsOf test r

end

def children : Hypertext → List Hypertext
  | .text _ => []
  | .element _ _ children => children

def find? (h : Hypertext) (name : String) : Option Hypertext :=
  (elementsOf (fun n _ => n == name) h.children).head?

def wholeText (h : Hypertext) : String := String.join h.texts

def strippedText (h : Hypertext) : String := String.join (h.texts.map Text.strip)

def hasClass (word : String) (attributes : List (String × String)) : Bool :=
  let words := (attributes.lookup "class").getD ""
  (words.toList.splitOnP Text.isBlank).any (· == word.toList)

end Hypertext

end WikiFeed

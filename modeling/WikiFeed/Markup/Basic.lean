import WikiFeed.Decimal.Text

/-! # Markup

Markup is a tree of elements with attributes, in the order in which they were set. Elements are
written one a line, each level set in by four blanks. -/

namespace WikiFeed

inductive Markup where
  | element (tag : String) (attributes : List (String × String)) (children : List Markup)

namespace Markup

instance : Inhabited Markup := ⟨.element "" [] []⟩

def tag : Markup → String
  | .element t _ _ => t

def attributes : Markup → List (String × String)
  | .element _ as _ => as

def children : Markup → List Markup
  | .element _ _ cs => cs

def get? (m : Markup) (name : String) : Option String := m.attributes.lookup name

def findAll (m : Markup) (tag : String) : List Markup := m.children.filter fun c => c.tag == tag

def find? (m : Markup) (tag : String) : Option Markup := (m.findAll tag).head?

def findAllWith (m : Markup) (tag name value : String) : List Markup :=
  (m.findAll tag).filter fun c => c.get? name == some value

def descendants (tag : String) : Markup → List Markup
  | .element _ _ cs => cs.attach.flatMap fun c =>
      (if c.1.tag == tag then [c.1] else []) ++ descendants tag c.1
termination_by m => sizeOf m
decreasing_by
  have := List.sizeOf_lt_of_mem c.2
  simp_wf
  omega

/-! ### Text -/

def escaped (ascii : Bool) (c : Char) : List Char :=
  match c with
  | '&' => "&amp;".toList
  | '<' => "&lt;".toList
  | '>' => "&gt;".toList
  | '"' => "&quot;".toList
  | '\r' => "&#13;".toList
  | '\n' => "&#10;".toList
  | '\t' => "&#09;".toList
  | c => if ascii && 127 < c.toNat then ("&#" ++ toString c.toNat ++ ";").toList else [c]

def attributeText (ascii : Bool) (a : String × String) : String :=
  " " ++ a.1 ++ "=\"" ++ String.ofList (a.2.toList.flatMap (escaped ascii)) ++ "\""

def newLine (level : Nat) : String := "\n" ++ String.ofList (List.replicate (4 * level) ' ')

def textAt (ascii : Bool) (level : Nat) : Markup → String
  | .element tag as cs =>
    let opening := "<" ++ tag ++ String.join (as.map (attributeText ascii))
    if cs.isEmpty then opening ++ " />"
    else
      let inner := cs.attach.map fun c => newLine (level + 1) ++ textAt ascii (level + 1) c.1
      opening ++ ">" ++ String.join inner ++ newLine level ++ "</" ++ tag ++ ">"
termination_by m => sizeOf m
decreasing_by
  have := List.sizeOf_lt_of_mem c.2
  simp_wf
  omega

def text (ascii : Bool) (m : Markup) : String := textAt ascii 0 m

end Markup

end WikiFeed

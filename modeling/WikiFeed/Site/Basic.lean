import WikiFeed.Json.Basic

/-! # The wiki

What the wiki holds before a run: pages, the ways to find them, and files. -/

namespace WikiFeed

/-- The wiki: pages with their texts, where templates are used, the members of categories, the
results of searches, the titles of all pages, the pictures with what is known of them, and the
addresses of files. -/
structure Site where
  pages : List (String × String)
  embeddedIn : List (String × List String)
  categories : List (String × List String)
  searches : List (String × List String)
  titles : List String
  images : List (String × Json)
  urls : List (String × String)

namespace Site

def empty : Site := ⟨[], [], [], [], [], [], []⟩

instance : Inhabited Site := ⟨empty⟩

def contains (s : Site) (title : String) : Bool := (s.pages.lookup title).isSome

def text (s : Site) (title : String) : String := (s.pages.lookup title).getD ""

def pagesUsing (s : Site) (template : String) : List String :=
  (s.embeddedIn.lookup ("Template:" ++ template)).getD []

def pagesOf (s : Site) (category : String) : List String := (s.categories.lookup category).getD []

def found (s : Site) (query : String) : List String := (s.searches.lookup query).getD []

def select (s : Site) (template category : String) : List String :=
  if template == "" then
    if category == "" then s.titles else s.pagesOf category
  else if category == "" then s.pagesUsing template
  else (s.pagesOf category).filter fun p => (s.pagesUsing template).contains p

end Site

end WikiFeed

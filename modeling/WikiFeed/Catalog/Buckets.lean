import WikiFeed.Decimal.Text
import WikiFeed.Phrasebook.Basic

/-! # Tables of wordings, and their buckets

A table gives each key a text, or one text for each character that says it. To be kept on pages of
the wiki it is sorted by its keys and cut into at most a hundred buckets of one size; the index
names the first key of each bucket. A bucket is written as a module that returns a table. -/

namespace WikiFeed.Catalog

inductive Wording where
  | text (s : String)
  | spoken (byCharacter : List (String × String))

abbrev Table := List (String × Wording)

namespace Table

def put (t : Table) (key text : String) : Table := Phrasebook.put t key (.text text)

def speak? (t : Table) (key character text : String) : Option Table :=
  match t.lookup key with
  | some (.text _) => none
  | some (.spoken es) => some (Phrasebook.put t key (.spoken (Phrasebook.put es character text)))
  | none => some (t ++ [(key, .spoken [(character, text)])])

end Table

/-! ### Buckets -/

def sorted {α : Type} (entries : List (String × α)) : List (String × α) :=
  entries.mergeSort fun a b => !(b.1 < a.1)

def bucketSize (total : Nat) : Nat := (total + 99) / 100

def bucketNumber (total place : Nat) : Nat := min (place / bucketSize total) 99

def bucketName (n : Nat) : String := Decimal.padded 2 n

/-- Puts an entry into the first bucket if it has the right name, else into a new one. -/
def gather {α : Type} (name : String) (e : String × α) :
    List (String × List (String × α)) → List (String × List (String × α))
  | [] => [(name, [e])]
  | (n, es) :: rest => if n == name then (n, e :: es) :: rest else (name, [e]) :: (n, es) :: rest

def buckets {α : Type} (entries : List (String × α)) : List (String × List (String × α)) :=
  (sorted entries).zipIdx.foldr
    (fun e => gather (bucketName (bucketNumber entries.length e.2)) e.1) []

def index {α : Type} (entries : List (String × α)) : List (String × String) :=
  (buckets entries).filterMap fun b => b.2.head?.map fun e => (e.1, b.1)

/-! ### Modules -/

def escapes : List (String × String) :=
  [("\\", "\\\\"), ("\"", "\\\""), ("\n", "\\n"), ("\r", "\\r")]

/-- A text as it stands between quotes: the replacements are made one after the other. -/
def escape (s : String) : String := escapes.foldl (fun s e => Text.substitute e.1 e.2 s) s

def entryLine (indent key text : String) : String :=
  indent ++ "[\"" ++ key ++ "\"] = \"" ++ escape text ++ "\","

def entryLines (e : String × Wording) : List String :=
  match e.2 with
  | .text s => [entryLine "  " (escape e.1) s]
  | .spoken es =>
    ["  [\"" ++ escape e.1 ++ "\"] = \x7b"] ++
      (sorted es).map (fun c => entryLine "    " c.1 c.2) ++ ["  \x7d,"]

def moduleText (entries : Table) : String :=
  "\n".intercalate (["return \x7b"] ++ (sorted entries).flatMap entryLines ++ ["\x7d"])

end WikiFeed.Catalog

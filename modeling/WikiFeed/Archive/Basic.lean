import WikiFeed.Text.Search
import WikiFeed.Text.Utf8

/-! # Archives

An archive is a list of members with their paths; of two members with one path the later one
counts. -/

namespace WikiFeed

/-- Members by their paths, in the order of writing. -/
structure Archive where
  members : List (String × List UInt8)

namespace Archive

def empty : Archive := ⟨[]⟩

instance : Inhabited Archive := ⟨empty⟩

def paths (a : Archive) : List String := a.members.map (·.1)

def member? (a : Archive) (path : String) : Option (List UInt8) :=
  (a.members.reverse.find? fun m => m.1 == path).map (·.2)

def contains (a : Archive) (path : String) : Bool := (a.member? path).isSome

def folders (path : String) : List String :=
  let parts := (path.splitOn "/").filter (· != "")
  ((List.range (parts.length - 1)).map
    fun (k : Nat) => "/".intercalate (parts.take (k + 1)) ++ "/").reverse

/-- The paths of all members and, behind them, of all folders that are not members. -/
def allPaths (a : Archive) : List String :=
  let named := a.paths
  let around := (named.flatMap folders).filter fun f => !named.contains f
  named ++ around.eraseDups

def baseName (path : String) : String :=
  ((((path.splitOn "/").filter (· != "")).getLast?).getD "")

def children (a : Archive) (folder : String) : List String :=
  a.allPaths.filter fun p => (folders p).head? == some folder

end Archive

def Text.withPlainFeeds (s : String) : String := String.ofList (Text.plainFeeds s.toList)

end WikiFeed

/-! # Values by keys

A row of keys with values, in which a key stands where it was first written. -/

namespace WikiFeed.Places

/-- Writes the value of a key: in place if the key is there, else at the end. -/
def put {κ α : Type} [BEq κ] (ps : List (κ × α)) (k : κ) (x : α) : List (κ × α) :=
  if (ps.lookup k).isSome then ps.map fun p => if p.1 == k then (p.1, x) else p else ps ++ [(k, x)]

/-- The last value that each key is given, by the first place of the key. -/
def lastByKey {κ α : Type} [BEq κ] (ps : List (κ × α)) : List (κ × α) :=
  ps.foldl (fun done p => put done p.1 p.2) []

end WikiFeed.Places

import WikiFeed.Json.Tagged
import WikiFeed.Picture.Tagged
import WikiFeed.Studio.Basic

/-! # Files as JSON data

A file is given as a text, as bytes in hexadecimal digits, as a picture, as the members of an
archive, or as the data of a bank or a build that is to be written. -/

namespace WikiFeed

open Sprite (Bank Build Building)

def Datum.ofTagged (j : Json) : Datum := Datum.ofTaggedUpTo (fun _ => "object") 1000 j

def Sprite.Members.ofTagged (j : Json) : Sprite.Members :=
  match Datum.ofTagged j with
  | .dict es => es
  | _ => []

namespace Content

def bankBytes (data : Sprite.Members) : List UInt8 := ((Bank.ofData data).write.1.content).getD []

def buildBytes (data : Sprite.Members) : List UInt8 :=
  match Building.write (Build.ofData data "", []) with
  | .ok _ s | .error _ s => s.1.content.getD []

def ofTagged : Nat → Json → Content
  | 0, _ => .bytes []
  | n + 1, j =>
    match j with
    | .obj (("hex", h) :: _) => .bytes (Text.ofHexadecimal h.asText)
    | .obj (("image", p) :: _) => .picture (.ofJson p)
    | .obj (("zip", ms) :: _) => .archive (ms.pairs.map fun m => (m.1.asText, ofTagged n m.2))
    | .obj (("anim", d) :: _) => .bytes (bankBytes (.ofTagged d))
    | .obj (("build", d) :: _) => .bytes (buildBytes (.ofTagged d))
    | j => .ofText j.asText

def isText (name : String) : Bool := [".json", ".scml", ".xml", ".txt"].contains (Path.ending name)

def toTagged (colours : Bool) (name : String) : Content → Json
  | .picture p => p.toJson colours
  | .archive ms => .obj [("zip", .arr (ms.attach.map fun m =>
      .arr [.str m.1.1, toTagged colours m.1.1 m.1.2]))]
  | .bytes bs =>
    if isText name then .str (Text.decodeLossy bs) else .obj [("hex", .str (Text.toHexadecimal bs))]
termination_by c => sizeOf c
decreasing_by
  have h := List.sizeOf_lt_of_mem m.2
  obtain ⟨⟨n, c⟩, hm⟩ := m
  simp_wf
  simp at h
  omega

end Content

namespace Folder

def ofTagged (j : Json) : Folder :=
  j.pairs.foldl (fun f p => f.place p.1.asText (Content.ofTagged 8 p.2)) .empty

def listed (f : Folder) (given : List String) : List (String × Content) :=
  (f.files.filter fun e => !e.1.startsWith "/" && !given.contains e.1).mergeSort
    fun a b => !(b.1 < a.1)

def toTagged (f : Folder) (colours : Bool) (given : List String) : Json :=
  .arr ((f.listed given).map fun e => .arr [.str e.1, e.2.toTagged colours e.1])

end Folder

namespace Sprite

def Portraits.toTagged (colours : Bool) (ps : Portraits) : Json :=
  .arr (ps.map fun p => .arr [.str p.1, p.2.picture.toJson colours])

def Bank.ofTagged (j : Json) : Bank :=
  ⟨(j.get? "hex").map fun h => Text.ofHexadecimal h.asText, .ofTagged (j.get "data")⟩

def Build.ofTagged (workFolder : String) (j : Json) : Build where
  content := (j.get? "hex").map fun h => Text.ofHexadecimal h.asText
  data := .ofTagged (j.get "data")
  portraits := (j.get "images").members.map fun p => (p.1, .ofPicture (.ofJson p.2))
  pages := (j.itemsOf "atlases").map fun p => .ofPicture (.ofJson p)
  workFolder := workFolder

end Sprite

end WikiFeed

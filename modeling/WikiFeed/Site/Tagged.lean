import WikiFeed.Archive.Basic
import WikiFeed.Site.Basic
import WikiFeed.Text.Hexadecimal

/-! # The wiki and archives as JSON data

What a wiki holds and the members of an archive, as they are given to a run. -/

namespace WikiFeed

def bytesOfJson (j : Json) : List UInt8 :=
  match j.get? "hex" with
  | some h => Text.ofHexadecimal h.asText
  | none => Text.encode j.asText

def Archive.ofJson (j : Json) : Archive := ⟨j.pairs.map fun p => (p.1.asText, bytesOfJson p.2)⟩

def Site.ofJson (s : Json) : Site :=
  let lists (name : String) := (s.get name).members.map fun m => (m.1, m.2.items.map Json.asText)
  let texts (name : String) := (s.get name).members.map fun m => (m.1, m.2.asText)
  ⟨texts "pages", lists "embeddedin", lists "categories", lists "search",
    (s.itemsOf "allpages").map Json.asText,
    (s.itemsOf "allimages").map fun i => (i.word "name", (i.get? "imageinfo").getD (.obj [])),
    texts "urls"⟩

end WikiFeed

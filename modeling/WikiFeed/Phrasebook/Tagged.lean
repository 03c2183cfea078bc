import WikiFeed.Json.Basic
import WikiFeed.Phrasebook.Basic

/-! # Phrases as JSON data

Phrases, and what is found by names in a phrase book, as data with tags. -/

namespace WikiFeed

def Json.mapping (members : List (String × Json)) : Json :=
  .obj [("dict", .arr (members.map fun m => .arr [.str m.1, m.2]))]

def Phrase.toTagged (p : Phrase) : Json :=
  .mapping [("msgctxt", .str p.context), ("msgid", .str p.source), ("msgstr", .str p.text)]

namespace Phrasebook

def toTagged (b : Phrasebook) : Json := .mapping (b.map fun e => (e.1, e.2.toTagged))

def stationsToTagged (b : Phrasebook) : Json := .mapping (b.map fun e =>
  (e.1, .mapping [("station_en", .str e.2.source), ("station_cn", .str e.2.text)]))

def namesToTagged (names : List (String × Named)) : Json := .mapping (names.map fun e =>
  (e.1, match e.2 with
    | .one p => p.toTagged
    | .many ps => .obj [("list", .arr (ps.map Phrase.toTagged))]))

end Phrasebook

end WikiFeed

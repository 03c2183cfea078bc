import WikiFeed.Errand.Basic
import WikiFeed.Profile.Basic

/-! # The pages of profiles

Each profile of the game's table becomes a page. -/

namespace WikiFeed.Profile

def tablePath : String := "data/unsafedata/DST_Prefab.json"

def feed : Errand Unit := do
  match Json.read? (← Errand.fileText (← Errand.gamePath tablePath)) with
  | none => throw .value
  | some table => do
    let profiles ← Errand.lift (profilesIn table)
    let numbered := (traitNames profiles).all fun n => (Decimal.readFloat? n).isSome
    (columns profiles).forM fun c => do
      let traits ← Errand.lift (withName numbered c.1 c.2)
      Errand.save ("Data:DST Prefab/" ++ labelText c.1 ++ ".json") (text traits) none

end WikiFeed.Profile

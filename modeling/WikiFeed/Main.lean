import WikiFeed.Program

/-! # The command line

The first argument names an errand, or says that a path is to be converted. The desk at which it is
done is read from standard input as one line of JSON data. What the errand prints and the actions
that it asks for are written to standard output. -/

namespace WikiFeed

def errands : List (String × Errand Unit) := [
  ("strings", Catalog.feed), ("skins", Skin.feed), ("icons", Icon.feed), ("profiles", Profile.feed),
  ("history", History.feed), ("old-modules", Upkeep.deleteOldModules),
  ("word", Upkeep.replaceWord), ("thumbnails", Upkeep.touchAll), ("drops", Upkeep.listDrops),
  ("animations", Upkeep.listLargeAnimations), ("item-pictures", Upkeep.exchangeItemPictures),
  ("pictures", Upkeep.exchangePictures), ("waxed", Upkeep.redirectWaxedPlants)]

def errandOf? : List String → Option (Errand Unit)
  | ["convert", path] => some (Errand.inStudio (Studio.convert path))
  | [name] => errands.lookup name
  | _ => none

def Desk.after (d : Desk) (e : Errand Unit) : Desk × Bool :=
  match e d with
  | .ok _ d => (d, true)
  | .error _ d => (d, false)

def Desk.ofLine (line : String) : Desk :=
  let j := (Json.read? line).getD .null
  .ofTagged "game" (j.word "version") ⟨j.word "account", j.word "password"⟩ j

end WikiFeed

open WikiFeed in
def main (args : List String) : IO UInt32 := do
  match errandOf? args with
  | none => do
    IO.eprintln ("usage: convert PATH | " ++ " | ".intercalate (errands.map (·.1)))
    return 2
  | some e => do
    let (d, done) := (Desk.ofLine (← (← IO.getStdin).getLine)).after e
    IO.print d.studio.printed
    IO.println (d.log.text .line)
    return if done then 0 else 1

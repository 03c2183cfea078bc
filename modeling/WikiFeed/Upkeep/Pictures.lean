import WikiFeed.Errand.Basic
import WikiFeed.Wikitext.Reader

/-! # Upkeep of pictures

Small errands on pictures: large animations are listed, templates for pictures are exchanged, and
files are redirected. -/

namespace WikiFeed.Upkeep

open Errand
open Sprite (Result Fault)

/-! ### Large animations -/

def pixelLimit : Number := .int 12500000

def pixelsIn (info note : Datum) : Result (Option Number) := do
  match ← Sprite.named note "name" with
  | .str "frameCount" => do
    let area ← Sprite.times (← Sprite.named info "width") (← Sprite.named info "height")
    return some (← Sprite.numberOf (← Sprite.times area (← Sprite.named note "value")))
  | _ => return none

def excesses (info : Datum) : Result Nat := do
  let notes ← Sprite.itemsOf (← Sprite.named info "metadata")
  let sizes ← notes.mapM (pixelsIn info)
  return (sizes.filterMap id).countP pixelLimit.less

def largeAnimations (images : List (String × Json)) : Result (List String) := do
  let animations := images.filter fun i => (Text.lower i.1).endsWith ".gif"
  let found ← animations.mapM fun i => do return List.replicate (← excesses (.ofJson i.2)) i.1
  return found.flatten

def listLargeAnimations : Errand Unit := do
  let names ← lift (largeAnimations (← site).images)
  storeText "Maintenance/gif.json" ((Json.arr (names.map .str)).text (.indented 4))

/-! ### Templates -/

/-- Replaces the opening of the template for pictures of items by that of the one for pictures of a
size. -/
def exchangeOpening : List Char → List Char
  | [] => []
  | c :: r =>
    match ("\x7b\x7bItem/pic".toList.isPrefixOf? (c :: r)).or
        ("\x7b\x7bitem/pic".toList.isPrefixOf? (c :: r)) with
    | some _ => "\x7b\x7bPic|32".toList ++ exchangeOpening (r.drop 9)
    | none => c :: exchangeOpening r
termination_by cs => cs.length

def exchangeItemPictures : Errand Unit := do
  let site ← site
  (site.select "Item/pic" "").forM fun page =>
    save page (String.ofList (exchangeOpening (site.text page).toList))
      (some "Item/pic改为Pic")

def fileLink (t : Template) : String :=
  let value (name : String) : String := (t.value? name).getD ""
  "[[File:" ++ value "2" ++ ".png|" ++ value "1" ++ "px|link=" ++ value "3" ++ "]]"

def isPicture (t : Template) : Bool := t.isNamed "Pic"

/-- A text with links to files for templates for pictures; none if there is no such template. A
template inside of another one cannot be found any more when its turn comes. -/
def withFileLinks (text : String) : Result (Option String) :=
  let w := Wikitext.ofText text
  if Wikitext.nests isPicture w then .error .value
  else if (Wikitext.templates w).any isPicture then
    .ok (some (String.ofList (Wikitext.replaced
      (fun t => if isPicture t then some (fileLink t) else none) w)))
  else .ok none

def exchangePictures : Errand Unit := do
  let site ← site
  (site.select "Pic" "").forM fun page => do
    match ← lift (withFileLinks (site.text page)) with
    | some text => save page text (some "不再依赖pic")
    | none => return

def waxedPlants : List String := ["Carrots", "Corn", "Potato", "Toma Root", "Asparagus", "Eggplant",
  "Pumpkin", "Watermelon", "Dragon Fruit", "Durian", "Garlic", "Onion", "Pepper", "Pomegranate"]

def redirectWaxedPlants : Errand Unit :=
  waxedPlants.forM fun plant => do
    let plain := "File:Giant " ++ plant ++ " Dropped.png"
    let waxed := "File:Waxed Giant " ++ plant ++ " Dropped.png"
    print ("Creating redirect: " ++ waxed ++ " -> " ++ plain ++ "\n")
    save waxed ("#REDIRECT [[" ++ plain ++ "]]")
      (some ("Bot: Redirecting to [[" ++ plain ++ "]]"))

end WikiFeed.Upkeep

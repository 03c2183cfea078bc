import WikiFeed.Errand.Basic
import WikiFeed.Wikitext.Reader

/-! # Upkeep of pages

Small errands on pages: old modules are deleted, a word is replaced, pages whose thumbnails failed
are touched, and what things drop is listed. -/

namespace WikiFeed.Upkeep

open Errand
open Sprite (Result Fault)

/-! ### Old modules -/

def isSmallHexadecimal (c : Char) : Bool := ('0' ≤ c && c ≤ '9') || ('a' ≤ c && c ≤ 'f')

def isOldModule (title : String) : Bool :=
  ["模块:DST Strings ", "模块:DS Strings "].any fun start =>
    match start.toList.isPrefixOf? title.toList with
    | some [a, b] | some [a, b, '\n'] => isSmallHexadecimal a && isSmallHexadecimal b
    | _ => false

def deleteOldModules : Errand Unit := do
  ((← site).titles.filter isOldModule).forM fun title =>
    ask (.delete title "Cleanup old md5-bucketed Strings modules")

def replaceWord : Errand Unit := do
  let site ← site
  (site.found "辣椒面").forM fun title => do
    let text := site.text title
    let changed := Text.substitute "辣椒面" "辣椒碎" text
    if changed != text then save title changed (some "批量替换文本")

def touchAll : Errand Unit := do
  ((← site).found "创建缩略图出错").forM fun title => ask (.touch title)

/-! ### Drops -/

/-- A parameter that says what a thing drops: its page, the number of its template on the page, and
its value. -/
structure Drop where
  page : String
  place : Nat
  value : String

def dropIn (page : String) (t : Template × Nat) : Result (Option Drop) :=
  match t.1.value? "掉落" with
  | none => .ok none
  | some value =>
    if !Text.occurs "实体信息框" t.1.name then .ok none
    else if Text.occurs "实体信息框/自动" t.1.name && (t.1.value? "2").isNone &&
      (t.1.value? "代码").isNone then .error .value
    else .ok (some ⟨page, t.2, value⟩)

def dropsOn (page text : String) : Result (List Drop) := do
  let found ← (Wikitext.templates (Wikitext.ofText text)).zipIdx.mapM (dropIn page)
  return found.filterMap id

def dropsText (drops : List Drop) : String :=
  (Json.arr (drops.map fun d => .obj [("page", .str d.page), ("infobox_index", .int d.place),
    ("drop_param_original", .str d.value),
    ("drop_param_current", .str d.value)])).text (.indented 4)

def listDrops : Errand Unit := do
  let site ← site
  let drops ← (site.select "实体信息框" "联机版").mapM fun page =>
    lift (dropsOn page (site.text page))
  storeText "Maintenance/drops.json" (dropsText drops.flatten)
  print ("共收集到 " ++ toString drops.flatten.length ++ " 条掉落信息，已写入 drops.json\n")

end WikiFeed.Upkeep

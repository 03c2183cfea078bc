import WikiFeed.Catalog.Basic
import WikiFeed.Catalog.Buckets
import WikiFeed.Errand.Basic

/-! # The strings of the game

The strings of the game's catalog become an index, modules in two languages, a table of the names of
items, and a list of the items that have no page. -/

namespace WikiFeed.Catalog

open Errand
open Sprite (Result Fault)

/-! ### What the strings say -/

structure Item where
  id : String
  chinese : String
  english : String
  picture : Datum

/-- What the strings say: the wordings in both languages, and the items. -/
structure Strings where
  chinese : Table
  english : Table
  items : List Item

def nameLine (s : String) : String :=
  Text.substitute "\t" "" (Text.substitute "\n" "\\n" (Text.strip s))

def itemOf (pictures : List (Datum × Datum)) (path : List String) (e : Entry) : Result Item :=
  match path[2]? with
  | none => .error .position
  | some part =>
    let id := Text.lower part
    let english := nameLine e.id
    let picture := (Datum.lookup pictures (.str id)).getD (.str (english ++ ".png"))
    .ok ⟨id, nameLine e.text, english, picture⟩

def characterOf (part : String) : String :=
  match Text.lower part with
  | "generic" => "wilson"
  | name => name

def Strings.word (s : Strings) (path : List String) (e : Entry) : Result Strings :=
  match path with
  | _ :: "CHARACTERS" :: who :: part :: parts =>
    let key := ".".intercalate ("CHARACTERS" :: part :: parts)
    match s.chinese.speak? key (characterOf who) e.text,
      s.english.speak? key (characterOf who) e.id with
    | some chinese, some english => .ok { s with chinese, english }
    | _, _ => .error .kind
  | path =>
    let key := ".".intercalate path.tail
    .ok { s with chinese := s.chinese.put key e.text, english := s.english.put key e.id }

def pathOf? (e : Entry) : Option (List String) :=
  match (Text.splitChar '.' (Text.upper (e.context.getD "")).toList).map String.ofList with
  | "STRINGS" :: part :: parts => some ("STRINGS" :: part :: parts)
  | _ => none

def Strings.take (pictures : List (Datum × Datum)) (s : Strings) (e : Entry) : Result Strings :=
  match pathOf? e with
  | none => .ok s
  | some path => do
    let s ← if path[1]? == some "NAMES" then do
        pure { s with items := s.items ++ [← itemOf pictures path e] }
      else pure s
    s.word path e

def strings (pictures : List (Datum × Datum)) (entries : List Entry) : Result Strings :=
  entries.foldlM (Strings.take pictures) ⟨[], [], []⟩

/-! ### Pages -/

def itemPage : String := "Data:ItemTable.tabx"

def picturesIn (table : Datum) : Result (List (Datum × Datum)) := do
  let fields ← tableFields table
  let ids := (← columnPlace? ["id"] fields).getD 0
  let pictures := (← columnPlace? ["item_img1", "img"] fields).getD 0
  (← tableRows table).foldlM (fun done row => do
    let id ← Sprite.itemAt row ids
    let picture ← Sprite.itemAt row pictures
    if id.isKey then return Datum.put done id picture else .error .kind) []

def indexText (t : Table) : String :=
  (Json.obj [("data", .arr ((index t).map fun e =>
    .obj [("key", .str e.1), ("bucket", .str e.2)]))]).text .line

def itemText (note : String) (items : List Item) : String :=
  (Json.obj [("sources", .str note),
    ("schema", .obj [("fields", textColumns ["id", "name_cn", "name_en", "item_img1"])]),
    ("data", .arr (items.map fun i =>
      .arr [.str i.id, .str i.chinese, .str i.english, i.picture.asJson]))]).text (.indented 2)

def unwanted : List String := ["“月亮” 草图", "沐浴球图纸", "月蛾草图", "???", "月光斧蓝图", "空无一物",
  "未使用", "环形山地皮蓝图", "未知", "迷你冰山", "融化的迷你冰山"]

def wanted (titles : List String) (name : String) : Bool :=
  !titles.contains name && !unwanted.contains name &&
    !(["\x7b", "%s", "\\n"].any fun mark => Text.occurs mark name)

def missingRows (titles : List String) (items : List Item) : List (String × String) :=
  sorted ((items.filter fun i => wanted titles i.chinese).foldl (fun rows i =>
    Phrasebook.put rows i.id
      ("<tr><td>" ++ i.id ++ "</td><td>[[" ++ i.chinese ++ "]]</td></tr>")) [])

def rowTable (heading : String) (rows : List (String × String)) : String :=
  "<table class=\"wikitable sortable mw-collapsible mw-collapsed\">\n<tr><th>" ++ heading ++
    "</th><th>页面</th></tr>\n" ++ String.join (rows.map (·.2)) ++ "\n</table>\n"

def missingText (titles : List String) (items : List Item) : String :=
  let (event, plain) := (missingRows titles items).partition fun r => Text.occurs "quagmire" r.1
  "从 chinese_s.po 的 STRING.NAMES 中自动提取的全部缺失页面，可能含有废弃的prefab及其翻译（例如：" ++
    "anchor_sketch），因此不代表其中的每个页面都需要创建。\n" ++
    rowTable "prefab" plain ++ "\n" ++ rowTable "暴食prefab" event

/-! ### The errand -/

def gameEntries (content : Content) : Errand (List Entry) := do
  match read? (← lift (plainText content)) with
  | some entries => return entries
  | none => throw .notCatalog

def saveModules (language note : String) (t : Table) : Errand Unit :=
  (buckets t).forM fun b =>
    save ("Module:DST Strings " ++ language ++ " " ++ b.1) (moduleText b.2) (some note)

def feed : Errand Unit := do
  let content ← lift (memberOf (← scripts) "scripts/languages/chinese_s.po")
  let note := "Extract data from patch " ++ (← gameVersion)
  let entries ← gameEntries content
  let site ← site
  let pictures ← if site.contains itemPage then do
      lift (picturesIn (← pageData itemPage))
    else pure []
  let s ← lift (strings pictures entries)
  if s.chinese.isEmpty then throw .key
  save "Data:DST Strings Index.json" (indexText s.chinese) (some note)
  saveModules "CN" note s.chinese
  saveModules "EN" note s.english
  save itemPage (itemText note s.items) (some note)
  save "Project:施工计划/缺失页面" (missingText site.titles s.items) (some note)

end WikiFeed.Catalog

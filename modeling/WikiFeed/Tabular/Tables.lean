import WikiFeed.Tabular.Sheet

/-! # The tables of the wiki

The table of items, the table of recipes and the table of speech. -/

namespace WikiFeed.Tabular

/-- A column that takes null, and whether it may be left out. -/
def plainColumn (attr : String) (kind : ColumnKind) (blank : Bool) (chinese : Datum) :
    Declaration :=
  ⟨attr, kind, .null, true, blank, .null, chinese, false⟩

def columnsOrNone (ds : List Declaration) : List Column :=
  match columnsOf .null [] ds with
  | .ok cs => cs
  | .error _ => []

/-! ### Items -/

def itemColumns : List Declaration :=
  [{ plainColumn "id_" .text false .null with primary := true },
   plainColumn "name_cn" .text true .null,
   plainColumn "name_en" .text false .null,
   plainColumn "item_img1" .text false .null]

def plainQuotes (r : Row) (key : String) : Row × Outcome Unit :=
  match r.cell key with
  | .str s => (r.put key (.str (Text.substitute "\\\"" "\"" s)), .ok ())
  | _ => (r, .error (.fault .member))

def prepareItem (r : Row) : Row × Outcome Unit :=
  match plainQuotes r "name_cn" with
  | (r, .ok _) => plainQuotes r "name_en"
  | failed => failed

def itemTable : Schema :=
  ⟨columnsOrNone itemColumns, .str "饥荒联机版的代码、中、英、图片名对应表", prepareItem⟩

/-! ### Recipes -/

def ingredientColumns : List Declaration :=
  (List.range 6).flatMap fun i =>
    let n := Decimal.intText (i + 1 : Nat)
    [plainColumn ("ingredient" ++ n) .text true (.str ("材料" ++ n)),
     plainColumn ("amount" ++ n) .number true (.str ("材料" ++ n ++ "数量"))]

def recipeColumns : List Declaration :=
  [{ plainColumn "recipe_name" .text false (.str "配方名称") with primary := true }] ++
  ingredientColumns ++
  [plainColumn "product" .text true (.str "产物"),
   plainColumn "numtogive" .number true (.str "产物数量"),
   plainColumn "override_numtogive_fn" .truth true (.str "产物数量函数"),
   plainColumn "tech" .text false (.str "科技"),
   plainColumn "hint_msg" .text true (.str "提示信息"),
   plainColumn "description" .text true (.str "描述"),
   plainColumn "nounlock" .truth true (.str "不可解锁"),
   plainColumn "no_deconstruction" .truth true (.str "不可拆解"),
   plainColumn "unlocks_from_skin" .truth true (.str "皮肤锁定"),
   plainColumn "station_tag" .text true (.str "制作站标签"),
   plainColumn "builder_tag" .text true (.str "制作者标签"),
   plainColumn "builder_skill" .text true (.str "制作者技能"),
   plainColumn "desc" .text true (.str "制作描述")]

def prepareRecipe (r : Row) : Row × Outcome Unit :=
  let r := match r.cell "product" with
    | .null => r.put "product" (r.cell "recipe_name")
    | _ => r
  let r := match r.cell "numtogive" with
    | .null => r.put "numtogive" (.int 1)
    | _ => r
  (r, .ok ())

def recipeTable : Schema :=
  ⟨columnsOrNone recipeColumns, .str "饥荒联机版的合成配方列表", prepareRecipe⟩

/-! ### Speech -/

def speechColumns : List Declaration :=
  [plainColumn "speech_character" .text false .null,
   plainColumn "speech_code" .text false .null,
   plainColumn "strings_code" .text false .null,
   plainColumn "strings_en" .text false .null,
   plainColumn "strings_cn" .text true .null]

def speechTable : Schema :=
  ⟨columnsOrNone speechColumns, .str "饥荒联机版的角色台词列表", fun r => (r, .ok ())⟩

def declaredTable (ds : List Declaration) (description : Option Datum) : Outcome Schema := do
  return ⟨← columnsOf .null [] ds, description.getD (.str "尚未填写表的描述"), fun r => (r, .ok ())⟩

end WikiFeed.Tabular

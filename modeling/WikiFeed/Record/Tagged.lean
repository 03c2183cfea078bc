import WikiFeed.Lua.Tagged
import WikiFeed.Record.Object

/-! # Tagged values for data scripts

Values for data scripts are read from JSON data with tags. There are no entities among them. -/

namespace WikiFeed.Record

open Lua (Value)

def ofTagged (j : Json) : Eval Value := do
  let m ← get
  match (Lua.readTagged (pure .nil) 1000 j).run ⟨m.store, m.labels⟩ with
  | .ok (v, d) => do
    set { m with store := d.store, labels := d.labels }
    return v
  | .error f => fail f

def Recipe.toTagged (value : Value → Json) (r : Recipe) : Json :=
  let mapping (members : List (String × Json)) : Json :=
    .obj [("dict", .arr (members.map fun m => .arr [.str m.1, m.2]))]
  mapping ([("name", value r.name),
    ("ingredients", .obj [("list", .arr (r.ingredients.map fun g =>
      mapping [("prefab", value g.prefabName), ("amount", value g.amount)]))]),
        ("TECH", .str r.tech)] ++
    match r.config with
    | some c => [("config", mapping (c.map fun e => (e.1, value e.2)))]
    | none => [])

end WikiFeed.Record

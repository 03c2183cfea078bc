import WikiFeed.Lua.Tagged
import WikiFeed.Prefab.Library

/-! # Tagged values for prefab scripts

Values for prefab scripts are read from JSON data with tags, among them new entities. -/

namespace WikiFeed.Prefab

open Lua (Value)

def readEntity : Lua.ReadTagged Value := fun d =>
  match newEntity { (default : Machine) with store := d.store } with
  | .ok v m => .ok (v, { d with store := m.store })
  | .error _ _ => .ok (.nil, d)

def ofTagged (j : Json) : Eval Value := do
  let m ← get
  match (Lua.readTagged readEntity 1000 j).run ⟨m.store, m.labels⟩ with
  | .ok (v, d) => do
    set { m with store := d.store, labels := d.labels }
    return v
  | .error f => fail f

end WikiFeed.Prefab

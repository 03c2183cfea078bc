import WikiFeed.Json.Tagged
import WikiFeed.Lua.Show

/-! # Values with tags

A value is written as JSON data in which the kinds of objects are told by tags. An object inside of
itself is written as the number of steps up to it. Reading such data makes new objects. -/

namespace WikiFeed.Lua

/-! ### Writing -/

/-- The objects around a value, innermost first; `none` for what is no object. -/
abbrev Trail := List (Option Ref)

def Trail.stepsTo? (path : Trail) (r : Ref) : Option Nat :=
  (path.findIdx? (· == some r)).map (· + 1)

def taggedIn (builtin : Json) (st : Style) (s : Store) : Nat → Trail → Value → Json
  | 0, _, _ => .null
  | depth + 1, path, v =>
    let inside (r : Option Ref) (v : Value) : Json := taggedIn builtin st s depth (r :: path) v
    let several (tag : String) (r : Option Ref) (xs : List Value) : Json :=
      .obj [(tag, .arr (xs.map (inside r)))]
    let entries (r : Ref) : Json := .arr ((s.table r).toList.map fun (k, v) =>
      .arr [inside (some r) k, inside (some r) v])
    match v with
    | .nil => .null
    | .bool b => .bool b
    | .int n => .int n
    | .float x => .ofFloat x
    | .complex _ _ => .obj [("obj", .str "complex")]
    | .str t => .str t
    | .tuple xs => several "tuple" none xs
    | .rest xs => several "varargs" none xs
    | .spread xs => several "unpack" none xs
    | .object k r =>
      match path.stepsTo? r with
      | some n => .obj [("cycle", .int n)]
      | none =>
        match s.cell r with
        | .table _ => .obj [("t", entries r)]
        | .dummy _ _ => .obj [("dummy", entries r)]
        | .entity _ tags o _ =>
          let names := (tags.map fun t => match t with
            | .str t => t
            | _ => "").mergeSort fun a b => !(b < a)
          .obj [("entity", .obj [("tags", .arr (names.map .str)), ("override", inside (some r) o),
            ("data", entries r)])]
        | .dict _ => .obj [("dict", entries r)]
        | .list xs => several "list" (some r) xs
        | .vector x y z => several "vec3" (some r) [x, y, z]
        | .asset t f p => several "asset" (some r) [t, f, p]
        | .phrase _ _ =>
          match display st s (.object k r) with
          | .ok t => .obj [("dstr", .str t)]
          | .error _ => .obj [("dstr", .null)]
        | .stub _ _ _ => .obj [("dummy", .str (stubText s r))]
    | .func f => .obj [("fn", .str f.kind)]
    | .tree t => .obj [("node", .str t.className)]
    | .lazy t => .obj [("lazy", .str t.className)]
    | .native _ => builtin
    | .module _ => .obj [("obj", .str "ModuleWrapper")]
    | .method _ _ => builtin
    | .view .keys _ r => several "list" none (s.table r).keys
    | .view .values _ r => several "list" none (s.table r).values
    | .view .items _ r => several "list" none ((s.table r).toList.map fun (k, v) => .tuple [k, v])

/-- A value with tags. No path goes through an object twice, so that a depth above the number of
objects is only reached by tuples inside of tuples. -/
def tagged (builtin : Json) (st : Style) (s : Store) (v : Value) : Json :=
  taggedIn builtin st s (2 * s.cells.size + 1000) [] v

/-! ### Reading -/

structure Reading where
  store : Store
  labels : Nat

abbrev ReadTagged := StateT Reading Result

def ReadTagged.make (c : Cell) : ReadTagged Value := modifyGet fun d =>
  let (v, s) := d.store.alloc c
  (v, { d with store := s })

def ReadTagged.stubAt (names : List String) : ReadTagged Value := do
  let root ← make (.stub .empty (.str (names.headD "")) none)
  names.tail.foldlM (fun v n => match v with
    | .object _ r => do
      let w ← make (.stub .empty (.str n) (some r))
      modify fun d => { d with store := d.store.updateTable r (·.put (.str n) w) }
      return w
    | v => return v) root

def readTagged (entity : ReadTagged Value) : Nat → Json → ReadTagged Value
  | 0, _ => return .nil
  | depth + 1, j => do
    let inner := readTagged entity depth
    let table (t : Json) : ReadTagged Table := do
      return .ofList (← t.pairs.mapM fun (k, v) => do return (← inner k, ← inner v))
    match j with
    | .null => return .nil
    | .bool b => return .bool b
    | .int n => return .int n
    | .float x => return .float x
    | .str s => return .str s
    | .arr js => ReadTagged.make (.list (← js.mapM inner))
    | .obj [("f", x)] => return .float x.floatOf
    | .obj [("tuple", xs)] => return .tuple (← xs.items.mapM inner)
    | .obj [("dict", t)] => ReadTagged.make (.dict (← table t))
    | .obj [("t", t)] => ReadTagged.make (.table (← table t))
    | .obj [("vec3", xs)] =>
      match ← xs.items.mapM inner with
      | [x, y, z] => ReadTagged.make (.vector x y z)
      | _ => return .nil
    | .obj [("dummy", .str path)] => ReadTagged.stubAt (path.splitOn ".")
    | .obj [("dummy", t)] => ReadTagged.make (.dummy (← table t) none)
    | .obj [("entity", _)] => entity
    | .obj [("lua", e)] =>
      match readExpr (← get).labels e.asText with
      | .error e => throw (.unreadable e)
      | .ok (e, n) =>
        modify fun d => { d with labels := n }
        match e with
        | .function f => return .func f
        | e => return .tree (.expr e)
    | .obj [("chunk", e)] =>
      match readChunk (← get).labels e.asText with
      | .error e => throw (.unreadable e)
      | .ok (b, n) =>
        modify fun d => { d with labels := n }
        match b with
        | .function f :: _ => return .func f
        | .expr e :: _ => return .tree (.expr e)
        | s :: _ => return .tree (.stmt s)
        | [] => return .nil
    | _ => return .nil

end WikiFeed.Lua

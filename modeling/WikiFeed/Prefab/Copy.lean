import WikiFeed.Prefab.Object

/-! # Copies

A copy of an object has copies of everything inside; what occurs twice in the object occurs twice
in the copy. A copied function works in a new empty scope beside its own, and the functions written
in it are copies too, which get a scope of their own when they are defined. -/

namespace WikiFeed.Prefab

open WikiFeed.Lua

/-- What has been copied so far: objects, labels of functions and scopes with their copies. -/
structure Copied where
  objects : List (Ref × Value)
  labels : List (Nat × Nat)
  scopes : List (ScopeId × ScopeId)

abbrev Copying := StateT Copied Eval

def copyScope (i : ScopeId) : Copying ScopeId := do
  match (← get).scopes.lookup i with
  | some j => return j
  | none =>
    let s := (← getThe Machine).scopes.getD i default
    let j ← newScope s.parent s.owner
    modify fun c => { c with scopes := (i, j) :: c.scopes }
    return j

/-- The label of the copy of a function. It has the parameters for receivers that the function has
gained, and no scope yet. -/
def copyLabel (l : Nat) : Copying Nat := do
  match (← get).labels.lookup l with
  | some new => return new
  | none =>
    let c ← closureOf l
    let new ← modifyGetThe Machine fun m => (m.labels, { m with labels := m.labels + 1 })
    modifyClosure new fun _ => ⟨none, c.receivers⟩
    modify fun c => { c with labels := (l, new) :: c.labels }
    return new

def copyFunc (f : Func) : Copying Value := do
  let c ← closureOf f.label
  let g ← f.relabelM copyLabel
  let scope ← c.scope.mapM copyScope
  modifyClosure g.label fun c => { c with scope := scope }
  return .func g

def copyEntries (copy : Value → Copying Value) (r : Ref) : List (Value × Value) → Copying Unit
  | [] => return
  | (k, v) :: rest => do
    let k ← copy k
    let v ← copy v
    modifyTable r (·.put k v)
    copyEntries copy r rest

def copyParts (copy : Value → Copying Value) (r : Ref) (cell : Cell) : Copying Unit := do
  let set (c : Cell) : Eval Unit := modifyStore (·.update r fun _ => c)
  match cell with
  | .list xs => set (.list (← xs.mapM copy))
  | .vector x y z => set (.vector (← copy x) (← copy y) (← copy z))
  | .asset t f p => set (.asset (← copy t) (← copy f) (← copy p))
  | .phrase n (some p) =>
    let n ← copy n
    match ← copy (.object .phrase p) with
    | .object _ p => set (.phrase n (some p))
    | _ => return
  | .entity _ tags o a =>
    let o ← copy o
    modifyStore (·.update r fun c => .entity c.entries tags o a)
  | _ => return

def copyObject (copy : Value → Copying Value) (k : Kind) (r : Ref) : Copying Value := do
  let cell := (← getThe Machine).store.cell r
  let new ← alloc (cell.withEntries .empty)
  modify fun c => { c with objects := (r, new) :: c.objects }
  match new with
  | .object _ q =>
    copyEntries copy q cell.entries.toList
    copyParts copy q cell
    return new
  | v => return if k == .table then v else new

def copyUpTo : Nat → Value → Copying Value
  | 0, _ => throw (.fault .tooDeep)
  | n + 1, v => do
    match v with
    | .tuple xs => return .tuple (← xs.mapM (copyUpTo n))
    | .rest xs => return .rest (← xs.mapM (copyUpTo n))
    | .spread xs => return .spread (← xs.mapM (copyUpTo n))
    | .func f => copyFunc f
    | .object k r =>
      match (← get).objects.lookup r with
      | some w => return w
      | none => copyObject (copyUpTo n) k r
    | v => return v

def deepCopy (v : Value) : Eval Value := do
  let (w, _) ← (copyUpTo 300 v).run ⟨[], [], []⟩
  return w

end WikiFeed.Prefab

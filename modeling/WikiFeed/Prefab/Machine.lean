import WikiFeed.Archive.Basic
import WikiFeed.Lua.Format
import WikiFeed.Lua.Scope

/-! # The state of the prefab evaluator

Scopes form chains: each scope knows its parent, which is older than itself, and the evaluator that
it belongs to. A name is looked up from the innermost scope outward; an assignment changes the
innermost binding, or makes one in the outermost scope. Several evaluators can share scopes through
the functions that one of them defines and another one calls. -/

namespace WikiFeed.Prefab

open WikiFeed.Lua

export Lua (ScopeId Scoped)
export Lua.Scoped (bound chain define lookup? outer? outermost varsOf)

/-- A scope: its parent, its evaluator, the number it is shown under and its variables. -/
structure Scope where
  parent : Option ScopeId
  owner : Option Nat
  number : Nat
  vars : Table

instance : Inhabited Scope := ⟨⟨none, none, 0, .empty⟩⟩

instance : Scoped Scope where
  parent := Scope.parent
  vars := Scope.vars
  withVars s t := { s with vars := t }
  parent_withVars _ _ := rfl
  vars_withVars _ _ := rfl

/-- The sort of an evaluator: how much it knows of prefabs and tables of constants. -/
inductive Dialect where
  | plain
  | constants
  | tuning
  | prefabs
deriving DecidableEq, Inhabited

/-- An evaluator: its current scope, the scopes of the callers, the scope of the first block, its
sort, and whether it passes over what is not a tuning table. -/
structure Evaluator where
  scope : ScopeId
  stack : List ScopeId
  firstBlock : Option ScopeId
  dialect : Dialect
  passing : Bool

instance : Inhabited Evaluator := ⟨⟨0, [], none, .plain, false⟩⟩

/-- What a function has gained by being defined: its scope, and a parameter for the receiver for
each time it was defined as a method. -/
structure Closure where
  scope : Option ScopeId
  receivers : Nat

/-- The whole state. `active` is the evaluator at work, `labels` the next label of a function,
`library` the names that every script knows, `modules` the results of required files and `prefabs`
the instances by the names of their prefabs. -/
structure Machine where
  store : Store
  scopes : Array Scope
  nextNumber : Nat
  closures : List (Nat × Closure)
  labels : Nat
  evaluators : Array Evaluator
  active : Nat
  library : Table
  modules : Table
  prefabs : Table
  loot : Ref
  scripts : Option Archive
  out : String

instance : Inhabited Machine :=
  ⟨⟨.empty, #[], 1, [], 0, #[], 0, .empty, .empty, .empty, 0, none, ""⟩⟩

/-- What ends an evaluation early: a fault, a return or a break. -/
inductive Signal where
  | fault (f : Fault)
  | ret (v : Value)
  | brk

/-- Computations on the state that may be left early. The state is kept when that happens. -/
abbrev Eval := EStateM Signal Machine

/-- How tables are shown. -/
def style : Style := ⟨"LuaTable(", ")", true⟩

/-! ### Scope chains -/

/-- The number of scopes from a scope to the outermost one. -/
def level (scopes : Array Scope) (i : ScopeId) : Nat := (chain scopes i).length

/-- An assignment goes outward as long as there is a parent and the scope does not have the name. It
defines the name where it stops. -/
def assign (scopes : Array Scope) (i : ScopeId) (name v : Value) : Array Scope :=
  match outer? scopes i with
  | some p =>
    if bound scopes name i then define scopes i name v else assign scopes p name v
  | none => define scopes i name v
termination_by i
decreasing_by exact p.2

/-- A scope as it is shown. -/
def scopeText (scopes : Array Scope) (i : ScopeId) : String :=
  "scope" ++ Decimal.intText (scopes.getD i default).number ++ ": in level: " ++
    Decimal.intText (level scopes i)

/-! ### Steps -/

/-- Ends evaluation with a fault. -/
def fail {α : Type} (f : Fault) : Eval α := throw (.fault f)

/-- A result as a step that leaves the state alone. -/
def lift {α : Type} : Result α → Eval α
  | .ok a => pure a
  | .error f => fail f

/-- The evaluator at work. -/
def Machine.evaluator (m : Machine) : Evaluator := m.evaluators.getD m.active default

/-- The state with a change to the evaluator at work. -/
def Machine.adjust (f : Evaluator → Evaluator) (m : Machine) : Machine :=
  { m with evaluators := m.evaluators.modify m.active f }

/-- The evaluator at work. -/
def current : Eval Evaluator := do return (← get).evaluator

/-- Changes the evaluator at work. -/
def modifyCurrent (f : Evaluator → Evaluator) : Eval Unit := modify (Machine.adjust f)

/-- The scope that evaluation takes place in. -/
def here : Eval ScopeId := do return (← current).scope

/-- Changes scopes. -/
def modifyScopes (f : Array Scope → Array Scope) : Eval Unit :=
  modify fun m => { m with scopes := f m.scopes }

/-- The state with a new scope under the next number. -/
def Machine.addScope (parent : Option ScopeId) (owner : Option Nat) (m : Machine) : Machine :=
  { m with
    scopes := m.scopes.push ⟨parent, owner, m.nextNumber, .empty⟩
    nextNumber := m.nextNumber + 1 }

/-- Makes a scope without entering it. -/
def newScope (parent : Option ScopeId) (owner : Option Nat) : Eval ScopeId :=
  modifyGet fun m => (m.scopes.size, m.addScope parent owner)

/-- Does `after` when `body` is over, however it ends. -/
def ensuring {α : Type} (body : Eval α) (after : Machine → Machine) : Eval α := fun m =>
  match body m with
  | .ok a m => .ok a (after m)
  | .error e m => .error e (after m)

/-- The state in which an evaluator is in a scope. -/
def Machine.enter (m : Machine) (evaluator : Nat) (i : ScopeId) : Machine :=
  { m with evaluators := m.evaluators.modify evaluator fun e => { e with scope := i } }

/-- Enters a new scope inside another one, for its owner or for a given evaluator. -/
def openChild (parent : ScopeId) (evaluator : Option Nat) : Eval ScopeId := do
  match ((← get).scopes.getD parent default).owner with
  | none => fail .value
  | some owner =>
    let child ← newScope (some parent) (some (evaluator.getD owner))
    modify (·.enter (evaluator.getD owner) child)
    return child

/-- The state in which the owner of a scope is back in it. -/
def Machine.leaveTo (parent : ScopeId) (m : Machine) : Machine :=
  match (m.scopes.getD parent default).owner with
  | none => m
  | some owner => m.enter owner parent

/-- Does something in a new scope inside another one. -/
def inChild {α : Type} (parent : ScopeId) (evaluator : Option Nat) (body : Eval α) : Eval α := do
  let _ ← openChild parent evaluator
  ensuring body (Machine.leaveTo parent)

/-- Does something in a new scope inside the one at hand. -/
def inBlock {α : Type} (body : Eval α) : Eval α := do inChild (← here) none body

/-- Makes a variable in the scope at hand. -/
def defineHere (name v : Value) : Eval Unit := do
  let i ← here
  modifyScopes fun ss => define ss i name v

/-- Makes an object. -/
def alloc (c : Cell) : Eval Value :=
  modifyGet fun m =>
    let (v, s) := m.store.alloc c
    (v, { m with store := s })

/-- Makes a placeholder, an object that has all members. -/
def newDummy : Eval Value := alloc (.dummy .empty none)

/-- Changes objects. -/
def modifyStore (f : Store → Store) : Eval Unit := modify fun m => { m with store := f m.store }

/-- The entries of an object. -/
def tableOf (r : Ref) : Eval Table := do return (← get).store.table r

/-- Changes the entries of an object. -/
def modifyTable (r : Ref) (f : Table → Table) : Eval Unit := modifyStore (·.updateTable r f)

/-- Prints a line. -/
def printLine (s : String) : Eval Unit := modify fun m => { m with out := m.out ++ s ++ "\n" }

/-- A value as it is shown. -/
def displayed (v : Value) : Eval String := do lift (display style (← get).store v)

/-- The variables of a scope as they are shown. -/
def scopeContent (i : ScopeId) : Eval String := do
  let lines ← ((← get).scopes.getD i default).vars.toList.mapM fun (k, v) => do
    return "K: " ++ (← displayed k) ++ " V: " ++ (← displayed v) ++ "\n"
  return String.join lines

/-- What a function has gained by being defined so far. -/
def closureOf (label : Nat) : Eval Closure := do
  return ((← get).closures.lookup label).getD ⟨none, 0⟩

/-- Changes what a function has gained by being defined. -/
def modifyClosure (label : Nat) (f : Closure → Closure) : Eval Unit := do
  let c ← closureOf label
  modify fun m =>
    { m with closures := (label, f c) :: m.closures.filter fun p => p.1 != label }

end WikiFeed.Prefab

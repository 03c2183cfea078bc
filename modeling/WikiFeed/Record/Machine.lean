import WikiFeed.Lua.Format
import WikiFeed.Lua.Scope

/-! # The state of the record evaluator

Record scripts define recipes and skills. A scope is entered for every block, loop and call and is
always left again; a return is caught by the innermost scope that is left. The scope of a script is
the one right below the outermost scope, entered outside of all calls. -/

namespace WikiFeed.Record

open WikiFeed.Lua

export Lua (ScopeId Scoped)
export Lua.Scoped (bound chain define lookup? outer? outermost varsOf)

structure Scope where
  parent : Option ScopeId
  vars : Table

instance : Inhabited Scope := ⟨⟨none, .empty⟩⟩

instance : Scoped Scope where
  parent := Scope.parent
  vars := Scope.vars
  withVars s t := { s with vars := t }
  parent_withVars _ _ := rfl
  vars_withVars _ _ := rfl

structure Ingredient where
  prefabName : Value
  amount : Value

structure Recipe where
  name : Value
  ingredients : List Ingredient
  tech : String
  config : Option (List (String × Value))

/-- Whether recipes are collected, with all other calls left alone. -/
inductive Purpose where
  | data
  | recipes
deriving DecidableEq, Inhabited

/-- The whole state. `here` is the current scope, `stack` holds the scopes of the callers, `script`
is the scope of the script and `result` the value of the last return. `reports` says whether the
scopes are printed when a name is not found. -/
structure Machine where
  store : Store
  scopes : Array Scope
  here : ScopeId
  stack : List ScopeId
  script : Option ScopeId
  result : Value
  closures : List (Nat × ScopeId)
  labels : Nat
  recipes : List (Value × Recipe)
  purpose : Purpose
  reports : Bool
  out : String

instance : Inhabited Machine :=
  ⟨⟨.empty, #[default], 0, [], none, .nil, [], 0, [], .data, false, ""⟩⟩

inductive Signal where
  | fault (f : Fault)
  | ret

/-- Computations on the state that may be left early. The state is kept when that happens. -/
abbrev Eval := EStateM Signal Machine

def style : Style := ⟨"", "", false⟩

/-! ### Scope chains -/

/-- The number of ancestors of a scope. -/
def depth (scopes : Array Scope) (i : ScopeId) : Nat := (chain scopes i).length - 1

/-- The first scope that has a name, going outward. It is a fault if there is none. -/
def binder (scopes : Array Scope) (i : ScopeId) (name : String) : Result ScopeId :=
  if bound scopes (.str name) i then .ok i
  else match outer? scopes i with
    | some p => binder scopes p name
    | none => .error (.notFound name)
termination_by i
decreasing_by exact p.2

/-- An assignment changes the scope that has the name. If the search for it fails, the outermost
scope gets a new variable. -/
def assign (scopes : Array Scope) (i : ScopeId) (name : String) (v : Value) : Array Scope :=
  match binder scopes i name with
  | .ok s => define scopes s (.str name) v
  | .error _ => define scopes (outermost scopes i) (.str name) v

def scopeText (s : Store) (scopes : Array Scope) (i : ScopeId) : String :=
  "<Scope depth=" ++ Decimal.intText (depth scopes i) ++ " keys=" ++
    bracketed "[" "]" ((varsOf scopes i).keys.map (repr style s)) ++ ">"

def reported (scopes : Array Scope) (i : ScopeId) : List ScopeId :=
  match chain scopes i with
  | [] => []
  | s :: ancestors => s :: ancestors.takeWhile fun a => (varsOf scopes a).size != 0

/-! ### Steps -/

def fail {α : Type} (f : Fault) : Eval α := throw (.fault f)

def lift {α : Type} : Result α → Eval α
  | .ok a => pure a
  | .error f => fail f

def modifyScopes (f : Array Scope → Array Scope) : Eval Unit :=
  modify fun m => { m with scopes := f m.scopes }

def defineHere (name : String) (v : Value) : Eval Unit :=
  modify fun m => { m with scopes := define m.scopes m.here (.str name) v }

def Machine.startsScript (m : Machine) (parent : ScopeId) : Bool :=
  m.stack.isEmpty && (m.scopes.getD parent default).parent.isNone

def Machine.enter (m : Machine) (parent : ScopeId) : Machine :=
  let i := m.scopes.size
  { m with
    scopes := m.scopes.push ⟨some parent, .empty⟩
    here := i
    script := if m.startsScript parent then some i else m.script }

def Machine.leaveBlock (scope : ScopeId) (m : Machine) : Machine :=
  { m with here := (m.scopes.getD scope default).parent.getD m.here }

/-- Enters a call: the caller's scope is put on the stack, and the body gets a new scope inside the
scope of the function. -/
def Machine.enterCall (scope : ScopeId) (m : Machine) : Machine :=
  { m with stack := m.here :: m.stack }.enter scope

def Machine.leaveCall (m : Machine) : Machine :=
  { m with here := m.stack.headD m.here, stack := m.stack.tail }

/-- Runs `body` in a scope that `enter` makes, and leaves the scope by `leave` however the body
ends. A return ends here. -/
def within (enter leave : Machine → Machine) (body : Eval Unit) : Eval Unit := fun m =>
  match body (enter m) with
  | .ok _ n => .ok () (leave n)
  | .error .ret n => .ok () (leave n)
  | .error e n => .error e (leave n)

def inBlock (body : Eval Unit) : Eval Unit := fun m =>
  within (fun m => m.enter m.here) (Machine.leaveBlock m.scopes.size) body m

def inCall (scope : ScopeId) (body : Eval Unit) : Eval Unit :=
  within (Machine.enterCall scope) Machine.leaveCall body

def alloc (c : Cell) : Eval Value :=
  modifyGet fun m =>
    let (v, s) := m.store.alloc c
    (v, { m with store := s })

def modifyStore (f : Store → Store) : Eval Unit := modify fun m => { m with store := f m.store }

def tableOf (r : Ref) : Eval Table := do return (← get).store.table r

def modifyTable (r : Ref) (f : Table → Table) : Eval Unit := modifyStore (·.updateTable r f)

def printLine (s : String) : Eval Unit := modify fun m => { m with out := m.out ++ s ++ "\n" }

def valueOf (name : String) : Eval Value := do
  let m ← get
  match lookup? m.scopes m.here (.str name) with
  | some v => return v
  | none =>
    if m.reports then
      (reported m.scopes m.here).forM fun i => printLine (scopeText m.store m.scopes i)
    fail (.notFound name)

end WikiFeed.Record

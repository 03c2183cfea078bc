import WikiFeed.Lua.Table

/-! # Chains of scopes

Each scope has variables and knows its parent, which is older than itself. A name is looked up from
the innermost scope outward. Evaluators have scopes with more to them, and their own assignments. -/

namespace WikiFeed.Lua

/-- The place of a scope among all scopes. -/
abbrev ScopeId := Nat

/-- What all scopes have: a parent, and variables that can be replaced. -/
class Scoped (σ : Type) [Inhabited σ] where
  parent : σ → Option ScopeId
  vars : σ → Table
  withVars : σ → Table → σ
  parent_withVars : ∀ s t, parent (withVars s t) = parent s
  vars_withVars : ∀ s t, vars (withVars s t) = t

namespace Scoped

variable {σ : Type} [Inhabited σ] [Scoped σ]

/-- The variables of a scope itself. -/
def varsOf (scopes : Array σ) (i : ScopeId) : Table := vars (scopes.getD i default)

/-- The parent of a scope, which is older than the scope. -/
def outer? (scopes : Array σ) (i : ScopeId) : Option { p : ScopeId // p < i } :=
  (parent (scopes.getD i default)).bind fun p => if h : p < i then some ⟨p, h⟩ else none

/-- A scope with its ancestors, from the inside to the outside. -/
def chain (scopes : Array σ) (i : ScopeId) : List ScopeId :=
  i :: match outer? scopes i with
    | some p => chain scopes p
    | none => []
termination_by i
decreasing_by exact p.2

/-- The scope without a parent that a scope is inside of. -/
def outermost (scopes : Array σ) (i : ScopeId) : ScopeId :=
  match outer? scopes i with
  | some p => outermost scopes p
  | none => i
termination_by i
decreasing_by exact p.2

/-- Whether a scope itself has a variable of a name. -/
def bound (scopes : Array σ) (name : Value) (i : ScopeId) : Bool := (varsOf scopes i).contains name

/-- The value of a name: that of a scope, or else the one that its parent finds. -/
def lookup? (scopes : Array σ) (i : ScopeId) (name : Value) : Option Value :=
  if bound scopes name i then some ((varsOf scopes i).get name)
  else match outer? scopes i with
    | some p => lookup? scopes p name
    | none => none
termination_by i
decreasing_by exact p.2

/-- A variable of one scope with a new value. -/
def define (scopes : Array σ) (i : ScopeId) (name v : Value) : Array σ :=
  scopes.modify i fun s => withVars s ((vars s).put name v)

end Scoped

end WikiFeed.Lua

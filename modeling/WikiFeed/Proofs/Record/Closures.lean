import WikiFeed.Proofs.Record.Arguments

/-! # The scopes of functions in record scripts

A function is its definition: each evaluation of the definition gives the function the scope that is
current there, also where it was given another one before. Nothing else touches the scope of a
function, so a call works in a new scope inside the one that was given last
(`callsIn_last_scope`). -/

namespace WikiFeed.Record

open Lua Places

def Works (label : Nat) (scope : ScopeId) (m : Machine) : Prop :=
  m.closures.lookup label = some scope ∧ scope < m.scopes.size

variable {α : Type} {label : Nat} {scope : ScopeId} {m : Machine}

/-! ### Changes of the state -/

theorem Works.define (h : Works label scope m) (i : ScopeId) (name v : Value) :
    Works label scope { m with scopes := define m.scopes i name v } :=
  ⟨h.1, by rw [Scoped.size_define]; exact h.2⟩

theorem Works.enter (h : Works label scope m) (parent : ScopeId) :
    Works label scope (m.enter parent) :=
  ⟨h.1, Nat.lt_of_lt_of_le h.2 (grown_push _ _).size_le⟩

def Machine.captured (m : Machine) (label : Nat) : Machine :=
  { m with closures := (label, m.here) :: m.closures.filter fun p => p.1 != label }

theorem works_captured (label : Nat) (h : m.here < m.scopes.size) :
    Works label m.here (m.captured label) :=
  ⟨List.lookup_cons_self, h⟩

theorem Works.captured (h : Works label scope m) {other : Nat}
    (hother : other = label → m.here = scope) : Works label scope (m.captured other) := by
  by_cases heq : other = label
  · obtain rfl := hother heq
    exact heq ▸ works_captured other h.2
  · refine ⟨?_, h.2⟩
    have hne : label ≠ other := Ne.symm heq
    change List.lookup label ((other, m.here) :: _) = _
    rw [List.lookup_cons, beq_eq_false_iff_ne.mpr hne]
    exact (lookup_filter_of_ne hne m.closures).trans h.1

abbrev staying (label : Nat) (scope : ScopeId) : Policy := ⟨fun l i => l = label → i = scope⟩

variable {n : Machine}

theorem Works.steps {p : Permit} {e : Ending} (hm : Works label scope m)
    (h : @Steps (staying label scope) p m e n) : Works label scope n := by
  induction h with
  | alike h =>
    obtain ⟨_, _, _, rfl⟩ := h
    exact hm
  | fault => exact hm
  | trans _ _ ih₁ ih₂ => exact ih₂ (ih₁ hm)
  | define => exact hm.define _ _ _
  | assign =>
    rw [assign_eq_define]
    exact hm.define _ _ _
  | defineOutermost => exact hm.define _ _ _
  | capture _ _ hc => exact hm.captured hc
  | ret => exact hm
  | block _ _ ih => exact ih (hm.enter _)
  | call _ _ _ _ ih => exact ih (hm.enter _)
  | callFault _ _ _ ih => exact ih (hm.enter _)

theorem Works.leads {p : Permit} {r : EStateM.Result Signal Machine α} (hm : Works label scope m)
    (h : @Leads (staying label scope) α p m r) : Works label scope (finalState r) := by
  cases r with
  | ok a n => exact hm.steps h
  | error s n => exact hm.steps h

/-! ### Definitions -/

variable {f : Func} {node : Node}

theorem visitStep_function (h : node.function? = some f) (rec : Visitor) :
    visitStep rec node = visitFunction f := by
  unfold Node.function? at h
  split at h <;> cases h <;> rfl

/-- What a definition does: it takes the current scope along, or puts that off among recipes, or
fails before it does anything. -/
theorem visitFunction_cases (f : Func) (m : Machine) :
    (∃ v scopes, visitFunction f m = .ok v { m.captured f.label with scopes := scopes } ∧
      scopes.size = m.scopes.size) ∨
    (∃ v scopes, visitFunction f m = .ok v { m with scopes := scopes } ∧
      scopes.size = m.scopes.size ∧ m.purpose = .recipes ∧ ∃ name, f.head = .local name) ∨
    ∃ s, visitFunction f m = .error s m := by
  obtain ⟨label, head, params, body⟩ := f
  cases head with
  | anonymous => exact .inl ⟨_, _, rfl, rfl⟩
  | «local» name =>
    by_cases hp : m.purpose = .recipes
    · rw [visitFunction_local, if_pos (beq_iff_eq.mpr hp)]
      exact .inr (.inl ⟨_, _, rfl, Scoped.size_define m.scopes m.here (.str name) _, hp, name, rfl⟩)
    · rw [visitFunction_local, if_neg (mt beq_iff_eq.mp hp)]
      exact .inl ⟨_, _, rfl, Scoped.size_define m.scopes m.here (.str name) _⟩
  | global target =>
    cases target with
    | name n => exact .inl ⟨_, _, rfl, Scoped.size_define _ _ _ _⟩
    | _ => exact .inr (.inr ⟨_, rfl⟩)
  | method source name => exact .inr (.inr ⟨_, rfl⟩)

theorem works_of_visitFunction {v : Value} (hhere : m.here < m.scopes.size)
    (heager : m.purpose = .recipes → ∀ name, f.head ≠ .local name)
    (h : visitFunction f m = .ok v n) : Works f.label m.here n := by
  have hcaptured := works_captured f.label hhere
  rcases visitFunction_cases f m with ⟨w, scopes, h', hsize⟩ | ⟨_, _, _, _, hp, name, hn⟩ | ⟨s, h'⟩
  · cases h.symm.trans h'
    exact ⟨hcaptured.1, hsize ▸ hhere⟩
  · exact absurd hn (heager hp name)
  · nomatch h.symm.trans h'

/-! ### Evaluations that leave a function in its scope -/

/-- Whether a piece of syntax gives the function with a label another scope than a given one. -/
def Node.resets (node : Node) (label : Nat) (scope : ScopeId) (m : Machine) : Bool :=
  node.function?.any fun f => f.label == label && m.here != scope

/-- Evaluation that stops where the function with a label would be given another scope. -/
def visitUnlessReset (label : Nat) (scope : ScopeId) : Nat → Node → Eval Value
  | 0, _ => fail .tooDeep
  | depth + 1, node => do
    if node.resets label scope (← get) then fail .tooDeep
    else visitStep (visitUnlessReset label scope depth) node

theorem Node.binds_of_function? (h : node.function? = some f) : node.permit.binds = true := by
  unfold Node.function? at h
  split at h <;> cases h <;> rfl

theorem follows_visitUnlessReset (label : Nat) (scope : ScopeId) :
    ∀ depth, @Follows (staying label scope) (visitUnlessReset label scope depth)
  | 0, _ => fun m => @Steps.fault (staying label scope) _ m
  | depth + 1, node => by
    let := staying label scope
    intro m
    have hrec := follows_visitUnlessReset label scope depth
    have hrun : visitUnlessReset label scope (depth + 1) node m =
        (if node.resets label scope m then fail .tooDeep
        else visitStep (visitUnlessReset label scope depth) node : Eval Value) m := rfl
    rw [hrun]
    split
    · exact .fault
    case isFalse hreset =>
      cases hf : node.function? with
      | none =>
        refine performs_visitStep hrec (fun f h => ?_) m
        rw [hf] at h
        nomatch h
      | some f =>
        rw [visitStep_function hf]
        refine leads_visitFunction (Node.binds_of_function? hf) fun hlabel => ?_
        simpa [Node.resets, hf, hlabel] using hreset

/-- An evaluation gives the function with a label no other scope than a given one: it ends in the
same way if it stops where this would happen. -/
def Spares (label : Nat) (scope : ScopeId) (depth : Nat) (node : Node) (m : Machine) : Prop :=
  visitUnlessReset label scope depth node m = visitUpTo depth node m

/-- What can happen between two moments: pieces of syntax are evaluated that give the function with
a label no other scope than a given one, and the rest of the state changes in any way that keeps the
scopes that are there. -/
inductive Later (label : Nat) (scope : ScopeId) (m : Machine) : Machine → Prop where
  | now : Later label scope m m
  | evaluated {n : Machine} (depth : Nat) (node : Node) : Later label scope m n →
      Spares label scope depth node n → Later label scope m (finalState (visitUpTo depth node n))
  | changed {n n' : Machine} : Later label scope m n → n'.closures = n.closures →
      n.scopes.size ≤ n'.scopes.size → Later label scope m n'

theorem Works.later (hm : Works label scope m) (h : Later label scope m n) :
    Works label scope n := by
  induction h with
  | now => exact hm
  | evaluated depth node _ hspares ih =>
    rw [← hspares]
    exact ih.leads (follows_visitUnlessReset label scope depth node _)
  | changed _ hclosures hscopes ih => exact ⟨hclosures ▸ ih.1, Nat.lt_of_lt_of_le ih.2 hscopes⟩

/-! ### Names inside a call -/

/-- A call of a function works in a new scope inside a given one, in which a name has the value that
it has in that scope, and binds the parameters of the function. -/
def CallsIn (f : Func) (scope : ScopeId) (m : Machine) : Prop :=
  (∀ rec args, callFunction rec f args m =
    match callBody rec f args (m.enterCall scope) with
    | .ok _ n => .ok n.result { n.leaveCall with result := .nil }
    | .error .ret n => .ok n.result { n.leaveCall with result := .nil }
    | .error (.fault e) n => .error (.fault e) n.leaveCall) ∧
  ∀ name, lookup? (m.enterCall scope).scopes (m.enterCall scope).here name =
    lookup? m.scopes scope name

theorem Works.callsIn (h : Works f.label scope m) : CallsIn f scope m :=
  ⟨fun _ _ => callFunction_eq h.1, Scoped.lookup?_push h.2 rfl rfl⟩

/-- **A call works where the function was defined last.** Suppose that the definition of a function
is evaluated, and that the function is given no other scope until a call. The call runs the body in
a new scope inside the one in which the definition was evaluated, wherever else it was evaluated
before. -/
theorem callsIn_last_scope {depth : Nat} {v : Value} {m₁ : Machine} (hf : node.function? = some f)
    (heager : m.purpose = .recipes → ∀ name, f.head ≠ .local name) (hhere : m.here < m.scopes.size)
    (hrun : visitUpTo depth node m = .ok v m₁) (hlater : Later f.label m.here m₁ n) :
    CallsIn f m.here n := by
  cases depth with
  | zero => nomatch hrun
  | succ depth =>
    rw [visitUpTo, visitStep_function hf] at hrun
    exact ((works_of_visitFunction hhere heager hrun).later hlater).callsIn

end WikiFeed.Record

import WikiFeed.Proofs.Outcome
import WikiFeed.Proofs.Prefab.Blocks

/-! # Arguments of prefab scripts

The arguments of a call are evaluated in the scope of the caller, one by one. One that is a spread
takes the place of all arguments, also of those in front of it, and those behind it are not
evaluated (`Given`). The body of the function then runs in a new scope inside its own one, with each
parameter bound to the value at its place, nil where there is none, and with `...` bound to the
rest, which must not be empty (`call_binds_values`). -/

namespace WikiFeed.Prefab

open Lua
open Outcome (bind_of_eq_ok bind_eq_error)

/-! ### Values of arguments -/

/-- Expressions have values, of which none is a spread, one behind the other. -/
inductive Evaluates (rec : Visitor) : List Expr → Machine → List Value → Machine → Prop where
  | nil {m : Machine} : Evaluates rec [] m [] m
  | cons {e : Expr} {es : List Expr} {m k n : Machine} {v : Value} {vs : List Value} :
      rec (.expr e) m = .ok v k → (∀ us, v ≠ .spread us) → Evaluates rec es k vs n →
      Evaluates rec (e :: es) m (v :: vs) n

/-- The values that a call passes on: those of all arguments, or those of the first spread alone. -/
inductive Given (rec : Visitor) (args : List Expr) (m : Machine) (values : List Value)
    (n : Machine) : Prop where
  | each : Evaluates rec args m values n → Given rec args m values n
  | spread {es rest : List Expr} {e : Expr} {dropped us : List Value} {k k' : Machine} :
      args = es ++ e :: rest → Evaluates rec es m dropped k →
      rec (.expr e) k = .ok (.spread us) k' →
      us.mapM (fun u => rec (.value u)) k' = .ok values n → Given rec args m values n

section Values

variable {rec : Visitor} {es args : List Expr} {m n : Machine} {vs values : List Value}

theorem Evaluates.argumentValues_eq (h : Evaluates rec es m vs n) (done : List Value)
    (rest : List Expr) : argumentValues rec done (es ++ rest) m =
      argumentValues rec (vs.reverse ++ done) rest n := by
  induction h generalizing done with
  | nil => rfl
  | @cons e es m k n v vs hv hspread _ ih =>
    rw [List.reverse_cons, List.append_assoc, List.cons_append]
    refine Eq.trans ?_ (ih (v :: done))
    rw [argumentValues, bind_of_eq_ok hv]
    cases v <;> first | rfl | exact absurd rfl (hspread _)

theorem Given.argumentValues_eq (h : Given rec args m values n) :
    ∃ spread, argumentValues rec [] args m = .ok (values, spread) n := by
  cases h with
  | each h =>
    refine ⟨false, ?_⟩
    rw [← List.append_nil args, h.argumentValues_eq, List.append_nil, argumentValues,
      List.reverse_reverse]
    rfl
  | spread hargs h hv hus =>
    refine ⟨true, ?_⟩
    rw [hargs, h.argumentValues_eq, argumentValues, bind_of_eq_ok hv]
    exact bind_of_eq_ok hus

end Values

/-! ### Parameters -/

/-- The state in which the body of a function starts: in a new scope inside that of the function,
with the given variables. -/
def Machine.calling (m : Machine) (scope : ScopeId) (vars : Table) : Machine :=
  { inside (atFunction m scope) scope m.active with
    scopes := m.scopes.push ⟨some scope, some m.active, m.nextNumber, vars⟩ }

def runBody (rec : Visitor) (f : Func) (scope : ScopeId) : Eval Value := do
  let v ← ensuring (returned (rec (.block f.body))) (Machine.leaveTo scope)
  modifyCurrent Evaluator.pop
  return v

section Parameters

variable {m : Machine} {scope : ScopeId}

theorem modify_push_size {α : Type} (a : Array α) (x : α) (f : α → α) :
    (a.push x).modify a.size f = a.push (f x) := by
  refine Array.ext (by simp) fun i _ hi => ?_
  rw [Array.size_push] at hi
  rw [Array.getElem_modify, Array.getElem_push, Array.getElem_push]
  split_ifs <;> first | rfl | omega

theorem defineHere_calling (h : m.active < m.evaluators.size) (bound : List (String × Value))
    (name : String) (v : Value) : defineHere (.str name) v (m.calling scope (.ofFields bound)) =
      .ok () (m.calling scope (.ofFields (bound ++ [(name, v)]))) := by
  have hactive : (atFunction m scope).active < (atFunction m scope).evaluators.size :=
    (older_atFunction m scope).active_lt h
  have hhere : (m.calling scope (.ofFields bound)).evaluator.scope = m.scopes.size := by
    change (inside (atFunction m scope) scope m.active).evaluator.scope = _
    rw [evaluator_inside hactive, if_pos (show m.active = (atFunction m scope).active from rfl)]
    rfl
  have hdefine (k : Machine) : defineHere (.str name) v k =
      .ok () { k with scopes := define k.scopes k.evaluator.scope (.str name) v } := rfl
  rw [hdefine, hhere, define, Machine.calling, modify_push_size, Machine.calling,
    Table.ofFields_append_singleton]
  rfl

theorem bindParams_names (h : m.active < m.evaluators.size) (scope : ScopeId) (tail : List Param) :
    ∀ (names : List String) (values : List Value) (bound : List (String × Value)),
      bindParams (names.map .name ++ tail) values (m.calling scope (.ofFields bound)) =
        bindParams tail (values.drop names.length) (m.calling scope (.ofFields
          (bound ++ names.mapIdx fun i n => (n, values.getD i .nil))))
  | [], values, bound => by simp
  | n :: names, [], bound => by
    refine (bind_of_eq_ok (defineHere_calling h bound n .nil)).trans ?_
    refine (bindParams_names h scope tail names [] _).trans ?_
    simp [List.mapIdx_cons]
  | n :: names, v :: values, bound => by
    refine (bind_of_eq_ok (defineHere_calling h bound n v)).trans ?_
    refine (bindParams_names h scope tail names values _).trans ?_
    simp [List.mapIdx_cons]

end Parameters

def fieldsOf (names : List String) (values : List Value) : List (String × Value) :=
  names.mapIdx fun i n => (n, values.getD i .nil)

/-- **A call binds parameters to values in order.** The names among the parameters are bound to the
values at their places and to nil where there is none. If `...` is behind them, it is bound to all
other values, and without other values the call fails before the body runs. -/
theorem call_binds_values {rec : Visitor} {callee : Expr} {args : List Expr} {f : Func}
    {m m₁ m₂ : Machine} {values : List Value} {c : Closure} {scope : ScopeId} {owner : Nat}
    (hcallee : rec (.expr callee) m = .ok (.func f) m₁) (hargs : Given rec args m₁ values m₂)
    (hclosure : closureIn m₂ f = c) (hscope : c.scope = some scope)
    (howner : (m₂.scopes.getD scope default).owner = some owner)
    (hactive : m₂.active < m₂.evaluators.size) (names : List String) :
    (allParams c f = names.map .name →
      visitCall rec callee args m =
        runBody rec f scope (m₂.calling scope (.ofFields (fieldsOf names values)))) ∧
    (allParams c f = names.map .name ++ [.varargs] →
      (names.length < values.length →
        visitCall rec callee args m = runBody rec f scope (m₂.calling scope (.ofFields
          (fieldsOf names values ++ [("...", .rest (values.drop names.length))])))) ∧
      (values.length ≤ names.length →
        ∃ n, visitCall rec callee args m = .error (.fault .member) n)) := by
  obtain ⟨spread, hvalues⟩ := hargs.argumentValues_eq
  have hcall : visitCall rec callee args m = execute rec (.func f) values m₂ := by
    rw [visitCall, bind_of_eq_ok hcallee, if_neg (by simp [ignoresArguments, Value.isDummy]),
      bind_of_eq_ok hvalues]
    rfl
  have hrun : visitCall rec callee args m = (do
      let v ← ensuring (callBody rec c f values) (Machine.leaveTo scope)
      modifyCurrent Evaluator.pop
      return v : Eval Value) (m₂.calling scope (.ofFields [])) := by
    rw [hcall, execute_eq (by rw [hclosure, hscope]), hclosure, EStateM.bind,
      inChild_eq (m := atFunction m₂ scope) howner]
    rfl
  have hbody {k : Machine}
      (hk : bindParams (allParams c f) values (m₂.calling scope (.ofFields [])) = .ok () k) :
      visitCall rec callee args m = runBody rec f scope k := by
    rw [hrun, runBody]
    change EStateM.bind _ _ _ = EStateM.bind _ _ _
    rw [EStateM.bind, EStateM.bind, ensuring, ensuring, callBody, bind_of_eq_ok hk]
  have hnames (tail : List Param) := bindParams_names hactive scope tail names values []
  refine ⟨fun hparams => hbody ?_, fun hparams => ⟨fun hmore => hbody ?_, fun hless => ?_⟩⟩
  · rw [hparams, ← List.append_nil (names.map _)]
    exact hnames []
  · obtain ⟨v, rest, hrest⟩ := List.exists_cons_of_ne_nil
      (List.drop_eq_nil_iff.not.mpr (Nat.not_le.mpr hmore))
    rw [hparams, hnames, hrest]
    exact defineHere_calling hactive _ _ _
  · have hfail : bindParams (allParams c f) values (m₂.calling scope (.ofFields [])) =
        .error (.fault .member) (m₂.calling scope (.ofFields (fieldsOf names values))) := by
      rw [hparams, hnames, List.drop_eq_nil_of_le hless]
      rfl
    refine ⟨(m₂.calling scope (.ofFields (fieldsOf names values))).leaveTo scope,
      hrun.trans (bind_eq_error.mpr (.inl ?_))⟩
    rw [ensuring, callBody, bind_eq_error.mpr (.inl hfail)]

def second : Func := .mk 0 (.local "f") [.name "a", .name "b"] [.return [.name "b"]]

def opened : Func := .mk 1 (.local "g") [.name "a", .varargs] [.return [.name "a"]]

def oneAndItems : List Expr := [.number (.int 1), .call (.name "unpack") [.name "t"]]

def spreading : Machine :=
  { (default : Machine) with
    store := ⟨#[.table (.ofList [(.int 1, .int 2), (.int 2, .int 3)])]⟩
    scopes := #[⟨none, some 0, 0, .ofFields [("f", .func second), ("g", .func opened),
      ("t", .object .table 0), ("unpack", .native "table.unpack")]⟩]
    closures := [(0, ⟨some 0, 0⟩), (1, ⟨some 0, 0⟩)]
    evaluators := #[default] }

theorem visitUpTo_spreading (depth : Nat) (node : Node) :
    visitUpTo (depth + 1) node spreading = carryOut (visitUpTo depth) node spreading :=
  rfl

theorem call_binds_values_spread :
    Given (visitUpTo 9) oneAndItems spreading [.int 2, .int 3] spreading ∧
      visitCall (visitUpTo 9) (.name "g") oneAndItems spreading =
        runBody (visitUpTo 9) opened 0 (spreading.calling 0
          (.ofFields [("a", .int 2), ("...", .rest [.int 3])])) := by
  have hcallee : visitUpTo 9 (.expr (.name "g")) spreading = .ok (.func opened) spreading := by
    rw [visitUpTo_spreading]
    with_unfolding_all rfl
  have hone : visitUpTo 9 (.expr (.number (.int 1))) spreading = .ok (.int 1) spreading := rfl
  have hitems : visitUpTo 9 (.expr (.call (.name "unpack") [.name "t"])) spreading =
      .ok (.spread [.int 2, .int 3]) spreading := by
    rw [visitUpTo_spreading]
    with_unfolding_all rfl
  have hfirst : oneAndItems = [.number (.int 1)] ++ .call (.name "unpack") [.name "t"] :: [] := rfl
  have hargs : Given (visitUpTo 9) oneAndItems spreading [.int 2, .int 3] spreading :=
    .spread hfirst (.cons hone (by simp) .nil) hitems rfl
  have hbinds := call_binds_values hcallee hargs rfl rfl rfl (by decide) ["a"]
  exact ⟨hargs, (hbinds.2 rfl).1 (by decide)⟩

/-- Called with 1 and the items 2 and 3, a function has 3 as its second parameter, not 2; and a
function with `...` cannot be called without an argument for it. -/
theorem spread_drops_arguments :
    visitUpTo 12 (.expr (.call (.name "f") oneAndItems)) spreading = .ok (.int 3)
        (finalState (visitUpTo 12 (.expr (.call (.name "f") oneAndItems)) spreading)) ∧
      visitUpTo 12 (.expr (.call (.name "g") [.number (.int 1)])) spreading =
        .error (.fault .member)
          (finalState (visitUpTo 12 (.expr (.call (.name "g") [.number (.int 1)])) spreading)) := by
  rw [visitUpTo_spreading, visitUpTo_spreading]
  constructor
  · with_unfolding_all rfl
  · with_unfolding_all rfl

end WikiFeed.Prefab

import WikiFeed.Proofs.Lua.Syntax
import WikiFeed.Proofs.Record.Library

/-! # Scopes of record scripts

Each piece of syntax performs what its permit allows (`follows_visitUpTo`): an expression binds
nothing and returns from nothing unless a function is written in it, and a statement returns only if
a return stands in it. With what steps keep, the current scope and the scopes of the callers are the
same after an evaluation as before it, however it ends (`visit_restores_scopes`). -/

namespace WikiFeed.Record

open Lua

def Node.permit : Node → Permit
  | .chunk b => ⟨returnAny b, true⟩
  | .block b => ⟨returnAny b, true⟩
  | .stmt s => ⟨s.returns, true⟩
  | .expr e => ⟨false, e.captures⟩
  | .orelse o => ⟨o.returns, true⟩

def Node.function? : Node → Option Func
  | .stmt (.function f) | .stmt (.expr (.function f)) | .expr (.function f) => some f
  | _ => none

def Follows [Policy] (rec : Visitor) : Prop := ∀ node, Performs node.permit (rec node)

variable {α : Type} {e : Expr} {args es : List Expr} {body : Block}

section Visits

variable [Policy] {rec : Visitor} {p : Permit}

theorem Follows.expr (hrec : Follows rec) (h : e.captures = true → p.binds = true) :
    Performs p (rec (.expr e)) :=
  (hrec (.expr e)).mono ⟨fun h => absurd h Bool.false_ne_true, h⟩

theorem Follows.exprs (hrec : Follows rec) (h : captureAny es = true → p.binds = true) :
    ∀ e ∈ es, Performs p (rec (.expr e)) :=
  fun _ he => hrec.expr fun hc => h (captureAny_of_mem hc he)

theorem Follows.block (hrec : Follows rec) {b : Block} (hp : p.binds = true)
    (h : returnAny b = true → p.returns = true) : Performs p (rec (.block b)) :=
  (hrec (.block b)).mono ⟨h, fun _ => hp⟩

theorem Follows.orelse (hrec : Follows rec) {o : Orelse} (hp : p.binds = true)
    (h : o.returns = true → p.returns = true) : Performs p (rec (.orelse o)) :=
  (hrec (.orelse o)).mono ⟨h, fun _ => hp⟩

/-! ### Assignment -/

theorem performs_defineHere (hp : p.binds = true) (name : String) (v : Value) :
    Performs p (defineHere name v) := performs_modify fun _ => .define name v hp

theorem performs_nameOf (e : Expr) : Performs p (nameOf e) := by
  unfold nameOf
  split
  · exact performs_pure _
  · exact performs_fail _

theorem performs_rightSide (h : ∀ e ∈ es, Performs p (rec (.expr e))) :
    Performs p (rightSide rec es) :=
  (performs_mapM h).bind fun _ => performs_pure _

theorem performs_visitLocal (hp : p.binds = true) (names : List String)
    (h : ∀ e ∈ es, Performs p (rec (.expr e))) : Performs p (visitLocal rec names es) := by
  refine (performs_rightSide h).bind fun vs => ?_
  exact (performs_forM fun _ _ => performs_defineHere hp _ _).bind fun _ => performs_pure _

theorem performs_assignTo (hrec : Follows rec) (hp : p.binds = true) (v : Value) (e : Expr) :
    Performs p (assignTo rec v e) := by
  unfold assignTo
  split
  · exact performs_modify fun _ => .assign _ v hp
  · exact (hrec.expr fun _ => hp).bind fun _ =>
      (performs_nameOf _).bind fun _ => performs_of_minor (minor_setMember _ _ _)
  · exact (hrec.expr fun _ => hp).bind fun _ =>
      (hrec.expr fun _ => hp).bind fun _ => performs_of_minor (minor_setMember _ _ _)
  · exact performs_fail _

theorem performs_visitAssign (hrec : Follows rec) (hp : p.binds = true) (targets es : List Expr) :
    Performs p (visitAssign rec targets es) := by
  refine (performs_rightSide (hrec.exprs fun _ => hp)).bind fun vs => ?_
  exact (performs_forM fun _ _ => performs_assignTo hrec hp _ _).bind fun _ => performs_pure _

theorem performs_visitRecipeAssign (hrec : Follows rec) (hp : p.binds = true)
    (targets es : List Expr) : Performs p (visitRecipeAssign rec targets es) := by
  unfold visitRecipeAssign
  split
  · exact performs_pure _
  · exact performs_fail _
  · exact (performs_nameOf _).bind fun _ =>
      Performs.ite (performs_pure _) (performs_visitAssign hrec hp _ _)
  · exact performs_visitAssign hrec hp _ _

/-! ### Functions and calls -/

omit [Policy] in
/-- Whether a local function takes its scope along depends on what the script is read for. -/
theorem visitFunction_local (label : Nat) (name : String) (params : List Param) (body : Block)
    (m : Machine) : visitFunction (.mk label (.local name) params body) m =
      (if m.purpose == .recipes then do
        defineHere name (.lazy (.stmt (.function (.mk label (.local name) params body))))
        return .nil
      else do
        defineHere name (← closed (.mk label (.local name) params body))
        return .nil : Eval Value) m :=
  rfl

variable {m : Machine} {f : Func}

theorem leads_visitFunction (hp : p.binds = true)
    (hc : Policy.captures f.label m.here) : Leads p m (visitFunction f m) := by
  have hcapture := Steps.capture (p := p) f.label hp hc
  obtain ⟨label, head, params, body⟩ := f
  cases head with
  | anonymous => exact hcapture
  | «local» name =>
    rw [visitFunction_local]
    split
    · exact .define name _ hp
    · exact hcapture.trans (.define name _ hp)
  | global target =>
    cases target with
    | name n => exact hcapture.trans (.defineOutermost n _ hp)
    | _ => exact .fault
  | method source name => exact .fault

theorem performs_bindParams (hrec : Follows rec) (hp : p.binds = true) :
    ∀ params args, Performs p (bindParams rec params args)
  | [], [] | .name _ :: _, [] | .varargs :: _, [] => performs_pure _
  | [], _ :: _ => performs_fail _
  | .varargs :: _, _ :: _ => performs_fail _
  | .name n :: ps, _ :: es =>
    (hrec.expr fun _ => hp).bind fun v =>
      (performs_defineHere hp n v).bind fun _ => performs_bindParams hrec hp ps es

omit [Policy] in
theorem callFunction_cases (rec : Visitor) (f : Func) (args : List Expr) (m : Machine) :
    callFunction rec f args m = (match m.closures.lookup f.label with
      | none => fail .member
      | some scope => do
        inCall scope (callBody rec f args)
        takeResult : Eval Value) m :=
  rfl

omit [Policy] in
theorem callFunction_eq {scope : ScopeId} (h : m.closures.lookup f.label = some scope) :
    callFunction rec f args m =
      match callBody rec f args (m.enterCall scope) with
      | .ok _ n => .ok n.result { n.leaveCall with result := .nil }
      | .error .ret n => .ok n.result { n.leaveCall with result := .nil }
      | .error (.fault e) n => .error (.fault e) n.leaveCall := by
  rw [callFunction_cases, h]
  change EStateM.bind (inCall scope (callBody rec f args)) (fun _ => takeResult) m = _
  unfold EStateM.bind inCall within
  cases callBody rec f args (m.enterCall scope) with
  | ok a n => rfl
  | error s n => cases s <;> rfl

theorem performs_callBody (hrec : Follows rec) (f : Func) (args : List Expr) :
    Performs .all (callBody rec f args) :=
  (performs_bindParams hrec rfl _ _).bind fun _ =>
    (hrec.block rfl fun _ => rfl).bind fun _ => performs_pure _

theorem performs_callFunction (hrec : Follows rec) (f : Func) (args : List Expr) :
    Performs p (callFunction rec f args) := by
  intro m
  cases hl : m.closures.lookup f.label with
  | none =>
    rw [callFunction_cases, hl]
    exact .fault
  | some scope =>
    rw [callFunction_eq hl]
    have hbody := performs_callBody hrec f args
    cases hm : callBody rec f args (m.enterCall scope) with
    | ok a n => exact .call f.label hl (hbody.ok hm) nofun
    | error s n =>
      cases s with
      | ret => exact .call f.label hl (hbody.error hm) nofun
      | fault e => exact .callFault f.label hl (hbody.error hm)

theorem performs_visitCall (hrec : Follows rec) {callee : Expr}
    (hc : Performs p (rec (.expr callee))) (ha : ∀ e ∈ args, Performs p (rec (.expr e))) :
    Performs p (visitCall rec callee args) := by
  refine hc.bind fun v => ?_
  split
  · split
    · exact performs_callFunction hrec _ _
    · exact performs_callFunction hrec _ _
    · exact (performs_mapM ha).bind fun _ => performs_fail _
  · exact (performs_mapM ha).bind fun _ => performs_of_minor (minor_callValue _ _)

theorem performs_visitInvoke {source : Expr} (name : String) (hs : Performs p (rec (.expr source)))
    (ha : ∀ e ∈ args, Performs p (rec (.expr e))) : Performs p (visitInvoke rec source name args) :=
  hs.bind fun _ => (performs_of_minor (minor_ownMember _ _)).bind fun _ =>
    (performs_mapM ha).bind fun _ => performs_of_minor (minor_callValue _ _)

/-! ### Recipes -/

theorem performs_argumentAt_bind {i : Nat} {k : Expr → Eval α} (h : ∀ e ∈ args, Performs p (k e)) :
    Performs p (argumentAt args i >>= k) := by
  unfold argumentAt
  split
  case h_1 e he => exact h e (List.mem_of_getElem? he)
  case h_2 => exact performs_fail _

theorem performs_fieldsOf_bind {k : List Field → Eval α}
    (h : ∀ fields, e = .table fields → Performs p (k fields)) : Performs p (fieldsOf e >>= k) := by
  unfold fieldsOf
  split
  · exact h _ rfl
  · exact performs_fail _

theorem performs_techOf (e : Expr) : Performs p (techOf e) := by
  unfold techOf
  split
  · exact (performs_nameOf _).bind fun _ => (performs_nameOf _).bind fun _ => performs_pure _
  · exact performs_fail _

theorem performs_ingredientOf (hrec : Follows rec) {f : Field}
    (h : f.value.captures = true → p.binds = true) : Performs p (ingredientOf rec f) := by
  have made (args : List Expr) (hargs : captureAny args = true → p.binds = true) :
      Performs p (do
        let name ← rec (.expr (← argumentAt args 0))
        let amount ← rec (.expr (← argumentAt args 1))
        return (⟨name, amount⟩ : Ingredient)) :=
    performs_argumentAt_bind fun e he => (hrec.exprs hargs e he).bind fun _ =>
      performs_argumentAt_bind fun e he => (hrec.exprs hargs e he).bind fun _ => performs_pure _
  unfold ingredientOf argumentsOf
  split
  case h_1 hv => exact made _ fun hargs => h (by simp [hv, Expr.captures, hargs])
  case h_2 hv => exact made _ fun hargs => h (by simp [hv, Expr.captures, hargs])
  case h_3 hv => exact made _ fun _ => h (by simp [hv, Expr.captures])
  case h_4 => exact performs_fail _

theorem performs_settingsOf (hrec : Follows rec) :
    ∀ {fields : List Field} (settings), (captureInFields fields = true → p.binds = true) →
      Performs p (settingsOf rec settings fields)
  | [], _, _ => performs_pure _
  | .mk key value b :: fields, settings, h => by
    refine (performs_nameOf _).bind fun name => ?_
    refine (hrec.expr fun hv => h (by simp_all [captureInFields, Field.value])).bind fun v => ?_
    exact performs_settingsOf hrec _ fun hfs => h (by simp [captureInFields, hfs])

theorem performs_recipeOf (hrec : Follows rec) (h : captureAny args = true → p.binds = true) :
    Performs p (recipeOf rec args) := by
  have hfields {e : Expr} {fields : List Field} (he : e ∈ args) (hfields : e = .table fields)
      (hf : captureInFields fields = true) : p.binds = true :=
    h (captureAny_of_mem (by simpa [hfields, Expr.captures] using hf) he)
  refine performs_argumentAt_bind fun e he => (hrec.exprs h e he).bind fun name => ?_
  refine performs_argumentAt_bind fun e he => performs_fieldsOf_bind fun fields hfs => ?_
  refine (performs_mapM fun f hf => performs_ingredientOf hrec fun hv =>
    hfields he hfs (captureInFields_of_mem (by simp [hv]) hf)).bind fun ingredients => ?_
  refine performs_argumentAt_bind fun e _ => (performs_techOf e).bind fun tech => ?_
  split
  · exact performs_pure _
  case h_2 e hat =>
    refine performs_fieldsOf_bind fun fields hfs => ?_
    exact (performs_settingsOf hrec _ (hfields (List.mem_of_getElem? hat) hfs)).bind fun _ =>
      performs_pure _

theorem performs_visitRecipeCall (hrec : Follows rec) (callee : Expr)
    (h : captureAny args = true → p.binds = true) :
    Performs p (visitRecipeCall rec callee args) := by
  have added (r : Recipe) : Performs p (do
      modify fun m => { m with recipes := addRecipe m.recipes r }
      return (.nil : Value)) :=
    (performs_modify fun m => .alike ⟨m.store, _, m.out, rfl⟩).bind fun _ => performs_pure _
  unfold visitRecipeCall
  split
  · refine (performs_recipeOf hrec h).bind fun r => ?_
    exact Performs.ite ((performs_fail _).bind fun _ => added r) (added r)
  · exact performs_pure _

/-! ### Expressions -/

theorem performs_visitIndex {idx value : Expr} (dot : Bool) (hi : Performs p (rec (.expr idx)))
    (hv : Performs p (rec (.expr value))) : Performs p (visitIndex rec idx value dot) := by
  refine hv.bind fun v => Performs.ite ?_ ?_
  · exact (performs_nameOf _).bind fun _ => performs_of_minor (minor_member _ _)
  · exact hi.bind fun _ => performs_of_minor (minor_member _ _)

theorem performs_visitRecipeIndex {idx value : Expr} (dot : Bool)
    (hi : Performs p (rec (.expr idx))) (hv : Performs p (rec (.expr value))) :
    Performs p (visitRecipeIndex rec idx value dot) := by
  refine hv.bind fun v => ?_
  split
  · exact performs_visitIndex dot hi hv
  · exact (performs_nameOf _).bind fun _ => performs_of_minor (minor_ownMember _ _)

theorem performs_fieldKey (h : Performs p (rec (.expr e))) : Performs p (fieldKey rec e) := by
  unfold fieldKey
  split
  · exact h
  · exact performs_pure _
  · exact performs_fail _

theorem performs_visitFields (hrec : Follows rec) (r : Ref) :
    ∀ {fields : List Field}, (captureInFields fields = true → p.binds = true) →
      Performs p (visitFields rec r fields)
  | [], _ => performs_pure _
  | .mk key value b :: fields, h => by
    have hkey : Performs p (rec (.expr key)) :=
      hrec.expr fun hk => h (by simp [captureInFields, hk])
    have hvalue : Performs p (rec (.expr value)) :=
      hrec.expr fun hv => h (by simp [captureInFields, hv])
    exact (performs_fieldKey hkey).bind fun _ => hvalue.bind fun _ =>
      (performs_of_minor (minor_modifyTable _ _)).bind fun _ =>
        performs_visitFields hrec r fun hfs => h (by simp [captureInFields, hfs])

theorem performs_visitTable (hrec : Follows rec) {fields : List Field}
    (h : captureInFields fields = true → p.binds = true) : Performs p (visitTable rec fields) := by
  refine (performs_of_minor (minor_alloc _)).bind fun t => ?_
  split
  · exact (performs_visitFields hrec _ h).bind fun _ => performs_pure _
  · exact performs_pure _

theorem performs_visitBinary (op : BinOp) {left right : Expr} (hl : Performs p (rec (.expr left)))
    (hr : Performs p (rec (.expr right))) : Performs p (visitBinary rec op left right) := by
  unfold visitBinary
  split
  · exact hl.bind fun _ => Performs.ite hr (performs_pure _)
  · exact hl.bind fun _ => Performs.ite hl hr
  iterate 5 · exact performs_fail _
  · exact hl.bind fun _ => hr.bind fun _ => performs_get.bind fun _ => performs_lift _

theorem performs_visitUnary (op : UnOp) (h : Performs p (rec (.expr e))) :
    Performs p (visitUnary rec op e) := by
  unfold visitUnary
  split
  · exact h.bind fun _ => performs_lift _
  · exact h.bind fun _ => performs_pure _
  · exact performs_fail _

theorem performs_visitExpr (hrec : Follows rec) (h : e.captures = true → p.binds = true)
    (hf : ∀ f, e = .function f → ∀ i, Policy.captures f.label i) :
    Performs p (visitExpr rec e) := by
  unfold visitExpr
  split
  iterate 6 · exact performs_pure _
  · exact performs_of_minor (minor_valueOf _)
  case h_8 idx value dot =>
    have hi : Performs p (rec (.expr idx)) := hrec.expr fun hi => h (by simp [Expr.captures, hi])
    have hv : Performs p (rec (.expr value)) := hrec.expr fun hv => h (by simp [Expr.captures, hv])
    exact performs_get.bind fun _ =>
      Performs.ite (performs_visitRecipeIndex dot hi hv) (performs_visitIndex dot hi hv)
  case h_9 callee args =>
    have hargs (ha : captureAny args = true) : p.binds = true := h (by simp [Expr.captures, ha])
    have hc : Performs p (rec (.expr callee)) :=
      hrec.expr fun hc => h (by simp [Expr.captures, hc])
    exact performs_get.bind fun _ => Performs.ite (performs_visitRecipeCall hrec callee hargs)
      (performs_visitCall hrec hc (hrec.exprs hargs))
  case h_10 source name args =>
    exact performs_visitInvoke name (hrec.expr fun hs => h (by simp [Expr.captures, hs]))
      (hrec.exprs fun ha => h (by simp [Expr.captures, ha]))
  case h_11 f => exact fun m => leads_visitFunction (h (by simp [Expr.captures])) (hf f rfl m.here)
  case h_12 fields => exact performs_visitTable hrec h
  case h_13 op e => exact performs_visitUnary op (hrec.expr h)
  case h_14 op l r =>
    exact performs_visitBinary op (hrec.expr fun hl => h (by simp [Expr.captures, hl]))
      (hrec.expr fun hr => h (by simp [Expr.captures, hr]))
  · exact performs_fail _

/-! ### Statements -/

theorem performs_bindTargets (hp : p.binds = true) :
    ∀ names vs, Performs p (bindTargets names vs)
  | [], [] | _ :: _, [] => performs_pure _
  | [], _ :: _ => performs_fail _
  | n :: ns, v :: vs => (performs_defineHere hp n v).bind fun _ => performs_bindTargets hp ns vs

theorem performs_visitForin (hrec : Follows rec) (hp : p.binds = true) (targets : List String)
    (iter : List Expr) (h : returnAny body = true → p.returns = true) :
    Performs p (visitForin rec targets iter body) := by
  unfold visitForin
  split
  · refine (hrec.expr fun _ => hp).bind fun v => ?_
    refine (performs_inBlock hp (performs_forEach v fun item => ?_)).bind fun _ => performs_pure _
    refine (performs_of_minor (minor_items _)).bind fun vs => ?_
    exact (performs_bindTargets hp targets vs).bind fun _ =>
      (hrec.block hp h).bind fun _ => performs_pure _
  · exact performs_fail _

theorem performs_countRounds (hrec : Follows rec) (hp : p.binds = true) (var : String) (op : BinOp)
    (stop step : Value) (h : returnAny body = true → p.returns = true) :
    ∀ n, Performs p (countRounds rec var op stop step body n)
  | 0 => performs_fail _
  | n + 1 => by
    unfold countRounds
    extract_lets value
    have hvalue : Performs p value := performs_get.bind fun _ => performs_pure _
    refine hvalue.bind fun v => (performs_lift _).bind fun b => Performs.ite ?_ (performs_pure _)
    refine (performs_inBlock hp ((hrec.block hp h).bind fun _ => performs_pure _)).bind fun _ => ?_
    refine performs_get.bind fun _ => hvalue.bind fun _ => (performs_lift _).bind fun next => ?_
    exact (performs_defineHere hp _ _).bind fun _ =>
      performs_countRounds hrec hp var op stop step h n

theorem performs_visitFornum (hrec : Follows rec) (hp : p.binds = true) (target : String)
    (start stop : Expr) (step : Option Expr) (h : returnAny body = true → p.returns = true) :
    Performs p (visitFornum rec target start stop step body) := by
  have hrounds (op : BinOp) (last by_ : Value) (n : Nat) : Performs p (do
      countRounds rec target op last by_ body n
      return (.nil : Value)) :=
    (performs_countRounds hrec hp _ _ _ _ h _).bind fun _ => performs_pure _
  refine (hrec.expr fun _ => hp).bind fun first => (performs_defineHere hp _ _).bind fun _ => ?_
  refine (hrec.expr fun _ => hp).bind fun last => ?_
  split
  · exact (hrec.expr fun _ => hp).bind fun _ => (performs_lift _).bind fun _ => hrounds _ _ _ _
  · exact (performs_pure _).bind fun _ => (performs_lift _).bind fun _ => hrounds _ _ _ _

theorem performs_visitIf (hrec : Follows rec) (hp : p.binds = true) (test : Expr) {orelse : Orelse}
    (hb : returnAny body = true → p.returns = true)
    (ho : orelse.returns = true → p.returns = true) :
    Performs p (visitIf rec test body orelse) := by
  refine (hrec.expr fun _ => hp).bind fun v => Performs.ite ?_ ?_
  · exact (hrec.block hp hb).bind fun _ => performs_pure _
  · split
    · exact performs_pure _
    · exact (hrec.orelse hp ho).bind fun _ => performs_pure _

theorem performs_returnValue (hrec : Follows rec) (hp : p.binds = true) (es : List Expr) :
    Performs p (returnValue rec es) := by
  unfold returnValue
  split
  · exact performs_pure _
  · exact hrec.expr fun _ => hp
  · exact (performs_mapM (hrec.exprs fun _ => hp)).bind fun _ => performs_pure _

theorem performs_visitReturn (hrec : Follows rec) (hp : p.binds = true) (hr : p.returns = true)
    (es : List Expr) : Performs p (visitReturn rec es) := by
  have left (v : Value) : Performs p (do
      modify fun m => { m with result := v }
      throw .ret : Eval Value) := fun _ => .ret v hr
  exact (performs_returnValue hrec hp es).bind left

theorem performs_visitStmt (hrec : Follows rec) {s : Stmt}
    (hf : ∀ f, (Node.stmt s).function? = some f → ∀ i, Policy.captures f.label i) :
    Performs (Node.stmt s).permit (visitStmt rec s) := by
  have hp : (Node.stmt s).permit.binds = true := rfl
  unfold visitStmt
  split
  · exact performs_get.bind fun _ => Performs.ite (performs_visitRecipeAssign hrec hp _ _)
      (performs_visitAssign hrec hp _ _)
  · exact performs_visitLocal hp _ (hrec.exprs fun _ => hp)
  · refine performs_visitExpr hrec (fun _ => hp) fun f he => hf f ?_
    rw [he]
    rfl
  · exact fun m => leads_visitFunction hp (hf _ rfl m.here)
  · exact performs_pure _
  · exact performs_visitIf hrec hp _ (fun h => by simp [Node.permit, Stmt.returns, h])
      fun h => by simp [Node.permit, Stmt.returns, h]
  · exact performs_visitFornum hrec hp _ _ _ _ fun h => by simp [Node.permit, Stmt.returns, h]
  · exact performs_visitForin hrec hp _ _ fun h => by simp [Node.permit, Stmt.returns, h]
  · exact performs_visitReturn hrec hp rfl _
  · exact performs_fail _

theorem performs_visitStmts (hrec : Follows rec) (hp : p.binds = true) :
    ∀ {ss : List Stmt}, (returnAny ss = true → p.returns = true) →
      Performs p (visitStmts rec ss)
  | [], _ => performs_pure _
  | s :: _, h =>
    have hs : (Node.stmt s).permit.Within p :=
      ⟨fun hs => h (returnAny_of_mem hs List.mem_cons_self), fun _ => hp⟩
    ((hrec (.stmt s)).mono hs).bind fun _ =>
      performs_visitStmts hrec hp fun hss => h (by simp [returnAny, hss])

theorem performs_visitBlock (hrec : Follows rec) (hp : p.binds = true) {b : Block}
    (h : returnAny b = true → p.returns = true) : Performs p (visitBlock rec b) :=
  (performs_inBlock hp (performs_visitStmts hrec hp h)).bind fun _ => performs_pure _

/-- A piece of syntax performs what its permit allows if its parts do, and if the function that it
defines may take every scope along. -/
theorem performs_visitStep (hrec : Follows rec) {node : Node}
    (hf : ∀ f, node.function? = some f → ∀ i, Policy.captures f.label i) :
    Performs node.permit (visitStep rec node) := by
  unfold visitStep
  split
  · exact hrec (.block _)
  · exact performs_visitBlock hrec rfl id
  · exact performs_visitStmt hrec hf
  · refine performs_visitExpr hrec id fun f he => hf f ?_
    rw [he]
    rfl
  · exact performs_visitIf hrec rfl _ (fun h => by simp [Node.permit, Orelse.returns, h])
      fun h => by simp [Node.permit, Orelse.returns, h]
  · exact performs_visitBlock hrec rfl id
  · exact performs_pure _

end Visits

theorem follows_visitUpTo : ∀ depth, Follows (visitUpTo depth)
  | 0, _ => performs_fail _
  | depth + 1, _ => performs_visitStep (follows_visitUpTo depth) fun _ _ _ => trivial

/-! ### Scopes after an evaluation -/

def finalState {α : Type} : EStateM.Result Signal Machine α → Machine
  | .ok _ n => n
  | .error _ n => n

theorem Leads.kept [Policy] {p : Permit} {m : Machine} {r : EStateM.Result Signal Machine α}
    (h : Leads p m r) : Kept m (finalState r) := by
  cases r with
  | ok a n => exact Steps.keeps h
  | error s n => exact Steps.keeps h

theorem visitUpTo_block (depth : Nat) (b : Block) (m : Machine) :
    visitUpTo (depth + 1) (.block b) m =
      match visitStmts (visitUpTo depth) b (m.enter m.here) with
      | .ok _ n => .ok .nil (n.leaveBlock m.scopes.size)
      | .error .ret n => .ok .nil (n.leaveBlock m.scopes.size)
      | .error (.fault e) n => .error (.fault e) (n.leaveBlock m.scopes.size) := by
  change EStateM.bind (inBlock (visitStmts (visitUpTo depth) b))
    (fun _ => pure Value.nil) m = _
  unfold EStateM.bind inBlock within
  cases visitStmts (visitUpTo depth) b (m.enter m.here) with
  | ok a n => rfl
  | error s n => cases s <;> rfl

theorem visitUpTo_block_ne_ret (depth : Nat) (b : Block) (m n : Machine) :
    visitUpTo depth (.block b) m ≠ .error .ret n := by
  cases depth with
  | zero => exact nofun
  | succ depth =>
    rw [visitUpTo_block]
    split <;> exact nofun

/-- **Evaluation restores the scopes.** Whatever is evaluated in whatever state, and however the
evaluation ends, the current scope and the scopes of the callers are afterwards what they were
before; and the evaluation of a block or a chunk never ends in a return. -/
theorem visit_restores_scopes (depth : Nat) (node : Node) (m : Machine) :
    (finalState (visitUpTo depth node m)).here = m.here ∧
      (finalState (visitUpTo depth node m)).stack = m.stack ∧
      ∀ b, node = .block b ∨ node = .chunk b → ∀ n, visitUpTo depth node m ≠ .error .ret n := by
  have hkept : Kept m (finalState (visitUpTo depth node m)) :=
    (follows_visitUpTo depth node m).kept
  refine ⟨hkept.here_eq, hkept.stack_eq, ?_⟩
  rintro b (rfl | rfl) n
  · exact visitUpTo_block_ne_ret depth b m n
  · cases depth with
    | zero => exact nofun
    | succ depth => exact visitUpTo_block_ne_ret depth b m n

end WikiFeed.Record

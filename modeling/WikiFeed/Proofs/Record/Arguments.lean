import WikiFeed.Proofs.Record.Returns

/-! # Arguments of record scripts

A call enters its scope before its arguments are evaluated. An argument therefore sees the names
around the function and the parameters in front of it, not the names at the place of the call
(`argument_misses_caller`). A parameter without an argument is not bound at all, and a call with too
many arguments fails. `call_passes_arguments` says all this of every call; its proof needs that
nothing which happens during the evaluation of an argument can reach the variables of the new
scope. -/

namespace WikiFeed.Record

open Lua Places List
open Outcome (bind_eq_ok bind_eq_error)

/-! ### Chains of scopes -/

section Chains

variable {scopes : Array Scope} {i : ScopeId}

theorem self_mem_chain (scopes : Array Scope) (i : ScopeId) : i ∈ chain scopes i := by
  rw [chain]
  exact mem_cons_self

theorem chain_of_grown {a b : Array Scope} (h : Grown a b) (hi : i < a.size) :
    chain b i = chain a i :=
  (Scoped.chain_congr fun j hj => h.parent_eq j (Nat.lt_of_le_of_lt hj hi)).1

theorem chain_push {parent : ScopeId} (h : parent < scopes.size) (vars : Table) :
    chain (scopes.push ⟨some parent, vars⟩) scopes.size = scopes.size :: chain scopes parent := by
  have houter : outer? (scopes.push ⟨some parent, vars⟩) scopes.size = some ⟨parent, h⟩ := by
    rw [outer?, getD_push, if_pos rfl]
    exact dif_pos h
  rw [chain, houter]
  exact congrArg (scopes.size :: ·) (chain_of_grown (grown_push _ _) h)

theorem outermost_mem_chain (scopes : Array Scope) (i : ScopeId) :
    outermost scopes i ∈ chain scopes i := by
  obtain ⟨inner, h, -⟩ := Scoped.chain_eq_append scopes i
  rw [h]
  exact mem_append_right inner (mem_singleton_self _)

end Chains

theorem valueOf_eq_ok {m : Machine} {name : String} {v : Value}
    (h : lookup? m.scopes m.here (.str name) = some v) : valueOf name m = .ok v m := by
  refine bind_eq_ok.mpr ⟨m, m, rfl, ?_⟩
  rw [h]
  rfl

theorem valueOf_eq_error {m : Machine} {name : String}
    (h : lookup? m.scopes m.here (.str name) = none)
    (hm : m.reports = false) : valueOf name m = .error (.fault (.notFound name)) m := by
  refine bind_eq_error.mpr (.inr ⟨m, m, rfl, ?_⟩)
  rw [h, hm]
  rfl

/-! ### What cannot reach a scope -/

/-- A scope that exists and has a given one not among its ancestors. -/
def Beyond (scopes : Array Scope) (c i : ScopeId) : Prop := i < scopes.size ∧ c ∉ chain scopes i

theorem Beyond.grown {a b : Array Scope} {c i : ScopeId} (h : Beyond a c i) (hab : Grown a b) :
    Beyond b c i :=
  ⟨Nat.lt_of_lt_of_le h.1 hab.size_le, by rw [chain_of_grown hab h.1]; exact h.2⟩

/-- A scope that no function can reach. -/
structure Apart (c : ScopeId) (m : Machine) : Prop where
  lt_size : c < m.scopes.size
  closures : ∀ q ∈ m.closures, Beyond m.scopes c q.2

section Apart

variable {c : ScopeId} {m n : Machine}

theorem Apart.lookup (hm : Apart c m) {label : Nat} {scope : ScopeId}
    (h : m.closures.lookup label = some scope) : Beyond m.scopes c scope := by
  obtain ⟨before, behind, hclosures, -⟩ := lookup_eq_some_iff.mp h
  exact hm.closures (label, scope) (by rw [hclosures]; simp)

theorem Apart.grown (hm : Apart c m) {scopes : Array Scope} (h : Grown m.scopes scopes) :
    Apart c { m with scopes := scopes } :=
  ⟨Nat.lt_of_lt_of_le hm.lt_size h.size_le, fun q hq => (hm.closures q hq).grown h⟩

theorem Apart.define (hm : Apart c m) {i : ScopeId} (hi : Beyond m.scopes c m.here)
    (hmem : i ∈ chain m.scopes m.here) (name v : Value) :
    varsOf (define m.scopes i name v) c = varsOf m.scopes c ∧
      Apart c { m with scopes := define m.scopes i name v } := by
  have hne : ¬(i = c ∧ c < m.scopes.size) := fun h => hi.2 (h.1 ▸ hmem)
  exact ⟨by rw [Scoped.varsOf_define, if_neg hne], hm.grown (grown_define _ _ _ _)⟩

theorem Apart.enter (hm : Apart c m) {parent : ScopeId} (hp : Beyond m.scopes c parent) :
    varsOf (m.enter parent).scopes c = varsOf m.scopes c ∧ Apart c (m.enter parent) ∧
      Beyond (m.enter parent).scopes c (m.enter parent).here := by
  have hgrown : Grown m.scopes (m.enter parent).scopes := grown_push _ _
  refine ⟨?_, ⟨(hm.grown hgrown).lt_size, (hm.grown hgrown).closures⟩, ?_, ?_⟩
  · exact congrArg Scope.vars ((getD_push _ _ _).trans (if_neg (Nat.ne_of_lt hm.lt_size)))
  · simp [Machine.enter]
  · change c ∉ chain (m.scopes.push ⟨some parent, .empty⟩) m.scopes.size
    rw [chain_push hp.1, mem_cons]
    rintro (h | h)
    · exact Nat.ne_of_lt hm.lt_size h
    · exact hp.2 h

/-- **What happens beyond a scope does not touch its variables.** Neither does an evaluation that
binds nothing by itself, also if the scope is the current one. -/
theorem Steps.varsOf_apart {p : Permit} {e : Ending} (h : Steps p m e n) (hm : Apart c m)
    (hhere : p.binds = true → Beyond m.scopes c m.here) :
    varsOf n.scopes c = varsOf m.scopes c ∧ Apart c n := by
  induction h with
  | alike h =>
    obtain ⟨_, _, _, rfl⟩ := h
    exact ⟨rfl, hm.lt_size, hm.closures⟩
  | fault => exact ⟨rfl, hm⟩
  | trans h₁ _ ih₁ ih₂ =>
    obtain ⟨hvars₁, hmid⟩ := ih₁ hm hhere
    have hkept := h₁.keeps
    obtain ⟨hvars₂, hend⟩ := ih₂ hmid fun hb => hkept.here_eq ▸ (hhere hb).grown hkept.grown
    exact ⟨hvars₂.trans hvars₁, hend⟩
  | define name v hb => exact hm.define (hhere hb) (self_mem_chain _ _) (.str name) v
  | assign name v hb =>
    rw [assign_eq_define]
    exact hm.define (hhere hb) (Scoped.target_mem_chain _ _ _) (.str name) v
  | defineOutermost name v hb => exact hm.define (hhere hb) (outermost_mem_chain _ _) (.str name) v
  | capture label hb =>
    refine ⟨rfl, hm.lt_size, fun q hq => ?_⟩
    rcases mem_cons.mp hq with rfl | hq
    · exact hhere hb
    · exact hm.closures q (mem_of_mem_filter hq)
  | ret => exact ⟨rfl, hm.lt_size, hm.closures⟩
  | block hb _ ih =>
    obtain ⟨hvars, hinside, hbeyond⟩ := hm.enter (hhere hb)
    obtain ⟨hvars', hend⟩ := ih hinside fun _ => hbeyond
    exact ⟨hvars'.trans hvars, hend.lt_size, hend.closures⟩
  | call label hl _ _ ih | callFault label hl _ ih =>
    -- the called function works beyond the scope
    obtain ⟨hvars, hinside, hbeyond⟩ := hm.enter (hm.lookup hl)
    obtain ⟨hvars', hend⟩ := ih ⟨hinside.lt_size, hinside.closures⟩ fun _ => hbeyond
    exact ⟨hvars'.trans hvars, hend.lt_size, hend.closures⟩

end Apart

/-! ### Passing arguments -/

/-- The scope of a call: itself, the scope of the function around it, and the scopes of the
callers. -/
structure Frame where
  scope : ScopeId
  parent : ScopeId
  callers : List ScopeId

/-- The scope of a call is the current one, and just the given names are bound in it. -/
structure Frame.Holds (fr : Frame) (bound : List (String × Value)) (m : Machine) : Prop where
  here_eq : m.here = fr.scope
  stack_eq : m.stack = fr.callers
  parent_eq : (m.scopes.getD fr.scope default).parent = some fr.parent
  vars_eq : varsOf m.scopes fr.scope = Table.ofFields bound

/-- The arguments are evaluated one after another, each in the scope of the call with the parameters
in front of it bound to their values. -/
inductive Passes (rec : Visitor) (fr : Frame) : List (String × Value) → List String → List Expr →
    Machine → List Value → Machine → Prop where
  | done {bound names m} : fr.Holds bound m → Passes rec fr bound names [] m [] m
  | next {bound name names e es m v k vs n} : fr.Holds bound m → rec (.expr e) m = .ok v k →
      Passes rec fr (bound ++ [(name, v)]) names es
        { k with scopes := define k.scopes k.here (.str name) v } vs n →
      Passes rec fr bound (name :: names) (e :: es) m (v :: vs) n

section Passing

variable {rec : Visitor} {fr : Frame} {bound : List (String × Value)} {m n : Machine}

theorem Frame.Holds.define (h : fr.Holds bound m) (hlt : fr.scope < m.scopes.size) (name : String)
    (v : Value) :
    fr.Holds (bound ++ [(name, v)]) { m with scopes := define m.scopes m.here (.str name) v } := by
  refine ⟨h.here_eq, h.stack_eq, ?_, ?_⟩
  · exact (Scoped.parent_define m.scopes _ fr.scope _ v).trans h.parent_eq
  · rw [Table.ofFields_append_singleton, ← h.vars_eq, Scoped.varsOf_define,
      if_pos ⟨h.here_eq, hlt⟩]

theorem Frame.Holds.expr (hrec : Follows rec) (h : fr.Holds bound m) (hm : Apart fr.scope m)
    {e : Expr} {v : Value} (he : e.captures = false) (hv : rec (.expr e) m = .ok v n) :
    fr.Holds bound n ∧ Apart fr.scope n := by
  have hsteps := (hrec (.expr e)).ok hv
  have hkept := hsteps.keeps
  obtain ⟨hvars, hn⟩ := hsteps.varsOf_apart hm fun hb => nomatch he.symm.trans hb
  refine ⟨⟨hkept.here_eq.trans h.here_eq, hkept.stack_eq.trans h.stack_eq, ?_,
    hvars.trans h.vars_eq⟩, hn⟩
  rw [hkept.grown.parent_eq _ hm.lt_size, h.parent_eq]

theorem bindParams_eq_ok (hrec : Follows rec) : ∀ {names : List String} {es : List Expr}
    {bound : List (String × Value)} {m : Machine}, fr.Holds bound m → Apart fr.scope m →
    captureAny es = false →
    (bindParams rec (names.map .name) es m = .ok () n ↔ ∃ vs, Passes rec fr bound names es m vs n)
  | names, [], bound, m, hm, _, _ => by
    constructor
    · intro h
      have hn : m = n := by
        cases names <;> cases h <;> rfl
      exact ⟨[], hn ▸ .done hm⟩
    · rintro ⟨vs, h⟩
      cases h
      cases names <;> rfl
  | [], e :: es, bound, m, _, _, _ => ⟨nofun, nofun⟩
  | name :: names, e :: es, bound, m, hm, hapart, hes => by
    have he : e.captures = false ∧ captureAny es = false := by simpa [captureAny] using hes
    have hnext {v : Value} {k : Machine} (hv : rec (.expr e) m = .ok v k) :
        fr.Holds (bound ++ [(name, v)]) { k with scopes := define k.scopes k.here (.str name) v } ∧
          Apart fr.scope { k with scopes := define k.scopes k.here (.str name) v } := by
      obtain ⟨hk, hapart'⟩ := hm.expr hrec hapart he.1 hv
      exact ⟨hk.define hapart'.lt_size name v, hapart'.grown (grown_define _ _ _ _)⟩
    constructor
    · intro h
      obtain ⟨v, k, hv, h⟩ := bind_eq_ok.mp h
      obtain ⟨_, _, ⟨⟩, h⟩ := bind_eq_ok.mp h
      obtain ⟨vs, hvs⟩ := (bindParams_eq_ok hrec (hnext hv).1 (hnext hv).2 he.2).mp h
      exact ⟨v :: vs, .next hm hv hvs⟩
    · rintro ⟨_, h⟩
      cases h with
      | next _ hv hvs =>
        have h := (bindParams_eq_ok hrec (hnext hv).1 (hnext hv).2 he.2).mpr ⟨_, hvs⟩
        exact bind_eq_ok.mpr ⟨_, _, hv, bind_eq_ok.mpr ⟨_, _, rfl, h⟩⟩

/-- When all arguments are passed, just the parameters that have one are bound. -/
theorem Passes.holds {names : List String} {es : List Expr} {vs : List Value}
    (h : Passes rec fr bound names es m vs n) :
    vs.length = es.length ∧ fr.Holds (bound ++ names.zip vs) n := by
  induction h with
  | done hm =>
    rw [zip_nil_right, append_nil]
    exact ⟨rfl, hm⟩
  | next _ _ _ ih =>
    obtain ⟨hlength, hn⟩ := ih
    rw [append_assoc] at hn
    exact ⟨congrArg (· + 1) hlength, hn⟩

theorem bindParams_fails (hrec : Follows rec) : ∀ {names : List String} {es : List Expr}
    {m : Machine}, names.length < es.length →
    ∃ e n, bindParams rec (names.map .name) es m = .error (.fault e) n
  | [], e :: es, m, _ => ⟨_, _, rfl⟩
  | name :: names, e :: es, m, h => by
    cases hv : rec (.expr e) m with
    | ok v k =>
      obtain ⟨f, n, hf⟩ := bindParams_fails hrec
        (m := { k with scopes := define k.scopes k.here (.str name) v }) (Nat.lt_of_succ_lt_succ h)
      exact ⟨f, n, bind_eq_error.mpr (.inr ⟨v, k, hv, bind_eq_error.mpr (.inr ⟨(), _, rfl, hf⟩)⟩)⟩
    | error s k =>
      cases s with
      | fault f => exact ⟨f, k, bind_eq_error.mpr (.inl hv)⟩
      | ret => exact absurd hv ((hrec (.expr e)).settles rfl m k)

end Passing

/-- **Arguments are evaluated inside the call.** Let a function have names as its parameters, and
let no function be written in the arguments of a call. The call gives a value exactly if its
arguments can be passed in a new scope inside the scope of the function, each evaluated there with
the parameters in front of it bound, and if the body then runs to an end. The body runs in that
scope, in which just the parameters with an argument are bound, to the values of the arguments. With
more arguments than parameters the call fails. -/
theorem call_passes_arguments {depth : Nat} {f : Func} {args : List Expr} {m : Machine}
    {scope : ScopeId} {names : List String} (hscope : m.closures.lookup f.label = some scope)
    (hclosures : ∀ q ∈ m.closures, q.2 < m.scopes.size) (hparams : f.params = names.map .name)
    (hargs : captureAny args = false) :
    (∀ w n, callFunction (visitUpTo depth) f args m = .ok w n ↔
      ∃ vs m₁ r k,
        Passes (visitUpTo depth) ⟨m.scopes.size, scope, m.here :: m.stack⟩ [] names args
          (m.enterCall scope) vs m₁ ∧
        vs.length = args.length ∧
        Frame.Holds ⟨m.scopes.size, scope, m.here :: m.stack⟩ (names.zip vs) m₁ ∧
        visitUpTo depth (.block f.body) m₁ = .ok r k ∧ w = k.result ∧
        n = { k with here := m.here, stack := m.stack, result := .nil }) ∧
    (names.length < args.length →
      ∃ e n, callFunction (visitUpTo depth) f args m = .error (.fault e) n) := by
  have hrec := follows_visitUpTo depth
  have hholds : Frame.Holds ⟨m.scopes.size, scope, m.here :: m.stack⟩ [] (m.enterCall scope) := by
    have hpush := getD_push m.scopes ⟨some scope, .empty⟩ m.scopes.size (d := default)
    rw [if_pos rfl] at hpush
    exact ⟨rfl, rfl, congrArg Scope.parent hpush, congrArg Scope.vars hpush⟩
  -- the functions were all there before the new scope
  have hapart : Apart m.scopes.size (m.enterCall scope) := by
    have hgrown : Grown m.scopes (m.enterCall scope).scopes := grown_push _ _
    refine ⟨by simp [Machine.enterCall, Machine.enter], fun q hq => Beyond.grown ?_ hgrown⟩
    refine ⟨hclosures q hq, fun hmem => ?_⟩
    exact Nat.not_lt.mpr (Scoped.le_of_mem_chain _ hmem) (hclosures q hq)
  constructor
  · intro w n
    rw [callFunction_eq_ok hscope]
    constructor
    · rintro ⟨k, hk, hw, hn⟩
      obtain ⟨⟨⟩, m₁, hbind, h⟩ := bind_eq_ok.mp hk
      obtain ⟨r, _, hbody, ⟨⟩⟩ := bind_eq_ok.mp h
      rw [hparams] at hbind
      obtain ⟨vs, hvs⟩ := (bindParams_eq_ok hrec hholds hapart hargs).mp hbind
      exact ⟨vs, m₁, r, _, hvs, hvs.holds.1, hvs.holds.2, hbody, hw, hn⟩
    · rintro ⟨vs, m₁, r, k, hvs, -, -, hbody, hw, hn⟩
      have hbind := (bindParams_eq_ok hrec hholds hapart hargs).mpr ⟨vs, hvs⟩
      rw [← hparams] at hbind
      exact ⟨k, bind_eq_ok.mpr ⟨(), m₁, hbind, bind_eq_ok.mpr ⟨r, k, hbody, rfl⟩⟩, hw, hn⟩
  · intro hlength
    obtain ⟨e, n, hbind⟩ := bindParams_fails hrec (m := m.enterCall scope) hlength
    rw [← hparams] at hbind
    have hbody : callBody (visitUpTo depth) f args (m.enterCall scope) = .error (.fault e) n :=
      bind_eq_error.mpr (.inl hbind)
    exact ⟨e, n.leaveCall, by rw [callFunction_eq hscope, hbody]⟩

theorem call_passes_arguments_shared :
    let f : Func := .mk 7 (.local "f") [.name "a", .name "b", .name "c"] [.return [.name "b"]]
    let m : Machine := { (default : Machine) with closures := [(7, 0)] }
    m.closures.lookup f.label = some 0 ∧ (∀ q ∈ m.closures, q.2 < m.scopes.size) ∧
      f.params = ["a", "b", "c"].map .name ∧ captureAny [.number (.int 5), .name "a"] = false ∧
      ∃ n, callFunction (visitUpTo 3) f [.number (.int 5), .name "a"] m = .ok (.int 5) n := by
  intro f m
  have hclosures : ∀ q ∈ m.closures, q.2 < m.scopes.size := by decide
  let k : Machine := { m.enterCall 0 with
    scopes := #[default, ⟨some 0, .ofFields [("a", .int 5), ("b", .int 5)]⟩] }
  have hpasses : Passes (visitUpTo 3) ⟨1, 0, [0]⟩ [] ["a", "b", "c"]
      [.number (.int 5), .name "a"] (m.enterCall 0) [.int 5, .int 5] k :=
    .next ⟨rfl, rfl, rfl, rfl⟩ rfl
      (.next ⟨rfl, rfl, rfl, rfl⟩ (valueOf_eq_ok (by cbv)) (.done ⟨rfl, rfl, rfl, rfl⟩))
  have hreturn : visitUpTo 2 (.stmt (.return [.name "b"])) (k.enter k.here) =
      .error .ret { k.enter k.here with result := .int 5 } :=
    visitUpTo_return_eq.mpr ⟨1, _, _, rfl, valueOf_eq_ok (by cbv), rfl⟩
  have hbody : visitStmts (visitUpTo 2) f.body (k.enter k.here) =
      .error .ret { k.enter k.here with result := .int 5 } :=
    visitStmts_cons_ret.mpr (.inl hreturn)
  have hrun : visitUpTo 3 (.block f.body) k =
      .ok .nil (Machine.leaveBlock k.scopes.size { k.enter k.here with result := .int 5 }) := by
    rw [visitUpTo_block, hbody]
  have hargs : captureAny [.number (.int 5), .name "a"] = false := rfl
  exact ⟨rfl, hclosures, rfl, hargs, _, ((call_passes_arguments rfl hclosures rfl hargs).1 _ _).mpr
    ⟨_, k, .nil, _, hpasses, rfl, hpasses.holds.2, hrun, rfl, rfl⟩⟩

/-- The name of an argument is looked up inside the call: a name that is bound at the place of the
call is not found. -/
theorem argument_misses_caller :
    let f : Func := .mk 7 (.local "f") [.name "a"] [.return [.name "a"]]
    let m : Machine := { (default : Machine) with
      scopes := #[default, ⟨some 0, .ofFields [("x", .int 1)]⟩], here := 1, closures := [(7, 0)] }
    visitUpTo 3 (.expr (.name "x")) m = .ok (.int 1) m ∧
      ∃ n, callFunction (visitUpTo 3) f [.name "x"] m = .error (.fault (.notFound "x")) n := by
  intro f m
  have hcaller : lookup? m.scopes m.here (.str "x") = some (.int 1) := by cbv
  have hcallee : lookup? (m.enterCall 0).scopes (m.enterCall 0).here (.str "x") = none := by cbv
  have hbody : callBody (visitUpTo 3) f [.name "x"] (m.enterCall 0) =
      .error (.fault (.notFound "x")) (m.enterCall 0) :=
    bind_eq_error.mpr (.inl (bind_eq_error.mpr (.inl (valueOf_eq_error hcallee rfl))))
  exact ⟨valueOf_eq_ok hcaller, _, by rw [callFunction_eq rfl, hbody]⟩

end WikiFeed.Record

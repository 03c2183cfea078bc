import WikiFeed.Proofs.Outcome
import WikiFeed.Proofs.Record.Scopes

/-! # Returns of record scripts

A return is stopped by the scope it stands in. For a return that stands directly in the body of a
function this is the scope of the body, and the call ends (`call_ends_at_return`). A return inside a
conditional or a loop only ends the block it stands in, and the statements behind are run
(`nested_return_goes_on`). -/

namespace WikiFeed.Record

open Lua
open Outcome (bind_eq_ok bind_eq_error)

/-- Without a return in it, a piece of evaluation does not end in one, and it leaves the value of
the last return as it is or, behind a call, nil. -/
theorem Steps.result {p : Permit} {m n : Machine} {e : Ending} (h : Steps p m e n)
    (hp : p.returns = false) :
    e ≠ .returning ∧ (e = .done → n.result = m.result ∨ n.result = .nil) := by
  induction h with
  | alike h =>
    obtain ⟨_, _, _, rfl⟩ := h
    exact ⟨nofun, fun _ => .inl rfl⟩
  | fault => exact ⟨nofun, nofun⟩
  | trans _ _ ih₁ ih₂ =>
    refine ⟨(ih₂ hp).1, fun he => ?_⟩
    rcases (ih₂ hp).2 he with h₂ | h₂
    · rw [h₂]
      exact (ih₁ hp).2 rfl
    · exact .inr h₂
  | define => exact ⟨nofun, fun _ => .inl rfl⟩
  | assign => exact ⟨nofun, fun _ => .inl rfl⟩
  | defineOutermost => exact ⟨nofun, fun _ => .inl rfl⟩
  | capture => exact ⟨nofun, fun _ => .inl rfl⟩
  | ret v hr => exact absurd hr (by rw [hp]; exact Bool.false_ne_true)
  | @block _ _ _ e _ _ ih =>
    obtain ⟨hne, hdone⟩ := ih hp
    cases e with
    | done => exact ⟨nofun, fun _ => hdone rfl⟩
    | returning => exact absurd rfl hne
    | failed => exact ⟨nofun, nofun⟩
  | call => exact ⟨nofun, fun _ => .inr rfl⟩
  | callFault => exact ⟨nofun, nofun⟩

/-! ### What does not end in a return -/

def Settles {α : Type} (x : Eval α) : Prop := ∀ m n, x m ≠ .error .ret n

variable {rec : Visitor} {s : Stmt}

section Settles

variable {α β : Type}

variable {x : Eval α}

theorem Performs.settles {p : Permit} (h : Performs p x) (hp : p.returns = false) : Settles x := by
  intro m n hx
  exact ((h.error hx).result hp).1 rfl

theorem Settles.bind {f : α → Eval β} (hx : Settles x) (hf : ∀ a, Settles (f a)) :
    Settles (x >>= f) := by
  intro m n h
  rcases bind_eq_error.mp h with h | ⟨a, k, -, h⟩
  · exact hx m n h
  · exact hf a k n h

theorem Settles.ite {c : Prop} [Decidable c] {y : Eval α} (hx : Settles x) (hy : Settles y) :
    Settles (if c then x else y) := by
  split
  · exact hx
  · exact hy

theorem settles_of_performs (h : Performs ⟨false, false⟩ x) : Settles x :=
  h.settles rfl

theorem settles_pure (a : α) : Settles (pure a : Eval α) := settles_of_performs (performs_pure a)

theorem settles_inBlock (x : Eval Unit) : Settles (inBlock x) := by
  intro m n
  unfold inBlock within
  cases x (m.enter m.here) with
  | ok a k => exact nofun
  | error s k => cases s <;> exact nofun

theorem settles_expr (depth : Nat) (e : Expr) : Settles (visitUpTo depth (.expr e)) :=
  (follows_visitUpTo depth (.expr e)).settles rfl

theorem settles_visitIf {test : Expr} {body : Block} {orelse : Orelse}
    (ht : Settles (rec (.expr test))) (hb : Settles (rec (.block body)))
    (ho : Settles (rec (.orelse orelse))) : Settles (visitIf rec test body orelse) := by
  refine ht.bind fun v => Settles.ite (hb.bind fun _ => settles_pure _) ?_
  split
  · exact settles_pure _
  · exact ho.bind fun _ => settles_pure _

theorem settles_orelse : ∀ depth o, Settles (visitUpTo depth (.orelse o))
  | 0, _ => settles_of_performs (performs_fail _)
  | _ + 1, .none => settles_pure _
  | depth + 1, .block b => visitUpTo_block_ne_ret (depth + 1) b
  | depth + 1, .elseif test body orelse =>
    settles_visitIf (settles_expr depth test) (visitUpTo_block_ne_ret depth body)
      (settles_orelse depth orelse)

theorem settles_countRounds (rec : Visitor) (var : String) (op : BinOp) (stop step : Value)
    (body : Block) : ∀ n, Settles (countRounds rec var op stop step body n)
  | 0 => settles_of_performs (performs_fail _)
  | n + 1 => by
    unfold countRounds
    extract_lets value
    have hvalue : Settles value :=
      settles_of_performs (performs_get.bind fun _ => performs_pure _)
    have hlift {γ : Type} (r : Result γ) : Settles (lift r) := settles_of_performs (performs_lift r)
    have hdefine (v : Value) : Settles (defineHere var v) :=
      (performs_defineHere (p := ⟨false, true⟩) rfl var v).settles rfl
    refine hvalue.bind fun v => (hlift _).bind fun b => Settles.ite ?_ (settles_pure _)
    refine (settles_inBlock _).bind fun _ => (settles_of_performs performs_get).bind fun _ => ?_
    refine hvalue.bind fun _ => (hlift _).bind fun next => (hdefine next).bind fun _ => ?_
    exact settles_countRounds rec var op stop step body n

theorem settles_stmt (depth : Nat) (hs : ∀ vs, s ≠ .return vs) :
    Settles (visitUpTo depth (.stmt s)) := by
  cases depth with
  | zero => exact settles_of_performs (performs_fail _)
  | succ depth =>
    have hexpr (e : Expr) := settles_expr depth e
    cases s with
    | «if» test body orelse =>
      exact settles_visitIf (hexpr test) (visitUpTo_block_ne_ret depth body)
        (settles_orelse depth orelse)
    | fornum target start stop step body =>
      have hrounds (op : BinOp) (last by_ : Value) (n : Nat) : Settles (do
          countRounds (visitUpTo depth) target op last by_ body n
          return (.nil : Value)) :=
        (settles_countRounds _ _ _ _ _ _ _).bind fun _ => settles_pure _
      have hlift {γ : Type} (r : Result γ) : Settles (lift r) :=
        settles_of_performs (performs_lift r)
      change Settles (visitFornum (visitUpTo depth) target start stop step body)
      refine (hexpr start).bind fun _ => Settles.bind (fun _ _ => nofun) fun _ => ?_
      refine (hexpr stop).bind fun _ => ?_
      split
      · exact (hexpr _).bind fun _ => (hlift _).bind fun _ => hrounds _ _ _ _
      · exact (settles_pure _).bind fun _ => (hlift _).bind fun _ => hrounds _ _ _ _
    | forin targets iter body =>
      change Settles (visitForin (visitUpTo depth) targets iter body)
      unfold visitForin
      split
      · exact (hexpr _).bind fun _ => (settles_inBlock _).bind fun _ => settles_pure _
      · exact settles_of_performs (performs_fail _)
    | «return» vs => exact absurd rfl (hs vs)
    | «while» | «repeat» | «do» => exact settles_of_performs (performs_fail _)
    | _ => exact (follows_visitUpTo (depth + 1) _).settles rfl

end Settles

/-! ### The end of a body -/

/-- Every return stands directly among the statements, and none inside one of them. -/
def DirectReturns (body : Block) : Prop := ∀ s ∈ body, s.returns = true → ∃ vs, s = .return vs

/-- How the statements of a body are to end, and with which value: at the first return with the
value that it gives, or behind the last statement with nil. -/
inductive BodyEnds (depth : Nat) (body : Block) (m : Machine) : Value → Machine → Prop where
  | through {n} : visitStmts (visitUpTo depth) body m = .ok () n → BodyEnds depth body m .nil n
  | atReturn {k below v n} (before : Block) (values : List Expr) (behind : Block) :
      body = before ++ .return values :: behind →
      visitStmts (visitUpTo depth) before m = .ok () k → depth = below + 1 →
      returnValue (visitUpTo below) values k = .ok v n → BodyEnds depth body m v n

section Bodies

variable {depth : Nat} {m n : Machine}

theorem visitStmts_cons_ok {ss : List Stmt} :
    visitStmts rec (s :: ss) m = .ok () n ↔
      ∃ v k, rec (.stmt s) m = .ok v k ∧ visitStmts rec ss k = .ok () n :=
  bind_eq_ok

theorem visitStmts_cons_ret {ss : List Stmt} :
    visitStmts rec (s :: ss) m = .error .ret n ↔
      rec (.stmt s) m = .error .ret n ∨
        ∃ v k, rec (.stmt s) m = .ok v k ∧ visitStmts rec ss k = .error .ret n :=
  bind_eq_error

theorem visitUpTo_return_eq {values : List Expr} :
    visitUpTo depth (.stmt (.return values)) m = .error .ret n ↔
      ∃ below v k, depth = below + 1 ∧ returnValue (visitUpTo below) values m = .ok v k ∧
        n = { k with result := v } := by
  cases depth with
  | zero => exact ⟨nofun, nofun⟩
  | succ below =>
    have hsettled : Settles (returnValue (visitUpTo below) values) :=
      (performs_returnValue (p := ⟨false, true⟩) (follows_visitUpTo below) rfl values).settles rfl
    constructor
    · intro h
      rcases bind_eq_error.mp h with h | ⟨v, k, hv, ⟨⟩⟩
      · exact absurd h (hsettled _ _)
      · exact ⟨below, v, k, rfl, hv, rfl⟩
    · rintro ⟨below', v, k, hbelow, hv, rfl⟩
      cases hbelow
      exact bind_eq_error.mpr (.inr ⟨v, k, hv, rfl⟩)

theorem visitStmts_eq_ret : ∀ {ss : List Stmt} {m : Machine},
    visitStmts (visitUpTo depth) ss m = .error .ret n ↔
      ∃ before values behind k, ss = before ++ .return values :: behind ∧
        visitStmts (visitUpTo depth) before m = .ok () k ∧
        visitUpTo depth (.stmt (.return values)) k = .error .ret n
  | [], m => by
    constructor
    · exact nofun
    · rintro ⟨before, _, _, _, hss, -⟩
      cases before <;> cases hss
  | s :: ss, m => by
    rw [visitStmts_cons_ret]
    constructor
    · rintro (h | ⟨v, k, hs, hss⟩)
      · by_cases hreturn : ∃ vs, s = .return vs
        · obtain ⟨vs, rfl⟩ := hreturn
          exact ⟨[], vs, ss, m, rfl, rfl, h⟩
        · exact absurd h (settles_stmt depth (fun vs hvs => hreturn ⟨vs, hvs⟩) m n)
      · obtain ⟨before, values, behind, k', rfl, hbefore, hvalues⟩ := visitStmts_eq_ret.mp hss
        exact ⟨s :: before, values, behind, k', rfl,
          visitStmts_cons_ok.mpr ⟨v, k, hs, hbefore⟩, hvalues⟩
    · rintro ⟨before, values, behind, k', hss, hbefore, hvalues⟩
      cases before with
      | nil =>
        cases hss
        cases hbefore
        exact .inl hvalues
      | cons s' before =>
        cases hss
        obtain ⟨v, k, hs, hrest⟩ := visitStmts_cons_ok.mp hbefore
        exact .inr ⟨v, k, hs,
          visitStmts_eq_ret.mpr ⟨before, values, behind, k', rfl, hrest, hvalues⟩⟩

theorem visitStmts_result : ∀ {ss : List Stmt} {m : Machine}, DirectReturns ss → m.result = .nil →
    visitStmts (visitUpTo depth) ss m = .ok () n → n.result = .nil
  | [], _, _, hm, h => by
    cases h
    exact hm
  | s :: ss, m, hdirect, hm, h => by
    obtain ⟨v, k, hs, hss⟩ := visitStmts_cons_ok.mp h
    refine visitStmts_result (fun t ht => hdirect t (List.mem_cons_of_mem _ ht)) ?_ hss
    have hfree : s.returns = false := by
      refine (Bool.not_eq_true _).mp fun hreturns => ?_
      obtain ⟨vs, rfl⟩ := hdirect s List.mem_cons_self hreturns
      -- a return does not run to its end
      cases depth with
      | zero => exact nomatch hs
      | succ below =>
        obtain ⟨_, _, _, hret⟩ := bind_eq_ok.mp hs
        exact nomatch hret
    rcases (((follows_visitUpTo depth (.stmt s)).ok hs).result hfree).2 rfl with h | h
    · rw [h, hm]
    · exact h

theorem callBody_eq_ok {f : Func} {args : List Expr} :
    callBody (visitUpTo (depth + 1)) f args m = .ok () n ↔
      ∃ m₁ m₂, bindParams (visitUpTo (depth + 1)) f.params args m = .ok () m₁ ∧
        (visitStmts (visitUpTo depth) f.body (m₁.enter m₁.here) = .ok () m₂ ∨
          visitStmts (visitUpTo depth) f.body (m₁.enter m₁.here) = .error .ret m₂) ∧
        n = m₂.leaveBlock m₁.scopes.size := by
  constructor
  · intro h
    obtain ⟨⟨⟩, m₁, hbind, h⟩ := bind_eq_ok.mp h
    obtain ⟨v, k, hblock, ⟨⟩⟩ := bind_eq_ok.mp h
    rw [visitUpTo_block] at hblock
    split at hblock
    case h_1 m₂ hstmts =>
      cases hblock
      exact ⟨m₁, m₂, hbind, .inl hstmts, rfl⟩
    case h_2 m₂ hstmts =>
      cases hblock
      exact ⟨m₁, m₂, hbind, .inr hstmts, rfl⟩
    case h_3 => exact nomatch hblock
  · rintro ⟨m₁, m₂, hbind, hstmts, rfl⟩
    refine bind_eq_ok.mpr ⟨(), m₁, hbind, bind_eq_ok.mpr ⟨.nil, _, ?_, rfl⟩⟩
    rw [visitUpTo_block]
    rcases hstmts with hstmts | hstmts
    · rw [hstmts]
    · rw [hstmts]

theorem settles_callBody (f : Func) (args : List Expr) :
    Settles (callBody (visitUpTo depth) f args) := by
  have hbind : Settles (bindParams (visitUpTo depth) f.params args) :=
    (performs_bindParams (p := ⟨false, true⟩) (follows_visitUpTo depth) rfl _ _).settles rfl
  exact hbind.bind fun _ => Settles.bind (visitUpTo_block_ne_ret depth f.body) fun _ =>
    settles_pure _

/-- The value of a call is the one that is left behind when its inside is over. The caller's scopes
are then current again. -/
theorem callFunction_eq_ok {f : Func} {args : List Expr} {scope : ScopeId} {w : Value}
    (h : m.closures.lookup f.label = some scope) :
    callFunction (visitUpTo depth) f args m = .ok w n ↔
      ∃ k, callBody (visitUpTo depth) f args (m.enterCall scope) = .ok () k ∧ w = k.result ∧
        n = { k with here := m.here, stack := m.stack, result := .nil } := by
  have hleft {k : Machine}
      (hk : callBody (visitUpTo depth) f args (m.enterCall scope) = .ok () k) :
      { k.leaveCall with result := .nil } =
        { k with here := m.here, stack := m.stack, result := .nil } := by
    have hkept := ((performs_callBody (follows_visitUpTo depth) f args).ok hk).keeps.leaveCall
    have hhere := hkept.here_eq
    have hstack := hkept.stack_eq
    unfold Machine.leaveCall at hhere hstack ⊢
    simp only at hhere hstack
    rw [hhere, hstack]
  rw [callFunction_eq h]
  constructor
  · intro hcall
    split at hcall
    case h_1 k hk =>
      cases hcall
      exact ⟨k, hk, rfl, hleft hk⟩
    case h_2 k hk => exact absurd hk (settles_callBody f args _ _)
    case h_3 => exact nomatch hcall
  · rintro ⟨k, hk, rfl, rfl⟩
    rw [hk, ← hleft hk]

end Bodies

/-- **A direct return ends the call.** Let the returns of a function all stand directly in its body,
and let no value be left over from before. Then a call gives a value exactly if its parameters can
be bound and its body ends as returns are meant to work: at the first return that is reached, with
the value of that return and without any further statement, or behind the last statement with nil.
Nothing else is left of the call, and the caller's scopes are current again. -/
theorem call_ends_at_return {depth : Nat} {f : Func} {args : List Expr} {m n : Machine}
    {scope : ScopeId} {w : Value} (hscope : m.closures.lookup f.label = some scope)
    (hreturns : DirectReturns f.body) (hresult : m.result = .nil) :
    callFunction (visitUpTo (depth + 1)) f args m = .ok w n ↔
      ∃ m₁ m₂, bindParams (visitUpTo (depth + 1)) f.params args (m.enterCall scope) = .ok () m₁ ∧
        BodyEnds depth f.body (m₁.enter m₁.here) w m₂ ∧
        n = { m₂ with here := m.here, stack := m.stack, result := .nil } := by
  -- the arguments have no return, so a body that is run through leaves nil
  have hnil {m₁ m₂ : Machine}
      (hbind : bindParams (visitUpTo (depth + 1)) f.params args (m.enterCall scope) = .ok () m₁)
      (hstmts : visitStmts (visitUpTo depth) f.body (m₁.enter m₁.here) = .ok () m₂) :
      m₂.result = .nil := by
    refine visitStmts_result hreturns ?_ hstmts
    have hsteps := (performs_bindParams (p := ⟨false, true⟩) (follows_visitUpTo _) rfl _ _).ok hbind
    rcases (hsteps.result rfl).2 rfl with h | h
    · exact h.trans hresult
    · exact h
  rw [callFunction_eq_ok hscope]
  constructor
  · rintro ⟨k, hk, rfl, rfl⟩
    obtain ⟨m₁, m₂, hbind, hstmts | hstmts, rfl⟩ := callBody_eq_ok.mp hk
    · refine ⟨m₁, m₂, hbind, ?_, rfl⟩
      change BodyEnds depth f.body (m₁.enter m₁.here) m₂.result m₂
      rw [hnil hbind hstmts]
      exact .through hstmts
    · obtain ⟨before, values, behind, k, hbody, hbefore, hret⟩ := visitStmts_eq_ret.mp hstmts
      obtain ⟨below, v, k', hdepth, hv, rfl⟩ := visitUpTo_return_eq.mp hret
      exact ⟨m₁, k', hbind, .atReturn before values behind hbody hbefore hdepth hv, rfl⟩
  · rintro ⟨m₁, m₂, hbind, hends, rfl⟩
    cases hends with
    | through hstmts =>
      exact ⟨_, callBody_eq_ok.mpr ⟨m₁, m₂, hbind, .inl hstmts, rfl⟩, (hnil hbind hstmts).symm, rfl⟩
    | atReturn before values behind hbody hbefore hdepth hv =>
      have hret := visitUpTo_return_eq.mpr ⟨_, _, _, hdepth, hv, rfl⟩
      have hstmts := visitStmts_eq_ret.mpr ⟨_, _, _, _, hbody, hbefore, hret⟩
      exact ⟨_, callBody_eq_ok.mpr ⟨m₁, _, hbind, .inr hstmts, rfl⟩, rfl, rfl⟩

theorem call_ends_at_return_midway :
    let f : Func := .mk 7 (.local "f") [.name "x"]
      [.local ["y"] [.number (.int 2)], .return [.number (.int 1)], .return [.number (.int 3)]]
    let m : Machine := { (default : Machine) with closures := [(7, 0)] }
    m.closures.lookup f.label = some 0 ∧ DirectReturns f.body ∧ m.result = .nil ∧
      ∃ n, callFunction (visitUpTo 3) f [.number (.int 5)] m = .ok (.int 1) n := by
  intro f m
  have hdirect : DirectReturns f.body := by
    intro s hs hreturns
    simp only [f, Func.body, List.mem_cons, List.not_mem_nil, or_false] at hs
    rcases hs with rfl | rfl | rfl
    · exact absurd hreturns Bool.false_ne_true
    · exact ⟨_, rfl⟩
    · exact ⟨_, rfl⟩
  obtain ⟨m₁, m₂, hbind, hends⟩ : ∃ m₁ m₂,
      bindParams (visitUpTo 3) f.params [.number (.int 5)] (m.enterCall 0) = .ok () m₁ ∧
        BodyEnds 2 f.body (m₁.enter m₁.here) (.int 1) m₂ :=
    ⟨_, _, rfl, .atReturn [_] _ _ rfl rfl rfl rfl⟩
  exact ⟨rfl, hdirect, rfl, _,
    (call_ends_at_return rfl hdirect rfl).mpr ⟨m₁, m₂, hbind, hends, rfl⟩⟩

/-- A return inside a conditional does not end the call: the statement behind the conditional is
still executed, and the call has its value. -/
theorem nested_return_goes_on :
    let f : Func := .mk 7 (.local "f") []
      [.if .true [.return [.number (.int 1)]] .none, .return [.number (.int 2)]]
    let m : Machine := { (default : Machine) with closures := [(7, 0)] }
    ∃ n, callFunction (visitUpTo 5) f [] m = .ok (.int 2) n :=
  ⟨_, rfl⟩

end WikiFeed.Record

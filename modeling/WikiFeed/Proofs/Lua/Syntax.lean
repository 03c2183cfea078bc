import WikiFeed.Lua.Tree

/-! # Where functions, returns and breaks stand

The parts of syntax that belong to a function are those outside of the functions written in it.
`Expr.captures` looks for functions in an expression, `Stmt.returns` for returns in a statement that
belong to the same function. Syntax is `tame` if every break in it lies inside a generic loop of the
same function, so that no break can leave a function. -/

namespace WikiFeed.Lua

mutual

def Expr.captures : Expr → Bool
  | .index idx value _ => idx.captures || value.captures
  | .call callee args => callee.captures || captureAny args
  | .invoke source _ args => source.captures || captureAny args
  | .function _ => true
  | .table fields => captureInFields fields
  | .unary _ e => e.captures
  | .binary _ l r => l.captures || r.captures
  | _ => false

def captureAny : List Expr → Bool
  | [] => false
  | e :: es => e.captures || captureAny es

def captureInFields : List Field → Bool
  | [] => false
  | .mk key value _ :: fs => key.captures || value.captures || captureInFields fs

end

mutual

def Stmt.returns : Stmt → Bool
  | .return _ => true
  | .if _ body orelse => returnAny body || orelse.returns
  | .fornum _ _ _ _ body => returnAny body
  | .forin _ _ body => returnAny body
  | .while _ body => returnAny body
  | .repeat body _ => returnAny body
  | .do body => returnAny body
  | _ => false

def returnAny : List Stmt → Bool
  | [] => false
  | s :: ss => s.returns || returnAny ss

def Orelse.returns : Orelse → Bool
  | .none => false
  | .block body => returnAny body
  | .elseif _ body orelse => returnAny body || orelse.returns

end

theorem captureAny_of_mem {e : Expr} (he : e.captures = true) :
    ∀ {es : List Expr}, e ∈ es → captureAny es = true
  | _ :: _, .head _ => by simp [captureAny, he]
  | _ :: _, .tail _ h => by simp [captureAny, captureAny_of_mem he h]

theorem returnAny_of_mem {s : Stmt} (hs : s.returns = true) :
    ∀ {ss : List Stmt}, s ∈ ss → returnAny ss = true
  | _ :: _, .head _ => by simp [returnAny, hs]
  | _ :: _, .tail _ h => by simp [returnAny, returnAny_of_mem hs h]

theorem captureInFields_of_mem {f : Field} (hf : (f.key.captures || f.value.captures) = true) :
    ∀ {fs : List Field}, f ∈ fs → captureInFields fs = true := by
  obtain ⟨key, value, bracketed⟩ := f
  have hf' : key.captures = true ∨ value.captures = true := by
    simpa [Field.key, Field.value] using hf
  intro fs hmem
  induction hmem with
  | head => rcases hf' with hf' | hf' <;> simp [captureInFields, hf']
  | tail g _ ih =>
    obtain ⟨_, _, _⟩ := g
    simp [captureInFields, ih]

/-! ### Breaks inside generic loops -/

mutual

/-- Whether the functions written in an expression are tame. -/
def Expr.tame : Expr → Bool
  | .index idx value _ => idx.tame && value.tame
  | .call callee args => callee.tame && tameExprs args
  | .invoke source _ args => source.tame && tameExprs args
  | .function f => f.tame
  | .table fields => tameFields fields
  | .unary _ e => e.tame
  | .binary _ l r => l.tame && r.tame
  | _ => true

def tameExprs : List Expr → Bool
  | [] => true
  | e :: es => e.tame && tameExprs es

def tameFields : List Field → Bool
  | [] => true
  | .mk key value _ :: fs => key.tame && value.tame && tameFields fs

def Head.tame : Head → Bool
  | .global target => target.tame
  | .method source _ => source.tame
  | _ => true

/-- Whether no break can leave a function or one written in it. -/
def Func.tame : Func → Bool
  | .mk _ head _ body => head.tame && tameStmts false body

/-- Whether every break in a statement lies inside a generic loop of the same function; `loop` says
that the statement itself does. -/
def Stmt.tame (loop : Bool) : Stmt → Bool
  | .assign targets values => tameExprs targets && tameExprs values
  | .local _ values => tameExprs values
  | .expr e => e.tame
  | .function f => f.tame
  | .while test body => test.tame && tameStmts loop body
  | .repeat body test => tameStmts loop body && test.tame
  | .do body => tameStmts loop body
  | .break => loop
  | .if test body orelse => test.tame && tameStmts loop body && orelse.tame loop
  | .fornum _ start stop none body => start.tame && stop.tame && tameStmts loop body
  | .fornum _ start stop (some step) body =>
    start.tame && stop.tame && step.tame && tameStmts loop body
  | .forin _ iter body => tameExprs iter && tameStmts true body
  | .return values => tameExprs values
  | _ => true

def tameStmts (loop : Bool) : List Stmt → Bool
  | [] => true
  | s :: ss => s.tame loop && tameStmts loop ss

def Orelse.tame (loop : Bool) : Orelse → Bool
  | .none => true
  | .block body => tameStmts loop body
  | .elseif test body orelse => test.tame && tameStmts loop body && orelse.tame loop

end

theorem tame_of_mem {e : Expr} : ∀ {es : List Expr}, tameExprs es = true → e ∈ es → e.tame = true
  | _ :: _, h, .head _ => (Bool.and_eq_true_iff.mp h).1
  | _ :: _, h, .tail _ he => tame_of_mem (Bool.and_eq_true_iff.mp h).2 he

theorem Func.tame_body {f : Func} (h : f.tame = true) : tameStmts false f.body = true := by
  cases f
  exact (Bool.and_eq_true_iff.mp h).2

theorem Func.tame_head {f : Func} (h : f.tame = true) : f.head.tame = true := by
  cases f
  exact (Bool.and_eq_true_iff.mp h).1

end WikiFeed.Lua

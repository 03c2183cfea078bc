/-! # Syntax trees of Lua

Expressions, statements and functions of a chunk. Every function in a chunk has a `label`, its
number in the order of reading, so that two functions with the same text stay apart. A table field
without a key has the next whole number as its key. -/

namespace WikiFeed.Lua

inductive Numeral where
  | int (n : Int)
  | float (x : Float)
deriving Inhabited

inductive BinOp where
  | add | sub | mul | div | floorDiv | mod | pow
  | lt | gt | le | ge | eq | ne
  | and | or | concat
  | bitAnd | bitOr | bitXor | shiftRight | shiftLeft
deriving DecidableEq, Inhabited

inductive UnOp where
  | neg | bitNot | not | length
deriving DecidableEq, Inhabited

inductive Param where
  | name (id : String)
  | varargs
deriving DecidableEq, Inhabited

mutual

/-- Expressions. An index is written with a point or in brackets; `idx` is what stands behind the
point or in the brackets. -/
inductive Expr where
  | nil
  | true
  | false
  | number (n : Numeral)
  | string (s : String)
  | varargs
  | name (id : String)
  | index (idx : Expr) (value : Expr) (dot : Bool)
  | call (callee : Expr) (args : List Expr)
  | invoke (source : Expr) (method : String) (args : List Expr)
  | function (f : Func)
  | table (fields : List Field)
  | unary (op : UnOp) (operand : Expr)
  | binary (op : BinOp) (left right : Expr)

inductive Field where
  | mk (key value : Expr) (bracketed : Bool)

inductive Head where
  | anonymous
  | local (name : String)
  | global (target : Expr)
  | method (source : Expr) (name : String)

inductive Func where
  | mk (label : Nat) (head : Head) (params : List Param) (body : List Stmt)

inductive Stmt where
  | assign (targets values : List Expr)
  | local (names : List String) (values : List Expr)
  | expr (e : Expr)
  | function (f : Func)
  | while (test : Expr) (body : List Stmt)
  | repeat (body : List Stmt) (test : Expr)
  | goto (label : String)
  | label (name : String)
  | do (body : List Stmt)
  | break
  | semicolon
  | if (test : Expr) (body : List Stmt) (orelse : Orelse)
  | fornum (target : String) (start stop : Expr) (step : Option Expr) (body : List Stmt)
  | forin (targets : List String) (iter : List Expr) (body : List Stmt)
  | return (values : List Expr)

inductive Orelse where
  | none
  | block (body : List Stmt)
  | elseif (test : Expr) (body : List Stmt) (orelse : Orelse)

end

instance : Inhabited Expr := ⟨.nil⟩
instance : Inhabited Func := ⟨.mk 0 .anonymous [] []⟩
instance : Inhabited Stmt := ⟨.semicolon⟩

abbrev Block := List Stmt

namespace Func

def label : Func → Nat
  | .mk l _ _ _ => l

def head : Func → Head
  | .mk _ h _ _ => h

def params : Func → List Param
  | .mk _ _ ps _ => ps

def body : Func → Block
  | .mk _ _ _ b => b

def kind (f : Func) : String :=
  match f.head with
  | .anonymous => "AnonymousFunction"
  | .local _ => "LocalFunction"
  | .global _ => "Function"
  | .method _ _ => "Method"

end Func

namespace Field

def key : Field → Expr
  | .mk k _ _ => k

def value : Field → Expr
  | .mk _ v _ => v

def bracketed : Field → Bool
  | .mk _ _ b => b

end Field

/-! ### Copies of functions -/

section Relabel

variable {m : Type → Type} [Monad m] (label : Nat → m Nat)

mutual

/-- An expression with new labels for the functions written in it. -/
def Expr.relabelM : Expr → m Expr
  | .index idx value dot => return .index (← idx.relabelM) (← value.relabelM) dot
  | .call callee args => return .call (← callee.relabelM) (← relabelExprs args)
  | .invoke source method args => return .invoke (← source.relabelM) method (← relabelExprs args)
  | .function f => return .function (← f.relabelM)
  | .table fields => return .table (← relabelFields fields)
  | .unary op e => return .unary op (← e.relabelM)
  | .binary op l r => return .binary op (← l.relabelM) (← r.relabelM)
  | e => return e

def relabelExprs : List Expr → m (List Expr)
  | [] => return []
  | e :: es => return (← e.relabelM) :: (← relabelExprs es)

def relabelFields : List Field → m (List Field)
  | [] => return []
  | .mk key value bracketed :: fs =>
    return .mk (← key.relabelM) (← value.relabelM) bracketed :: (← relabelFields fs)

def Head.relabelM : Head → m Head
  | .global target => return .global (← target.relabelM)
  | .method source name => return .method (← source.relabelM) name
  | h => return h

/-- A function with a new label, as have the functions written in it. -/
def Func.relabelM : Func → m Func
  | .mk l head params body =>
    return .mk (← label l) (← head.relabelM) params (← relabelStmts body)

def Stmt.relabelM : Stmt → m Stmt
  | .assign targets values => return .assign (← relabelExprs targets) (← relabelExprs values)
  | .local names values => return .local names (← relabelExprs values)
  | .expr e => return .expr (← e.relabelM)
  | .function f => return .function (← f.relabelM)
  | .while test body => return .while (← test.relabelM) (← relabelStmts body)
  | .repeat body test => return .repeat (← relabelStmts body) (← test.relabelM)
  | .do body => return .do (← relabelStmts body)
  | .if test body orelse =>
    return .if (← test.relabelM) (← relabelStmts body) (← orelse.relabelM)
  | .fornum target start stop none body =>
    return .fornum target (← start.relabelM) (← stop.relabelM) none (← relabelStmts body)
  | .fornum target start stop (some step) body =>
    return .fornum target (← start.relabelM) (← stop.relabelM) (some (← step.relabelM))
      (← relabelStmts body)
  | .forin targets iter body => return .forin targets (← relabelExprs iter) (← relabelStmts body)
  | .return values => return .return (← relabelExprs values)
  | s => return s

def relabelStmts : List Stmt → m (List Stmt)
  | [] => return []
  | s :: ss => return (← s.relabelM) :: (← relabelStmts ss)

def Orelse.relabelM : Orelse → m Orelse
  | .none => return .none
  | .block body => return .block (← relabelStmts body)
  | .elseif test body orelse =>
    return .elseif (← test.relabelM) (← relabelStmts body) (← orelse.relabelM)

end

end Relabel

def BinOp.display : BinOp → String
  | .add => "AddOp" | .sub => "SubOp" | .mul => "MultOp" | .div => "FloatDivOp"
  | .floorDiv => "FloorDivOp" | .mod => "ModOp" | .pow => "ExpoOp"
  | .lt => "RLtOp" | .gt => "RGtOp" | .le => "RLtEqOp" | .ge => "RGtEqOp"
  | .eq => "REqOp" | .ne => "RNotEqOp"
  | .and => "LAndOp" | .or => "LOrOp" | .concat => "Concat"
  | .bitAnd => "BAndOp" | .bitOr => "BOrOp" | .bitXor => "BXorOp"
  | .shiftRight => "BShiftROp" | .shiftLeft => "BShiftLOp"

def BinOp.className : BinOp → String
  | .lt => "LessThanOp" | .gt => "GreaterThanOp" | .le => "LessOrEqThanOp"
  | .ge => "GreaterOrEqThanOp" | .eq => "EqToOp" | .ne => "NotEqToOp"
  | .and => "AndLoOp" | .or => "OrLoOp"
  | op => op.display

def UnOp.display : UnOp → String
  | .neg => "UMinusOp" | .bitNot => "UBNotOp" | .not => "ULNotOp" | .length => "ULengthOp"

def UnOp.className : UnOp → String
  | .length => "ULengthOP"
  | op => op.display

def Expr.display : Expr → String
  | .nil => "Nil" | .true => "True" | .false => "False"
  | .number _ => "Number" | .string _ => "String" | .varargs => "Varargs"
  | .name _ => "Name" | .index .. => "Index" | .call .. => "Call" | .invoke .. => "Invoke"
  | .function f => f.kind | .table _ => "Table"
  | .unary op _ => op.display | .binary op .. => op.display

def Expr.className : Expr → String
  | .true => "TrueExpr" | .false => "FalseExpr"
  | .unary op _ => op.className | .binary op .. => op.className
  | e => e.display

def Stmt.className : Stmt → String
  | .assign .. => "Assign" | .local .. => "LocalAssign" | .expr e => e.className
  | .function f => f.kind | .while .. => "While" | .repeat .. => "Repeat" | .goto _ => "Goto"
  | .label _ => "Label" | .do _ => "Do" | .break => "Break" | .semicolon => "SemiColon"
  | .if .. => "If" | .fornum .. => "Fornum" | .forin .. => "Forin" | .return _ => "Return"

end WikiFeed.Lua

import WikiFeed.Places
import WikiFeed.Record.Native

/-! # Evaluation of record scripts

`visitStep` says what each piece of syntax does, given what its parts do; `visit` ties the knot to
a given depth. When recipes are collected, a call of `Recipe2` adds a recipe and every other call is
left alone. -/

namespace WikiFeed.Record

open WikiFeed.Lua

/-- A piece of syntax that can be evaluated. -/
inductive Node where
  | chunk (b : Block)
  | block (b : Block)
  | stmt (s : Stmt)
  | expr (e : Expr)
  | orelse (o : Orelse)

/-- What evaluation does with each piece of syntax. -/
abbrev Visitor := Node → Eval Value

/-- Fails with a text and what is put into it. -/
def unexpected {α : Type} (text : String) (shown : String) : Eval α :=
  fail (.other (tupleText [Text.quote text, shown]))

/-- The class of a piece of syntax as it is shown. -/
def classText (name : String) : String := "<class 'luaparser.astnodes." ++ name ++ "'>"

/-- The name that an expression is. -/
def nameOf : Expr → Eval String
  | .name n => return n
  | _ => fail .member

/-! ### Assignment -/

/-- Values of which the last one may stand for several. -/
def spreadLast (vs : List Value) : List Value :=
  match vs.getLast? with
  | some (.tuple xs) => vs.dropLast ++ xs
  | _ => vs

/-- The values of the right side of an assignment. -/
def rightSide (rec : Visitor) (values : List Expr) : Eval (List Value) := do
  return spreadLast (← values.mapM fun e => rec (.expr e))

/-- Local variables; those without a value are nil. -/
def visitLocal (rec : Visitor) (names : List String) (values : List Expr) : Eval Value := do
  let vs ← rightSide rec values
  names.zipIdx.forM fun (n, i) => defineHere n (vs.getD i .nil)
  return .nil

/-- Gives a value to a name or to a member. -/
def assignTo (rec : Visitor) (v : Value) : Expr → Eval Unit
  | .name n => modify fun m => { m with scopes := assign m.scopes m.here n v }
  | .index idx value true => do
    let o ← rec (.expr value)
    setMember o (.str (← nameOf idx)) v
  | .index idx value false => do
    let o ← rec (.expr value)
    let k ← rec (.expr idx)
    setMember o k v
  | e => unexpected "Unexpected target type: \x7b\x7d" (classText e.className)

/-- An assignment, whose right side is evaluated first. -/
def visitAssign (rec : Visitor) (targets values : List Expr) : Eval Value := do
  let vs ← rightSide rec values
  targets.zipIdx.forM fun (t, i) => assignTo rec (vs.getD i .nil) t
  return .nil

/-- An assignment among recipes. The definitions of prototypers are passed over, and the plans for
buildings end the search. -/
def visitRecipeAssign (rec : Visitor) (targets values : List Expr) : Eval Value := do
  match targets with
  | .name "PROTOTYPER_DEFS" :: _ => return .nil
  | .name "CONSTRUCTION_PLANS" :: _ => fail .complete
  | .index _ value _ :: _ =>
    if (← nameOf value) == "PROTOTYPER_DEFS" then return .nil else visitAssign rec targets values
  | _ => visitAssign rec targets values

/-! ### Functions and calls -/

/-- A function with the scope at hand as its own. -/
def closed (f : Func) : Eval Value := do
  modify fun m =>
    { m with closures := (f.label, m.here) :: m.closures.filter fun p => p.1 != f.label }
  return .func f

/-- The definition of a function. Among recipes a local one is put off. -/
def visitFunction (f : Func) : Eval Value := do
  match f.head with
  | .anonymous => closed f
  | .local n =>
    if (← get).purpose == .recipes then
      defineHere n (.lazy (.stmt (.function f)))
    else defineHere n (← closed f)
    return .nil
  | .global target =>
    let n ← nameOf target
    let v ← closed f
    modify fun m => { m with scopes := define m.scopes (outermost m.scopes m.here) (.str n) v }
    return .nil
  | .method _ _ => fail (.noHandler "Method")

/-- Evaluates the arguments of a call one by one, as local variables of the call. -/
def bindParams (rec : Visitor) : List Param → List Expr → Eval Unit
  | _, [] => return
  | [], _ :: _ => fail .position
  | .varargs :: _, _ :: _ => fail .member
  | .name n :: ps, e :: es => do
    defineHere n (← rec (.expr e))
    bindParams rec ps es

/-- The value of the last return, which is used up. -/
def takeResult : Eval Value := modifyGet fun m => (m.result, { m with result := .nil })

/-- A call inside its scope: its parameters, then its body. -/
def callBody (rec : Visitor) (f : Func) (args : List Expr) : Eval Unit := do
  bindParams rec f.params args
  let _ ← rec (.block f.body)

/-- A call of a function, inside the scope of its definition. -/
def callFunction (rec : Visitor) (f : Func) (args : List Expr) : Eval Value := do
  match (← get).closures.lookup f.label with
  | none => fail .member
  | some scope =>
    inCall scope (callBody rec f args)
    takeResult

/-- A call. Of functions only those with a name can be called. -/
def visitCall (rec : Visitor) (callee : Expr) (args : List Expr) : Eval Value := do
  match ← rec (.expr callee) with
  | .func f =>
    match f.head with
    | .local _ | .global _ => callFunction rec f args
    | _ =>
      let _ ← args.mapM fun e => rec (.expr e)
      fail .kind
  | v => callValue v (← args.mapM fun e => rec (.expr e))

/-- The call of a member with the value that has it as the first argument. -/
def visitInvoke (rec : Visitor) (source : Expr) (name : String) (args : List Expr) :
    Eval Value := do
  let self ← rec (.expr source)
  let f ← ownMember self name
  let vs ← args.mapM fun e => rec (.expr e)
  callValue f (self :: vs)

/-! ### Recipes -/

/-- The arguments of a call, or the parameters of a function. -/
def argumentsOf : Expr → Eval (List Expr)
  | .call _ args | .invoke _ _ args => return args
  | .function f => return f.params.map fun p => match p with
    | .name n => .name n
    | .varargs => .varargs
  | _ => fail .member

/-- The argument at a place. -/
def argumentAt (args : List Expr) (i : Nat) : Eval Expr :=
  match args[i]? with
  | some e => return e
  | none => fail .position

/-- The fields of a table as they are written. -/
def fieldsOf : Expr → Eval (List Field)
  | .table fields => return fields
  | _ => fail .member

/-- An ingredient: the first two arguments of its constructor. -/
def ingredientOf (rec : Visitor) (f : Field) : Eval Ingredient := do
  let args ← argumentsOf f.value
  let name ← rec (.expr (← argumentAt args 0))
  let amount ← rec (.expr (← argumentAt args 1))
  return ⟨name, amount⟩

/-- The technology that a recipe asks for, as it is written. -/
def techOf : Expr → Eval String
  | .index idx value _ => do return (← nameOf value) ++ "." ++ (← nameOf idx)
  | _ => fail .member

/-- A setting as it is kept: of functions and calls only whether the number of products is
computed, of tables only that there is one. -/
def settingOf (name : String) : Value → Value
  | .lazy _ => .bool (name == "override_numtogive_fn")
  | .object .table _ => .str "unjsonable luatable"
  | .func f =>
    match f.head with
    | .anonymous => .bool (name == "override_numtogive_fn")
    | _ => .func f
  | v => v

/-- The settings of a recipe; a later one replaces an earlier one. -/
def settingsOf (rec : Visitor) : List (String × Value) → List Field → Eval (List (String × Value))
  | settings, [] => return settings
  | settings, f :: fs => do
    let name ← nameOf f.key
    let v ← rec (.expr f.value)
    settingsOf rec (Places.put settings name (settingOf name v)) fs

/-- Recipes with one more, which replaces that of the same name. -/
def addRecipe (recipes : List (Value × Recipe)) (r : Recipe) : List (Value × Recipe) :=
  if recipes.any fun p => p.1.sameKey r.name then
    recipes.map fun p => if p.1.sameKey r.name then (p.1, r) else p
  else recipes ++ [(r.name, r)]

/-- The recipe that the arguments of a call describe. -/
def recipeOf (rec : Visitor) (args : List Expr) : Eval Recipe := do
  let name ← rec (.expr (← argumentAt args 0))
  let ingredients ← (← fieldsOf (← argumentAt args 1)).mapM (ingredientOf rec)
  let tech ← techOf (← argumentAt args 2)
  match args[3]? with
  | none => return ⟨name, ingredients, tech, none⟩
  | some e => return ⟨name, ingredients, tech, some (← settingsOf rec [] (← fieldsOf e))⟩

/-- A call among recipes: one of `Recipe2` adds a recipe, and the others are put off. -/
def visitRecipeCall (rec : Visitor) (callee : Expr) (args : List Expr) : Eval Value := do
  match callee with
  | .name "Recipe2" =>
    let r ← recipeOf rec args
    if !r.name.isKey then fail .kind
    modify fun m => { m with recipes := addRecipe m.recipes r }
    return .nil
  | e => return .lazy (.expr (.call e args))

/-! ### Expressions -/

/-- The member of a value, by a name behind a dot or by a key in brackets. -/
def visitIndex (rec : Visitor) (idx value : Expr) (dot : Bool) : Eval Value := do
  let v ← rec (.expr value)
  if dot then member v (.str (← nameOf idx)) else member v (← rec (.expr idx))

/-- The member of a value among recipes, where only tables have keys. -/
def visitRecipeIndex (rec : Visitor) (idx value : Expr) (dot : Bool) : Eval Value := do
  let v ← rec (.expr value)
  match v with
  | .object .table _ => visitIndex rec idx value dot
  | v => ownMember v (← nameOf idx)

/-- The key of a field: a number or a name. -/
def fieldKey (rec : Visitor) : Expr → Eval Value
  | .number n => rec (.expr (.number n))
  | .name n => return .str n
  | e => unexpected "Unexpected field key type \x7b\x7d" (classText e.className)

/-- Puts the fields of a table into it, in order. -/
def visitFields (rec : Visitor) (r : Ref) : List Field → Eval Unit
  | [] => return
  | f :: fs => do
    let k ← fieldKey rec f.key
    let v ← rec (.expr f.value)
    modifyTable r (·.put k v)
    visitFields rec r fs

/-- A new table with its fields. -/
def visitTable (rec : Visitor) (fields : List Field) : Eval Value := do
  let t ← alloc (.table .empty)
  match t with
  | .object _ r => visitFields rec r fields
  | _ => pure ()
  return t

/-- An operator with two operands. The left operand of a disjunction is evaluated a second time
for its value. -/
def visitBinary (rec : Visitor) (op : BinOp) (left right : Expr) : Eval Value := do
  match op with
  | .and => if holds (← rec (.expr left)) then rec (.expr right) else return .bool false
  | .or => if holds (← rec (.expr left)) then rec (.expr left) else rec (.expr right)
  | .bitAnd | .bitOr | .bitXor | .shiftRight | .shiftLeft => fail (.noHandler op.display)
  | op =>
    let v ← rec (.expr left)
    let w ← rec (.expr right)
    lift (binaryValue (← get).store op v w)

/-- An operator with one operand. -/
def visitUnary (rec : Visitor) (op : UnOp) (e : Expr) : Eval Value := do
  match op with
  | .neg => lift (negative (← rec (.expr e)))
  | .not => return .bool (!holds (← rec (.expr e)))
  | op => fail (.noHandler op.display)

/-- An expression. -/
def visitExpr (rec : Visitor) (e : Expr) : Eval Value := do
  match e with
  | .nil => return .nil
  | .true => return .bool true
  | .false => return .bool false
  | .number (.int n) => return .int n
  | .number (.float x) => return .float x
  | .string s => return .str s
  | .name n => valueOf n
  | .index idx value dot =>
    if (← get).purpose == .recipes then visitRecipeIndex rec idx value dot
    else visitIndex rec idx value dot
  | .call f args =>
    if (← get).purpose == .recipes then visitRecipeCall rec f args else visitCall rec f args
  | .invoke source m args => visitInvoke rec source m args
  | .function f => visitFunction f
  | .table fields => visitTable rec fields
  | .unary op e => visitUnary rec op e
  | .binary op l r => visitBinary rec op l r
  | .varargs => fail (.noHandler "Varargs")

/-! ### Statements -/

/-- Gives the items of a round to the variables of a loop, which may be more. -/
def bindTargets : List String → List Value → Eval Unit
  | _, [] => return
  | [], _ :: _ => fail .position
  | n :: ns, v :: vs => do
    defineHere n v
    bindTargets ns vs

/-- A loop over items, all rounds of which share a scope. -/
def visitForin (rec : Visitor) (targets : List String) (iter : List Expr) (body : Block) :
    Eval Value := do
  match iter with
  | [e] =>
    let v ← rec (.expr e)
    inBlock do
      forEach v fun item => do
        bindTargets targets (← items item)
        let _ ← rec (.block body)
    return .nil
  | es => unexpected "Unexpected iter length: \x7b\x7d" (Decimal.intText es.length)

/-- How many rounds more than its bounds ask for a loop may take. -/
def maxRounds : Nat := 1000000

/-- The rounds of a counting loop, each with a scope of its own for the body. -/
def countRounds (rec : Visitor) (var : String) (op : BinOp) (stop step : Value) (body : Block) :
    Nat → Eval Unit
  | 0 => fail .tooDeep
  | n + 1 => do
    let value : Eval Value := do
      let m ← get
      return (varsOf m.scopes m.here).get (.str var)
    if ← lift ((← value).order op stop) then
      inBlock do
        let _ ← rec (.block body)
      defineHere var (← lift (arithmetic (← get).store .add (← value) step))
      countRounds rec var op stop step body n

/-- A counting loop, whose variable lives in the scope around it. -/
def visitFornum (rec : Visitor) (target : String) (start stop : Expr) (step : Option Expr)
    (body : Block) : Eval Value := do
  let first ← rec (.expr start)
  defineHere target first
  let last ← rec (.expr stop)
  let by_ ← match step with
    | some e => rec (.expr e)
    | none => pure (.int 1)
  let up ← lift (by_.order .ge (.int 0))
  let rounds := maxRounds + first.distance last
  countRounds rec target (if up then .le else .ge) last by_ body rounds
  return .nil

/-- A branch; without one that applies nothing is done. -/
def visitIf (rec : Visitor) (test : Expr) (body : Block) (orelse : Orelse) : Eval Value := do
  if holds (← rec (.expr test)) then
    let _ ← rec (.block body)
  else
    match orelse with
    | .none => pure ()
    | o =>
      let _ ← rec (.orelse o)
  return .nil

/-- The value of a return: of several expressions, all their values. -/
def returnValue (rec : Visitor) (values : List Expr) : Eval Value := do
  match values with
  | [] => return .nil
  | [e] => rec (.expr e)
  | es => return .tuple (← es.mapM fun e => rec (.expr e))

/-- A return, which ends the block that it is in. -/
def visitReturn (rec : Visitor) (values : List Expr) : Eval Value := do
  let v ← returnValue rec values
  modify fun m => { m with result := v }
  throw .ret

/-- A statement. -/
def visitStmt (rec : Visitor) (s : Stmt) : Eval Value := do
  match s with
  | .assign targets values =>
    if (← get).purpose == .recipes then visitRecipeAssign rec targets values
    else visitAssign rec targets values
  | .local names values => visitLocal rec names values
  | .expr e => visitExpr rec e
  | .function f => visitFunction f
  | .semicolon => return .nil
  | .if test body orelse => visitIf rec test body orelse
  | .fornum target start stop step body => visitFornum rec target start stop step body
  | .forin targets iter body => visitForin rec targets iter body
  | .return values => visitReturn rec values
  | s => fail (.noHandler s.className)

/-- Statements in order. -/
def visitStmts (rec : Visitor) : List Stmt → Eval Unit
  | [] => return
  | s :: ss => do
    let _ ← rec (.stmt s)
    visitStmts rec ss

/-- A block in a scope of its own. -/
def visitBlock (rec : Visitor) (b : Block) : Eval Value := do
  inBlock (visitStmts rec b)
  return .nil

/-- A piece of syntax, given what its parts do. -/
def visitStep (rec : Visitor) : Node → Eval Value
  | .chunk b => rec (.block b)
  | .block b => visitBlock rec b
  | .stmt s => visitStmt rec s
  | .expr e => visitExpr rec e
  | .orelse (.elseif test body orelse) => visitIf rec test body orelse
  | .orelse (.block b) => visitBlock rec b
  | .orelse .none => return .nil

/-- Evaluation of syntax that is nested up to a depth. -/
def visitUpTo : Nat → Node → Eval Value
  | 0, _ => fail .tooDeep
  | n + 1, node => visitStep (visitUpTo n) node

def maxDepth : Nat := 1000

def visit (node : Node) : Eval Value := visitUpTo maxDepth node

/-- Evaluation of a value that may stand for syntax. -/
def visitValue (v : Value) : Eval Value := do
  match v with
  | .bool _ | .int _ => return v
  | .func f => visitFunction f
  | .tree (.expr e) => visit (.expr e)
  | .tree (.stmt s) => visit (.stmt s)
  | _ => fail .kind

/-- The syntax of a script, with labels for its functions that are new. -/
def load (source : String) : Eval Block := do
  match readChunk (← get).labels source with
  | .error e => fail (.unreadable e)
  | .ok (b, labels) =>
    modify fun m => { m with labels := labels }
    return b

/-- Runs a script from its text. -/
def runSource (source : String) : Eval Unit := do
  let _ ← visit (.chunk (← load source))

/-- The scope that has a name. -/
def scopeOf (name : String) : Eval ScopeId := do
  let m ← get
  lift (binder m.scopes m.here name)

end WikiFeed.Record

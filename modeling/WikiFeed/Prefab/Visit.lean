import WikiFeed.Prefab.Library

/-! # Evaluation of prefab scripts

`carryOut` says what each piece of syntax does, given what its parts do; `visit` ties the knot to a
given depth. An evaluator for tuning tables passes over all that is not an assignment to the
tuning table. -/

namespace WikiFeed.Prefab

open WikiFeed.Lua

inductive Node where
  | chunk (b : Block)
  | block (b : Block)
  | stmt (s : Stmt)
  | expr (e : Expr)
  | orelse (o : Orelse)
  | value (v : Value)

abbrev Visitor := Node → Eval Value

/-! ### Calls -/

/-- The parameters of a function, those for receivers first. -/
def allParams (c : Closure) (f : Func) : List Param :=
  List.replicate c.receivers (.name "self") ++ f.params

def bindParams : List Param → List Value → Eval Unit
  | [], _ => return
  | .name n :: ps, [] => do
    defineHere (.str n) .nil
    bindParams ps []
  | .varargs :: _, [] => fail .member
  | .name n :: ps, a :: as => do
    defineHere (.str n) a
    bindParams ps as
  | .varargs :: _, as => defineHere (.str "...") (.rest as)

/-- A call up to its return, which gives its value. -/
def returned (body : Eval Value) : Eval Value :=
  tryCatch (do let _ ← body; return .nil) fun
    | .ret v => return v
    | s => throw s

def Evaluator.push (e : Evaluator) : Evaluator := { e with stack := e.scope :: e.stack }

def Evaluator.pop (e : Evaluator) : Evaluator :=
  { e with scope := e.stack.headD e.scope, stack := e.stack.tail }

def callBody (rec : Visitor) (c : Closure) (f : Func) (args : List Value) : Eval Value := do
  bindParams (allParams c f) args
  returned (rec (.block f.body))

/-- Runs the body of a function in a new scope inside the one in which it was defined. The scope of
the caller is not restored when the body fails. -/
def execute (rec : Visitor) (f : Value) (args : List Value) : Eval Value := do
  match f with
  | .nil => return .nil
  | .func f =>
    modifyCurrent Evaluator.push
    let c ← closureOf f.label
    match c.scope with
    | none => fail .member
    | some scope =>
      modifyCurrent fun e => { e with scope := scope }
      let v ← inChild scope (some (← get).active) (callBody rec c f args)
      modifyCurrent Evaluator.pop
      return v
  | _ =>
    modifyCurrent Evaluator.push
    fail .member

def host (rec : Visitor) : Host :=
  ⟨fun v => rec (.value v), fun b => rec (.chunk b), execute rec⟩

/-- The values of arguments. The first one that is a spread takes the place of all of them, which
the flag reports. -/
def argumentValues (rec : Visitor) : List Value → List Expr → Eval (List Value × Bool)
  | done, [] => return (done.reverse, false)
  | done, e :: es => do
    match ← rec (.expr e) with
    | .spread xs => return (← xs.mapM fun x => rec (.value x), true)
    | v => argumentValues rec (v :: done) es

def callWith (rec : Visitor) (f : Value) (args : List Value) (spread : Bool) : Eval Value := do
  if isCallable f then
    match f with
    | .native n => if needsEvaluator.contains n && spread then fail .member
    | _ => pure ()
    applyValue (host rec) f true args
  else execute rec f args

def visitCall (rec : Visitor) (callee : Expr) (args : List Expr) : Eval Value := do
  let f ← rec (.expr callee)
  if ignoresArguments f then callWith rec f [] false
  else
    let (xs, spread) ← argumentValues rec [] args
    callWith rec f xs spread

def methodsOf (source : Value) : Eval Value := do
  match source with
  | .object .table _ | .object .dummy _ | .object .entity _ | .object .vector _ => return source
  | _ =>
    match lookup? (← get).scopes (← here) (.str "string") with
    | none => fail (.unbound (.str "string"))
    | some s => if source.isText then return s else fail .key

def visitInvoke (rec : Visitor) (source : Expr) (name : String) (args : List Expr) :
    Eval Value := do
  let self ← rec (.expr source)
  let f ← member (← methodsOf self) (.str name)
  let xs ← if ignoresArguments f then pure []
    else do pure (self :: (← args.mapM fun e => rec (.expr e)))
  if isCallable f then applyValue (host rec) f false xs else execute rec f xs

/-! ### Assignment -/

/-- The keys that lead to a target, the last one first, and its root. -/
def pathOf (rec : Visitor) : Expr → Eval (List Value)
  | .name n => return [.str n]
  | .call f args => do return [← rec (.expr (.call f args))]
  | .index idx value dot => do
    let k ← match idx, dot with
      | .name n, true => pure (.str n)
      | e, _ => rec (.expr e)
    return k :: (← pathOf rec value)
  | e => fail (.other ("value of Index node neither Name nor Index: <class 'luaparser.astnodes." ++
      e.className ++ "'>"))

def setAlong (v : Value) : List Value → Value → Eval Unit
  | [], _ => return
  | [k], x => setMember v k x
  | k :: ks, x => do setAlong (← member v k) ks x

/-- The object at the root of a path: a value, or what a name stands for. A new name gets a new
table in the outermost scope; an ignored name gives nothing. -/
def rootOf (root : Value) : Eval (Option Value) := do
  match root with
  | .str n =>
    if (← current).dialect.ignoredNames.contains n then return none
    match lookup? (← get).scopes (← here) root with
    | some v => return some v
    | none =>
      let t ← alloc (.table .empty)
      let i ← here
      modifyScopes fun ss => define ss (outermost ss i) root t
      return some t
  | v => return some v

def assignTo (rec : Visitor) (target : Expr) (v : Value) : Eval Unit := do
  match target with
  | .name n =>
    let i ← here
    modifyScopes fun ss => assign ss i (.str n) v
  | .index idx value dot =>
    match (← pathOf rec (.index idx value dot)).reverse with
    | root :: keys =>
      match ← rootOf root with
      | some o => setAlong o keys v
      | none => return
    | [] => return
  | e => fail (.other ("unknown assign left value type: <class 'luaparser.astnodes." ++
      e.className ++ "'>"))

/-- Assigns the value of an expression to a target. An ignored name is only bound to nil if it is
not bound yet. -/
def assignOne (rec : Visitor) (target value : Expr) : Eval Unit := do
  let plain : Eval Unit := do assignTo rec target (← rec (.expr value))
  match target with
  | .name n =>
    if (← current).dialect.ignoredNames.contains n then
      if (lookup? (← get).scopes (← here) (.str n)).isNone then assignTo rec target .nil
    else plain
  | _ => plain

def assignAll (rec : Visitor) : List Expr → List Expr → Eval Unit
  | [], _ => return
  | _ :: _, [] => fail .position
  | t :: ts, v :: vs => do
    assignOne rec t v
    assignAll rec ts vs

def targetName : Expr → Eval String
  | .name n => return n
  | _ => fail .member

/-- An assignment. An evaluator for tuning tables goes back to passing over things behind an
assignment to the tuning table. -/
def visitAssign (rec : Visitor) (targets values : List Expr) : Eval Value := do
  assignAll rec targets values
  if (← current).dialect == .tuning then
    match targets with
    | t :: _ => if (← targetName t) == "TUNING" then
      modifyCurrent fun e => { e with passing := true }
    | [] => pure ()
  return .nil

def bindLocals (value : Nat → Eval Value) : Nat → List String → Eval Unit
  | _, [] => return
  | i, n :: ns => do
    if (← current).dialect.ignoredNames.contains n then
      if !bound (← get).scopes (.str n) (← here) then defineHere (.str n) .nil
    else defineHere (.str n) (← value i)
    bindLocals value (i + 1) ns

def itemOf (rec : Visitor) (v : Value) (i : Nat) : Eval Value := do
  if !isSomething (← get).store v then return .nil
  match ← lengthOf v with
  | .int n => if i < n then rec (.value (← member v (.int i))) else return .nil
  | _ => return .nil

/-- A declaration of local names. With fewer values than names, the first value is to hold all of
them. -/
def visitLocal (rec : Visitor) (names : List String) (values : List Expr) : Eval Value := do
  if !values.isEmpty && values.length < names.length then
    let v ← rec (.expr (values.headD .nil))
    let v := match v with
      | .spread xs => .tuple xs
      | v => v
    bindLocals (itemOf rec v) 0 names
  else
    bindLocals (fun i => match values[i]? with
      | some e => rec (.expr e)
      | none => return .nil) 0 names
  return .nil

/-! ### Functions and tables -/

def defineMethod (f : Func) (source : Expr) (name : String) : Eval Unit := do
  let cls ← targetName source
  match lookup? (← get).scopes (← here) (.str cls) with
  | none => fail (.unbound (.str cls))
  | some v =>
    match v with
    | .object _ r =>
      if !v.isTable then fail .member
      modifyTable r (·.put (.str name) (.func f))
      modifyClosure f.label fun c => { c with receivers := c.receivers + 1 }
    | _ => fail .member

def visitFunction (rec : Visitor) (f : Func) : Eval Value := do
  let scope ← here
  modifyClosure f.label fun c => { c with scope := some scope }
  match f.head with
  | .anonymous => pure ()
  | .local n => defineHere (.str n) (.func f)
  | .global target => assignTo rec target (.func f)
  | .method source n => defineMethod f source n
  return .func f

def insertAll (r : Ref) : List Value → Eval Unit
  | [] => return
  | v :: vs => do
    if !v.isNil then modifyTable r fun t => t.put (.int (t.border + 1)) v
    insertAll r vs

def visitField (rec : Visitor) (r : Ref) (f : Field) : Eval Unit := do
  match f with
  | .mk _ .varargs _ =>
    match lookup? (← get).scopes (← here) (.str "...") with
    | none => fail (.unbound (.str "..."))
    | some v => insertAll r (← items v)
  | .mk (.name n) value false => setEntry r (.str n) (← rec (.expr value))
  | .mk (.name n) value true =>
    let v ← rec (.expr value)
    setEntry r (← rec (.expr (.name n))) v
  | .mk key value _ =>
    let k ← rec (.expr key)
    let v ← rec (.expr value)
    if !v.isNil then setEntry r k v

def visitFields (rec : Visitor) (r : Ref) : List Field → Eval Unit
  | [] => return
  | f :: fs => do
    visitField rec r f
    visitFields rec r fs

def visitTable (rec : Visitor) (fields : List Field) : Eval Value := do
  let t ← alloc (.table .empty)
  match t with
  | .object _ r => visitFields rec r fields
  | _ => pure ()
  return t

/-! ### Operators -/

/-- Goes on with infinity after a division by zero. -/
def pastZero : Signal → Eval Value
  | .fault .zeroDivision => return .float Decimal.infinity
  | s => throw s

/-- An operation on two values. Division by zero, also inside the operands, gives infinity. -/
def visitArithmetic (rec : Visitor) (op : BinOp) (left right : Expr) : Eval Value :=
  tryCatch (do
    let v ← rec (.expr left)
    let w ← rec (.expr right)
    lift (arithmetic (← get).store op v w)) pastZero

def visitBinary (rec : Visitor) (op : BinOp) (left right : Expr) : Eval Value := do
  match op with
  | .add | .sub | .mul | .div | .floorDiv | .mod | .pow => visitArithmetic rec op left right
  | .lt | .gt | .le | .ge | .eq | .ne =>
    let v ← rec (.expr left)
    let w ← rec (.expr right)
    return .bool (← lift (compareWith op v w))
  | .concat =>
    let v ← rec (.expr left)
    let w ← rec (.expr right)
    let text ← displayed w
    lift (arithmetic (← get).store .add v (.str text))
  | .and => if holds (← rec (.expr left)) then rec (.expr right) else return .bool false
  | .or =>
    let v ← rec (.expr left)
    if holds v then return v else rec (.expr right)
  | op => fail (.noRule op.className)

def visitExpr (rec : Visitor) : Expr → Eval Value
  | .nil => return .nil
  | .true => return .bool true
  | .false => return .bool false
  | .number (.int n) => return .int n
  | .number (.float x) => return .float x
  | .string s => return .str s
  | .name n => do return (lookup? (← get).scopes (← here) (.str n)).getD .nil
  | .index idx value dot => do
    let k ← match idx, dot with
      | .name n, true => pure (.str n)
      | e, _ => rec (.expr e)
    let v ← rec (.expr value)
    if v.isNil then return .nil else member v k
  | .call f args => visitCall rec f args
  | .invoke source m args => visitInvoke rec source m args
  | .function f => visitFunction rec f
  | .table fields => visitTable rec fields
  | .unary op e => do unaryValue op (← rec (.expr e))
  | .binary op l r => visitBinary rec op l r
  | .varargs => fail (.noRule "Varargs")

/-! ### Statements -/

/-- A round of a loop: whether it ended without a break. -/
def unbroken (body : Eval Value) : Eval Bool :=
  tryCatch (do let _ ← body; return true) fun
    | .brk => return false
    | s => throw s

def maxRounds : Nat := 1000000

def visitPairs (rec : Visitor) (key : String) (value : Option String) (v : Value)
    (body : Block) : Eval Unit :=
  forPairs v fun a b => inBlock do
    defineHere (.str key) a
    match value with
    | some n => defineHere (.str n) b
    | none => pure ()
    unbroken (rec (.block body))

def visitSequence (rec : Visitor) (key : String) (value : Option String) (v : Value)
    (body : Block) : Nat → Int → Eval Unit
  | 0, _ => fail .tooDeep
  | n + 1, k => do
    if ← containsValue v (.int k) then
      let x ← member v (.int k)
      defineHere (.str key) (.int k)
      defineHere ((value.map Value.str).getD .nil) x
      if ← unbroken (rec (.block body)) then visitSequence rec key value v body n (k + 1)

def loopNames : List String → Option (String × Option String)
  | [k, v] => some (k, some v)
  | k :: _ => some (k, none)
  | [] => none

def visitForin (rec : Visitor) (targets : List String) (iter : List Expr) (body : Block) :
    Eval Value := do
  match iter with
  | .call callee args :: _ =>
    let name ← targetName callee
    match args with
    | [] => fail .position
    | a :: _ =>
      let v ← rec (.expr a)
      match loopNames targets with
      | none => return .nil
      | some (key, value) =>
        match name with
        | "pairs" => visitPairs rec key value v body
        | "ipairs" => visitSequence rec key value v body maxRounds 1
        | _ => pure ()
        return .nil
  | _ => fail (.check "iterator not a function")

/-- The rounds of a counting loop, whose variable lives in a scope of the loop's surroundings. -/
def countRounds (rec : Visitor) (scope : ScopeId) (var : Value) (stop step : Value)
    (body : Block) : Nat → Eval Unit
  | 0 => fail .tooDeep
  | n + 1 => do
    let value : Eval Value := do return ((← get).scopes.getD scope default).vars.get var
    if ← lift (compareWith .ge stop (← value)) then
      inBlock do
        let _ ← rec (.block body)
      let next ← lift (arithmetic (← get).store .add (← value) step)
      modifyScopes fun ss => define ss scope var next
      countRounds rec scope var stop step body n

def visitFornum (rec : Visitor) (target : String) (start stop : Expr) (step : Option Expr)
    (body : Block) : Eval Value := do
  let scope ← here
  let first ← rec (.expr start)
  modifyScopes fun ss => define ss scope (.str target) first
  let last ← rec (.expr stop)
  let by_ ← match step with
    | some e => rec (.expr e)
    | none => rec (.value (.int 1))
  countRounds rec scope (.str target) last by_ body (maxRounds + first.distance last)
  return .nil

def packed : List Value → Value
  | [] => .nil
  | [v] => v
  | vs => .tuple vs

def visitIf (rec : Visitor) (test : Expr) (body : Block) (orelse : Orelse) : Eval Value := do
  if holds (← rec (.expr test)) then
    let _ ← rec (.block body)
  else
    match orelse with
    | .none => pure ()
    | .block b =>
      let _ ← rec (.block b)
    | o =>
      let _ ← rec (.orelse o)
  return .nil

def visitStmt (rec : Visitor) : Stmt → Eval Value
  | .assign targets values => visitAssign rec targets values
  | .local names values => visitLocal rec names values
  | .expr e => visitExpr rec e
  | .function f => visitFunction rec f
  | .break => throw .brk
  | .semicolon => return .nil
  | .if test body orelse => visitIf rec test body orelse
  | .fornum target start stop step body => visitFornum rec target start stop step body
  | .forin targets iter body => visitForin rec targets iter body
  | .return values => do throw (.ret (packed (← values.mapM fun e => rec (.expr e))))
  | s => fail (.noRule s.className)

def visitStmts (rec : Visitor) : List Stmt → Eval Unit
  | [] => return
  | s :: ss => do
    let _ ← rec (.stmt s)
    visitStmts rec ss

def visitBlock (rec : Visitor) (b : Block) : Eval Value := do
  inBlock do
    modifyCurrent fun e => { e with firstBlock := e.firstBlock.or (some e.scope) }
    visitStmts rec b
  return .nil

/-! ### Values -/

def nativeClass? (name : String) : Option String :=
  if ["string.upper", "string.lower", "string.format"].contains name then some "method_descriptor"
  else if ["Vector3", "Asset", "tostring"].contains name then some "type"
  else if isPrimitive name then some "builtin_function_or_method"
  else none

def visitValue (rec : Visitor) (v : Value) : Eval Value := do
  match v with
  | .func f => visitFunction rec f
  | .tree (.expr e) => rec (.expr e)
  | .tree (.stmt s) => rec (.stmt s)
  | .tuple _ => fail (.noRule "tuple")
  | .spread _ => fail (.noRule "LuaUnpack")
  | .complex _ _ => fail (.noRule "complex")
  | .object .dict _ => fail (.noRule "dict")
  | .object .asset _ => fail (.noRule "Asset")
  | .object .phrase _ => fail (.noRule "DummyString")
  | .native n =>
    match nativeClass? n with
    | some c => fail (.noRule c)
    | none => return v
  | v => return v

/-- A piece of syntax, given what its parts do. -/
def carryOut (rec : Visitor) : Node → Eval Value
  | .chunk b => returned (rec (.block b))
  | .block b => visitBlock rec b
  | .stmt s => visitStmt rec s
  | .expr e => visitExpr rec e
  | .orelse (.elseif test body orelse) => visitIf rec test body orelse
  | .orelse (.block b) => visitBlock rec b
  | .orelse .none => return .nil
  | .value v => visitValue rec v

def visitStep (rec : Visitor) (node : Node) : Eval Value := do
  if !(← current).passing then carryOut rec node
  else
    match node with
    | .chunk b => carryOut rec (.chunk b)
    | .block b => carryOut rec (.block b)
    | .stmt (.assign (t :: ts) vs) =>
      if (← targetName t) == "TUNING" then
        modifyCurrent fun e => { e with passing := false }
        carryOut rec (.stmt (.assign (t :: ts) vs))
      else return .nil
    | _ => return .nil

/-- Evaluation of syntax that is nested up to a depth. -/
def visitUpTo : Nat → Node → Eval Value
  | 0, _ => fail .tooDeep
  | n + 1, node => visitStep (visitUpTo n) node

def maxDepth : Nat := 1000

def visit (node : Node) : Eval Value := visitUpTo maxDepth node

def runSource (source : String) : Eval Value := do visit (.chunk (← load source))

def qualifiedName (e : Expr) : Eval (Option String) := do
  match e with
  | .name n => return some n
  | .index idx value dot =>
    let path ← pathOf visit (.index idx value dot)
    return some (".".intercalate (← path.reverse.mapM displayed))
  | _ => return none

def Machine.fresh (scripts : Option Archive) : Machine :=
  match loadLibrary { (default : Machine) with scripts := scripts } with
  | .ok _ m => m
  | .error _ m => m

def start (d : Dialect) (withLibrary : Bool) : Eval Unit := do
  newEvaluator d
  if withLibrary then bindAll (← get).library

end WikiFeed.Prefab

import WikiFeed.Lua.Token

/-! # Reading Lua

The grammar is read from left to right with one token of foresight. Binary operators stand on seven
levels, all of them grouping to the left, and a comparison takes only two operands. Everything that
is nested stands behind at least one token of its own, so the number of tokens bounds the depth. -/

namespace WikiFeed.Lua

inductive ReadError where
  | unexpected
  | malformedNumber
deriving DecidableEq, Inhabited

structure Cursor where
  rest : List Lexeme
  label : Nat

abbrev Reader := StateT Cursor (Except ReadError)

namespace Reader

def fail {α : Type} : Reader α := throw .unexpected

def peek : Reader (Option Lexeme) := do return (← get).rest.head?

def advance : Reader Unit := modify fun c => { c with rest := c.rest.tail }

def remaining : Reader Nat := do return (← get).rest.length

def atSign (s : String) : Reader Bool := do
  match ← peek with
  | some ⟨.sign t, _⟩ => return s == t
  | _ => return false

def atWord (s : String) : Reader Bool := do
  match ← peek with
  | some ⟨.word t, _⟩ => return s == t
  | _ => return false

def acceptSign (s : String) : Reader Bool := do
  if ← atSign s then advance; return true else return false

def acceptWord (s : String) : Reader Bool := do
  if ← atWord s then advance; return true else return false

def expectSign (s : String) : Reader Unit := do
  if ← acceptSign s then return else fail

def expectWord (s : String) : Reader Unit := do
  if ← acceptWord s then return else fail

def name : Reader String := do
  match ← peek with
  | some ⟨.name s, _⟩ => advance; return s
  | _ => fail

def freshLabel : Reader Nat := modifyGet fun c => (c.label, { c with label := c.label + 1 })

def repeatUpTo {α : Type} (step : α → Reader (Option α)) : Nat → α → Reader α
  | 0, a => pure a
  | n + 1, a => do
    match ← step a with
    | none => pure a
    | some b => repeatUpTo step n b

def repeated {α : Type} (step : α → Reader (Option α)) (a : α) : Reader α := do
  repeatUpTo step ((← remaining) + 1) a

def commaSeparated {α : Type} (item : Reader α) : Reader (List α) := do
  let first ← item
  let all ← repeated (fun acc => do
    if ← acceptSign "," then return some ((← item) :: acc) else return none) [first]
  return all.reverse

end Reader

open Reader

/-- The readers of what is nested: an expression in brackets, and the body of a function or
statement. -/
structure Nested where
  expr : Reader Expr
  block : Reader Block

/-! ### Operators -/

/-- A level of binary operators: what stands for which, and whether several may follow. -/
structure Level where
  signs : List (String × BinOp)
  words : List (String × BinOp)
  chained : Bool

def levels : List Level :=
  [⟨[], [("or", .or)], true⟩,
   ⟨[], [("and", .and)], true⟩,
   ⟨[("<", .lt), (">", .gt), ("<=", .le), (">=", .ge), ("==", .eq), ("~=", .ne)], [], false⟩,
   ⟨[("..", .concat)], [], true⟩,
   ⟨[("+", .add), ("-", .sub)], [], true⟩,
   ⟨[("*", .mul), ("/", .div), ("%", .mod), ("//", .floorDiv)], [], true⟩,
   ⟨[("&", .bitAnd), ("|", .bitOr), ("~", .bitXor), (">>", .shiftRight), ("<<", .shiftLeft)], [],
    true⟩]

def Level.accept (l : Level) : Reader (Option BinOp) := do
  let found := match ← peek with
    | some ⟨.sign s, _⟩ => l.signs.lookup s
    | some ⟨.word s, _⟩ => l.words.lookup s
    | _ => none
  if found.isSome then advance
  return found

def Level.read (l : Level) (operand : Reader Expr) : Reader Expr := do
  let first ← operand
  let step (left : Expr) : Reader (Option Expr) := do
    match ← l.accept with
    | some op => return some (.binary op left (← operand))
    | none => return none
  if l.chained then repeated step first else repeatUpTo step 1 first

def acceptUnary : Reader (Option UnOp) := do
  if ← acceptSign "-" then return some .neg
  else if ← acceptSign "~" then return some .bitNot
  else if ← acceptWord "not" then return some .not
  else return none

/-! ### Chains, functions and tables -/

def params : Reader (List Param) := do
  expectSign "("
  if ← acceptSign ")" then return []
  let item : Reader Param := do
    if ← acceptSign "..." then return .varargs else return .name (← name)
  let ps ← commaSeparated item
  expectSign ")"
  if ps.dropLast.contains .varargs then fail else return ps

def functionBody (n : Nested) (head : Head) : Reader Func := do
  let label ← freshLabel
  let ps ← params
  let body ← n.block
  expectWord "end"
  return .mk label head ps body

def tableField (n : Nested) (count : Nat) : Reader (Field × Nat) := do
  if ← acceptSign "[" then
    let k ← n.expr
    expectSign "]"
    expectSign "="
    return (.mk k (← n.expr) true, count)
  match (← get).rest with
  | ⟨.name s, _⟩ :: ⟨.sign "=", _⟩ :: rest =>
    modify fun c => { c with rest := rest }
    return (.mk (.name s) (← n.expr) false, count)
  | _ => return (.mk (.number (.int (count + 1))) (← n.expr) false, count + 1)

def tableBody (n : Nested) : Reader Expr := do
  let step : List Field × Nat × Bool → Reader (Option (List Field × Nat × Bool))
    | (fields, count, open_) => do
      if !open_ || (← atSign "\x7d") then return none
      let (f, count) ← tableField n count
      let more ← do if ← acceptSign "," then pure true else acceptSign ";"
      return some (f :: fields, count, more)
  let (fields, _, _) ← repeated step ([], 0, true)
  expectSign "\x7d"
  return .table fields.reverse

def argumentList (n : Nested) : Reader (List Expr) := do
  if ← acceptSign ")" then return []
  let es ← commaSeparated n.expr
  expectSign ")"
  return es

/-- The arguments of a call, if arguments come next: a list in parentheses, a table or a string. -/
def arguments? (n : Nested) : Reader (Option (List Expr)) := do
  match ← peek with
  | some ⟨.sign "(", _⟩ => advance; return some (← argumentList n)
  | some ⟨.sign "\x7b", _⟩ => advance; return some [← tableBody n]
  | some ⟨.string s, _⟩ => advance; return some [.string s]
  | _ => return none

/-- One more link of a chain. An opening parenthesis on a new line is refused. -/
def link (n : Nested) (left : Expr) : Reader (Option Expr) := do
  if ← acceptSign "." then return some (.index (.name (← name)) left true)
  if ← acceptSign "[" then
    let k ← n.expr
    expectSign "]"
    return some (.index k left false)
  if ← acceptSign ":" then
    let method ← name
    match ← arguments? n with
    | some args => return some (.invoke left method args)
    | none => fail
  match ← peek with
  | some ⟨.sign "(", true⟩ => fail
  | _ => return (← arguments? n).map fun args => .call left args

def chain (n : Nested) : Reader Expr := do
  let first ← do
    if ← acceptSign "(" then
      let e ← n.expr
      expectSign ")"
      pure e
    else pure (.name (← name))
  repeated (link n) first

def atom (n : Nested) : Reader Expr := do
  match ← peek with
  | some ⟨.number v, _⟩ => advance; return .number v
  | some ⟨.malformed, _⟩ => throw .malformedNumber
  | some ⟨.string s, _⟩ => advance; return .string s
  | some ⟨.word "nil", _⟩ => advance; return .nil
  | some ⟨.word "true", _⟩ => advance; return .true
  | some ⟨.word "false", _⟩ => advance; return .false
  | some ⟨.word "function", _⟩ => advance; return .function (← functionBody n .anonymous)
  | some ⟨.sign "...", _⟩ => advance; return .varargs
  | some ⟨.sign "\x7b", _⟩ => advance; tableBody n
  | _ => chain n

def power (n : Nested) : Reader Expr := do
  let first ← atom n
  repeated (fun left => do
    if ← acceptSign "^" then return some (.binary .pow left (← atom n)) else return none) first

/-- A power with operators in front of it; the length operator stands next to the power. -/
def unary (n : Nested) : Reader Expr := do
  let ops ← repeated (fun acc => do return (← acceptUnary).map (· :: acc)) []
  let operand ← do
    if ← acceptSign "#" then pure (.unary .length (← power n)) else power n
  return ops.foldl (fun e op => .unary op e) operand

def expression (n : Nested) : Reader Expr :=
  levels.foldr (fun l operand => l.read operand) (unary n)

/-! ### Statements -/

def orelse (n : Nested) : Nat → Reader Orelse
  | 0 => fail
  | k + 1 => do
    if ← acceptWord "elseif" then
      let test ← expression n
      expectWord "then"
      let body ← n.block
      return .elseif test body (← orelse n k)
    if ← acceptWord "else" then return .block (← n.block)
    return .none

def doBlock (n : Nested) : Reader Block := do
  expectWord "do"
  let body ← n.block
  expectWord "end"
  return body

def functionTarget : Reader Expr := do
  let first ← name
  repeated (fun left => do
    if ← acceptSign "." then return some (.index (.name (← name)) left true)
    else return none) (.name first)

def forLoop (n : Nested) : Reader Stmt := do
  let names ← commaSeparated name
  if ← acceptWord "in" then
    let iter ← commaSeparated (expression n)
    return .forin names iter (← doBlock n)
  match names with
  | [target] =>
    expectSign "="
    let start ← expression n
    expectSign ","
    let stop ← expression n
    let step ← do if ← acceptSign "," then pure (some (← expression n)) else pure none
    return .fornum target start stop step (← doBlock n)
  | _ => fail

def localDeclaration (n : Nested) : Reader Stmt := do
  if ← acceptWord "function" then
    let id ← name
    return .function (← functionBody n (.local id))
  let names ← commaSeparated name
  let values ← do if ← acceptSign "=" then commaSeparated (expression n) else pure []
  return .local names values

def assignmentOrChain (n : Nested) : Reader Stmt := do
  let first ← chain n
  if (← atSign ",") || (← atSign "=") then
    let more ← do if ← acceptSign "," then commaSeparated (chain n) else pure []
    expectSign "="
    return .assign (first :: more) (← commaSeparated (expression n))
  return .expr first

def wordStatement (n : Nested) (word : String) : Reader (Option Stmt) := do
  match word with
  | "while" =>
    advance
    let test ← expression n
    return some (.while test (← doBlock n))
  | "repeat" =>
    advance
    let body ← n.block
    expectWord "until"
    return some (.repeat body (← expression n))
  | "local" => advance; return some (← localDeclaration n)
  | "goto" => advance; return some (.goto (← name))
  | "if" =>
    advance
    let test ← expression n
    expectWord "then"
    let body ← n.block
    let rest ← orelse n ((← remaining) + 1)
    expectWord "end"
    return some (.if test body rest)
  | "for" => advance; return some (← forLoop n)
  | "function" =>
    advance
    let target ← functionTarget
    if ← acceptSign ":" then
      let id ← name
      return some (.function (← functionBody n (.method target id)))
    return some (.function (← functionBody n (.global target)))
  | "do" => return some (.do (← doBlock n))
  | "break" => advance; return some .break
  | _ => return none

def statement? (n : Nested) : Reader (Option Stmt) := do
  match ← peek with
  | some ⟨.sign ";", _⟩ => advance; return some .semicolon
  | some ⟨.sign "::", _⟩ =>
    advance
    let id ← name
    expectSign "::"
    return some (.label id)
  | some ⟨.sign "(", _⟩ => return some (← assignmentOrChain n)
  | some ⟨.name _, _⟩ => return some (← assignmentOrChain n)
  | some ⟨.word w, _⟩ => wordStatement n w
  | _ => return none

def Token.startsExpression : Token → Bool
  | .name _ | .string _ | .number _ | .malformed => true
  | .word w => ["nil", "true", "false", "function", "not"].contains w
  | .sign s => ["(", "\x7b", "...", "-", "#", "~"].contains s

def returnStatement (n : Nested) : Reader Stmt := do
  let some ⟨t, _⟩ ← peek | return .return []
  let values ← if t.startsExpression then commaSeparated (expression n) else pure []
  let _ ← acceptSign ";"
  return .return values

def block (n : Nested) : Reader Block := do
  let body ← repeated (fun acc => do return (← statement? n).map (· :: acc)) []
  if ← acceptWord "return" then return (body.reverse ++ [← returnStatement n])
  return body.reverse

mutual

def expressionUpTo : Nat → Reader Expr
  | 0 => fail
  | n + 1 => expression ⟨expressionUpTo n, blockUpTo n⟩

def blockUpTo : Nat → Reader Block
  | 0 => fail
  | n + 1 => block ⟨expressionUpTo n, blockUpTo n⟩

end

/-- Reads all of a source text with a reader of nesting depth. Functions are labelled from `label`
on; the first free label is returned too. -/
def readAll {α : Type} (reader : Nat → Reader α) (label : Nat) (source : String) :
    Except ReadError (α × Nat) :=
  let ts := tokens source
  match (reader (ts.length + 1)).run ⟨ts, label⟩ with
  | .error e => .error e
  | .ok (a, c) => if c.rest.isEmpty then .ok (a, c.label) else .error .unexpected

def readChunk (label : Nat) (source : String) : Except ReadError (Block × Nat) :=
  readAll blockUpTo label source

def readExpr (label : Nat) (source : String) : Except ReadError (Expr × Nat) :=
  readAll expressionUpTo label source

end WikiFeed.Lua

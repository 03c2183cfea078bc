import WikiFeed.Prefab.Machine

/-! # Objects of the prefab evaluator

A placeholder table answers every key with another placeholder, equals everything and takes part in
arithmetic; a vector has three members and a phrase any member one asks for. A table never keeps a
key whose value is set to nil. -/

namespace WikiFeed.Prefab

open WikiFeed.Lua

/-! ### Truth and size -/

def size? (s : Store) : Value → Option Nat
  | .str t => some t.length
  | .tuple xs | .rest xs => some xs.length
  | .object .list r =>
    match s.cell r with
    | .list xs => some xs.length
    | _ => some 0
  | .object .table r | .object .dummy r | .object .entity r | .object .dict r =>
    some (s.table r).size
  | _ => none

/-- Whether a value counts as something: not nil, false, zero or empty. -/
def isSomething (s : Store) (v : Value) : Bool :=
  match v with
  | .nil => false
  | .bool b => b
  | .int n => n != 0
  | .float x => x != 0.0
  | v => (size? s v).getD 1 != 0

def holds : Value → Bool
  | .nil => false
  | .bool b => b
  | .int n => n != 0
  | .float x => x != 0.0
  | v => !v.isDummy

def lengthOf (v : Value) : Eval Value := do
  match size? (← get).store v with
  | some n => return .int n
  | none => fail .kind

/-! ### Members -/

def itemAt {α : Type} (xs : List α) (k : Value) : Eval α := do
  match k.asInt? with
  | none => fail .kind
  | some i =>
    let i := if i < 0 then i + xs.length else i
    match (if i < 0 then none else xs[i.toNat]?) with
    | some x => return x
    | none => fail .position

def vectorMember (r : Ref) (k : Value) : Eval Value := do
  match k, (← get).store.cell r with
  | .str "x", .vector x _ _ => return x
  | .str "y", .vector _ y _ => return y
  | .str "z", .vector _ _ z => return z
  | .str "Get", _ => return .method (.object .vector r) "Get"
  | .str t, _ => if (["", "xy", "yz", "xyz"].contains t) then fail .member else return .nil
  | _, _ => fail .kind

def dummyMember (r : Ref) (k : Value) : Eval Value := do
  let t ← tableOf r
  let found := if k.isKey then t.get k else .nil
  if found.isNil then
    let d ← newDummy
    if k.isKey then modifyTable r (·.put k d)
    return d
  return found

def member (v k : Value) : Eval Value := do
  match v with
  | .str t => return .str (String.singleton (← itemAt t.toList k))
  | .tuple xs | .rest xs => itemAt xs k
  | .object .list r =>
    match (← get).store.cell r with
    | .list xs => itemAt xs k
    | _ => fail .kind
  | .object .table r =>
    let t ← tableOf r
    return if k.isKey then t.get k else .nil
  | .object .dummy r | .object .entity r => dummyMember r k
  | .object .dict r =>
    if !k.isKey then fail .kind
    match (← tableOf r).get? k with
    | some w => return w
    | none => fail .key
  | .object .vector r => vectorMember r k
  | .object .phrase r => alloc (.phrase k (some r))
  | _ => fail .kind

def setEntry (r : Ref) (k v : Value) : Eval Unit := do
  if v.isNil then
    if k.isKey then modifyTable r (·.erase k)
  else if k.isKey then modifyTable r (·.put k v)
  else fail .kind

def setMember (o k v : Value) : Eval Unit := do
  match o with
  | .object .table r | .object .dummy r | .object .entity r => setEntry r k v
  | .object .dict r => if k.isKey then modifyTable r (·.put k v) else fail .kind
  | .object .list r =>
    match (← get).store.cell r, k.asInt? with
    | .list xs, some i =>
      let i := if i < 0 then i + xs.length else i
      if 0 ≤ i && i < xs.length then
        modifyStore (·.update r fun _ => .list (xs.set i.toNat v))
      else fail .position
    | _, _ => fail .kind
  | _ => fail .kind

def setAnswer (r : Ref) (v : Value) : Eval Unit :=
  modifyStore (·.update r fun c => match c with
    | .dummy t _ => .dummy t (some v)
    | .entity t tags o _ => .entity t tags o (some v)
    | c => c)

/-! ### Comparison -/

def equal (v w : Value) : Bool :=
  if v.isDummy then true
  else if w.isDummy then
    match v with
    | .func _ | .tree _ => false
    | _ => true
  else v.plainEq w

def differs (v w : Value) : Bool := v.isDummy || w.isDummy || !v.plainEq w

/-- A comparison; it holds whenever a placeholder takes part. -/
def compareWith (op : BinOp) (v w : Value) : Result Bool :=
  match op with
  | .eq => .ok (equal v w)
  | .ne => .ok (differs v w)
  | op => if v.isDummy || w.isDummy then .ok true else v.order op w

def isAmong (v : Value) (xs : List Value) : Bool := xs.any fun x => equal x v

def containsValue (o v : Value) : Eval Bool := do
  match o with
  | .object .table r | .object .dummy r | .object .entity r | .object .dict r =>
    if v.isKey then return (← tableOf r).contains v else fail .kind
  | .tuple xs | .rest xs => return isAmong v xs
  | .object .list r =>
    match (← get).store.cell r with
    | .list xs => return isAmong v xs
    | _ => return false
  | .str t =>
    match v with
    | .str u => return Text.occurs u t
    | _ => fail .kind
  | .object .phrase _ => return v.isDummy
  | _ => fail .kind

/-- An arithmetic operation. Placeholders give way to the other operand, or count as zero when
something is taken from them. -/
def arithmetic (s : Store) (op : BinOp) (v w : Value) : Result Value :=
  match op with
  | .add => if v.isDummy then .ok w else v.add w
  | .sub =>
    if v.isDummy then .ok (.int 0)
    else if w.isDummy then .ok v
    else Value.onNumbers Number.sub v w
  | .mul =>
    if v.isDummy then .ok w
    else if w.isDummy then .ok v
    else v.mul w
  | .div => if v.isDummy then .ok w else Value.onNumbers Number.div v w
  | .floorDiv => Value.onNumbers Number.floorDiv v w
  | .mod =>
    match v with
    | .str t => percent style s t w
    | v => Value.onNumbers Number.mod v w
  | .pow => do return .float (← calculated (Number.powFloat (← v.toFloat) (← w.toFloat)))
  | _ => .error .kind

def unaryValue (op : UnOp) (v : Value) : Eval Value := do
  match op with
  | .neg => if v.isDummy then return .int 0 else lift v.neg
  | .bitNot => lift v.complement
  | .not => return .bool (!isSomething (← get).store v)
  | .length => lengthOf v

/-! ### Sequences -/

def keysFrom (position : Value) : List Value → Result (List Int)
  | [] => .ok []
  | k :: ks =>
    match k.asInt? with
    | none => keysFrom position ks
    | some n => do
      let behind ← compareWith .ge k position
      let rest ← keysFrom position ks
      return if behind then n :: rest else rest

def shiftUp (t : Table) (n : Int) : Table :=
  (t.put (.int (n + 1)) (t.get (.int n))).erase (.int n)

/-- Puts a value behind the sequence of a table, or at a position from which all whole-number keys
are moved up, the greatest one first. -/
def insertAt (r : Ref) (v position : Value) : Eval Unit := do
  let t ← tableOf r
  if position.isNil then modifyTable r fun t => t.put (.int (t.border + 1)) v
  else
    let keys ← lift (keysFrom position t.keys)
    let moved := (keys.mergeSort (· ≥ ·)).foldl shiftUp t
    modifyTable r fun _ => moved
    if position.isKey then modifyTable r (·.put position v) else fail .kind

/-! ### Traversal -/

/-- The items of a value that is traversed, where changes cannot show. -/
def items (v : Value) : Eval (List Value) := do
  match v with
  | .str t => return t.toList.map fun c => .str (String.singleton c)
  | .tuple xs | .rest xs => return xs
  | .object .list r =>
    match (← get).store.cell r with
    | .list xs => return xs
    | _ => return []
  | .object .dict r => return (← tableOf r).keys
  | .object .table r | .object .dummy r | .object .entity r =>
    return (← tableOf r).toList.map fun (k, v) => .tuple [k, v]
  | .object .phrase r =>
    ["DUMMY_K_A", "DUMMY_K_B"].mapM fun n => do
      return .tuple [.str n, ← alloc (.phrase (.str n) (some r))]
  | _ => fail .kind

def pairOf (v : Value) : Eval (Value × Value) := do
  match ← items v with
  | [a, b] => return (a, b)
  | _ => fail .value

/-- Goes through the entries of an object that had `size` entries at the start, from a moment on;
`left` entries are still to come. The body says whether to go on. -/
def forEntries (r : Ref) (size : Nat) (body : Value → Value → Eval Bool) :
    Nat → Nat → Eval Unit
  | 0, moment => do
    let t ← tableOf r
    if t.size != size || (t.next? moment).isSome then fail .changed
  | n + 1, moment => do
    let t ← tableOf r
    if t.size != size then fail .changed
    match t.next? moment with
    | none => return
    | some e => if ← body e.key e.value then forEntries r size body n (e.stamp + 1)

def forItems (body : Value → Eval Bool) : List Value → Eval Unit
  | [] => return
  | v :: r => do if ← body v then forItems body r

def forPairs (v : Value) (body : Value → Value → Eval Bool) : Eval Unit := do
  match v with
  | .object .table r | .object .dummy r | .object .entity r =>
    let n := (← tableOf r).size
    forEntries r n body n 0
  | v => forItems (fun p => do
      let (a, b) ← pairOf p
      body a b) (← items v)

end WikiFeed.Prefab

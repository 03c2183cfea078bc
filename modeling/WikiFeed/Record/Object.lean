import WikiFeed.Lua.Mathematics
import WikiFeed.Lua.Methods
import WikiFeed.Record.Machine

/-! # Objects of the record evaluator

A table answers nil for keys it does not have and keeps keys with nil. A stub stands for a table of
names that is not known here: each key gives another stub, whose text is the path to it. -/

namespace WikiFeed.Record

open WikiFeed.Lua
open scoped Powers

def holds : Value → Bool
  | .nil => false
  | .bool b => b
  | .int n => n != 0
  | .float x => x != 0.0
  | .complex a b => a != 0.0 || b != 0.0
  | _ => true

def isSomething (s : Store) (v : Value) : Bool :=
  match v with
  | .str t => t != ""
  | .tuple xs => !xs.isEmpty
  | .object .table r | .object .dict r => (s.table r).size != 0
  | .object .list r =>
    match s.cell r with
    | .list xs => !xs.isEmpty
    | _ => false
  | v => holds v

/-! ### Members -/

def itemAt {α : Type} (xs : List α) (k : Value) : Eval α := do
  match k.asInt? with
  | none => fail .kind
  | some i =>
    let i := if i < 0 then i + xs.length else i
    match (if i < 0 then none else xs[i.toNat]?) with
    | some x => return x
    | none => fail .position

def stubMember (r : Ref) (k : Value) : Eval Value := do
  if !k.isKey then fail .kind
  match (← tableOf r).get? k with
  | some v => return v
  | none =>
    let v ← alloc (.stub .empty k (some r))
    modifyTable r (·.put k v)
    return v

def skillFunctions : List String :=
  ["CountSkills", "HasTag", "CountTags", "SkillHasTags", "MakeFuelWeaverLock", "MakeNoShadowLock",
   "MakeCelestialChampionLock", "MakeNoLunarLock", "MakePurelyVisualLock"]

def moduleMember (group name : String) : Result Value :=
  let known := match group with
    | "math" => mathNames
    | "string" => textMethods
    | "table" => ["insert", "contains"]
    | _ => skillFunctions
  match (if group == "math" then mathConstant? name else none) with
  | some x => .ok (.float x)
  | none => if known.contains name then .ok (.native (group ++ "." ++ name)) else .error .member

def member (v k : Value) : Eval Value := do
  match v with
  | .str t => return .str (String.singleton (← itemAt t.toList k))
  | .tuple xs => itemAt xs k
  | .object .list r =>
    match (← get).store.cell r with
    | .list xs => itemAt xs k
    | _ => fail .kind
  | .object .table r => if k.isKey then return (← tableOf r).get k else fail .kind
  | .object .dict r =>
    if !k.isKey then fail .kind
    match (← tableOf r).get? k with
    | some w => return w
    | none => fail .key
  | .object .stub r => stubMember r k
  | .module g =>
    match k with
    | .str name => lift (moduleMember g name)
    | _ => fail .kind
  | _ => fail .kind

def setMember (o k v : Value) : Eval Unit := do
  match o with
  | .object .table r | .object .dict r => if k.isKey then modifyTable r (·.put k v) else fail .kind
  | .object .list r =>
    match (← get).store.cell r, k.asInt? with
    | .list xs, some i =>
      let i := if i < 0 then i + xs.length else i
      if 0 ≤ i && i < xs.length then
        modifyStore (·.update r fun _ => .list (xs.set i.toNat v))
      else fail .position
    | _, _ => fail .kind
  | _ => fail .kind

def constantGroups : List (String × List (String × Value)) :=
  [("TUNING", [("EFFIGY_HEALTH_PENALTY", .int 40)]),
   ("CHARACTER_INGREDIENT",
    [("HEALTH", .str "decrease_health"), ("SANITY", .str "decrease_sanity")]),
   ("TECH_INGREDIENT", [("SCULPTING", .str "sculpting_material")]),
   ("SPELLTYPESCLASS", [])]

def numberMethods : List String := ["as_integer_ratio", "conjugate", "is_integer"]

def tableMethods : List String := ["keys", "values", "items", "to_json"]

def ownMember (v : Value) (name : String) : Eval Value := do
  let method (among : List String) : Eval Value :=
    if among.contains name then return .method v name else fail .member
  let number (among : List String) (one zero : Value) : Eval Value :=
    match name with
    | "real" => return v
    | "imag" => return zero
    | "numerator" => if among.contains name then return v else fail .member
    | "denominator" => if among.contains name then return one else fail .member
    | _ => method (numberMethods ++ among)
  match v with
  | .object .table r =>
    if tableMethods.contains name then return .method v name
    return (← tableOf r).get (.str name)
  | .object .stub r =>
    match name, (← get).store.cell r with
    | "name", .stub _ n _ => return n
    | "parent", .stub _ _ p => return (p.map fun p => Value.object .stub p).getD .nil
    | "table", .stub t _ _ => alloc (.dict t)
    | "to_json", _ => return .method v name
    | _, _ => stubMember r (.str name)
  | .str _ => method textMethods
  | .bool _ | .int _ =>
    number ["numerator", "denominator", "bit_count", "bit_length", "from_bytes", "to_bytes"]
      (.int 1) (.int 0)
  | .float _ => number ["fromhex", "hex"] .nil (.float 0.0)
  | .tuple _ => method ["count", "index"]
  | .object .list _ =>
    method ["append", "clear", "copy", "count", "extend", "index", "insert", "pop", "remove",
      "reverse", "sort"]
  | .object .dict _ =>
    method ["clear", "copy", "fromkeys", "get", "items", "keys", "pop", "popitem", "setdefault",
      "update", "values"]
  | .view .. => method ["isdisjoint", "mapping"]
  | .lazy t => if name == "node" then return .tree t else fail .member
  | .module _ => if name == "module" then return .native "module" else fail .member
  | .native n =>
    match (constantGroups.lookup n).bind (·.lookup name) with
    | some w => return w
    | none => fail .member
  | _ => fail .member

def pairsOf (v : Value) : Eval Value := do
  match v with
  | .object .table r => return .view .items .table r
  | .object .dict r => return .view .items .dict r
  | .object .stub _ => fail .kind
  | _ => fail .member

/-! ### Operators -/

def floatPower (x y : Float) : Result Value :=
  if y == 0.0 then .ok (.float 1.0)
  else if x == 0.0 && y < 0.0 then .error .zeroDivision
  else if x < 0.0 && isFinite x && isFinite y && y.floor != y then
    let size := Float.pow x.abs y
    let angle := 3.141592653589793 * y
    .ok (.complex (size * angle.cos) (size * angle.sin))
  else
    let z := Float.pow x y
    if z.isInf && isFinite x && isFinite y then .error .overflow else .ok (.float z)

def power : Number → Number → Result Value
  | .int m, .int n =>
    if 0 ≤ n then .ok (.int (m ^ n.toNat))
    else do floatPower (← calculated (Number.int m).toFloat) (← calculated (Number.int n).toFloat)
  | a, b => do floatPower (← calculated a.toFloat) (← calculated b.toFloat)

def complexParts (v : Value) : Option (Float × Float) :=
  match v with
  | .complex a b => some (a, b)
  | v =>
    match v.toFloat with
    | .ok x => some (x, 0.0)
    | .error _ => none

/-- The product of two complex numbers. -/
def complexProduct (z w : Float × Float) : Float × Float :=
  (z.1 * w.1 - z.2 * w.2, z.1 * w.2 + z.2 * w.1)

/-- The quotient of two complex numbers, by the larger part of the divisor. -/
def complexQuotient (z w : Float × Float) : Result (Float × Float) :=
  if w.1 == 0.0 && w.2 == 0.0 then .error .zeroDivision
  else if w.2.abs ≤ w.1.abs then
    let ratio := w.2 / w.1
    let n := w.1 + w.2 * ratio
    .ok ((z.1 + z.2 * ratio) / n, (z.2 - z.1 * ratio) / n)
  else
    let ratio := w.1 / w.2
    let n := w.1 * ratio + w.2
    .ok ((z.1 * ratio + z.2) / n, (z.2 * ratio - z.1) / n)

/-- The product of a complex number with a power of another one, by squares. -/
def complexTimesPower (r z : Float × Float) (n : Nat) : Float × Float :=
  if n = 0 then r
  else complexTimesPower (if n % 2 = 1 then complexProduct r z else r) (complexProduct z z) (n / 2)

/-- A power of a complex number. Exponents that are small whole numbers are carried out by products,
all others by the size and the angle. -/
def complexPower (z w : Float × Float) : Result (Float × Float) := do
  let (x, y) ←
    if w.2 == 0.0 && w.1 == w.1.floor && w.1.abs ≤ 100.0 then
      let p := complexTimesPower (1.0, 0.0) z w.1.abs.toUInt64.toNat
      if 0.0 ≤ w.1 then pure p else complexQuotient (1.0, 0.0) p
    else if z.1 == 0.0 && z.2 == 0.0 then
      if w.2 != 0.0 || w.1 < 0.0 then .error .zeroDivision else pure (0.0, 0.0)
    else
      let size := (z.1 * z.1 + z.2 * z.2).sqrt
      let angle := Float.atan2 z.2 z.1
      let length := Float.pow size w.1
      let phase := angle * w.1
      let (length, phase) := if w.2 == 0.0 then (length, phase)
        else (length * Float.exp (-angle * w.2), phase + w.2 * size.log)
      pure (length * phase.cos, length * phase.sin)
  if x.isInf || y.isInf then .error .overflow else return (x, y)

/-- Arithmetic with a complex operand. -/
def complexArithmetic (op : BinOp) (v w : Value) : Result Value :=
  match complexParts v, complexParts w with
  | some z, some w => do
    let (x, y) ← match op with
      | .add => .ok (z.1 + w.1, z.2 + w.2)
      | .sub => .ok (z.1 - w.1, z.2 - w.2)
      | .mul => .ok (complexProduct z w)
      | .div => complexQuotient z w
      | .pow => complexPower z w
      | _ => .error .kind
    return .complex x y
  | _, _ => .error .kind

def isComplex : Value → Bool
  | .complex _ _ => true
  | _ => false

/-- Addition; a stub joins its text with a text, and is nothing with anything else. -/
def addValues (s : Store) (v w : Value) : Result Value :=
  match v with
  | .object .stub r =>
    match w with
    | .str t => .ok (.str (stubText s r ++ t))
    | _ => .ok .nil
  | v => v.add w

def arithmetic (s : Store) (op : BinOp) (v w : Value) : Result Value :=
  if isComplex v || isComplex w then complexArithmetic op v w
  else match op with
    | .add => addValues s v w
    | .sub => Value.onNumbers Number.sub v w
    | .mul => v.mul w
    | .div => Value.onNumbers Number.div v w
    | .floorDiv => Value.onNumbers Number.floorDiv v w
    | .mod =>
      match v with
      | .str t => percent style s t w
      | v => Value.onNumbers Number.mod v w
    | .pow =>
      match v.num?, w.num? with
      | some a, some b => power a b
      | _, _ => .error .kind
    | _ => .error .kind

/-- The right operand: beside a text, a whole number or a truth value counts as its text. -/
def besideText (v w : Value) : Value :=
  match v, w with
  | .str _, .bool b => .str (if b then "True" else "False")
  | .str _, .int n => .str (Decimal.intText n)
  | _, w => w

def binaryValue (s : Store) (op : BinOp) (v w : Value) : Result Value :=
  let w := besideText v w
  match op with
  | .eq => .ok (.bool (v.plainEq w))
  | .ne => .ok (.bool (!v.plainEq w))
  | .lt | .gt | .le | .ge => do return .bool (← v.order op w)
  | .concat => addValues s v w
  | op => arithmetic s op v w

def negative : Value → Result Value
  | .complex a b => .ok (.complex (-a) (-b))
  | v => v.neg

/-! ### Traversal -/

def forItems (body : Value → Eval Unit) : List Value → Eval Unit
  | [] => return
  | v :: r => do
    body v
    forItems body r

/-- Goes through the entries of an object that had `size` entries at the start, from a moment on;
`left` entries are still to come. -/
def forEntries (r : Ref) (size : Nat) (body : Entry → Eval Unit) : Nat → Nat → Eval Unit
  | 0, moment => do
    let t ← tableOf r
    if t.size != size || (t.next? moment).isSome then fail .changed
  | n + 1, moment => do
    let t ← tableOf r
    if t.size != size then fail .changed
    match t.next? moment with
    | none => return
    | some e =>
      body e
      forEntries r size body n (e.stamp + 1)

def plainItems (v : Value) : Eval (List Value) := do
  match v with
  | .str t => return t.toList.map fun c => .str (String.singleton c)
  | .tuple xs => return xs
  | .object .list r =>
    match (← get).store.cell r with
    | .list xs => return xs
    | _ => return []
  | _ => fail .kind

def forEach (v : Value) (body : Value → Eval Unit) : Eval Unit := do
  let entries (r : Ref) (item : Entry → Value) : Eval Unit := do
    let n := (← tableOf r).size
    forEntries r n (fun e => body (item e)) n 0
  match v with
  | .object .table r | .object .dict r | .view .keys _ r => entries r fun e => e.key
  | .view .values _ r => entries r fun e => e.value
  | .view .items _ r => entries r fun e => .tuple [e.key, e.value]
  | v => forItems body (← plainItems v)

def items (v : Value) : Eval (List Value) := do
  match v with
  | .object .table r | .object .dict r | .view .keys _ r => return (← tableOf r).keys
  | .view .values _ r => return (← tableOf r).values
  | .view .items _ r => return (← tableOf r).toList.map fun (k, v) => .tuple [k, v]
  | v => plainItems v

end WikiFeed.Record

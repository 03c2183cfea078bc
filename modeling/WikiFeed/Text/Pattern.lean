import WikiFeed.Text.Class

/-! # Patterns

Regular expressions with groups, classes, alternatives and counted repetition, matched from the
left with backtracking: the first way to match in the order of the pattern wins. -/

namespace WikiFeed.Text

inductive ClassItem where
  | range (first last : Char)
  | digit (positive : Bool)
  | word (positive : Bool)
  | blank (positive : Bool)

/-- Patterns. `many` repeats at least `least` and at most `most` times, as often as possible if it
is `greedy`. -/
inductive Pattern where
  | empty
  | char (c : Char)
  | any
  | oneOf (positive : Bool) (items : List ClassItem)
  | atStart
  | atEnd
  | atLastLine
  | boundary (positive : Bool)
  | seq (p q : Pattern)
  | alt (p q : Pattern)
  | many (p : Pattern) (least : Nat) (most : Option Nat) (greedy : Bool)
  | group (n : Nat) (p : Pattern)

namespace ClassItem

def holds (c : Char) : ClassItem → Bool
  | .range a b => a ≤ c && c ≤ b
  | .digit p => isDecimalDigit c == p
  | .word p => isWord c == p
  | .blank p => isBlank c == p

end ClassItem

/-! ### Matching -/

/-- The characters before and behind a place, its number, and the bounds of the groups that are
closed, the latest first. -/
structure Place where
  before : List Char
  behind : List Char
  groups : List (Nat × Nat × Nat)

def Place.index (p : Place) : Nat := p.before.length

def Place.step? (p : Place) (test : Char → Bool) : Option Place :=
  match p.behind with
  | c :: r => if test c then some { p with before := c :: p.before, behind := r } else none
  | [] => none

def Place.atBoundary (p : Place) : Bool :=
  (p.before.head?.map isWord).getD false != (p.behind.head?.map isWord).getD false

/-- Matches a pattern at a place and goes on with `k`; the first number bounds the work on one way
through the pattern. -/
def Pattern.run : Nat → Pattern → Place → (Place → Option Place) → Option Place
  | 0, _, _, _ => none
  | n + 1, p, at_, k =>
    match p with
    | .empty => k at_
    | .char c => (at_.step? (· == c)).bind k
    | .any => (at_.step? (· != '\n')).bind k
    | .oneOf positive items =>
      (at_.step? fun c => items.any (·.holds c) == positive).bind k
    | .atStart => if at_.before.isEmpty then k at_ else none
    | .atEnd => if at_.behind.isEmpty || at_.behind == ['\n'] then k at_ else none
    | .atLastLine => if at_.behind.isEmpty then k at_ else none
    | .boundary positive => if at_.atBoundary == positive then k at_ else none
    | .seq p q => run n p at_ fun a => run n q a k
    | .alt p q => (run n p at_ k).or (run n q at_ k)
    | .group i p => run n p at_ fun a =>
        k { a with groups := (i, at_.index, a.index) :: a.groups }
    | .many p least most greedy =>
      let more (_ : Unit) : Option Place :=
        if most == some 0 then none
        else run n p at_ fun a =>
          if least == 0 && a.index == at_.index then none
          else run n (.many p (least - 1) (most.map (· - 1)) greedy) a k
      if least > 0 then more ()
      else if greedy then (more ()).or (k at_)
      else (k at_).or (more ())

def Pattern.size : Pattern → Nat
  | .seq p q | .alt p q => p.size + q.size + 1
  | .many p least most _ => (p.size + 2) * (least + most.getD 0 + 1)
  | .group _ p => p.size + 1
  | _ => 1

structure Found where
  start : Nat
  stop : Nat
  groups : List (Nat × Nat × Nat)

def Pattern.matchAt? (p : Pattern) (before behind : List Char) : Option Found :=
  let fuel := (p.size + 2) * (behind.length + 2)
  (p.run fuel ⟨before, behind, []⟩ some).map fun a => ⟨before.length, a.index, a.groups⟩

def Pattern.searchFrom? (p : Pattern) (before : List Char) : List Char → Option Found
  | [] => p.matchAt? before []
  | c :: r =>
    match p.matchAt? before (c :: r) with
    | some f => some f
    | none => searchFrom? p (c :: before) r

def Pattern.search? (p : Pattern) (s : List Char) : Option Found := p.searchFrom? [] s

def slice (s : List Char) (start stop : Nat) : List Char := (s.take stop).drop start

def Found.group? (f : Found) (s : List Char) (i : Nat) : Option (List Char) :=
  if i = 0 then some (slice s f.start f.stop)
  else (f.groups.find? (·.1 == i)).map fun (_, a, b) => slice s a b

/-- The texts of all matches that do not overlap, from the left. `n` bounds their number. -/
def Pattern.allFrom (p : Pattern) (s : List Char) : Nat → List Char → List Char → List Found
  | 0, _, _ => []
  | n + 1, before, behind =>
    match p.searchFrom? before behind with
    | none => []
    | some f =>
      let next := if f.stop == f.start then f.stop + 1 else f.stop
      if next > s.length then [f]
      else f :: allFrom p s n (s.take next).reverse (s.drop next)

def Pattern.all (p : Pattern) (s : List Char) : List Found := p.allFrom s (s.length + 2) [] s

/-! ### Reading -/

/-- The rest of a pattern text and the number of groups opened so far. -/
structure PatternCursor where
  rest : List Char
  groups : Nat

abbrev PatternReader := StateT PatternCursor Option

namespace PatternReader

def peek : PatternReader (Option Char) := do return (← get).rest.head?

def advance : PatternReader Unit := modify fun c => { c with rest := c.rest.tail }

def next : PatternReader Char := do
  match ← peek with
  | some c => advance; return c
  | none => failure

def accept (c : Char) : PatternReader Bool := do
  if (← peek) == some c then advance; return true else return false

end PatternReader

open PatternReader

def classLetter? : Char → Option ClassItem
  | 'd' => some (.digit true)
  | 'D' => some (.digit false)
  | 'w' => some (.word true)
  | 'W' => some (.word false)
  | 's' => some (.blank true)
  | 'S' => some (.blank false)
  | _ => none

def escapedChar? (c : Char) : Option Char :=
  match c with
  | 'n' => some '\n'
  | 't' => some '\t'
  | 'r' => some '\r'
  | 'f' => some '\x0c'
  | 'v' => some '\x0b'
  | 'a' => some '\x07'
  | c => if c.isAlphanum then none else some c

def classItem : PatternReader ClassItem := do
  let single : PatternReader (ClassItem ⊕ Char) := do
    let c ← next
    if c == '\\' then
      let e ← next
      match classLetter? e with
      | some i => return .inl i
      | none => match escapedChar? e with
        | some c => return .inr c
        | none => failure
    else return .inr c
  match ← single with
  | .inl i => return i
  | .inr a =>
    match (← get).rest with
    | '-' :: ']' :: _ => return .range a a
    | '-' :: _ =>
      advance
      match ← single with
      | .inr b => if a ≤ b then return .range a b else failure
      | .inl _ => failure
    | _ => return .range a a

def classItems : Nat → List ClassItem → PatternReader (List ClassItem)
  | 0, _ => failure
  | n + 1, acc => do
    if !acc.isEmpty && (← accept ']') then return acc.reverse
    classItems n ((← classItem) :: acc)

def number? : PatternReader (Option Nat) := do
  let ds := (← get).rest.takeWhile Char.isDigit
  modify fun c => { c with rest := c.rest.drop ds.length }
  return if ds.isEmpty then none else some (ds.foldl (fun n d => n * 10 + (d.toNat - 48)) 0)

def bounds? : PatternReader (Option (Nat × Option Nat)) := do
  let saved ← get
  let low ← number?
  let found ← do
    if ← accept ',' then
      let high ← number?
      pure (if low.isNone && high.isNone then none else some (low.getD 0, high))
    else pure (low.map fun n => (n, some n))
  if found.isSome && (← accept '\x7d') then return found
  set saved
  return none

def repetition? : PatternReader (Option (Nat × Option Nat)) := do
  if ← accept '*' then return some (0, none)
  if ← accept '+' then return some (1, none)
  if ← accept '?' then return some (0, some 1)
  let saved ← get
  if ← accept '\x7b' then
    match ← bounds? with
    | some b => return some b
    | none => set saved; return none
  return none

def patternItem (inner : PatternReader Pattern) : PatternReader Pattern := do
  match ← next with
  | '.' => return .any
  | '^' => return .atStart
  | '$' => return .atEnd
  | '[' =>
    let negative ← accept '^'
    let items ← classItems ((← get).rest.length + 1) []
    return .oneOf (!negative) items
  | '(' =>
    match (← get).rest with
    | '?' :: ':' :: _ =>
      advance
      advance
      let p ← inner
      if ← accept ')' then return p else failure
    | '?' :: _ => failure
    | _ =>
      let n := (← get).groups + 1
      modify fun c => { c with groups := n }
      let p ← inner
      if ← accept ')' then return .group n p else failure
  | '\\' =>
    let e ← next
    match classLetter? e with
    | some i => return .oneOf true [i]
    | none =>
      match e with
      | 'b' => return .boundary true
      | 'B' => return .boundary false
      | 'A' => return .atStart
      | 'Z' => return .atLastLine
      | e => match escapedChar? e with
        | some c => return .char c
        | none => failure
  | '*' | '+' | '?' => failure
  | c => return .char c

def patternItems (inner : PatternReader Pattern) : Nat → Pattern → PatternReader Pattern
  | 0, acc => return acc
  | n + 1, acc => do
    match ← peek with
    | none | some '|' | some ')' => return acc
    | some _ =>
      let item ← patternItem inner
      let item ← match ← repetition? with
        | none => pure item
        | some (least, most) =>
          let lazy ← accept '?'
          match (← get).rest with
          | '*' :: _ | '+' :: _ | '?' :: _ => failure
          | _ => pure (.many item least most (!lazy))
      patternItems inner n (match acc with
        | .empty => item
        | acc => .seq acc item)

def alternatives (inner : PatternReader Pattern) : Nat → PatternReader Pattern
  | 0 => failure
  | n + 1 => do
    let first ← patternItems inner ((← get).rest.length + 1) .empty
    if ← accept '|' then return .alt first (← alternatives inner n) else return first

def patternUpTo : Nat → PatternReader Pattern
  | 0 => failure
  | n + 1 => do alternatives (patternUpTo n) ((← get).rest.length + 1)

def readPattern? (s : String) : Option (Pattern × Nat) :=
  let cs := s.toList
  match (patternUpTo (cs.length + 1)).run ⟨cs, 0⟩ with
  | some (p, c) => if c.rest.isEmpty then some (p, c.groups) else none
  | none => none

end WikiFeed.Text

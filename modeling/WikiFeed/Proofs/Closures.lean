import WikiFeed.Proofs.Prefab.Closures
import WikiFeed.Proofs.Record.Closures

/-! # Functions and their scopes

A function and its definition are one thing: whoever holds the function sees each later evaluation
of the definition. What a call sees is thus the scope in which the definition was evaluated last
(`calls_follow_last_definition`), and two functions that a factory makes share the scope of the
second one (`factory_shares_scope`). -/

namespace WikiFeed

open Lua

/-! ### Factories -/

def getter : Func := .mk 1 (.local "get") [] [.return [.name "n"]]

def echo : Func := .mk 1 (.method (.name "cls") "get") [.name "n"] [.return [.name "n"]]

def usesGetter : Block :=
  [.assign [.name "n"] [.number (.int 7)], .assign [.name "y"] [.call (.name "get") []]]

def rebinds : Block :=
  [.function (.mk 0 (.local "get") [] []), .assign [.name "cls"] [.table []]]

/-- The chunk `local function make(n) local function get() return n end return get end`, followed by
`local a = make(1) local b = make(2) x = a()`. -/
def factory : Block :=
  let maker : Func := .mk 0 (.local "make") [.name "n"] [.function getter, .return [.name "get"]]
  [.function maker,
   .local ["a"] [.call (.name "make") [.number (.int 1)]],
   .local ["b"] [.call (.name "make") [.number (.int 2)]],
   .assign [.name "x"] [.call (.name "a") []]]

/-- The chunk `cls = {} local function def() function cls:get(n) return n end end`, followed by
`def() x = cls:get(5) def() y = cls:get(5)`. -/
def methodFactory : Block :=
  let again : Stmt := .expr (.call (.name "def") [])
  let calls : Expr := .invoke (.name "cls") "get" [.number (.int 5)]
  [.assign [.name "cls"] [.table []],
   .function (.mk 0 (.local "def") [] [.function echo]),
   again, .assign [.name "x"] [calls], again, .assign [.name "y"] [calls]]

def Prefab.lone : Prefab.Machine :=
  { (default : Prefab.Machine) with
    scopes := #[⟨none, some 0, 0, .empty⟩]
    labels := 2
    evaluators := #[default] }

/-! ### Calls -/

/-- **Calls follow the last definition.** Suppose that the definition of a function is evaluated in
a scope, and that from there to a call it is not evaluated again in another scope or, for a prefab
method, at all. The call then works in a new scope inside the first one, where names that it does
not bind have the values that they have in that scope, and binds the parameters that the function
had behind the definition. Where and how often the definition was evaluated before does not matter,
but for the receivers of a method. Among recipes a local definition makes no function. -/
theorem calls_follow_last_definition (f : Func) (depth : Nat) :
    (∀ (node : Record.Node) (v : Value) (m m₁ n : Record.Machine),
      node.function? = some f → (m.purpose = .recipes → ∀ name, f.head ≠ .local name) →
      m.here < m.scopes.size → Record.visitUpTo depth node m = .ok v m₁ →
      Record.Later f.label m.here m₁ n → Record.CallsIn f m.here n) ∧
    ∀ (node : Prefab.Node) (m m₁ n : Prefab.Machine),
      node.function? = some f → Prefab.hasDottedName f = true → f.label < m.labels →
      m.evaluator.scope < m.scopes.size → Prefab.visitUpTo depth node m = .ok (.func f) m₁ →
      Prefab.Later f.label m.evaluator.scope m₁ n →
      Prefab.CallsIn f m.evaluator.scope
        ((Prefab.closureIn m f).receivers + (Prefab.isMethod f).toNat) n := by
  constructor
  · intro node v m m₁ n hf heager hhere hrun hlater
    exact Record.callsIn_last_scope hf heager hhere hrun hlater
  · intro node m m₁ n hf hname hlabel hhere hrun hlater
    exact Prefab.callsIn_last_scope hf hname hlabel hhere hrun hlater

def Record.before : Record.Machine :=
  { (default : Record.Machine) with
    scopes := #[default, ⟨some 0, .empty⟩]
    closures := [(1, 1)] }

def Record.behind : Record.Machine :=
  Record.finalState (Record.visitFunction getter Record.before)

def Prefab.before : Prefab.Machine :=
  { Prefab.lone with
    store := ⟨#[.table .empty]⟩
    scopes := #[⟨none, some 0, 0, .ofFields [("cls", .object .table 0)]⟩,
      ⟨some 0, some 0, 1, .empty⟩]
    closures := [(1, ⟨some 1, 1⟩)] }

def Prefab.behind : Prefab.Machine :=
  Prefab.finalState (Prefab.visitFunction (Prefab.visitUpTo 0) echo Prefab.before)

/-- The getter is called once and `n` is set, and the class of the method is replaced: calls still
work in the outer scope, with a second receiver for the method. -/
theorem calls_follow_last_definition_again :
    Record.CallsIn getter 0
      (Record.finalState (Record.visitUpTo 9 (.chunk usesGetter) Record.behind)) ∧
    Prefab.CallsIn echo 0 2
      (Prefab.finalState (Prefab.visitUpTo 9 (.chunk rebinds) Prefab.behind)) := by
  have hspares : Record.Spares 1 0 9 (.chunk usesGetter) Record.behind := by cbv
  have hspares' : Prefab.Spares 1 0 9 (.chunk rebinds) Prefab.behind := by cbv
  have hrun : Record.visitUpTo 1 (.stmt (.function getter)) Record.before =
      .ok .nil Record.behind := by cbv
  have hrun' : Prefab.visitUpTo 1 (.stmt (.function echo)) Prefab.before =
      .ok (.func echo) Prefab.behind := by
    rw [Prefab.visitUpTo, Prefab.visitStep_function rfl]
    cbv
  constructor
  · exact (calls_follow_last_definition getter 1).1 (.stmt (.function getter)) .nil Record.before _
      _ rfl (fun h => absurd h (by decide)) (by decide) hrun (.evaluated 9 _ .now hspares)
  · exact (calls_follow_last_definition echo 1).2 (.stmt (.function echo)) Prefab.before _ _
      rfl rfl (by decide) (by decide) hrun' (.evaluated 9 _ .now hspares')

/-- A second function of a factory moves the first one to its own scope, and a method that is
defined twice takes the first argument for a second receiver. -/
theorem factory_shares_scope :
    Record.lookup? (Record.finalState (Record.visitUpTo 30 (.chunk factory) default)).scopes 0
        (.str "x") =
      some (.int 2) ∧
    (let n := Prefab.finalState (Prefab.visitUpTo 30 (.chunk factory) Prefab.lone)
    Prefab.lookup? n.scopes 0 (.str "x") = some (.int 2)) ∧
    let n := Prefab.finalState (Prefab.visitUpTo 30 (.chunk methodFactory) Prefab.lone)
    Prefab.lookup? n.scopes 0 (.str "x") = some (.int 5) ∧
      Prefab.lookup? n.scopes 0 (.str "y") = some .nil := by
  refine ⟨?_, ?_, ?_, ?_⟩
  all_goals cbv

end WikiFeed

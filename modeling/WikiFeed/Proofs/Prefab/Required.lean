import WikiFeed.Proofs.Outcome
import WikiFeed.Proofs.Prefab.Discretion

/-! # Required files and the variables of those who require them

A required file is run where it is required for the first time, in a scope inside those of the code
that requires it. It can therefore read and change local variables of that code
(`required_file_changes_local`). If it comes upon none of them, its result and its effect do not
depend on them (`require_independent_of_locals`). -/

namespace WikiFeed.Prefab

open Lua Outcome

/-- The scopes of the local variables that can be seen where evaluation takes place: all but the
outermost one. -/
def Machine.locals (m : Machine) : List ScopeId := (chain m.scopes m.evaluator.scope).dropLast

def requireUpTo (depth : Nat) (name : Value) : Eval Value := require (host (visitUpTo depth)) name

/-- A required file comes upon no local variable of the code that requires it, and evaluation is not
nested too deep: it ends in the same way if it gives up at such a variable. -/
def SparesLocals (depth : Nat) (name : Value) (m : Machine) : Prop :=
  require (host (visitSparing m.locals depth)) name m = requireUpTo depth name m ∧
    ∀ n, requireUpTo depth name m ≠ .error (.fault .tooDeep) n

section Locals

variable {m m₁ m₂ : Machine}

theorem inner_locals (m : Machine) : Inner m.locals m := by
  obtain ⟨inner, heq, hinner, -⟩ := Scoped.chain_eq_append m.scopes m.evaluator.scope
  refine ⟨fun l hl => Scoped.outer?_isSome_iff.mp (hinner l ?_)⟩
  rwa [Machine.locals, heq, List.dropLast_concat] at hl

theorem locals_eq_of_strip_eq (h : m₁.strip m₁.locals = m₂.strip m₂.locals) :
    m₁.locals = m₂.locals := by
  have hchain (m : Machine) : m.locals = (m.strip m.locals).locals :=
    congrArg List.dropLast chain_strip.symm
  rw [hchain m₁, hchain m₂, h]

theorem SparesLocals.strip {depth : Nat} {name : Value} (hspares : SparesLocals depth name m)
    (hactive : m.active < m.evaluators.size) (hhere : m.evaluator.scope < m.scopes.size) :
    require (host (visitSparing m.locals depth)) name (m.strip m.locals) =
        mapState (Machine.strip m.locals) (requireUpTo depth name m) ∧
      Beyond m.locals m (finalState (requireUpTo depth name m)) := by
  let _ : Watch := ⟨.sparing m.locals⟩
  have hat : Around ⟨m.evaluator.scope, m.evaluator.stack, fun _ => False⟩ m :=
    { inner_locals m with
      active_lt := fun _ => hactive, here_eq := fun _ => rfl, stack_eq := fun _ => rfl
      here_lt := .inr hhere, clear := nofun }
  have hends := behaves_require (R := .everything) (b := true) (t := true) (v := name)
    (visits_visitSparing ⟨rfl, rfl⟩ depth).host m (sound_everything rfl nofun) hat
  change Ends _ _ _ _ _ (require (host (visitSparing m.locals depth)) name m)
    (require (host (visitSparing m.locals depth)) name (m.strip m.locals)) at hends
  rw [hspares.1] at hends
  generalize hrun : requireUpTo depth name m = r at hends
  generalize require (host (visitSparing m.locals depth)) name (m.strip m.locals) = r' at hends
  cases hends with
  | gaveUp => exact absurd hrun (hspares.2 _)
  | both _ _ _ hmn _ => exact ⟨rfl, hmn⟩

end Locals

/-- **A required file does not depend on local variables that it does not come upon.** Take two
states with the same chain of scopes that are the same apart from the local variables of the code
that requires a file, and suppose that the file comes upon none of these. It ends in the same way
from both, with the same value, and the states that it leads to are again the same apart from the
local variables. In particular the global variables are the same, while the local ones are as they
were. States with different chains are not compared: only what the scopes hold differs. -/
theorem require_independent_of_locals (depth : Nat) (name : Value) (m₁ m₂ : Machine)
    (r₁ r₂ : EStateM.Result Signal Machine Value)
    (hactive : m₁.active < m₁.evaluators.size) (hhere : m₁.evaluator.scope < m₁.scopes.size)
    (hsame : m₁.strip m₁.locals = m₂.strip m₂.locals)
    (h₁ : SparesLocals depth name m₁) (h₂ : SparesLocals depth name m₂)
    (hr₁ : requireUpTo depth name m₁ = r₁) (hr₂ : requireUpTo depth name m₂ = r₂) :
    mapState (Machine.strip m₁.locals) r₁ = mapState (Machine.strip m₂.locals) r₂ ∧
    (∀ l ∈ m₁.locals,
      ((finalState r₁).scopes.getD l default).vars = (m₁.scopes.getD l default).vars) ∧
    (∀ l ∈ m₂.locals,
      ((finalState r₂).scopes.getD l default).vars = (m₂.scopes.getD l default).vars) ∧
    ((finalState r₁).scopes.getD (outermost m₁.scopes m₁.evaluator.scope) default).vars =
      ((finalState r₂).scopes.getD (outermost m₂.scopes m₂.evaluator.scope) default).vars := by
  subst hr₁ hr₂
  have hlocals := locals_eq_of_strip_eq hsame
  -- what is asked of the second state follows, as it is the same without the local variables
  have hactive₂ : m₂.active < m₂.evaluators.size := by
    have heq : (m₁.strip m₁.locals).active < (m₁.strip m₁.locals).evaluators.size := hactive
    rw [hsame] at heq
    exact heq
  have hhere₂ : m₂.evaluator.scope < m₂.scopes.size := by
    have heq : (m₁.strip m₁.locals).evaluator.scope < (strip m₁.locals m₁.scopes).size := by
      rw [size_strip]
      exact hhere
    have hscopes : strip m₁.locals m₁.scopes = strip m₂.locals m₂.scopes :=
      congrArg Machine.scopes hsame
    rw [hsame, hscopes, size_strip] at heq
    exact heq
  obtain ⟨hrun₁, hbeyond₁⟩ := h₁.strip hactive hhere
  obtain ⟨hrun₂, hbeyond₂⟩ := h₂.strip hactive₂ hhere₂
  have hresults : mapState (Machine.strip m₁.locals) (requireUpTo depth name m₁) =
      mapState (Machine.strip m₂.locals) (requireUpTo depth name m₂) := by
    rw [← hrun₁, ← hrun₂, hsame, hlocals]
  refine ⟨hresults, fun l hl => ?_, fun l hl => ?_, ?_⟩
  · exact hbeyond₁.vars_eq l hl ((inner_locals m₁).lt_size hl)
  · exact hbeyond₂.vars_eq l hl ((inner_locals m₂).lt_size hl)
  · have hplace : outermost m₁.scopes m₁.evaluator.scope =
        outermost m₂.scopes m₂.evaluator.scope := by
      have hout (m : Machine) : outermost m.scopes m.evaluator.scope =
          outermost (m.strip m.locals).scopes (m.strip m.locals).evaluator.scope :=
        outermost_strip.symm
      rw [hout m₁, hout m₂, hsame]
    have hstates := congrArg finalState hresults
    rw [finalState_mapState, finalState_mapState] at hstates
    have hvars (m n : Machine) (hm : m.active < m.evaluators.size) :
        (n.scopes.getD (outermost m.scopes m.evaluator.scope) default).vars =
          ((n.strip m.locals).scopes.getD (outermost m.scopes m.evaluator.scope) default).vars := by
      have hstrip := getD_strip m.locals n.scopes (outermost m.scopes m.evaluator.scope)
      rw [if_neg ((inner_locals m).outermost_not_mem _)] at hstrip
      exact congrArg Scope.vars hstrip.symm
    rw [hvars m₁ _ hactive, hvars m₂ _ hactive₂, hstates, hplace]

/-! ### A file with a variable of its own, and one without -/

theorem require_eq_run {h : Host} {path : String} {m : Machine} {archive : Archive}
    {bytes : List UInt8} {block : Block} {labels : Nat}
    (hmodules : m.modules.get? (.str path) = none) (hpath : passedOver path = false)
    (hscripts : m.scripts = some archive) (hmember : archive.member? (modulePath path) = some bytes)
    (hread : readChunk m.labels (Text.withPlainFeeds (Text.decodeLossy bytes)) =
      .ok (block, labels)) :
    require h (.str path) m = (do
      let v ← h.run block
      modify fun m => { m with modules := m.modules.put (.str path) v }
      return v : Eval Value) { m with labels := labels } := by
  have hkey : (Value.str path).isKey = true := by simp [Value.isKey]
  have hget : (get : Eval Machine) m = .ok m m := rfl
  unfold require
  rw [hkey]
  simp only [Bool.not_true, Bool.false_eq_true, if_false]
  rw [bind_of_eq_ok hget, hmodules]
  simp only [hpath, Bool.false_eq_true, if_false, hscripts, hmember]
  have hload := load_eq (Text.withPlainFeeds (Text.decodeLossy bytes)) m
  rw [hread] at hload
  rw [bind_of_eq_ok hload, hscripts]

def ownText : String := "local x = g\ny = x\nreturn x"

def ownBlock : Block :=
  [.local ["x"] [.name "g"], .assign [.name "y"] [.name "x"], .return [.name "x"]]

/-- An evaluator in a scope inside the outermost one, with given local variables. The file `own` has
a local variable `x`, while the file `foreign` assigns to `x` without declaring it. -/
def requiring (locals : List (String × Value)) : Machine :=
  { (default : Machine) with
    scopes := #[⟨none, some 0, 0, .ofFields [("g", .int 2)]⟩, ⟨some 0, some 0, 1, .ofFields locals⟩]
    evaluators := #[⟨1, [], none, .plain, false⟩]
    scripts := some ⟨[("scripts/own.lua", ownText.toUTF8.toList),
      ("scripts/foreign.lua", "x = 5".toUTF8.toList)]⟩ }

theorem require_own (h : Host) (locals : List (String × Value)) :
    require h (.str "own") (requiring locals) = (do
      let v ← h.run ownBlock
      modify fun m => { m with modules := m.modules.put (.str "own") v }
      return v : Eval Value) (requiring locals) := by
  have htext : Text.withPlainFeeds (Text.decodeLossy ownText.toUTF8.toList) = ownText := by cbv
  have hread : readChunk 0 ownText = .ok (ownBlock, 0) := by cbv
  exact require_eq_run rfl (by decide) rfl (by cbv) (htext.symm ▸ hread)

abbrev requiringOne : Machine := requiring [("x", .int 1)]

abbrev requiringTwo : Machine := requiring [("x", .str "a"), ("z", .nil)]

theorem not_tooDeep_of_eq_ok {r : EStateM.Result Signal Machine Value} {v : Value} {n : Machine}
    (h : r = .ok v n) : ∀ k, r ≠ .error (.fault .tooDeep) k := by
  intro k hk
  rw [h] at hk
  nomatch hk

theorem requireUpTo_own_one : requireUpTo 9 (.str "own") requiringOne =
    .ok (.int 2) (finalState (requireUpTo 9 (.str "own") requiringOne)) := by
  rw [requireUpTo, require_own]
  cbv

theorem requireUpTo_own_two : requireUpTo 9 (.str "own") requiringTwo =
    .ok (.int 2) (finalState (requireUpTo 9 (.str "own") requiringTwo)) := by
  rw [requireUpTo, require_own]
  cbv

theorem sparesLocals_own_one : SparesLocals 9 (.str "own") requiringOne := by
  refine ⟨?_, not_tooDeep_of_eq_ok requireUpTo_own_one⟩
  rw [requireUpTo, require_own, require_own]
  cbv

theorem sparesLocals_own_two : SparesLocals 9 (.str "own") requiringTwo := by
  refine ⟨?_, not_tooDeep_of_eq_ok requireUpTo_own_two⟩
  rw [requireUpTo, require_own, require_own]
  cbv

/-- The local variable of the file hides that of the code that requires it, so the file gives the
same value, makes the same global variable and leaves `x` alone whatever it was. -/
theorem require_independent_of_locals_own :
    ∃ n₁ n₂, requireUpTo 9 (.str "own") requiringOne = .ok (.int 2) n₁ ∧
      requireUpTo 9 (.str "own") requiringTwo = .ok (.int 2) n₂ ∧
      (n₁.scopes.getD 0 default).vars = (n₂.scopes.getD 0 default).vars ∧
      (n₁.scopes.getD 1 default).vars = .ofFields [("x", .int 1)] := by
  have hstrip : requiringOne.strip requiringOne.locals =
      requiringTwo.strip requiringTwo.locals := by
    cbv
  have hsame := require_independent_of_locals 9 (.str "own") requiringOne requiringTwo _ _
    (by decide)
    (by decide) hstrip sparesLocals_own_one sparesLocals_own_two requireUpTo_own_one
    requireUpTo_own_two
  have hlocals : requiringOne.locals = [1] := by cbv
  have hglobal₁ : outermost requiringOne.scopes requiringOne.evaluator.scope = 0 := by cbv
  have hglobal₂ : outermost requiringTwo.scopes requiringTwo.evaluator.scope = 0 := by cbv
  rw [hglobal₁, hglobal₂] at hsame
  exact ⟨_, _, requireUpTo_own_one, requireUpTo_own_two, hsame.2.2.2,
    hsame.2.1 1 (by rw [hlocals]; simp)⟩

/-- A file that assigns to a name without declaring it changes the local variable of the code that
requires it, and makes a global variable where there is no such local one. -/
theorem required_file_changes_local :
    ((finalState (requireUpTo 9 (.str "foreign") (requiring [("x", .int 1)]))).scopes.getD 1
        default).vars.get (.str "x") = .int 5 ∧
      ((finalState (requireUpTo 9 (.str "foreign") (requiring [("x", .int 1)]))).scopes.getD 0
        default).vars.get (.str "x") = .nil ∧
      ((finalState (requireUpTo 9 (.str "foreign") (requiring []))).scopes.getD 0
        default).vars.get (.str "x") = .int 5 := by
  refine ⟨?_, ?_, ?_⟩
  · cbv
  · cbv
  · cbv

end WikiFeed.Prefab

import WikiFeed.Proofs.Lua.Chains
import WikiFeed.Proofs.Prefab.Library

/-! # States in which all that can be reached is marked

A state is `Sound` for a reach if everything that evaluation can come upon from it is marked: the
current scope with its ancestors and variables, the contents of objects, the scopes of functions and
the results of required files. Evaluation is watched in one of several ways (`Watch`): where it asks
for tame syntax, all functions that can be called and all files that can be required are tame; where
it has an eye on the home of a function, this is as it was. -/

namespace WikiFeed.Prefab

open Lua Places
open Lua.Scoped (getD_define)

/-! ### Sound states -/

structure Home where
  label : Nat
  scope : ScopeId
  receivers : Nat

def Home.closure (h : Home) : Closure := ⟨some h.scope, h.receivers⟩

/-- A function is at home: it works in its scope, which is there, and its label is not given to
another one. -/
structure Machine.Homed (m : Machine) (h : Home) : Prop where
  closure_eq : m.closures.lookup h.label = some h.closure
  scope_lt : h.scope < m.scopes.size
  label_lt : h.label < m.labels

/-- How evaluation is watched: all syntax is tame; or it gives up at variables of some scopes, which
are out of sight; or nothing is asked of it, but that a function stays at home if there is one in
question. -/
inductive Mode where
  | tame
  | sparing (hidden : List ScopeId)
  | free (home : Option Home)

class Watch where
  mode : Mode

section Watching

variable [Watch]

def hidden : List ScopeId :=
  match Watch.mode with
  | .sparing L => L
  | _ => []

def Watch.tame : Bool :=
  match Watch.mode with
  | .tame => true
  | _ => false

def Watch.follows : Bool :=
  match Watch.mode with
  | .free _ => false
  | _ => true

def Watch.home : Option Home :=
  match Watch.mode with
  | .free home => home
  | _ => none

/-- Evaluation may give up. -/
def Watch.Spares : Prop := Watch.tame = false ∧ Watch.follows = true

theorem hidden_eq_nil (h : Watch.follows = false) : hidden = [] := by
  unfold Watch.follows at h
  unfold hidden
  split
  case h_1 heq =>
    rw [heq] at h
    cases h
  case h_2 => rfl

theorem home_eq_none (h : Watch.follows = true) : Watch.home = none := by
  unfold Watch.follows at h
  unfold Watch.home
  split
  case h_1 heq =>
    rw [heq] at h
    cases h
  case h_2 => rfl

theorem Watch.follows_of_tame (h : Watch.tame = true) : Watch.follows = true := by
  unfold Watch.tame at h
  unfold Watch.follows
  split
  case h_1 heq =>
    rw [heq] at h
    cases h
  case h_2 => rfl

end Watching

/-- Scopes of which the marked ones have marked parents and good variables. All scopes that are
still to come are marked. -/
structure GoodScopes (R : Reach) (scopes : Array Scope) : Prop where
  parent : ∀ i p, R.scope i → (scopes.getD i default).parent = some p → R.scope p
  vars : ∀ i, R.scope i → AllGood R (scopes.getD i default).vars.contents
  fresh : ∀ i, scopes.size ≤ i → R.scope i

/-- A file that may still be required is read as the given block. -/
def Requires (m : Machine) (b : Block) : Prop :=
  ∃ archive path bytes label next, m.scripts = some archive ∧ passedOver path = false ∧
    m.modules.get? (.str path) = none ∧ archive.member? (modulePath path) = some bytes ∧
    readChunk label (Text.withPlainFeeds (Text.decodeLossy bytes)) = .ok (b, next)

def Asked [Watch] (b : Bool) : Prop := Watch.tame = true → b = true

/-- A state in which everything that can be come upon is marked, and as tame as asked. Unless all
syntax is tame, evaluation may go on in any scope. The function in question is at home. -/
structure Sound [Watch] (R : Reach) (m : Machine) : Prop where
  tame : R.tame = Watch.tame
  all : Watch.tame = true ∨ ∀ i, R.scope i
  active_lt : Watch.tame = true → m.active < m.evaluators.size
  here : R.scope m.evaluator.scope
  scopes : GoodScopes R m.scopes
  store : GoodStore R m.store
  closures : ∀ l c s, R.label l → m.closures.lookup l = some c → c.scope = some s → R.scope s
  modules : AllGood R m.modules.contents
  required : ∀ b, Requires m b → Asked (tameStmts false b)
  homed : ∀ h, Watch.home = some h → m.Homed h

/-- What holds after every outcome: the same evaluator is at work, and the old scopes have the same
owners. -/
structure Older (m n : Machine) : Prop where
  active_eq : n.active = m.active
  size_eq : n.evaluators.size = m.evaluators.size
  size_le : m.scopes.size ≤ n.scopes.size
  owner_eq : ∀ i < m.scopes.size,
    (n.scopes.getD i default).owner = (m.scopes.getD i default).owner

theorem Asked.and [Watch] {a b : Bool} (h : Asked (a && b)) : Asked a ∧ Asked b :=
  ⟨fun ht => (Bool.and_eq_true_iff.mp (h ht)).1, fun ht => (Bool.and_eq_true_iff.mp (h ht)).2⟩

section States

variable {R : Reach} {m n k : Machine}

theorem Older.refl (m : Machine) : Older m m := ⟨rfl, rfl, Nat.le_refl _, fun _ _ => rfl⟩

theorem Older.trans (h₁ : Older m n) (h₂ : Older n k) : Older m k where
  active_eq := h₂.active_eq.trans h₁.active_eq
  size_eq := h₂.size_eq.trans h₁.size_eq
  size_le := Nat.le_trans h₁.size_le h₂.size_le
  owner_eq i hi := by
    rw [h₂.owner_eq i (Nat.lt_of_lt_of_le hi h₁.size_le), h₁.owner_eq i hi]

theorem Older.active_lt (h : Older m n) (hm : m.active < m.evaluators.size) :
    n.active < n.evaluators.size := by
  rwa [h.active_eq, h.size_eq]

theorem Machine.Homed.of_le {h : Home} (hm : m.Homed h) (hc : n.closures = m.closures)
    (hs : m.scopes.size ≤ n.scopes.size) (hl : m.labels ≤ n.labels) : n.Homed h :=
  ⟨hc ▸ hm.closure_eq, Nat.lt_of_lt_of_le hm.scope_lt hs, Nat.lt_of_lt_of_le hm.label_lt hl⟩

/-! ### Changes of scopes -/

theorem GoodScopes.define {scopes : Array Scope} (h : GoodScopes R scopes) (i : ScopeId)
    {name v : Value} (hname : Good R name) (hv : Good R v) :
    GoodScopes R (define scopes i name v) where
  parent j p hj hp := by
    rw [getD_define] at hp
    split at hp
    · exact h.parent j p hj hp
    · exact h.parent j p hj hp
  vars j hj := by
    rw [getD_define]
    split
    · exact (h.vars j hj).put hname hv
    · exact h.vars j hj
  fresh j hj := h.fresh j (by simpa using hj)

theorem older_addScope (m : Machine) (parent : Option ScopeId) (owner : Option Nat) :
    Older m (m.addScope parent owner) where
  active_eq := rfl
  size_eq := rfl
  size_le := by simp [Machine.addScope]
  owner_eq i hi := by
    unfold Machine.addScope
    rw [getD_push, if_neg (Nat.ne_of_lt hi)]

/-! ### Changes of the evaluator at work -/

theorem evaluator_adjust (f : Evaluator → Evaluator) (h : m.active < m.evaluators.size) :
    (m.adjust f).evaluator = f m.evaluator := by
  simp [Machine.adjust, Machine.evaluator, Array.getD, h, Array.getElem_modify]

theorem older_adjust (f : Evaluator → Evaluator) (m : Machine) : Older m (m.adjust f) :=
  ⟨rfl, by simp [Machine.adjust], Nat.le_refl _, fun _ _ => rfl⟩

theorem evaluator_enter (m : Machine) (e : Nat) (i : ScopeId) (h : m.active < m.evaluators.size) :
    (m.enter e i).evaluator =
      if e = m.active then { m.evaluator with scope := i } else m.evaluator := by
  unfold Machine.enter Machine.evaluator
  by_cases he : e = m.active
  · simp [Array.getD, h, Array.getElem_modify, he]
  · simp [Array.getD, h, Array.getElem_modify, he]

theorem older_enter (m : Machine) (e : Nat) (i : ScopeId) : Older m (m.enter e i) :=
  ⟨rfl, by simp [Machine.enter], Nat.le_refl _, fun _ _ => rfl⟩

/-! ### Changes of sound states -/

variable [Watch]

theorem Sound.define (hm : Sound R m) (i : ScopeId) {name v : Value} (hname : Good R name)
    (hv : Good R v) : Sound R { m with scopes := Prefab.define m.scopes i name v } :=
  { hm with
    scopes := hm.scopes.define i hname hv
    homed := fun h hh => (hm.homed h hh).of_le rfl (by simp) (Nat.le_refl _) }

theorem Sound.addScope (hm : Sound R m) {parent : Option ScopeId}
    (hp : ∀ p, parent = some p → R.scope p) (owner : Option Nat) :
    Sound R (m.addScope parent owner) :=
  { hm with
    scopes := {
      parent := fun i p hi h => by
        unfold Machine.addScope at h
        rw [getD_push] at h
        split at h
        · exact hp p h
        · exact hm.scopes.parent i p hi h
      vars := fun i hi => by
        unfold Machine.addScope
        rw [getD_push]
        split
        · exact allGood_contents_empty
        · exact hm.scopes.vars i hi
      fresh := fun i hi => hm.scopes.fresh i (Nat.le_of_succ_le (by
        simpa [Machine.addScope] using hi)) }
    homed := fun h hh =>
      (hm.homed h hh).of_le rfl (older_addScope m parent owner).size_le (Nat.le_refl _) }

theorem Sound.adjust (hm : Sound R m) {f : Evaluator → Evaluator}
    (hf : R.scope (f m.evaluator).scope) : Sound R (m.adjust f) :=
  { hm with
    active_lt := fun ht => by simpa [Machine.adjust] using hm.active_lt ht
    here := by
      rcases hm.all with ht | hall
      · rwa [evaluator_adjust f (hm.active_lt ht)]
      · exact hall _
    homed := fun h hh => (hm.homed h hh).of_le rfl (Nat.le_refl _) (Nat.le_refl _) }

theorem Sound.enter (hm : Sound R m) (e : Nat) {i : ScopeId} (hi : R.scope i) :
    Sound R (m.enter e i) :=
  { hm with
    active_lt := fun ht => by simpa [Machine.enter] using hm.active_lt ht
    here := by
      rcases hm.all with ht | hall
      · rw [evaluator_enter m e i (hm.active_lt ht)]
        split
        · exact hi
        · exact hm.here
      · exact hall _
    homed := fun h hh => (hm.homed h hh).of_le rfl (Nat.le_refl _) (Nat.le_refl _) }

theorem Sound.leaveTo (hm : Sound R m) {p : ScopeId} (hp : R.scope p) : Sound R (m.leaveTo p) := by
  unfold Machine.leaveTo
  split
  · exact hm
  · exact hm.enter _ hp

/-- With everything marked and no syntax asked to be tame, every state is sound in which the
function in question is at home. -/
theorem sound_everything (ht : Watch.tame = false) (hhome : ∀ h, Watch.home = some h → m.Homed h) :
    Sound .everything m where
  tame := ht.symm
  all := .inr fun _ => trivial
  active_lt h := nomatch ht.symm.trans h
  here := trivial
  scopes := ⟨fun _ _ _ _ => trivial, fun _ _ => allGood_everything _, fun _ _ => trivial⟩
  store := goodStore_everything _
  closures _ _ _ _ _ _ := trivial
  modules := allGood_everything _
  required _ _ h := nomatch ht.symm.trans h
  homed := hhome

end States

end WikiFeed.Prefab

import WikiFeed.Proofs.Lua.Chains
import WikiFeed.Record.Visit

/-! # What the evaluation of a record script can do

`Steps p m e n` says that a piece of evaluation leads from the state `m` to the state `n` and ends
as `e` says. It is built from the few things that evaluation does to scopes, closures and the value
of the last return: binding names, taking a scope along, returning, and working inside the scope of
a block or of a call. The permit `p` says which of them the piece may do by itself, outside of the
calls in it. `Performs p x` says that all runs of `x` are made of such steps. What every step keeps,
every run keeps: the first such fact is `Steps.keeps`, that scopes are entered and left in pairs. -/

namespace WikiFeed.Record

open Lua Places

/-- How a piece of evaluation ends: at its end, in a return that is under way, or in a fault. -/
inductive Ending where
  | done
  | returning
  | failed
deriving DecidableEq

def Signal.ending : Signal → Ending
  | .fault _ => .failed
  | .ret => .returning

def Ending.outside : Ending → Ending
  | .returning => .done
  | e => e

/-- What a piece of evaluation may do by itself: return, and bind names or take scopes along. -/
structure Permit where
  returns : Bool
  binds : Bool

def Permit.all : Permit := ⟨true, true⟩

/-- Whether a permit allows all that another one allows. -/
structure Permit.Within (p q : Permit) : Prop where
  returns : p.returns = true → q.returns = true
  binds : p.binds = true → q.binds = true

/-- Which functions, by their labels, may take which scopes along. -/
class Policy where
  captures : Nat → ScopeId → Prop

instance Policy.free : Policy := ⟨fun _ _ => True⟩

def Machine.Alike (m n : Machine) : Prop :=
  ∃ store recipes out, n = { m with store := store, recipes := recipes, out := out }

/-- What a piece of evaluation with a permit does to the state. -/
inductive Steps [Policy] : Permit → Machine → Ending → Machine → Prop where
  | alike {p m n} : m.Alike n → Steps p m .done n
  | fault {p m} : Steps p m .failed m
  | trans {p m n k e} : Steps p m .done n → Steps p n e k → Steps p m e k
  | define {p m} (name : String) (v : Value) : p.binds = true →
      Steps p m .done { m with scopes := define m.scopes m.here (.str name) v }
  | assign {p m} (name : String) (v : Value) : p.binds = true →
      Steps p m .done { m with scopes := assign m.scopes m.here name v }
  | defineOutermost {p m} (name : String) (v : Value) : p.binds = true →
      Steps p m .done { m with scopes := define m.scopes (outermost m.scopes m.here) (.str name) v }
  | capture {p m} (label : Nat) : p.binds = true → Policy.captures label m.here →
      Steps p m .done
        { m with closures := (label, m.here) :: m.closures.filter fun q => q.1 != label }
  | ret {p m} (v : Value) : p.returns = true → Steps p m .returning { m with result := v }
  | block {p m n e} : p.binds = true → Steps p (m.enter m.here) e n →
      Steps p m e.outside (n.leaveBlock m.scopes.size)
  | call {p m n e scope} (label : Nat) : m.closures.lookup label = some scope →
      Steps .all (m.enterCall scope) e n → e ≠ .failed →
      Steps p m .done { n.leaveCall with result := .nil }
  | callFault {p m n scope} (label : Nat) : m.closures.lookup label = some scope →
      Steps .all (m.enterCall scope) .failed n → Steps p m .failed n.leaveCall

theorem Machine.Alike.refl (m : Machine) : m.Alike m := ⟨_, _, _, rfl⟩

variable {m n : Machine}

theorem Steps.mono [Policy] {p q : Permit} {e : Ending} (hpq : p.Within q) (h : Steps p m e n) :
    Steps q m e n := by
  induction h with
  | alike h => exact .alike h
  | fault => exact .fault
  | trans _ _ ih₁ ih₂ => exact .trans (ih₁ hpq) (ih₂ hpq)
  | define name v hp => exact .define name v (hpq.binds hp)
  | assign name v hp => exact .assign name v (hpq.binds hp)
  | defineOutermost name v hp => exact .defineOutermost name v (hpq.binds hp)
  | capture label hp hc => exact .capture label (hpq.binds hp) hc
  | ret v hp => exact .ret v (hpq.returns hp)
  | block hp _ ih => exact .block (hpq.binds hp) (ih hpq)
  | call label hl h he => exact .call label hl h he
  | callFault label hl h => exact .callFault label hl h

/-! ### Scopes are entered and left in pairs -/

/-- Scopes among which others, older ones, are found again with the same parents. -/
structure Grown (old new : Array Scope) : Prop where
  size_le : old.size ≤ new.size
  parent_eq : ∀ i < old.size, (new.getD i default).parent = (old.getD i default).parent

theorem Grown.refl (scopes : Array Scope) : Grown scopes scopes := ⟨Nat.le_refl _, fun _ _ => rfl⟩

theorem Grown.trans {a b c : Array Scope} (hab : Grown a b) (hbc : Grown b c) : Grown a c where
  size_le := Nat.le_trans hab.size_le hbc.size_le
  parent_eq i hi := by
    rw [hbc.parent_eq i (Nat.lt_of_lt_of_le hi hab.size_le), hab.parent_eq i hi]

theorem grown_define (scopes : Array Scope) (i : ScopeId) (name v : Value) :
    Grown scopes (define scopes i name v) where
  size_le := Nat.le_of_eq (Scoped.size_define scopes i name v).symm
  parent_eq j _ := Scoped.parent_define scopes i j name v

theorem grown_push (scopes : Array Scope) (s : Scope) : Grown scopes (scopes.push s) where
  size_le := by simp
  parent_eq i hi := by rw [getD_push, if_neg (Nat.ne_of_lt hi)]

/-- What evaluation keeps, however it ends: the current scope, the scopes of the callers and the
parents of the scopes. -/
structure Kept (m n : Machine) : Prop where
  here_eq : n.here = m.here
  stack_eq : n.stack = m.stack
  grown : Grown m.scopes n.scopes

theorem Kept.trans {k : Machine} (h₁ : Kept m n) (h₂ : Kept n k) : Kept m k :=
  ⟨h₂.here_eq.trans h₁.here_eq, h₂.stack_eq.trans h₁.stack_eq, h₁.grown.trans h₂.grown⟩

theorem kept_define (m : Machine) (i : ScopeId) (name v : Value) :
    Kept m { m with scopes := define m.scopes i name v } :=
  ⟨rfl, rfl, grown_define _ _ _ _⟩

theorem Kept.leaveBlock (h : Kept (m.enter m.here) n) : Kept m (n.leaveBlock m.scopes.size) := by
  have hpush : Grown m.scopes (m.enter m.here).scopes := grown_push _ _
  refine ⟨?_, h.stack_eq, hpush.trans h.grown⟩
  have hparent : (n.scopes.getD m.scopes.size default).parent = some m.here := by
    rw [h.grown.parent_eq m.scopes.size (by simp [Machine.enter])]
    exact congrArg Scope.parent ((getD_push _ _ _).trans (if_pos rfl))
  unfold Machine.leaveBlock
  rw [hparent, Option.getD_some]

theorem Kept.leaveCall {scope : ScopeId} (h : Kept (m.enterCall scope) n) : Kept m n.leaveCall := by
  have hpush : Grown m.scopes (m.enterCall scope).scopes := grown_push _ _
  have hstack : n.stack = m.here :: m.stack := h.stack_eq
  exact ⟨by simp [Machine.leaveCall, hstack], by simp [Machine.leaveCall, hstack],
    hpush.trans h.grown⟩

theorem Steps.keeps [Policy] {p : Permit} {e : Ending} (h : Steps p m e n) : Kept m n := by
  induction h with
  | alike h =>
    obtain ⟨_, _, _, rfl⟩ := h
    exact ⟨rfl, rfl, .refl _⟩
  | fault => exact ⟨rfl, rfl, .refl _⟩
  | trans _ _ ih₁ ih₂ => exact ih₁.trans ih₂
  | define name v => exact kept_define _ _ (.str name) v
  | assign name v =>
    rw [assign_eq_define]
    exact kept_define _ _ (.str name) v
  | defineOutermost name v => exact kept_define _ _ (.str name) v
  | capture label => exact ⟨rfl, rfl, .refl _⟩
  | ret v => exact ⟨rfl, rfl, .refl _⟩
  | block _ _ ih => exact ih.leaveBlock
  | call label _ _ _ ih =>
    have hleft := ih.leaveCall
    exact ⟨hleft.here_eq, hleft.stack_eq, hleft.grown⟩
  | callFault label _ _ ih => exact ih.leaveCall

/-! ### Computations made of such steps -/

variable [Policy]

/-- A run that started in a state is made of steps that a permit allows. -/
def Leads {α : Type} (p : Permit) (m : Machine) : EStateM.Result Signal Machine α → Prop
  | .ok _ n => Steps p m .done n
  | .error s n => Steps p m s.ending n

/-- All runs of a computation are made of steps that a permit allows. -/
def Performs {α : Type} (p : Permit) (x : Eval α) : Prop := ∀ m, Leads p m (x m)

section Rules

variable {α β : Type} {p q : Permit}

variable {x : Eval α}

theorem Performs.ok {a : α} (h : Performs p x) (hx : x m = .ok a n) : Steps p m .done n := by
  have hm := h m
  rwa [hx] at hm

theorem Performs.error {s : Signal} (h : Performs p x) (hx : x m = .error s n) :
    Steps p m s.ending n := by
  have hm := h m
  rwa [hx] at hm

variable {r : EStateM.Result Signal Machine α}

theorem Leads.mono (hpq : p.Within q) (h : Leads p m r) : Leads q m r := by
  cases r with
  | ok a n => exact Steps.mono hpq h
  | error s n => exact Steps.mono hpq h

theorem Performs.mono (hpq : p.Within q) (h : Performs p x) : Performs q x :=
  fun m => (h m).mono hpq

theorem Leads.after (hmn : Steps p m .done n) (h : Leads p n r) : Leads p m r := by
  cases r with
  | ok a k => exact Steps.trans hmn h
  | error s k => exact Steps.trans hmn h

variable {f : α → Eval β}

theorem Performs.bind (hx : Performs p x) (hf : ∀ a, Performs p (f a)) : Performs p (x >>= f) := by
  intro m
  change Leads p m (EStateM.bind x f m)
  unfold EStateM.bind
  cases hm : x m with
  | ok a n => exact (hf a n).after (hx.ok hm)
  | error s n => exact hx.error hm

theorem Performs.ite {c : Prop} [Decidable c] {y : Eval α} (hx : Performs p x)
    (hy : Performs p y) : Performs p (if c then x else y) := by
  split
  · exact hx
  · exact hy

theorem performs_pure (a : α) : Performs p (pure a : Eval α) := fun m => .alike (.refl m)

theorem performs_get : Performs p (get : Eval Machine) := fun m => .alike (.refl m)

theorem performs_fail (f : Fault) : Performs p (fail f : Eval α) := fun _ => .fault

theorem performs_lift (r : Result α) : Performs p (lift r) := by
  cases r with
  | ok a => exact performs_pure a
  | error f => exact performs_fail f

theorem performs_modify {f : Machine → Machine} (h : ∀ m, Steps p m .done (f m)) :
    Performs p (modify f : Eval Unit) := h

theorem performs_forM {f : α → Eval PUnit} :
    ∀ {as : List α}, (∀ a ∈ as, Performs p (f a)) → Performs p (as.forM f)
  | [], _ => performs_pure _
  | a :: _, h =>
    .bind (h a List.mem_cons_self) fun _ => performs_forM fun b hb =>
      h b (List.mem_cons_of_mem _ hb)

theorem performs_mapM :
    ∀ {as : List α}, (∀ a ∈ as, Performs p (f a)) → Performs p (as.mapM f)
  | [], _ => performs_pure _
  | a :: as, h => by
    rw [List.mapM_cons]
    exact .bind (h a List.mem_cons_self) fun b =>
      .bind (performs_mapM fun c hc => h c (List.mem_cons_of_mem _ hc)) fun bs => performs_pure _

theorem performs_inBlock {x : Eval Unit} (hp : p.binds = true) (hx : Performs p x) :
    Performs p (inBlock x) := by
  intro m
  unfold inBlock within
  cases hm : x (m.enter m.here) with
  | ok a n => exact .block hp (hx.ok hm)
  | error s n =>
    cases s with
    | fault f => exact .block hp (hx.error hm)
    | ret => exact .block hp (hx.error hm)

end Rules

end WikiFeed.Record

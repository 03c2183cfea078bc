import WikiFeed.Prefab.Visit
import WikiFeed.Proofs.Lua.Results

/-! # Operations that do not look at scopes

The scopes, the evaluators, the evaluator at work, the closures of functions, their labels and the
files are the surroundings of an operation. Most operations on values and nearly all library
functions do not look at them and only move values around (`Plain`): in other surroundings they do
the same and leave them as they are, and if all values that they are given are good, so are those
that they give and write. -/

namespace WikiFeed.Prefab

open Lua

/-- What surrounds an operation. -/
structure Surroundings where
  scopes : Array Scope
  evaluators : Array Evaluator
  active : Nat
  closures : List (Nat × Closure)
  labels : Nat
  modules : Table
  scripts : Option Archive

def Machine.surroundings (m : Machine) : Surroundings :=
  ⟨m.scopes, m.evaluators, m.active, m.closures, m.labels, m.modules, m.scripts⟩

def Machine.within (s : Surroundings) (m : Machine) : Machine :=
  { m with
    scopes := s.scopes
    evaluators := s.evaluators
    active := s.active
    closures := s.closures
    labels := s.labels
    modules := s.modules
    scripts := s.scripts }

def mapState {α : Type} (f : Machine → Machine) :
    EStateM.Result Signal Machine α → EStateM.Result Signal Machine α
  | .ok a m => .ok a (f m)
  | .error e m => .error e (f m)

def finalState {α : Type} : EStateM.Result Signal Machine α → Machine
  | .ok _ m => m
  | .error _ m => m

theorem finalState_mapState {α : Type} (f : Machine → Machine)
    (r : EStateM.Result Signal Machine α) : finalState (mapState f r) = f (finalState r) := by
  cases r <;> rfl

/-- A run that ends with a value as `Q` says or in a fault other than a division by zero. -/
def Quiet {α : Type} (Q : α → Prop) : EStateM.Result Signal Machine α → Prop
  | .ok a _ => Q a
  | .error (.fault f) _ => f ≠ .zeroDivision
  | .error _ _ => False

theorem Quiet.imp {α : Type} {P Q : α → Prop} {r : EStateM.Result Signal Machine α}
    (hr : Quiet P r) (h : ∀ a, P a → Q a) : Quiet Q r := by
  rcases r with ⟨a, n⟩ | ⟨f | v | _, n⟩
  · exact h a hr
  · exact hr
  · exact hr
  · exact hr

/-- From good stores all runs end with good stores and values as `Q` says, or in faults, and they do
the same in all surroundings and leave them alone. -/
def Plain {α : Type} (R : Reach) (x : Eval α) (Q : α → Prop) : Prop :=
  ∀ m, GoodStore R m.store → GoodStore R (finalState (x m)).store ∧ Quiet Q (x m) ∧
    ∀ s, x (m.within s) = mapState (Machine.within s) (x m)

/-! ### Ways to combine operations -/

section Rules

variable {α β : Type} {R : Reach} {P : α → Prop} {Q : β → Prop}

theorem plain_pure {a : α} (h : P a) : Plain R (pure a) P := fun _ hm => ⟨hm, h, fun _ => rfl⟩

theorem plain_fail {f : Fault} (h : f ≠ .zeroDivision) : Plain R (fail f : Eval α) P :=
  fun _ hm => ⟨hm, h, fun _ => rfl⟩

variable {f : α → Eval β} {x : Eval α}

theorem Plain.bind (hx : Plain R x P) (hf : ∀ a, P a → Plain R (f a) Q) : Plain R (x >>= f) Q := by
  intro m hm
  obtain ⟨hstore, hquiet, hsame⟩ := hx m hm
  change GoodStore R (finalState (EStateM.bind x f m)).store ∧ Quiet Q (EStateM.bind x f m) ∧
    ∀ s, EStateM.bind x f _ = mapState _ (EStateM.bind x f m)
  unfold EStateM.bind
  simp only [hsame]
  cases hr : x m with
  | ok a n =>
    rw [hr] at hstore hquiet
    exact hf a hquiet n hstore
  | error e n =>
    rw [hr] at hstore hquiet
    exact ⟨hstore, by cases e <;> exact hquiet, fun _ => rfl⟩

theorem Plain.imp {P' : α → Prop} (hx : Plain R x P) (h : ∀ a, P a → P' a) : Plain R x P' :=
  fun m hm => (hx m hm).imp_right (And.imp_left (·.imp h))

theorem plain_fail_bind {e : Fault} (h : e ≠ .zeroDivision) : Plain R (fail e >>= f) Q :=
  fun _ hm => ⟨hm, h, fun _ => rfl⟩

theorem Plain.ite {c : Prop} [Decidable c] {y : Eval α} (hx : Plain R x P)
    (hy : Plain R y P) : Plain R (if c then x else y) P := by
  split
  · exact hx
  · exact hy

theorem Plain.check {c : Prop} [Decidable c] {e : Fault} {f : PUnit → Eval α}
    (he : e ≠ .zeroDivision) (h : Plain R (f ⟨⟩) P) :
    Plain R (if c then fail e >>= f else f ⟨⟩) P :=
  Plain.ite (plain_fail_bind he) h

theorem Plain.read {f : Machine → Eval α} (hf : ∀ s m, f (m.within s) = f m)
    (h : ∀ m, GoodStore R m.store → Plain R (f m) P) : Plain R (get >>= f) P := by
  intro m hm
  obtain ⟨hstore, hquiet, hsame⟩ := h m hm m hm
  refine ⟨hstore, hquiet, fun s => ?_⟩
  change f (m.within s) _ = mapState _ (f m m)
  rw [hf]
  exact hsame s

theorem plain_lift {r : Result α} (h : Yields false P r) : Plain R (lift r) P := by
  cases r with
  | ok a => exact plain_pure h
  | error f => exact plain_fail fun hf => absurd (h hf) Bool.false_ne_true

theorem plain_mapM : ∀ {as : List α}, (∀ a ∈ as, Plain R (f a) Q) →
    Plain R (as.mapM f) fun bs => ∀ b ∈ bs, Q b
  | [], _ => plain_pure fun _ hb => absurd hb List.not_mem_nil
  | a :: as, h => by
    rw [List.mapM_cons]
    refine (h a List.mem_cons_self).bind fun b hb => ?_
    refine (plain_mapM fun c hc => h c (List.mem_cons_of_mem _ hc)).bind fun bs hbs => ?_
    exact plain_pure fun c hc => (List.mem_cons.mp hc).elim (fun h => h ▸ hb) (hbs c)

end Rules

/-! ### The store -/

section Store

variable {R : Reach} {r : Ref} {k v : Value}

theorem plain_modifyStore {f : Store → Store} (h : ∀ s, GoodStore R s → GoodStore R (f s)) :
    Plain R (modifyStore f) Anything :=
  fun _ hm => ⟨h _ hm, trivial, fun _ => rfl⟩

theorem plain_modifyTable {f : Table → Table}
    (h : ∀ t, AllGood R t.contents → AllGood R (f t).contents) :
    Plain R (modifyTable r f) Anything :=
  plain_modifyStore fun _ hs => hs.updateTable h

theorem plain_put (hk : Good R k) (hv : Good R v) : Plain R (modifyTable r (·.put k v)) Anything :=
  plain_modifyTable fun _ ht => ht.put hk hv

theorem plain_alloc {c : Cell} (h : AllGood R c.contents) : Plain R (alloc c) (Good R) :=
  fun _ hm => ⟨hm.alloc h, hm.good_alloc (c := c), fun _ => rfl⟩

theorem plain_newDummy : Plain R newDummy (Good R) := plain_alloc allGood_contents_empty

theorem plain_tableOf (hr : R.cell r) : Plain R (tableOf r) fun t => AllGood R t.contents :=
  Plain.read (fun _ _ => rfl) fun _ hm => plain_pure (hm.table hr)

theorem plain_printLine (s : String) : Plain R (printLine s) Anything :=
  fun _ hm => ⟨hm, trivial, fun _ => rfl⟩

theorem plain_displayed (v : Value) : Plain R (displayed v) Anything :=
  Plain.read (fun _ _ => rfl) fun _ _ => plain_lift (yields_display v)

end Store

/-! ### Operations that look at closures alone -/

def Machine.among (scopes : Array Scope) (evaluators : Array Evaluator) (active : Nat)
    (m : Machine) : Machine :=
  m.within { m.surroundings with scopes, evaluators, active }

/-- Does the same with all scopes and evaluators and leaves them alone. -/
def ScopeBlind {α : Type} (x : Eval α) : Prop := ∀ scopes evaluators active m,
  x (m.among scopes evaluators active) = mapState (Machine.among scopes evaluators active) (x m)

/-- What does the same in all surroundings leaves the closures at the end as they were at the
start, so other scopes and evaluators alone change nothing else. -/
theorem among_of_within {α : Type} {x : Eval α} {m : Machine}
    (h : ∀ s, x (m.within s) = mapState (Machine.within s) (x m)) (scopes : Array Scope)
    (evaluators : Array Evaluator) (active : Nat) :
    x (m.among scopes evaluators active) =
      mapState (Machine.among scopes evaluators active) (x m) := by
  have hown : x m = mapState (Machine.within m.surroundings) (x m) := h m.surroundings
  refine (h { m.surroundings with scopes, evaluators, active }).trans ?_
  cases hx : x m with
  | ok a n =>
    rw [hx] at hown
    injection hown with _ hn
    rw [hn]
    rfl
  | error e n =>
    rw [hx] at hown
    injection hown with _ hn
    rw [hn]
    rfl

theorem scopeBlind_modifyClosure (label : Nat) (f : Closure → Closure) :
    ScopeBlind (modifyClosure label f) := fun _ _ _ _ => rfl

end WikiFeed.Prefab

import WikiFeed.Prefab.Machine
import WikiFeed.Proofs.Lua.Tables
import WikiFeed.Proofs.Places
import WikiFeed.Record.Machine

/-! # Chains of scopes

Names are looked up from a scope outward, as long as a scope has a parent that is older than itself.
What holds of a scope and goes over to its parent holds of the whole chain (`forall_mem_chain`), and
all scopes of a chain but the last one have a parent (`chain_eq_append`).

Lookups and assignments are loops of their own: a lookup tries the outermost scope like any other
one, an assignment of the prefab evaluator stops there without a look at its names, and one of the
record evaluator asks for the scope of a name and catches the failure. They all come to the first
scope of the chain that binds the name, or to the outermost one (`lookup?_eq`, `assign_eq_define`,
`binder_eq`). So a value that is assigned is the one that is found next, and nothing else changes
(`oneBinding_define`, `assign_changes_one_binding`). -/

namespace WikiFeed.Lua

theorem Table.contains_eq (t : Table) (k : Value) : t.contains k = (t.get? k).isSome :=
  Option.isSome_map.symm

namespace Scoped

open List
open Places (getD_modify getD_push)

variable {σ : Type} [Inhabited σ] [Scoped σ] {scopes scopes' : Array σ} {i : ScopeId}

theorem outer?_isSome_iff : (outer? scopes i).isSome ↔
    ∃ p, parent (scopes.getD i default) = some p ∧ p < i := by
  unfold outer?
  cases parent (scopes.getD i default) with
  | none => simp
  | some p =>
    by_cases h : p < i
    · simp [h]
    · simp [h]

section Chains

variable {p : { p : ScopeId // p < i }}

theorem parent_of_outer? (h : outer? scopes i = some p) :
    parent (scopes.getD i default) = some p.1 := by
  obtain ⟨q, hq, hlt⟩ := Option.bind_eq_some_iff.mp h
  split at hlt
  · cases hlt
    exact hq
  · nomatch hlt

theorem chain_of_some (h : outer? scopes i = some p) :
    chain scopes i = i :: chain scopes p := by
  rw [chain, h]

theorem chain_of_none (h : outer? scopes i = none) : chain scopes i = [i] := by
  rw [chain, h]

theorem outermost_of_some (h : outer? scopes i = some p) :
    outermost scopes i = outermost scopes p := by
  rw [outermost, h]

theorem outermost_of_none (h : outer? scopes i = none) : outermost scopes i = i := by
  rw [outermost, h]

/-- Induction along a chain: on a scope, with what holds of its parent. -/
theorem chain_induction (scopes : Array σ) {P : ScopeId → Prop}
    (hlast : ∀ i, outer? scopes i = none → P i)
    (hstep : ∀ i (p : { p : ScopeId // p < i }), outer? scopes i = some p → P p → P i)
    (i : ScopeId) : P i := by
  induction i using Nat.strongRecOn with
  | _ i ih =>
    cases h : outer? scopes i with
    | none => exact hlast i h
    | some p => exact hstep i p h (ih p p.2)

theorem forall_mem_chain {P : ScopeId → Prop} (hi : P i)
    (hstep : ∀ j (p : { p : ScopeId // p < j }), P j → outer? scopes j = some p → P p) :
    ∀ j ∈ chain scopes i, P j := by
  induction i using chain_induction scopes with
  | hlast i h =>
    rw [chain_of_none h]
    exact forall_mem_singleton.mpr hi
  | hstep i p h ih =>
    rw [chain_of_some h]
    exact forall_mem_cons.mpr ⟨hi, ih (hstep i p hi h)⟩

theorem le_of_mem_chain : ∀ j ∈ chain scopes i, j ≤ i :=
  forall_mem_chain (Nat.le_refl i) fun _ p hj _ => Nat.le_trans (Nat.le_of_lt p.2) hj

/-- All scopes of a chain have a parent, but the outermost one. -/
theorem chain_eq_append (scopes : Array σ) (i : ScopeId) :
    ∃ inner, chain scopes i = inner ++ [outermost scopes i] ∧
      (∀ j ∈ inner, (outer? scopes j).isSome) ∧ outer? scopes (outermost scopes i) = none := by
  induction i using chain_induction scopes with
  | hlast i h =>
    rw [chain_of_none h, outermost_of_none h]
    exact ⟨[], rfl, by simp, h⟩
  | hstep i p h ih =>
    obtain ⟨inner, hrest, hinner, hlast⟩ := ih
    rw [chain_of_some h, outermost_of_some h, hrest]
    refine ⟨i :: inner, rfl, forall_mem_cons.mpr ⟨?_, hinner⟩, hlast⟩
    rw [h]
    rfl

theorem chain_congr
    (h : ∀ j ≤ i, parent (scopes'.getD j default) = parent (scopes.getD j default)) :
    chain scopes' i = chain scopes i ∧ outermost scopes' i = outermost scopes i := by
  have houter (j : ScopeId) (hj : j ≤ i) : outer? scopes' j = outer? scopes j := by
    rw [outer?, outer?, h j hj]
  clear h
  induction i using chain_induction scopes with
  | hlast i hi =>
    have hi' := (houter i (Nat.le_refl i)).trans hi
    exact ⟨by rw [chain_of_none hi, chain_of_none hi'],
      by rw [outermost_of_none hi, outermost_of_none hi']⟩
  | hstep i p hi ih =>
    have hi' := (houter i (Nat.le_refl i)).trans hi
    obtain ⟨hchain, hout⟩ := ih fun j hj => houter j (Nat.le_trans hj (Nat.le_of_lt p.2))
    exact ⟨by rw [chain_of_some hi, chain_of_some hi', hchain],
      by rw [outermost_of_some hi, outermost_of_some hi', hout]⟩

end Chains

/-! ### Values of names -/

/-- The first scope of a chain that binds a name. -/
def binder? (scopes : Array σ) (i : ScopeId) (name : Value) : Option ScopeId :=
  (chain scopes i).find? (bound scopes name)

/-- The scope that an assignment to a name changes: the first one of a chain that binds the name, or
the outermost one. -/
def target (scopes : Array σ) (i : ScopeId) (name : Value) : ScopeId :=
  (binder? scopes i name).getD (outermost scopes i)

section Names

variable {name : Value} {p : { p : ScopeId // p < i }}

theorem binder?_of_some (h : outer? scopes i = some p) : binder? scopes i name =
    if bound scopes name i then some i else binder? scopes p name := by
  rw [binder?, chain_of_some h, find?_cons]
  cases bound scopes name i <;> rfl

theorem binder?_of_none (h : outer? scopes i = none) : binder? scopes i name =
    if bound scopes name i then some i else none := by
  rw [binder?, chain_of_none h, find?_cons]
  cases bound scopes name i <;> rfl

/-- A lookup finds the value of the first scope of a chain that binds the name. -/
theorem lookup?_eq (scopes : Array σ) (i : ScopeId) (name : Value) : lookup? scopes i name =
    (binder? scopes i name).map fun s => (varsOf scopes s).get name := by
  induction i using chain_induction scopes with
  | hlast i h =>
    rw [lookup?, h, binder?_of_none h]
    cases bound scopes name i <;> rfl
  | hstep i p h ih =>
    rw [lookup?, h, binder?_of_some h]
    cases bound scopes name i with
    | true => rfl
    | false => exact ih

theorem lookup?_of_some (h : outer? scopes i = some p) : lookup? scopes i name =
    ((varsOf scopes i).get? name).or (lookup? scopes p name) := by
  rw [lookup?, h, bound, Table.contains_eq, Table.get]
  cases (varsOf scopes i).get? name <;> rfl

theorem lookup?_of_none (h : outer? scopes i = none) :
    lookup? scopes i name = (varsOf scopes i).get? name := by
  rw [lookup?, h, bound, Table.contains_eq, Table.get]
  cases (varsOf scopes i).get? name <;> rfl

theorem lookup?_congr (houter : ∀ j ≤ i, outer? scopes' j = outer? scopes j)
    (hvars : ∀ j ≤ i, (varsOf scopes' j).get? name = (varsOf scopes j).get? name) :
    lookup? scopes' i name = lookup? scopes i name := by
  induction i using chain_induction scopes with
  | hlast i h =>
    rw [lookup?_of_none h, lookup?_of_none ((houter i (Nat.le_refl i)).trans h),
      hvars i (Nat.le_refl i)]
  | hstep i p h ih =>
    have hle {j : ScopeId} (hj : j ≤ p) : j ≤ i := Nat.le_trans hj (Nat.le_of_lt p.2)
    rw [lookup?_of_some h, lookup?_of_some ((houter i (Nat.le_refl i)).trans h),
      hvars i (Nat.le_refl i), ih (fun j hj => houter j (hle hj)) fun j hj => hvars j (hle hj)]

/-- A new scope that binds nothing shows the names of its parent. -/
theorem lookup?_push {around : ScopeId} (hlt : around < scopes.size) {s : σ}
    (hs : parent s = some around) (hvars : vars s = .empty) (name : Value) :
    lookup? (scopes.push s) scopes.size name = lookup? scopes around name := by
  have hget := getD_push scopes s (d := default)
  have houter : outer? (scopes.push s) scopes.size = some ⟨around, hlt⟩ := by
    rw [outer?, hget, if_pos rfl, hs]
    exact dif_pos hlt
  have hempty : (varsOf (scopes.push s) scopes.size).get? name = none := by
    rw [varsOf, hget, if_pos rfl, hvars]
    rfl
  have hold {j : ScopeId} (hj : j ≤ around) :
      (scopes.push s).getD j default = scopes.getD j default := by
    rw [hget, if_neg (Nat.ne_of_lt (Nat.lt_of_le_of_lt hj hlt))]
  rw [lookup?_of_some houter, hempty, Option.none_or]
  exact lookup?_congr (fun j hj => by rw [outer?, outer?, hold hj])
    fun j hj => by rw [varsOf, varsOf, hold hj]

theorem target_of_some (h : outer? scopes i = some p) : target scopes i name =
    if bound scopes name i then i else target scopes p name := by
  rw [target, binder?_of_some h, outermost_of_some h]
  cases bound scopes name i <;> rfl

theorem target_of_none (h : outer? scopes i = none) : target scopes i name = i := by
  rw [target, binder?_of_none h, outermost_of_none h]
  cases bound scopes name i <;> rfl

/-- The place of the scope that an assignment changes, and what a lookup finds there. -/
theorem target_place (scopes : Array σ) (i : ScopeId) (name : Value) :
    ∃ inner rest, chain scopes i = inner ++ target scopes i name :: rest ∧
      (∀ s ∈ inner, (varsOf scopes s).get? name = none) ∧
      ((varsOf scopes (target scopes i name)).get? name = none → rest = []) ∧
      lookup? scopes i name = (varsOf scopes (target scopes i name)).get? name := by
  induction i using chain_induction scopes with
  | hlast i h =>
    rw [target_of_none h, chain_of_none h]
    exact ⟨[], [], rfl, by simp, fun _ => rfl, lookup?_of_none h⟩
  | hstep i p h ih =>
    rw [target_of_some h, bound, Table.contains_eq, chain_of_some h, lookup?_of_some h]
    cases hv : (varsOf scopes i).get? name with
    | some w => exact ⟨[], chain scopes p, rfl, by simp, by simp [hv], by simp [hv]⟩
    | none =>
      obtain ⟨inner, rest, hchain, hinner, hlast, hread⟩ := ih
      refine ⟨i :: inner, rest, ?_, forall_mem_cons.mpr ⟨hv, hinner⟩, hlast, hread⟩
      exact congrArg (i :: ·) hchain

theorem target_mem_chain (scopes : Array σ) (i : ScopeId) (name : Value) :
    target scopes i name ∈ chain scopes i := by
  obtain ⟨inner, rest, hchain, -⟩ := target_place scopes i name
  generalize target scopes i name = s at hchain ⊢
  rw [hchain]
  exact mem_append_right inner mem_cons_self

theorem target_le (scopes : Array σ) (i : ScopeId) (name : Value) : target scopes i name ≤ i :=
  le_of_mem_chain _ (target_mem_chain scopes i name)

end Names

/-! ### Definitions of names -/

theorem getD_define (scopes : Array σ) (i j : ScopeId) (name v : Value) :
    (define scopes i name v).getD j default =
      if i = j ∧ j < scopes.size then
        withVars (scopes.getD j default) ((varsOf scopes j).put name v)
      else scopes.getD j default :=
  getD_modify scopes i j fun s => withVars s ((vars s).put name v)

@[simp]
theorem size_define (scopes : Array σ) (i : ScopeId) (name v : Value) :
    (define scopes i name v).size = scopes.size := Array.size_modify

theorem parent_define (scopes : Array σ) (i j : ScopeId) (name v : Value) :
    parent ((define scopes i name v).getD j default) = parent (scopes.getD j default) := by
  rw [getD_define]
  split
  · exact parent_withVars _ _
  · rfl

theorem outer?_define (scopes : Array σ) (i j : ScopeId) (name v : Value) :
    outer? (define scopes i name v) j = outer? scopes j := by
  rw [outer?, outer?, parent_define]

theorem varsOf_define (scopes : Array σ) (i j : ScopeId) (name v : Value) :
    varsOf (define scopes i name v) j =
      if i = j ∧ j < scopes.size then (varsOf scopes j).put name v else varsOf scopes j := by
  rw [varsOf, getD_define]
  split
  · exact vars_withVars _ _
  · rfl

variable {name : String} {v : Value}

theorem get?_define (hi : i < scopes.size) (s : ScopeId) (other : String) :
    (varsOf (define scopes i (.str name) v) s).get? (.str other) =
      if s = i ∧ other = name then some v else (varsOf scopes s).get? (.str other) := by
  rw [varsOf_define]
  by_cases hs : i = s
  · subst hs
    rw [if_pos ⟨rfl, hi⟩, Table.get?_put_str]
    exact if_congr ⟨fun h => ⟨rfl, h.symm⟩, fun h => h.2.symm⟩ rfl rfl
  · rw [if_neg fun h => hs h.1, if_neg fun h => hs h.1.symm]

theorem lookup?_define_target (hi : i < scopes.size) :
    lookup? (define scopes (target scopes i (.str name)) (.str name) v) i (.str name) = some v := by
  induction i using chain_induction scopes with
  | hlast i h =>
    rw [target_of_none h, lookup?_of_none ((outer?_define ..).trans h), get?_define hi,
      if_pos ⟨rfl, rfl⟩]
  | hstep i p h ih =>
    have hp : p < scopes.size := Nat.lt_trans p.2 hi
    have hle := target_le scopes p (.str name)
    rw [target_of_some h, bound, Table.contains_eq, lookup?_of_some ((outer?_define ..).trans h)]
    cases hv : (varsOf scopes i).get? (.str name) with
    | some w => rw [Option.isSome_some, if_pos rfl, get?_define hi, if_pos ⟨rfl, rfl⟩]; rfl
    | none =>
      -- the scope that changes is an older one
      have hne : ¬(i = target scopes p (.str name) ∧ name = name) := fun hs =>
        Nat.ne_of_gt (Nat.lt_of_le_of_lt hle p.2) hs.1
      rw [Option.isSome_none, if_neg Bool.false_ne_true, get?_define (Nat.lt_of_le_of_lt hle hp),
        if_neg hne, hv, Option.none_or]
      exact ih hp

/-- **One binding has changed**: the one of `target`, which a lookup from the scope `i` reads. It is
the first scope of the chain that binds the name, or the outermost one if the name is bound nowhere.
Now the name has the value `v`, and all other names have the values that they had. -/
structure OneBinding (scopes scopes' : Array σ) (i : ScopeId) (name : String) (v : Value)
    (target : ScopeId) : Prop where
  place : ∃ inner outer, chain scopes i = inner ++ target :: outer ∧
    (∀ s ∈ inner, (varsOf scopes s).get? (.str name) = none) ∧
    ((varsOf scopes target).get? (.str name) = none → outer = [])
  read : lookup? scopes i (.str name) = (varsOf scopes target).get? (.str name)
  chains : ∀ s, chain scopes' s = chain scopes s
  bindings : ∀ s other, (varsOf scopes' s).get? (.str other) =
    if s = target ∧ other = name then some v else (varsOf scopes s).get? (.str other)
  value : lookup? scopes' i (.str name) = some v
  others : ∀ s other, other ≠ name → lookup? scopes' s (.str other) = lookup? scopes s (.str other)

theorem oneBinding_define (hi : i < scopes.size) : OneBinding scopes
    (define scopes (target scopes i (.str name)) (.str name) v) i name v
    (target scopes i (.str name)) := by
  obtain ⟨inner, rest, hchain, hinner, hlast, hread⟩ := target_place scopes i (.str name)
  have hget := @get?_define σ _ _ scopes (target scopes i (.str name)) name v
    (Nat.lt_of_le_of_lt (target_le scopes i (.str name)) hi)
  refine ⟨⟨inner, rest, hchain, hinner, hlast⟩, hread, fun s => ?_, hget,
    lookup?_define_target hi, fun s other hne => ?_⟩
  · exact (chain_congr fun j _ => parent_define _ _ j _ _).1
  · exact lookup?_congr (fun j _ => outer?_define _ _ j _ _)
      fun j _ => by rw [hget, if_neg fun h => hne h.2]

end Scoped

end WikiFeed.Lua

/-! ### Assignments -/

namespace WikiFeed

open Lua (Value)
open Lua.Scoped (OneBinding binder? binder?_of_none binder?_of_some chain_induction
  oneBinding_define target target_of_none target_of_some)

/-- An assignment changes the scope that a lookup reads, though it does not look at the names of the
outermost scope. -/
theorem Prefab.assign_eq_define (scopes : Array Scope) (i : ScopeId) (name v : Value) :
    assign scopes i name v = define scopes (target scopes i name) name v := by
  induction i using chain_induction scopes with
  | hlast i h => rw [assign, h, target_of_none h]
  | hstep i p h ih =>
    rw [assign, h, target_of_some h]
    simp only [ih]
    split <;> rfl

theorem Record.binder_eq (scopes : Array Scope) (i : ScopeId) (name : String) :
    binder scopes i name = match binder? scopes i (.str name) with
      | some s => .ok s
      | none => .error (.notFound name) := by
  induction i using chain_induction scopes with
  | hlast i h =>
    rw [binder, h, binder?_of_none h]
    cases bound scopes (.str name) i <;> rfl
  | hstep i p h ih =>
    rw [binder, h, binder?_of_some h]
    cases bound scopes (.str name) i with
    | true => rfl
    | false => exact ih

/-- An assignment changes the scope that a lookup reads. -/
theorem Record.assign_eq_define (scopes : Array Scope) (i : ScopeId) (name : String) (v : Value) :
    assign scopes i name v = define scopes (target scopes i (.str name)) (.str name) v := by
  rw [assign, binder_eq, target]
  cases binder? scopes i (.str name) <;> rfl

/-- **Assignments change one binding**, in both evaluators: the one that a lookup reads, or a new
one in the outermost scope if there is none. The name then has the value, and all other names have
the values that they had, from every scope. -/
theorem assign_changes_one_binding (name : String) (v : Value) :
    (∀ (scopes : Array Prefab.Scope) (i : Prefab.ScopeId), i < scopes.size → ∃ target,
      OneBinding scopes (Prefab.assign scopes i (.str name) v) i name v target) ∧
    ∀ (scopes : Array Record.Scope) (i : Record.ScopeId), i < scopes.size → ∃ target,
      OneBinding scopes (Record.assign scopes i name v) i name v target := by
  constructor
  · intro scopes i hi
    rw [Prefab.assign_eq_define]
    exact ⟨_, oneBinding_define hi⟩
  · intro scopes i hi
    rw [Record.assign_eq_define]
    exact ⟨_, oneBinding_define hi⟩

/-- Of three scopes, each inside the one before, the first binds `x` and the last binds `y`. -/
def Prefab.nestedScopes : Array Prefab.Scope :=
  #[⟨none, none, 1, .ofFields [("x", .int 1)]⟩, ⟨some 0, none, 2, .empty⟩,
    ⟨some 1, none, 3, .ofFields [("y", .int 2)]⟩]

@[inherit_doc Prefab.nestedScopes]
def Record.nestedScopes : Array Record.Scope :=
  #[⟨none, .ofFields [("x", .int 1)]⟩, ⟨some 0, .empty⟩, ⟨some 1, .ofFields [("y", .int 2)]⟩]

theorem assign_changes_one_binding_nestedScopes :
    2 < Prefab.nestedScopes.size ∧ 2 < Record.nestedScopes.size ∧
    Prefab.lookup? (Prefab.assign Prefab.nestedScopes 2 (.str "x") (.int 7)) 2 (.str "x") =
      some (.int 7) ∧
    Record.lookup? (Record.assign Record.nestedScopes 2 "x" (.int 7)) 2 (.str "x") =
      some (.int 7) := by
  obtain ⟨hprefab, hrecord⟩ := assign_changes_one_binding "x" (.int 7)
  obtain ⟨_, hp⟩ := hprefab Prefab.nestedScopes 2 (by decide)
  obtain ⟨_, hr⟩ := hrecord Record.nestedScopes 2 (by decide)
  exact ⟨by decide, by decide, hp.value, hr.value⟩

end WikiFeed

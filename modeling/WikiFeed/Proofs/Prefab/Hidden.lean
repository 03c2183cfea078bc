import WikiFeed.Proofs.Prefab.Sound

/-! # Scopes out of sight

Let `L` be scopes whose variables are not to be looked at. `Machine.strip L m` is the state `m`
without these variables.

* `Beyond L m n`: the state `n` comes later than `m` and has the same variables in the scopes `L`.
* `Around p m`: evaluation takes place at `p`, that is in a scope from which none of some names
  leads to a variable out of sight. -/

namespace WikiFeed.Prefab

open Lua Places List
open Lua.Scoped (binder? chain_congr chain_eq_append getD_define le_of_mem_chain lookup?_eq
  outer?_isSome_iff target varsOf_define)

/-! ### States without some variables -/

def strip (L : List ScopeId) (scopes : Array Scope) : Array Scope :=
  scopes.mapIdx fun i s => if i ∈ L then { s with vars := .empty } else s

def Machine.strip (L : List ScopeId) (m : Machine) : Machine :=
  { m with scopes := Prefab.strip L m.scopes }

section Strip

variable {L : List ScopeId} {scopes : Array Scope} {i : ScopeId} {name v : Value}

theorem getD_strip (L : List ScopeId) (scopes : Array Scope) (i : ScopeId) :
    (strip L scopes).getD i default =
      if i ∈ L then { scopes.getD i default with vars := .empty } else scopes.getD i default := by
  by_cases hi : i < scopes.size
  · simp [strip, Array.getD, hi]
  · rw [getD_of_size_le (by simpa [strip] using hi), getD_of_size_le (Nat.le_of_not_lt hi)]
    split <;> rfl

theorem parent_strip : ((strip L scopes).getD i default).parent =
    (scopes.getD i default).parent := by
  rw [getD_strip]
  split <;> rfl

theorem owner_strip : ((strip L scopes).getD i default).owner = (scopes.getD i default).owner := by
  rw [getD_strip]
  split <;> rfl

@[simp]
theorem size_strip (L : List ScopeId) (scopes : Array Scope) :
    (strip L scopes).size = scopes.size := by
  simp [strip]

theorem bound_strip (h : i ∉ L) : bound (strip L scopes) name i = bound scopes name i := by
  rw [bound, bound, varsOf, varsOf, getD_strip, if_neg h]

theorem not_bound_strip (h : i ∈ L) : bound (strip L scopes) name i = false := by
  rw [bound, varsOf, getD_strip, if_pos h]
  rfl

theorem chain_strip : chain (strip L scopes) i = chain scopes i :=
  (chain_congr fun _ _ => parent_strip).1

theorem outermost_strip : outermost (strip L scopes) i = outermost scopes i :=
  (chain_congr fun _ _ => parent_strip).2

theorem binder?_strip (h : ∀ l, binder? scopes i name = some l → l ∉ L) :
    binder? (strip L scopes) i name = binder? scopes i name := by
  unfold binder? at h ⊢
  rw [chain_strip]
  generalize chain scopes i = js at h ⊢
  induction js with
  | nil => rfl
  | cons j js ih =>
    rw [find?_cons, find?_cons]
    by_cases hj : j ∈ L
    · -- a scope without its variables binds nothing, and did not bind the name before
      have hfree : bound scopes name j = false := by
        by_contra hb
        rw [Bool.not_eq_false] at hb
        exact h j (by rw [find?_cons, hb]) hj
      rw [not_bound_strip hj, hfree]
      exact ih fun l hl => h l (by rw [find?_cons, hfree]; exact hl)
    · rw [bound_strip hj]
      cases hb : bound scopes name j with
      | true => rfl
      | false => exact ih fun l hl => h l (by rw [find?_cons, hb]; exact hl)

theorem target_strip (h : ∀ l, binder? scopes i name = some l → l ∉ L) :
    target (strip L scopes) i name = target scopes i name := by
  rw [target, target, binder?_strip h, outermost_strip]

theorem lookup?_strip (h : ∀ l, binder? scopes i name = some l → l ∉ L) :
    lookup? (strip L scopes) i name = lookup? scopes i name := by
  rw [lookup?_eq, lookup?_eq, binder?_strip h]
  cases hb : binder? scopes i name with
  | none => rfl
  | some l => rw [Option.map_some, Option.map_some, varsOf, varsOf, getD_strip, if_neg (h l hb)]

theorem define_strip (hi : i ∉ L) :
    define (strip L scopes) i name v = strip L (define scopes i name v) := by
  refine Array.ext (by simp [define]) fun j _ _ => ?_
  by_cases hij : i = j
  · subst hij
    simp [define, strip, Array.getElem_modify, hi]
  · simp [define, strip, Array.getElem_modify, hij]

theorem push_strip (h : scopes.size ∉ L) (s : Scope) :
    (strip L scopes).push s = strip L (scopes.push s) := by
  refine Array.ext (by simp) fun j _ _ => ?_
  by_cases hj : j < scopes.size
  · simp [strip, Array.getElem_push, hj]
  · have hlast : j = scopes.size := by
      have : j < scopes.size + 1 := by simpa using ‹j < ((strip L scopes).push s).size›
      omega
    subst hlast
    simp [strip, h]

end Strip

/-! ### Later states -/

/-- A later state that has the same variables in the scopes `L`. Scopes are only added, keep their
parents and lose no name. -/
structure Beyond (L : List ScopeId) (m n : Machine) : Prop where
  older : Older m n
  parent_eq : ∀ i < m.scopes.size,
    (n.scopes.getD i default).parent = (m.scopes.getD i default).parent
  bound_of : ∀ i < m.scopes.size, ∀ name, bound m.scopes name i = true →
    bound n.scopes name i = true
  vars_eq : ∀ l ∈ L, l < m.scopes.size → varsOf n.scopes l = varsOf m.scopes l

/-- Each of the scopes `L` has a parent, so it is not the outermost one. -/
structure Inner (L : List ScopeId) (m : Machine) : Prop where
  parent_lt : ∀ l ∈ L, ∃ p, (m.scopes.getD l default).parent = some p ∧ p < l

/-- Where evaluation takes place: the scope, the callers, and names none of which leads to a
variable out of sight. -/
structure Place where
  here : ScopeId
  stack : List ScopeId
  names : String → Prop

def Place.At [Watch] (p : Place) (i : ScopeId) : Prop := Watch.follows = true → i = p.here

/-- Evaluation takes place at `p`. Its callers are known only if all syntax has to be tame. -/
structure Around [Watch] (p : Place) (m : Machine) : Prop extends Inner hidden m where
  active_lt : Watch.follows = true → m.active < m.evaluators.size
  here_eq : p.At m.evaluator.scope
  stack_eq : Watch.tame = true → m.evaluator.stack = p.stack
  here_lt : hidden = [] ∨ p.here < m.scopes.size
  clear : ∀ s, p.names s → ∀ l, binder? m.scopes p.here (.str s) = some l → l ∉ hidden

section Later

variable {L : List ScopeId} {h : ScopeId} {m n k : Machine}

theorem Beyond.refl (L : List ScopeId) (m : Machine) : Beyond L m m :=
  ⟨.refl m, fun _ _ => rfl, fun _ _ _ hb => hb, fun _ _ _ => rfl⟩

theorem Beyond.trans (h₁ : Beyond L m n) (h₂ : Beyond L n k) : Beyond L m k where
  older := h₁.older.trans h₂.older
  parent_eq i hi := by
    rw [h₂.parent_eq i (Nat.lt_of_lt_of_le hi h₁.older.size_le), h₁.parent_eq i hi]
  bound_of i hi name hb :=
    h₂.bound_of i (Nat.lt_of_lt_of_le hi h₁.older.size_le) name (h₁.bound_of i hi name hb)
  vars_eq l hl hlt := by
    rw [h₂.vars_eq l hl (Nat.lt_of_lt_of_le hlt h₁.older.size_le), h₁.vars_eq l hl hlt]

theorem beyond_of_scopes_eq (L : List ScopeId) (ha : n.active = m.active)
    (he : n.evaluators.size = m.evaluators.size) (hs : n.scopes = m.scopes) : Beyond L m n where
  older := ⟨ha, he, Nat.le_of_eq (by rw [hs]), fun _ _ => by rw [hs]⟩
  parent_eq _ _ := by rw [hs]
  bound_of _ _ _ hb := by rwa [hs]
  vars_eq _ _ _ := by rw [hs]

theorem beyond_adjust (L : List ScopeId) (f : Evaluator → Evaluator) (m : Machine) :
    Beyond L m (m.adjust f) :=
  beyond_of_scopes_eq L rfl (by simp [Machine.adjust]) rfl

theorem beyond_enter (L : List ScopeId) (m : Machine) (o : Nat) (i : ScopeId) :
    Beyond L m (m.enter o i) :=
  beyond_of_scopes_eq L rfl (by simp [Machine.enter]) rfl

theorem beyond_leaveTo (L : List ScopeId) (m : Machine) (p : ScopeId) :
    Beyond L m (m.leaveTo p) := by
  unfold Machine.leaveTo
  split
  · exact .refl L m
  · exact beyond_enter L m _ p

theorem beyond_addScope (L : List ScopeId) (m : Machine) (parent : Option ScopeId)
    (owner : Option Nat) : Beyond L m (m.addScope parent owner) := by
  have hold (i : ScopeId) (hi : i < m.scopes.size) :
      (m.addScope parent owner).scopes.getD i default = m.scopes.getD i default := by
    unfold Machine.addScope
    rw [getD_push, if_neg (Nat.ne_of_lt hi)]
  refine ⟨older_addScope m parent owner, fun i hi => ?_, fun i hi name hb => ?_, fun l _ hlt => ?_⟩
  · rw [hold i hi]
  · rwa [bound, varsOf, hold i hi]
  · rw [varsOf, varsOf, hold l hlt]

theorem contains_put {t : Table} {k name v : Value} (h : t.contains name = true) :
    (t.put k v).contains name = true := by
  by_contra hput
  have hnone : (t.put k v).get? name = none := by
    simpa [Table.contains, Table.get?] using hput
  have hbefore := Table.get?_of_put hnone
  simp [Table.contains, Table.get?] at h hbefore
  simp [hbefore] at h

theorem beyond_define {i : ScopeId} (hi : i ∉ L) (m : Machine) (name v : Value) :
    Beyond L m { m with scopes := define m.scopes i name v } := by
  refine ⟨⟨rfl, rfl, by simp [define], fun j _ => ?_⟩, fun j _ => ?_, fun j _ s hb => ?_,
    fun l hl _ => ?_⟩
  · rw [getD_define]
    split <;> rfl
  · rw [getD_define]
    split <;> rfl
  · rw [bound, varsOf_define]
    split
    · exact contains_put hb
    · exact hb
  · have hne : ¬(i = l ∧ l < m.scopes.size) := fun h => hi (h.1 ▸ hl)
    rw [varsOf_define, if_neg hne]

theorem Inner.lt_size (hm : Inner L m) {l : ScopeId} (hl : l ∈ L) : l < m.scopes.size := by
  obtain ⟨p, hp, -⟩ := hm.parent_lt l hl
  refine Nat.lt_of_not_le fun hle => ?_
  rw [getD_of_size_le hle] at hp
  nomatch hp

theorem Inner.beyond (hm : Inner L m) (hn : Beyond L m n) : Inner L n where
  parent_lt l hl := by
    rw [hn.parent_eq l (hm.lt_size hl)]
    exact hm.parent_lt l hl

/-- A name that leads to no variable of the scopes `L` does not do so later: these have the same
variables as before, and a binding in front of them is not lost. -/
theorem Beyond.clear (hn : Beyond L m n) (hh : h < m.scopes.size) {name : Value}
    (hclear : ∀ l, binder? m.scopes h name = some l → l ∉ L) :
    ∀ l, binder? n.scopes h name = some l → l ∉ L := by
  have hchain : chain n.scopes h = chain m.scopes h :=
    (chain_congr fun j hj => hn.parent_eq j (Nat.lt_of_le_of_lt hj hh)).1
  have hlt (j : ScopeId) (hj : j ∈ chain m.scopes h) : j < m.scopes.size :=
    Nat.lt_of_le_of_lt (le_of_mem_chain j hj) hh
  intro l hl hmem
  unfold binder? at hclear hl
  rw [hchain] at hl
  generalize chain m.scopes h = js at hclear hl hlt
  induction js with
  | nil => nomatch hl
  | cons j js ih =>
    have hj := hlt j mem_cons_self
    rw [find?_cons] at hl
    cases hb : bound m.scopes name j with
    | true =>
      rw [hn.bound_of j hj name hb] at hl
      cases hl
      exact hclear l (by rw [find?_cons, hb]) hmem
    | false =>
      cases hb' : bound n.scopes name j with
      | true =>
        rw [hb'] at hl
        cases hl
        unfold bound at hb hb'
        rw [hn.vars_eq l hmem hj, hb] at hb'
        nomatch hb'
      | false =>
        rw [hb'] at hl
        refine ih (fun l hl => hclear l ?_) hl fun i hi => hlt i (mem_cons_of_mem _ hi)
        rw [find?_cons, hb]
        exact hl

theorem Inner.outermost_not_mem (hm : Inner L m) (i : ScopeId) : outermost m.scopes i ∉ L := by
  obtain ⟨_, -, -, hlast⟩ := chain_eq_append m.scopes i
  intro hmem
  have hsome : (outer? m.scopes (outermost m.scopes i)).isSome :=
    outer?_isSome_iff.mpr (hm.parent_lt _ hmem)
  rw [hlast] at hsome
  nomatch hsome

theorem Inner.size_not_mem (hm : Inner L m) : m.scopes.size ∉ L :=
  fun hl => Nat.lt_irrefl _ (hm.lt_size hl)

theorem addScope_strip (hm : Inner L m) (parent : Option ScopeId) (owner : Option Nat) :
    (m.strip L).addScope parent owner = (m.addScope parent owner).strip L := by
  unfold Machine.addScope Machine.strip
  rw [push_strip hm.size_not_mem]

end Later

section Places

variable [Watch] {p : Place} {m n : Machine} {i : ScopeId} {s : String}

theorem not_mem_hidden (h : Watch.follows = false) (i : ScopeId) : i ∉ hidden :=
  hidden_eq_nil h ▸ not_mem_nil

theorem Place.At.not_mem (hi : p.At i) (hp : p.here ∉ hidden) : i ∉ hidden := by
  cases hf : Watch.follows with
  | true => exact hi hf ▸ hp
  | false => exact not_mem_hidden hf i

theorem around_of_not_follows (h : Watch.follows = false) (p : Place) (m : Machine) :
    Around p m where
  parent_lt l hl := absurd hl (not_mem_hidden h l)
  active_lt hf := nomatch h.symm.trans hf
  here_eq hf := nomatch h.symm.trans hf
  stack_eq ht := nomatch h.symm.trans (Watch.follows_of_tame ht)
  here_lt := .inl (hidden_eq_nil h)
  clear _ _ l _ := not_mem_hidden h l

theorem Around.beyond (hm : Around p m) (hn : Beyond hidden m n) (hhere : p.At n.evaluator.scope)
    (hstack : Watch.tame = true → n.evaluator.stack = p.stack) : Around p n where
  toInner := hm.toInner.beyond hn
  active_lt hf := hn.older.active_lt (hm.active_lt hf)
  here_eq := hhere
  stack_eq := hstack
  here_lt := hm.here_lt.imp_right fun h => Nat.lt_of_lt_of_le h hn.older.size_le
  clear s hs := by
    rcases hm.here_lt with hnone | hlt
    · rw [hnone]
      exact fun _ _ => not_mem_nil
    · exact hn.clear hlt (hm.clear s hs)

theorem Around.of_same (hm : Around p m) (ha : n.active = m.active)
    (he : n.evaluators = m.evaluators) (hs : n.scopes = m.scopes) : Around p n := by
  have hevaluator : n.evaluator = m.evaluator := by
    unfold Machine.evaluator
    rw [ha, he]
  refine hm.beyond (beyond_of_scopes_eq _ ha (by rw [he]) hs) ?_ fun ht => ?_
  · rw [hevaluator]
    exact hm.here_eq
  · rw [hevaluator, hm.stack_eq ht]

theorem Around.clear_at (hm : Around p m) (hi : p.At i) (hs : p.names s) {l : ScopeId}
    (hl : binder? m.scopes i (.str s) = some l) : l ∉ hidden := by
  cases hf : Watch.follows with
  | true => exact hm.clear s hs l (hi hf ▸ hl)
  | false => exact not_mem_hidden hf l

theorem Around.lookup_strip (hm : Around p m) (hi : p.At i) (hs : p.names s) :
    lookup? (m.strip hidden).scopes i (.str s) = lookup? m.scopes i (.str s) :=
  lookup?_strip fun _ hl => hm.clear_at hi hs hl

end Places

end WikiFeed.Prefab

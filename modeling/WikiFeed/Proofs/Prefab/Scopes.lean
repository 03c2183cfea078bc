import WikiFeed.Proofs.Prefab.Visits

/-! # Scopes of prefab scripts

From a state, evaluation can come upon the current scope and its ancestors, their variables, the
results of required files, the contents of objects and the scopes of functions: all that is
`Reached`. If all functions among this and all files that are still required are tame, the state is
sound (`sound_reachOf`), and so an evaluation that ends with a value leaves the evaluator in the
scope it was in, with the same callers; a chunk does so for the scope however it ends
(`evaluation_restores_scope`). -/

namespace WikiFeed.Prefab

open Lua

/-! ### What can be reached -/

inductive Item where
  | scope (i : ScopeId)
  | value (v : Value)

/-- The values that a value gives access to. -/
def Machine.parts (m : Machine) : Value → List Value
  | .tuple xs | .rest xs | .spread xs => xs
  | .object _ r => (m.store.cell r).contents
  | .method self _ => [self]
  | _ => []

/-- What evaluation of a piece of syntax can come upon from a state. -/
inductive Reached (m : Machine) (node : Node) : Item → Prop where
  | here : Reached m node (.scope m.evaluator.scope)
  | given {v : Value} : v ∈ node.values → Reached m node (.value v)
  | required {v : Value} : v ∈ m.modules.contents → Reached m node (.value v)
  | parent {i p : ScopeId} : Reached m node (.scope i) →
      (m.scopes.getD i default).parent = some p → Reached m node (.scope p)
  | binding {i : ScopeId} {v : Value} : Reached m node (.scope i) →
      v ∈ (m.scopes.getD i default).vars.contents → Reached m node (.value v)
  | part {u v : Value} : Reached m node (.value u) → v ∈ m.parts u → Reached m node (.value v)
  | closure {f : Func} {s : ScopeId} : Reached m node (.value (.func f)) →
      (closureIn m f).scope = some s → Reached m node (.scope s)

def tameValue : Value → Bool
  | .func f => f.tame
  | .tree t => t.tame
  | _ => true

/-- The reach of what evaluation can come upon, and of all that is still to come. -/
def reachOf (m : Machine) (node : Node) : Reach where
  scope i := Reached m node (.scope i) ∨ m.scopes.size ≤ i
  cell r := (∃ k, Reached m node (.value (.object k r))) ∨ m.store.cells.size ≤ r
  label l := ∃ f : Func, f.label = l ∧ Reached m node (.value (.func f))
  tame := true

def Machine.withScripts (m : Machine) (files : Option Archive) : Machine :=
  { m with scripts := files }

def TameReach (m : Machine) (node : Node) : Prop :=
  ∀ v, Reached m node (.value v) → tameValue v = true

section Reachable

variable {m : Machine} {node : Node}

mutual

theorem Reached.good (htame : TameReach m node) : ∀ {v : Value}, Reached m node (.value v) →
    Good (reachOf m node) v
  | .tuple _, h | .rest _, h | .spread _, h => Reached.allGood htame fun _ hx => .part h hx
  | .object k _, h => .inl ⟨k, h⟩
  | .func f, h => ⟨⟨f, rfl, h⟩, fun _ => htame _ h⟩
  | .tree _, h => fun _ => htame _ h
  | .method self _, h => Reached.good htame (v := self) (.part h List.mem_cons_self)
  | .nil, _ | .bool _, _ | .int _, _ | .float _, _ | .complex _ _, _ | .str _, _ | .lazy _, _
  | .native _, _ | .module _, _ | .view _ _ _, _ => trivial

theorem Reached.allGood (htame : TameReach m node) : ∀ {vs : List Value},
    (∀ v ∈ vs, Reached m node (.value v)) → AllGood (reachOf m node) vs
  | [], _ => trivial
  | _ :: _, h => ⟨Reached.good htame (h _ List.mem_cons_self),
      Reached.allGood htame fun v hv => h v (List.mem_cons_of_mem _ hv)⟩

end

theorem goodScopes_reachOf (htame : TameReach m node) : GoodScopes (reachOf m node) m.scopes where
  parent i p hi hp := by
    rcases hi with hi | hi
    · exact .inl (hi.parent hp)
    · rw [Places.getD_of_size_le hi] at hp
      nomatch hp
  vars i hi := by
    rcases hi with hi | hi
    · exact Reached.allGood htame fun v hv => hi.binding hv
    · rw [Places.getD_of_size_le hi]
      exact allGood_contents_empty
  fresh _ hi := .inr hi

theorem goodStore_reachOf (htame : TameReach m node) : GoodStore (reachOf m node) m.store where
  contents r hr := by
    rcases hr with ⟨k, hr⟩ | hr
    · exact Reached.allGood htame fun v hv => hr.part hv
    · rw [Store.cell, Places.getD_of_size_le hr]
      exact allGood_contents_empty
  fresh _ hr := .inr hr

theorem sound_reachOf [Watch] (ht : Watch.tame = true) (htame : TameReach m node)
    (hactive : m.active < m.evaluators.size)
    {files : Option Archive}
    (hfiles : ∀ b, Requires (m.withScripts files) b → tameStmts false b = true) :
    Sound (reachOf m node) (m.withScripts files) where
  tame := ht.symm
  all := .inl ht
  active_lt _ := hactive
  here := .inl .here
  scopes := goodScopes_reachOf htame
  store := goodStore_reachOf htame
  closures := by
    rintro l c s ⟨f, rfl, hf⟩ hlookup hs
    refine .inl (hf.closure ?_)
    change ((m.closures.lookup f.label).getD ⟨none, 0⟩).scope = some s
    rw [show m.closures.lookup f.label = some c from hlookup]
    exact hs
  modules := Reached.allGood htame fun _ hv => .required hv
  required b hb _ := hfiles b hb
  homed h hh := nomatch (home_eq_none (Watch.follows_of_tame ht)).symm.trans hh

end Reachable

/-! ### Evaluation -/

/-- The outcome of a run without the files that were at hand. -/
def shelved {α : Type} : EStateM.Result Signal Machine α → EStateM.Result Signal Machine α
  | .ok a n => .ok a (n.withScripts none)
  | .error s n => .error s (n.withScripts none)

/-- Files that are all an evaluation requires: with them in place of the scripts it ends the same
way. The scripts themselves are always enough, fewer files are if the others are not required. -/
def Suffices (files : Option Archive) (depth : Nat) (node : Node) (m : Machine) : Prop :=
  shelved (visitUpTo depth node (m.withScripts files)) = shelved (visitUpTo depth node m)

section Suffices

variable {files : Option Archive} {depth : Nat} {node : Node} {m n : Machine} {v : Value}

theorem finalState_shelved (r : EStateM.Result Signal Machine Value) :
    finalState (shelved r) = (finalState r).withScripts none := by
  cases r <;> rfl

theorem Suffices.active_eq (h : Suffices files depth node m) :
    (finalState (visitUpTo depth node m)).active =
      (finalState (visitUpTo depth node (m.withScripts files))).active := by
  have hfinal := congrArg (fun r => (finalState r).active) h
  rw [finalState_shelved, finalState_shelved] at hfinal
  exact hfinal.symm

theorem Suffices.evaluator_eq (h : Suffices files depth node m) :
    (finalState (visitUpTo depth node m)).evaluator =
      (finalState (visitUpTo depth node (m.withScripts files))).evaluator := by
  have hfinal := congrArg (fun r => (finalState r).evaluator) h
  rw [finalState_shelved, finalState_shelved] at hfinal
  exact hfinal.symm

theorem Suffices.ok (h : Suffices files depth node m) (hrun : visitUpTo depth node m = .ok v n) :
    ∃ n', visitUpTo depth node (m.withScripts files) = .ok v n' := by
  unfold Suffices at h
  rw [hrun] at h
  rcases hrun' : visitUpTo depth node (m.withScripts files) with ⟨v', n'⟩ | ⟨s, n'⟩
  · rw [hrun'] at h
    have hv : v' = v := by
      injection h
    exact ⟨n', by rw [hv]⟩
  · rw [hrun'] at h
    nomatch h

end Suffices

/-! ### Chunks -/

section Chunks

variable {m : Machine} {b : Block}

theorem finalState_returned (body : Eval Value) (m : Machine) :
    finalState (returned body m) = finalState (body m) := by
  rw [returned_eq]
  rcases body m with _ | ⟨_ | _ | _, _⟩ <;> rfl

theorem finalState_visitBlock (rec : Visitor) (b : Block) (m : Machine) :
    finalState (visitBlock rec b m) = finalState (inBlock (do
      modifyCurrent fun e => { e with firstBlock := e.firstBlock.or (some e.scope) }
      visitStmts rec b) m) := by
  unfold visitBlock
  simp only [bind, EStateM.bind]
  split <;> rename_i heq <;> rw [heq] <;> rfl

theorem visitStep_chunk (rec : Visitor) (b : Block) (m : Machine) :
    visitStep rec (.chunk b) m = returned (rec (.block b)) m := by
  change (if !m.evaluator.passing then carryOut rec (.chunk b) else carryOut rec (.chunk b)) m = _
  rw [ite_self]
  rfl

theorem visitStep_block (rec : Visitor) (b : Block) (m : Machine) :
    visitStep rec (.block b) m = visitBlock rec b m := by
  change (if !m.evaluator.passing then carryOut rec (.block b) else carryOut rec (.block b)) m = _
  rw [ite_self]
  rfl

theorem scope_visitUpTo_chunk [Watch] {R : Reach} {p : Place} (depth : Nat) (ht : Watch.tame = true)
    (hm : Sound R m) (hp : Around p m) (hrec : ∀ depth, Visits (visitUpTo depth))
    (hb : tameStmts false b = true)
    (howner : (m.scopes.getD m.evaluator.scope default).owner = some m.active) :
    (finalState (visitUpTo depth (.chunk b) m)).evaluator.scope = m.evaluator.scope := by
  match depth with
  | 0 => rfl
  | depth + 1 =>
    rw [visitUpTo, visitStep_chunk, finalState_returned]
    match depth with
    | 0 => rfl
    | depth + 1 =>
      rw [visitUpTo, visitStep_block, finalState_visitBlock]
      exact scope_inBlock ht hm hp (fun _ => behaves_insideBlock (hrec depth) fun _ => hb) howner

end Chunks

/-! ### A small state -/

def firstOnly : Func :=
  .mk 0 .anonymous []
    [.forin ["k", "v"]
      [.call (.name "pairs") [.table [.mk (.number (.int 1)) (.number (.int 1)) true]]] [.break],
     .return [.number (.int 1)]]

def failing : Func := .mk 1 .anonymous [] [.forin ["k"] [.number (.int 1)] []]

def callsNamed : Node := .chunk [.expr (.call (.name "f") [])]

def callsFailing : Node := .chunk [.expr (.call (.function failing) [])]

def sample : Machine :=
  { (default : Machine) with
    scopes := #[⟨none, some 0, 0, .ofFields [("f", .func firstOnly)]⟩]
    closures := [(0, ⟨some 0, 0⟩)]
    evaluators := #[⟨0, [], none, .plain, false⟩]
    scripts := some ⟨[("scripts/a.lua", "break".toUTF8.toList)]⟩ }

theorem reached_sample {b : Block} {x : Item} (h : Reached sample (.chunk b) x) :
    x = .scope 0 ∨ x = .value (.str "f") ∨ x = .value (.func firstOnly) := by
  induction h with
  | here => exact .inl rfl
  | given hv => nomatch hv
  | required hv => nomatch hv
  | parent _ hp ih =>
    rcases ih with ih | ih | ih
    · cases ih
      nomatch hp
    · nomatch ih
    · nomatch ih
  | binding _ hv ih =>
    rcases ih with ih | ih | ih
    · cases ih
      have hmem : _ ∈ [Value.str "f", .func firstOnly] := hv
      simpa using hmem
    · nomatch ih
    · nomatch ih
  | part _ hv ih =>
    rcases ih with ih | ih | ih
    · nomatch ih
    · cases ih
      nomatch hv
    · cases ih
      nomatch hv
  | closure _ hs ih =>
    rcases ih with ih | ih | ih
    · nomatch ih
    · nomatch ih
    · cases ih
      have hscope : some 0 = some _ := hs
      cases hscope
      exact .inl rfl

theorem tameReach_sample (b : Block) : TameReach sample (.chunk b) := by
  intro v hv
  rcases reached_sample hv with h | h | h
  · nomatch h
  · cases h
    rfl
  · cases h
    rfl

/-- **Evaluation restores the scope.** Suppose that every break lies inside a generic loop of the
same function: in the syntax that is evaluated, in all functions that evaluation can come upon, and
in all files that it requires. If it ends with a value, the evaluator at work is in the same scope
as before, with the same callers. A chunk leaves the evaluator in its scope however it ends, if the
scope belongs to the evaluator. -/
theorem evaluation_restores_scope (depth : Nat) (node : Node) (m : Machine)
    (files : Option Archive) (hactive : m.active < m.evaluators.size)
    (hnode : node.tame false = true) (htame : TameReach m node)
    (hfiles : Suffices files depth node m)
    (hrequired : ∀ b, Requires (m.withScripts files) b → tameStmts false b = true) :
    (∀ v n, visitUpTo depth node m = .ok v n → n.active = m.active ∧
      n.evaluator.scope = m.evaluator.scope ∧ n.evaluator.stack = m.evaluator.stack) ∧
    ∀ b, node = .chunk b →
      (m.scopes.getD m.evaluator.scope default).owner = some m.active →
      (finalState (visitUpTo depth node m)).active = m.active ∧
        (finalState (visitUpTo depth node m)).evaluator.scope = m.evaluator.scope := by
  -- the run is followed with the files that suffice, where the state is sound
  let _ : Watch := ⟨.tame⟩
  have hm := sound_reachOf rfl htame hactive hrequired
  have hp : Around ⟨m.evaluator.scope, m.evaluator.stack, fun _ => False⟩ (m.withScripts files) :=
    { active_lt := fun _ => hactive, parent_lt := nofun, here_eq := fun _ => rfl,
      stack_eq := fun _ => rfl, here_lt := .inl rfl, clear := nofun }
  have hno : ¬ Watch.Spares := fun hs => nomatch hs.1
  have hvisits := visits_visitUpTo hno rfl rfl
  have hvalues : AllGood (reachOf m node) node.values := Reached.allGood htame fun _ hv => .given hv
  have hends := hvisits depth (reachOf m node) _ false node (fun _ => hnode) hvalues _ hm hp
  have hactive_eq := hfiles.active_eq
  have hevaluator := hfiles.evaluator_eq
  refine ⟨fun v n hrun => ?_, fun b hb howner => ⟨?_, ?_⟩⟩
  · obtain ⟨n', hrun'⟩ := hfiles.ok hrun
    rw [hrun, hrun'] at hactive_eq hevaluator
    rw [hrun'] at hends
    have hat := hends.around
    exact ⟨hactive_eq.trans (hends.beyond hno).older.active_eq,
      (congrArg Evaluator.scope hevaluator).trans (hat.here_eq rfl),
      (congrArg Evaluator.stack hevaluator).trans (hat.stack_eq rfl)⟩
  · exact hactive_eq.trans (hends.beyond hno).older.active_eq
  · subst hb
    rw [hevaluator]
    exact scope_visitUpTo_chunk depth rfl hm hp hvisits hnode howner

theorem evaluation_restores_scope_sample :
    (∃ v n, visitUpTo 20 callsNamed sample = .ok v n ∧ n.evaluator.scope = 0 ∧
      n.evaluator.stack = []) ∧
    ∃ n, visitUpTo 20 callsFailing sample =
        .error (.fault (.check "iterator not a function")) n ∧ n.evaluator.scope = 0 := by
  have hrequired (b : Block) (hb : Requires (sample.withScripts none) b) :
      tameStmts false b = true := by
    obtain ⟨archive, -, -, -, -, hnone, -⟩ := hb
    nomatch hnone
  have hrun : visitUpTo 20 callsNamed sample =
      .ok .nil (finalState (visitUpTo 20 callsNamed sample)) := by cbv
  have hfail : visitUpTo 20 callsFailing sample =
      .error (.fault (.check "iterator not a function"))
        (finalState (visitUpTo 20 callsFailing sample)) := by cbv
  have hfine := evaluation_restores_scope 20 callsNamed sample none (by decide) rfl
    (tameReach_sample _) (by cbv) hrequired
  have hfailed := evaluation_restores_scope 20 callsFailing sample none (by decide) rfl
    (tameReach_sample _) (by cbv) hrequired
  exact ⟨⟨_, _, hrun, (hfine.1 _ _ hrun).2⟩, _, hfail, (hfailed.2 _ rfl rfl).2⟩

end WikiFeed.Prefab

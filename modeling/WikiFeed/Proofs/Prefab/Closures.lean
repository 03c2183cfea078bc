import WikiFeed.Proofs.Outcome
import WikiFeed.Proofs.Prefab.Visits

/-! # The scopes of functions in prefab scripts

A function has one closure, which is set anew each time its definition is evaluated, also for those
who hold the function already. A call therefore works in the scope of the last evaluation
(`callsIn_last_scope`), and a method takes one receiver for each evaluation. `visitUnlessReset` is
evaluation that stops at a definition which would move the function, `Spares` says that an
evaluation comes upon none, and `Later` chains such evaluations. -/

namespace WikiFeed.Prefab

open Lua Places

/-! ### Definitions -/

variable {f : Func} {node : Node}

theorem carryOut_function (h : node.function? = some f) (rec : Visitor) :
    carryOut rec node = visitFunction rec f := by
  unfold Node.function? at h
  split at h <;> cases h <;> rfl

theorem visitStep_function (h : node.function? = some f) (rec : Visitor)
    (m : Machine) : visitStep rec node m =
      if m.evaluator.passing then .ok .nil m else visitFunction rec f m := by
  rw [← carryOut_function h rec]
  unfold Node.function? at h
  split at h <;> cases h <;> cases hp : m.evaluator.passing <;>
    · change (if !m.evaluator.passing then _ else _ : Eval Value) m = _
      rw [hp]
      rfl

abbrev Home.watch (h : Home) : Watch := ⟨.free (some h)⟩

variable {h : Home} {m : Machine}

theorem Machine.Homed.run {α : Type} (hm : m.Homed h) {p : Place}
    {e : Exits} {x : Eval α} {Q : Reach → α → Prop}
    (hx : @Behaves α h.watch .everything p e x Q) : (finalState (x m)).Homed h := by
  let _ := h.watch
  have hends := hx m (sound_everything rfl fun _ hh => Option.some.inj hh ▸ hm)
    (around_of_not_follows rfl p m)
  generalize x m = r at hends
  generalize x (m.strip hidden) = r' at hends
  cases hends with
  | gaveUp hs => cases hs.2
  | both _ _ hn _ _ => exact hn.homed h rfl

/-! ### The scope that a definition gives -/

section Defined

variable {m n : Machine} {f : Func} {v : Value}

def hasDottedName (f : Func) : Bool :=
  match f.head with
  | .global target => isDotted target
  | _ => true

theorem pathOf_dotted (rec rec' : Visitor) :
    ∀ {e : Expr}, isDotted e = true → pathOf rec e = pathOf rec' e
  | .name _, _ => rfl
  | .index (.name n) value true, h => by
    have hrest : pathOf rec value = pathOf rec' value := pathOf_dotted rec rec' h
    unfold pathOf
    rw [hrest]

theorem bindFunction_dotted (rec rec' : Visitor) (h : hasDottedName f = true) :
    bindFunction rec f = bindFunction rec' f := by
  unfold hasDottedName at h
  unfold bindFunction
  cases hhead : f.head with
  | global target =>
    rw [hhead] at h
    have htarget : assignTo rec target (.func f) = assignTo rec' target (.func f) := by
      unfold assignTo
      cases target with
      | index idx value dot =>
        simp only
        rw [pathOf_dotted rec rec' h]
      | _ => rfl
    simp only [htarget]
  | _ => rfl

theorem defineMethod_ok {source : Expr} {name : String}
    (h : defineMethod f source name m = .ok () n) : ∃ store, n = { m with
      store := store
      closures := (f.label, { closureIn m f with receivers := (closureIn m f).receivers + 1 }) ::
        m.closures.filter fun p => p.1 != f.label } := by
  cases source with
  | name cls =>
    unfold defineMethod at h
    obtain ⟨_, _, ⟨⟩, h⟩ := Outcome.bind_eq_ok.mp h
    obtain ⟨_, _, ⟨⟩, h⟩ := Outcome.bind_eq_ok.mp h
    obtain ⟨_, _, ⟨⟩, h⟩ := Outcome.bind_eq_ok.mp h
    dsimp only at h
    cases hv : lookup? m.scopes m.evaluator.scope (.str cls) with
    | none =>
      rw [hv] at h
      cases h
    | some v =>
      rw [hv] at h
      cases v with
      | object kind r =>
        cases ht : (Value.object kind r).isTable with
        | true =>
          simp only [ht] at h
          cases h
          exact ⟨_, rfl⟩
        | false =>
          simp only [ht] at h
          cases h
      | _ => cases h
  | _ => cases h

/-- The scope and the receivers that a function has behind its definition. -/
abbrev homeOf (m : Machine) (f : Func) : Home :=
  ⟨f.label, m.evaluator.scope, (closureIn m f).receivers + (isMethod f).toNat⟩

theorem closureIn_captured (m : Machine) (f : Func) :
    closureIn (m.captured f) f = { closureIn m f with scope := some m.evaluator.scope } := by
  unfold closureIn Machine.captured
  rw [List.lookup_cons_self]
  rfl

theorem bindFunction_method {rec : Visitor} {source : Expr} {name : String}
    (h : f.head = .method source name) :
    bindFunction rec f = do defineMethod f source name; return .func f := by
  unfold bindFunction
  rw [h]

theorem homed_of_visitFunction {rec : Visitor} (hname : hasDottedName f = true)
    (hlabel : f.label < m.labels) (hhere : m.evaluator.scope < m.scopes.size)
    (h : visitFunction rec f m = .ok v n) : n.Homed (homeOf m f) := by
  have hclosure (r : Nat) (hr : (isMethod f).toNat = r) :
      some ⟨some m.evaluator.scope, (closureIn m f).receivers + r⟩ = some (homeOf m f).closure :=
    hr ▸ rfl
  rw [visitFunction_eq, bindFunction_dotted rec (visitUpTo 0) hname] at h
  cases hmethod : isMethod f with
  | false =>
    have hstart : (m.captured f).Homed (homeOf m f) :=
      ⟨List.lookup_cons_self.trans (hclosure 0 (by rw [hmethod]; rfl)), hhere, hlabel⟩
    let _ := (homeOf m f).watch
    have hparts : Visits (visitUpTo 0) := fun _ _ _ _ _ _ => behaves_fail nofun
    have hbind : Behaves .everything ⟨0, [], fun _ => True⟩ ⟨true, true, true⟩
        (bindFunction (visitUpTo 0) f) Good :=
      behaves_bindFunction hparts List.not_mem_nil (good_everything _) nofun (fun _ _ => trivial)
        fun _ _ _ => hmethod
    have hend := hstart.run hbind
    rwa [h] at hend
  | true =>
    have hone := hclosure 1 (by rw [hmethod]; rfl)
    unfold isMethod at hmethod
    split at hmethod
    case h_2 => nomatch hmethod
    case h_1 source name hhead =>
      rw [bindFunction_method hhead] at h
      obtain ⟨⟨⟩, k, hk, ⟨⟩⟩ := Outcome.bind_eq_ok.mp h
      obtain ⟨store, rfl⟩ := defineMethod_ok hk
      rw [closureIn_captured]
      exact ⟨List.lookup_cons_self.trans hone, hhere, hlabel⟩

end Defined

/-! ### Evaluations that leave a function in its scope -/

/-- Whether a piece of syntax gives the function with a label another scope than a given one, or one
more receiver. -/
def Node.resets (node : Node) (label : Nat) (scope : ScopeId) (m : Machine) : Bool :=
  !m.evaluator.passing && node.function?.any fun f =>
    f.label == label && (m.evaluator.scope != scope || isMethod f)

/-- Evaluation that stops where the function with a label would be given another scope or one more
receiver. -/
def visitUnlessReset (label : Nat) (scope : ScopeId) : Nat → Node → Eval Value
  | 0, _ => fail .tooDeep
  | depth + 1, node => do
    if node.resets label scope (← get) then fail .tooDeep
    else visitStep (visitUnlessReset label scope depth) node

theorem visits_visitUnlessReset (h : Home) :
    ∀ depth, @Visits h.watch (visitUnlessReset h.label h.scope depth)
  | 0 => by
    let _ := h.watch
    exact fun _ _ _ _ _ _ => behaves_fail nofun
  | depth + 1 => by
    let _ := h.watch
    have hrec : Visits (visitUnlessReset h.label h.scope depth) := visits_visitUnlessReset h depth
    intro R p loop node hnode hvalues
    refine Behaves.of_names rfl fun m hm hp => ?_
    have hrun (k : Machine) : visitUnlessReset h.label h.scope (depth + 1) node k =
        (if node.resets h.label h.scope k then fail .tooDeep
        else visitStep (visitUnlessReset h.label h.scope depth) node : Eval Value) k := rfl
    have hsame : node.resets h.label h.scope (m.strip hidden) = node.resets h.label h.scope m := rfl
    rw [hrun, hrun, hsame]
    split
    · exact behaves_fail (f := .tooDeep) nofun m hm hp
    case isFalse hreset =>
      by_cases hdef : node.LeavesHome
      · exact hrec.step (fun hs => nomatch hs.2) rfl hdef hnode hvalues m hm hp
      · -- the function in question is given the scope that it has
        simp only [Node.LeavesHome, not_forall, not_not] at hdef
        obtain ⟨f, hf, h', hh, hlabel⟩ := hdef
        cases hh
        have hpasses : (m.strip hidden).evaluator.passing = m.evaluator.passing := rfl
        rw [visitStep_function hf, visitStep_function hf, hpasses]
        split
        · have hnil : Good R .nil := trivial
          exact behaves_pure hnil m hm hp
        case isFalse hpassing =>
          refine ends_visitFunction hrec List.not_mem_nil nofun (fun _ _ => trivial) hm hp ?_
          intro h' hh hlabel
          cases hh
          simpa [Node.resets, hf, hlabel, hpassing] using hreset

/-- An evaluation gives the function with a label no other scope than a given one and no receiver:
it ends in the same way if it stops where this would happen. -/
def Spares (label : Nat) (scope : ScopeId) (depth : Nat) (node : Node) (m : Machine) : Prop :=
  visitUnlessReset label scope depth node m = visitUpTo depth node m

/-- What can happen between two moments: pieces of syntax are evaluated that give the function with
a label no other scope than a given one and no receiver, and the rest of the state changes in any
way that keeps the scopes and the labels that are there. -/
inductive Later (label : Nat) (scope : ScopeId) (m : Machine) : Machine → Prop where
  | now : Later label scope m m
  | evaluated {n : Machine} (depth : Nat) (node : Node) : Later label scope m n →
      Spares label scope depth node n → Later label scope m (finalState (visitUpTo depth node n))
  | changed {n n' : Machine} : Later label scope m n → n'.closures = n.closures →
      n.scopes.size ≤ n'.scopes.size → n.labels ≤ n'.labels → Later label scope m n'

theorem Machine.Homed.later {n : Machine} (hm : m.Homed h)
    (hn : Later h.label h.scope m n) : n.Homed h := by
  induction hn with
  | now => exact hm
  | evaluated depth node _ hspares ih =>
    rw [← hspares]
    exact ih.run (visits_visitUnlessReset h depth .everything ⟨0, [], fun _ => True⟩ true node nofun
      (allGood_everything _))
  | changed _ hclosures hscopes hlabels ih => exact ih.of_le hclosures hscopes hlabels

/-! ### Names inside a call -/

/-- A call of a function works in a new scope inside a given one, in which a name has the value that
it has in that scope, and binds a given number of receivers and the parameters of the function. -/
def CallsIn (f : Func) (scope : ScopeId) (receivers : Nat) (m : Machine) : Prop :=
  (∀ rec args, execute rec (.func f) args m =
    EStateM.bind (inChild scope (some m.active) (callBody rec ⟨some scope, receivers⟩ f args))
      (fun v => do modifyCurrent Evaluator.pop; return v) (atFunction m scope)) ∧
  ∀ name, lookup? (inside (atFunction m scope) scope m.active).scopes m.scopes.size name =
    lookup? m.scopes scope name

theorem Machine.Homed.callsIn (hm : m.Homed h)
    (hf : f.label = h.label) : CallsIn f h.scope h.receivers m := by
  have hclosure : closureIn m f = h.closure := by
    unfold closureIn
    rw [hf, hm.closure_eq]
    rfl
  refine ⟨fun rec args => ?_, Scoped.lookup?_push hm.scope_lt rfl rfl⟩
  rw [execute_eq (congrArg Closure.scope hclosure), hclosure]
  rfl

/-- **A call works where the function was defined last.** Suppose that the definition of a function
is evaluated, and that the function is given no other scope and no further receiver until a call.
The call runs the body in a new scope inside the one in which the definition was evaluated, wherever
else it was evaluated before. A method has one more receiver than before its definition. -/
theorem callsIn_last_scope {depth : Nat} {m₁ n : Machine}
    (hf : node.function? = some f) (hname : hasDottedName f = true) (hlabel : f.label < m.labels)
    (hhere : m.evaluator.scope < m.scopes.size) (hrun : visitUpTo depth node m = .ok (.func f) m₁)
    (hlater : Later f.label m.evaluator.scope m₁ n) :
    CallsIn f m.evaluator.scope ((closureIn m f).receivers + (isMethod f).toNat) n := by
  cases depth with
  | zero => nomatch hrun
  | succ depth =>
    rw [visitUpTo, visitStep_function hf] at hrun
    split at hrun
    · nomatch hrun
    · have hhomed := homed_of_visitFunction hname hlabel hhere hrun
      exact (hhomed.later hlater).callsIn rfl

end WikiFeed.Prefab

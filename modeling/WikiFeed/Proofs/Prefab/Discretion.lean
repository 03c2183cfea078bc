import WikiFeed.Proofs.Prefab.Visits

/-! # Evaluation without a look at some scopes

Evaluation that gives up where it would come upon a variable of the scopes `L` (`visitSparing`) is
the same without these variables (`visits_visitSparing`). -/

namespace WikiFeed.Prefab

open Lua
open Lua.Scoped (binder?)

/-! ### Evaluation that stops at a variable out of sight -/

/-- Whether a name leads to a variable of the scopes `L`. Any name does so that is bound in one of
them. -/
def exposes (L : List ScopeId) (m : Machine) : Option String → Bool
  | some s => (binder? m.scopes m.evaluator.scope (.str s)).any (· ∈ L)
  | none => (chain m.scopes m.evaluator.scope).any fun i =>
    i ∈ L && (varsOf m.scopes i).size != 0

/-- Whether a piece of syntax looks at a variable of the scopes `L` itself, or makes one there. -/
def Node.touches (L : List ScopeId) (node : Node) (m : Machine) : Bool :=
  node.names.any (exposes L m) || (!node.opensBlock && m.evaluator.scope ∈ L) ||
    m.scopes.size ≤ m.evaluator.scope

/-- Whether a run from a state does not fail and ends in another scope. -/
def strays (m : Machine) : EStateM.Result Signal Machine Value → Bool
  | .error (.fault _) _ => false
  | r => (finalState r).evaluator.scope != m.evaluator.scope

def staying (x : Eval Value) : Eval Value := fun m =>
  if strays m (x m) then .error (.fault .tooDeep) m else x m

/-- Evaluation that stops where a variable of the scopes `L` would be looked at or made, and where
it would go on in another scope than the one it began in. -/
def visitSparing (L : List ScopeId) : Nat → Node → Eval Value
  | 0, _ => fail .tooDeep
  | depth + 1, node => do
    if node.touches L (← get) then fail .tooDeep
    else staying (visitStep (visitSparing L depth) node)

section Sparing

variable {L : List ScopeId} {m : Machine}

theorem strays_strip (r : EStateM.Result Signal Machine Value) :
    strays (m.strip L) (mapState (Machine.strip L) r) = strays m r := by
  rcases r with ⟨v, n⟩ | ⟨f | v | _, n⟩ <;> rfl

theorem clear_of_exposes {names : List (Option String)} (hnames : names.any (exposes L m) = false)
    {s : String} (hs : Resolves names s) {l : ScopeId}
    (hl : binder? m.scopes m.evaluator.scope (.str s) = some l) : l ∉ L := by
  intro hmem
  rw [List.any_eq_false] at hnames
  rcases hs with hs | hs
  · refine hnames _ hs ?_
    simp [exposes, hl, hmem]
  · have hbound : bound m.scopes (.str s) l = true := List.find?_some hl
    have hchain : l ∈ chain m.scopes m.evaluator.scope := List.mem_of_find?_eq_some hl
    have hsize : (varsOf m.scopes l).size ≠ 0 := by
      intro hzero
      have hempty : (varsOf m.scopes l).entries = [] := List.length_eq_zero_iff.mp hzero
      unfold bound Table.contains Table.entry? at hbound
      rw [hempty] at hbound
      nomatch hbound
    refine hnames _ hs ?_
    unfold exposes
    rw [List.any_eq_true]
    exact ⟨l, hchain, by simpa [hmem] using hsize⟩

theorem exposes_strip (L : List ScopeId) (m : Machine) :
    ∀ name, exposes L (m.strip L) name = false
  | some s => by
    change Option.any (· ∈ L)
      (binder? (m.strip L).scopes (m.strip L).evaluator.scope (.str s)) = false
    cases hb : binder? (m.strip L).scopes (m.strip L).evaluator.scope (.str s) with
    | none => rfl
    | some l =>
      have hbound : bound (strip L m.scopes) (.str s) l = true := List.find?_some hb
      by_cases hl : l ∈ L
      · rw [not_bound_strip hl] at hbound
        nomatch hbound
      · simp [hl]
  | none => by
    unfold exposes
    rw [List.any_eq_false]
    intro l _ htouched
    rw [Bool.and_eq_true, decide_eq_true_eq] at htouched
    have hempty := getD_strip L m.scopes l
    rw [if_pos htouched.1] at hempty
    have hsize : ((strip L m.scopes).getD l default).vars.size = 0 := by
      rw [hempty]
      rfl
    have hnonzero : (((strip L m.scopes).getD l default).vars.size != 0) = true := htouched.2
    rw [hsize] at hnonzero
    nomatch hnonzero

theorem touches_strip {node : Node} (hm : node.touches L m = false) :
    node.touches L (m.strip L) = false := by
  unfold Node.touches at hm ⊢
  rw [Bool.or_eq_false_iff, Bool.or_eq_false_iff] at hm ⊢
  refine ⟨⟨?_, hm.1.2⟩, ?_⟩
  · rw [List.any_eq_false]
    intro name _
    rw [exposes_strip]
    exact Bool.false_ne_true
  · rw [← hm.2]
    exact congrArg (fun n => decide (n ≤ m.evaluator.scope)) (size_strip L m.scopes)

end Sparing

section Visits

variable [Watch] {R : Reach} {p q : Place} {m : Machine} {b : Bool}

theorem Ends.staying {x : Eval Value} (hs : Watch.Spares) (hp : Around p m)
    (hx : Ends R q m ⟨true, b, true⟩ Good (x m) (x (m.strip hidden))) :
    Ends R p m ⟨true, b, false⟩ Good (staying x m) (Prefab.staying x (m.strip hidden)) := by
  unfold Prefab.staying
  generalize x m = r at hx
  generalize x (m.strip hidden) = r' at hx
  cases hx with
  | gaveUp => exact .gaveUp hs
  | both S hRS hn hmn hfits =>
    rw [strays_strip]
    cases hstrays : strays m r with
    | true => exact .gaveUp hs
    | false =>
      have harrives {n : Machine} (hn : Beyond hidden m n)
          (hscope : (n.evaluator.scope != m.evaluator.scope) = false) :
          Arrives p ⟨true, b, false⟩ n := by
        rw [bne_eq_false_iff_eq] at hscope
        exact .inl (hp.beyond hn (hscope ▸ hp.here_eq) fun h => nomatch hs.1.symm.trans h)
      refine .both S hRS hn hmn ?_
      rcases r with ⟨v, n⟩ | ⟨f | v | _, n⟩
      · exact ⟨harrives hmn hstrays, hfits.2⟩
      · exact hfits
      · exact ⟨rfl, harrives hmn hstrays, hfits.2.2⟩
      · exact ⟨hfits.1, harrives hmn hstrays⟩

theorem visits_visitSparing (hs : Watch.Spares) : ∀ depth, Visits (visitSparing hidden depth)
  | 0, _, _, _, _, _, _ => behaves_fail nofun
  | depth + 1, R, p, loop, node, h, hvalues => by
    intro m hm hp
    have hrun (k : Machine) : visitSparing hidden (depth + 1) node k =
        (if node.touches hidden k then fail .tooDeep
          else staying (visitStep (visitSparing hidden depth) node) : Eval Value) k := rfl
    rw [hrun m, hrun (m.strip hidden)]
    cases htouches : node.touches hidden m with
    | true => exact .gaveUp hs
    | false =>
      rw [touches_strip htouches, if_neg Bool.false_ne_true]
      unfold Node.touches at htouches
      rw [Bool.or_eq_false_iff, Bool.or_eq_false_iff, Bool.and_eq_false_iff] at htouches
      obtain ⟨⟨hnames, hscope⟩, -⟩ := htouches
      have hhere := hp.here_eq hs.2
      rw [hhere] at hscope
      have hat : Around { p with names := Resolves node.names } m :=
        { hp with clear := fun s hs l hl => clear_of_exposes hnames hs (hhere ▸ hl) }
      have hout : node.opensBlock = false → p.here ∉ hidden := by
        intro hopens
        simpa [hopens] using hscope
      have hdef : node.LeavesHome := fun _ _ h hh => nomatch (home_eq_none hs.2).symm.trans hh
      have hstep : Behaves R { p with names := Resolves node.names } ⟨true, loop, true⟩
          (visitStep (visitSparing hidden depth) node) Good :=
        behaves_visitStep (visits_visitSparing hs depth) hout (fun _ => id) hdef h hvalues
      exact Ends.staying hs hp (hstep m hm hat)

end Visits

end WikiFeed.Prefab

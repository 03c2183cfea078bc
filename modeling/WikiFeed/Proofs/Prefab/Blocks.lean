import WikiFeed.Proofs.Prefab.Copies

/-! # Blocks and calls

Whatever happens inside a block, the scope around it is entered again at its end, for the evaluator
to which that scope belongs. A call leaves the scope of the caller on the stack and takes it back
from there. Returns end at the call and breaks at the loop, so neither is seen from outside. -/

namespace WikiFeed.Prefab

open Lua Evaluator

section Names

variable {R : Reach} {m : Machine} {i : ScopeId} {name v : Value}

theorem GoodScopes.chain {scopes : Array Scope} (h : GoodScopes R scopes) {i : ScopeId}
    (hi : R.scope i) : ∀ j ∈ chain scopes i, R.scope j :=
  Scoped.forall_mem_chain hi fun j p hj hp => h.parent j p hj (Scoped.parent_of_outer? hp)

theorem Sound.lookup [Watch] (hm : Sound R m) (hi : R.scope i)
    (h : lookup? m.scopes i name = some v) : Good R v := by
  rw [Scoped.lookup?_eq] at h
  obtain ⟨s, hs, rfl⟩ := Option.map_eq_some_iff.mp h
  have hmem : s ∈ chain m.scopes i := List.mem_of_find?_eq_some hs
  exact (hm.scopes.vars s (hm.scopes.chain hi s hmem)).get name

end Names

variable {s : ScopeId} {rec : Visitor} {args : List Value} {f : Func}

section States

variable {α : Type} {m n : Machine} {p : ScopeId} {o : Nat}

/-! ### The state inside a new scope -/

def inside (m : Machine) (p : ScopeId) (o : Nat) : Machine :=
  (m.addScope (some p) (some o)).enter o m.scopes.size

theorem openChild_cases (p : ScopeId) (ev : Option Nat) (m : Machine) :
    openChild p ev m = (match (m.scopes.getD p default).owner with
      | none => fail .value
      | some owner => do
        let child ← newScope (some p) (some (ev.getD owner))
        modify (·.enter (ev.getD owner) child)
        return child : Eval ScopeId) m :=
  rfl

theorem inChild_eq (h : (m.scopes.getD p default).owner = some o) (ev : Option Nat)
    (body : Eval α) :
    inChild p ev body m = ensuring body (Machine.leaveTo p) (inside m p (ev.getD o)) := by
  change EStateM.bind (openChild p ev) _ m = _
  unfold EStateM.bind
  rw [openChild_cases, h]
  rfl

theorem inChild_eq_error (h : (m.scopes.getD p default).owner = none) (ev : Option Nat)
    (body : Eval α) : inChild p ev body m = .error (.fault .value) m := by
  change EStateM.bind (openChild p ev) _ m = _
  unfold EStateM.bind
  rw [openChild_cases, h]
  rfl

theorem lt_of_owner (h : (m.scopes.getD p default).owner = some o) : p < m.scopes.size := by
  refine Nat.lt_of_not_le fun hle => ?_
  rw [Places.getD_of_size_le hle] at h
  nomatch h

theorem older_inside (m : Machine) (p : ScopeId) (o : Nat) : Older m (inside m p o) :=
  (older_addScope m _ _).trans (older_enter _ _ _)

theorem evaluator_inside (h : m.active < m.evaluators.size) :
    (inside m p o).evaluator =
      if o = m.active then { m.evaluator with scope := m.scopes.size } else m.evaluator :=
  evaluator_enter (m.addScope (some p) (some o)) o m.scopes.size h

theorem stack_inside (h : m.active < m.evaluators.size) :
    (inside m p o).evaluator.stack = m.evaluator.stack := by
  rw [evaluator_inside h]
  split <;> rfl

theorem stack_enter (h : m.active < m.evaluators.size) :
    (m.enter o p).evaluator.stack = m.evaluator.stack := by
  rw [evaluator_enter m o p h]
  split <;> rfl

theorem leaveTo_inside {o' : Nat} (h : (m.scopes.getD p default).owner = some o)
    (hn : Older (inside m p o') n) : n.leaveTo p = n.enter o p := by
  unfold Machine.leaveTo
  rw [((older_inside m p o').trans hn).owner_eq p (lt_of_owner h), h]

theorem inside_strip {L : List ScopeId} (hm : Inner L m) (p : ScopeId) (o : Nat) :
    inside (m.strip L) p o = (inside m p o).strip L := by
  unfold inside
  rw [addScope_strip hm]
  exact congrArg (((m.addScope (some p) (some o)).strip L).enter o) (size_strip L m.scopes)

theorem beyond_inside (L : List ScopeId) (m : Machine) (p : ScopeId) (o : Nat) :
    Beyond L m (inside m p o) :=
  (beyond_addScope L m _ _).trans (beyond_enter L _ _ _)

theorem leaveTo_strip {L : List ScopeId} (p : ScopeId) (n : Machine) :
    (n.strip L).leaveTo p = (n.leaveTo p).strip L := by
  unfold Machine.leaveTo
  have howner : ((n.strip L).scopes.getD p default).owner = (n.scopes.getD p default).owner :=
    owner_strip
  rw [howner]
  split <;> rfl

/-! ### The state of a call -/

def closureIn (m : Machine) (f : Func) : Closure := (m.closures.lookup f.label).getD ⟨none, 0⟩

def atFunction (m : Machine) (s : ScopeId) : Machine :=
  (m.adjust Evaluator.push).adjust fun e => { e with scope := s }

theorem execute_cases (rec : Visitor) (f : Func) (args : List Value) (m : Machine) :
    execute rec (.func f) args m = (match (closureIn m f).scope with
      | none => fail .member
      | some s => do
        modifyCurrent fun e => { e with scope := s }
        let v ← inChild s (some (← get).active) (callBody rec (closureIn m f) f args)
        modifyCurrent pop
        return v : Eval Value) (m.adjust Evaluator.push) :=
  rfl

theorem execute_eq (hs : (closureIn m f).scope = some s) :
    execute rec (.func f) args m =
      EStateM.bind (inChild s (some m.active) (callBody rec (closureIn m f) f args))
        (fun v => do modifyCurrent pop; return v) (atFunction m s) := by
  rw [execute_cases, hs]
  rfl

theorem execute_eq_error (hs : (closureIn m f).scope = none) :
    execute rec (.func f) args m = .error (.fault .member) (m.adjust Evaluator.push) := by
  rw [execute_cases, hs]
  rfl

theorem older_atFunction (m : Machine) (s : ScopeId) : Older m (atFunction m s) :=
  (older_adjust _ m).trans (older_adjust _ _)

theorem evaluator_atFunction (h : m.active < m.evaluators.size) :
    (atFunction m s).evaluator = { m.evaluator.push with scope := s } := by
  unfold atFunction
  rw [evaluator_adjust _ ((older_adjust _ m).active_lt h), evaluator_adjust _ h]

theorem returned_eq (body : Eval Value) (m : Machine) :
    returned body m = match body m with
      | .ok _ n => .ok .nil n
      | .error (.ret v) n => .ok v n
      | .error s n => .error s n := by
  simp only [returned, tryCatch, tryCatchThe, MonadExceptOf.tryCatch, EStateM.tryCatch, bind,
    EStateM.bind]
  rcases body m with _ | ⟨_ | _ | _, _⟩ <;> rfl

theorem unbroken_eq (body : Eval Value) (m : Machine) :
    unbroken body m = match body m with
      | .ok _ n => .ok true n
      | .error .brk n => .ok false n
      | .error s n => .error s n := by
  simp only [unbroken, tryCatch, tryCatchThe, MonadExceptOf.tryCatch, EStateM.tryCatch, bind,
    EStateM.bind]
  rcases body m with _ | ⟨_ | _ | _, _⟩ <;> rfl

end States

/-! ### Blocks -/

variable {body : Eval Value}

section Blocks

variable {α : Type} [Watch] {R : Reach} {m : Machine} {p : Place} {returns breaks strays : Bool}
  {Q : Reach → α → Prop}

theorem sound_inside (hm : Sound R m) {i : ScopeId} (hi : R.scope i) (o : Nat) :
    Sound R (inside m i o) :=
  (hm.addScope (fun _ h => Option.some.inj h ▸ hi) _).enter o (hm.scopes.fresh _ (Nat.le_refl _))

theorem Ends.beyond {e : Exits} {r r' : EStateM.Result Signal Machine α}
    (h : Ends R p m e Q r r') (hno : ¬ Watch.Spares) : Beyond hidden m (finalState r) := by
  cases h with
  | gaveUp hs => exact absurd hs hno
  | both _ _ _ hmn _ => exact hmn

theorem Ends.around {a : α} {r' : EStateM.Result Signal Machine α}
    (h : Ends R p m ⟨returns, breaks, false⟩ Q (.ok a n) r') : Around p n := by
  cases h with
  | both _ _ _ _ hfits => exact hfits.1.resolve_right fun h => nomatch h.1

theorem Ends.ensuring {k : Machine} {q : Place} {body : Eval α} {i : ScopeId} (hi : R.scope i)
    (h : Ends R q k ⟨returns, breaks, false⟩ Q (body k) (body (k.strip hidden)))
    (hmk : Beyond hidden m k)
    (hback : ∀ n, Beyond hidden k n → Around q n → Around p (n.leaveTo i)) :
    Ends R p m ⟨returns, breaks, strays⟩ Q (Prefab.ensuring body (Machine.leaveTo i) k)
      (Prefab.ensuring body (Machine.leaveTo i) (k.strip hidden)) := by
  have hrun (k : Machine) : Prefab.ensuring body (Machine.leaveTo i) k =
      mapState (Machine.leaveTo i) (body k) := by
    unfold Prefab.ensuring
    cases body k <;> rfl
  rw [hrun, hrun]
  generalize body k = r at h
  generalize body (k.strip hidden) = r' at h
  cases h with
  | gaveUp hf => exact .gaveUp hf
  | both S hRS hn hkn hfits =>
    have hstrip : mapState (Machine.leaveTo i) (mapState (Machine.strip hidden) r) =
        mapState (Machine.strip hidden) (mapState (Machine.leaveTo i) r) := by
      cases r with
      | ok a n => exact congrArg (EStateM.Result.ok a) (leaveTo_strip i n)
      | error s n => exact congrArg (EStateM.Result.error s) (leaveTo_strip i n)
    have harrives (harrived : Arrives q ⟨returns, breaks, false⟩ (finalState r)) :
        Arrives p ⟨returns, breaks, strays⟩ ((finalState r).leaveTo i) :=
      .inl (hback _ hkn (harrived.resolve_right fun h => nomatch h.1))
    rw [hstrip]
    refine .both S hRS ?_ ?_ ?_
    · rw [finalState_mapState]
      exact hn.leaveTo (hRS.1 i hi)
    · rw [finalState_mapState]
      exact hmk.trans (hkn.trans (beyond_leaveTo hidden _ i))
    · rcases r with ⟨a, n⟩ | ⟨f | v | _, n⟩
      · exact ⟨harrives hfits.1, hfits.2⟩
      · exact hfits
      · exact ⟨hfits.1, harrives hfits.2.1, hfits.2.2⟩
      · exact ⟨hfits.1, harrives hfits.2⟩

/-- The new scope of a block is not out of sight. Evaluation goes on in the scope around if that
belongs to another evaluator, and no name is known to be clear there. -/
theorem around_inside {o : Nat} (hp : Around p m) (s : ScopeId) :
    ∃ i, (i = p.here ∨ i ∉ hidden) ∧ (o ≠ m.active → i = p.here) ∧
      Around ⟨i, p.stack, fun _ => False⟩ (inside m s o) := by
  cases hf : Watch.follows with
  | false => exact ⟨p.here, .inl rfl, fun _ => rfl, around_of_not_follows hf _ _⟩
  | true =>
    have hbeyond := beyond_inside hidden m s o
    have hlt := hp.active_lt hf
    have hevaluator := evaluator_inside (p := s) (o := o) hlt
    have hstack (ht : Watch.tame = true) : (inside m s o).evaluator.stack = p.stack := by
      rw [stack_inside hlt, hp.stack_eq ht]
    by_cases hactive : o = m.active
    · rw [if_pos hactive] at hevaluator
      refine ⟨m.scopes.size, .inr hp.size_not_mem, fun h => absurd hactive h, ?_⟩
      exact ⟨hp.toInner.beyond hbeyond, fun _ => hbeyond.older.active_lt hlt,
        fun _ => congrArg scope hevaluator, hstack,
        .inr (by simp [inside, Machine.addScope, Machine.enter]), fun _ hf => hf.elim⟩
    · rw [if_neg hactive] at hevaluator
      refine ⟨p.here, .inl rfl, fun _ => rfl, ?_⟩
      exact ⟨hp.toInner.beyond hbeyond, fun _ => hbeyond.older.active_lt hlt,
        fun _ => (congrArg scope hevaluator).trans (hp.here_eq hf), hstack,
        hp.here_lt.imp_right fun h => Nat.lt_of_lt_of_le h hbeyond.older.size_le,
        fun _ hf => hf.elim⟩

theorem Behaves.inBlock {body : Eval α} (hbody : ∀ i, i = p.here ∨ i ∉ hidden →
    Behaves R ⟨i, p.stack, fun _ => False⟩ ⟨returns, breaks, false⟩ body Q) :
    Behaves R p ⟨returns, breaks, strays⟩ (inBlock body) Q := by
  intro m hm hp
  have hrun (k : Machine) : Prefab.inBlock body k = inChild k.evaluator.scope none body k := rfl
  have hhere : (m.strip hidden).evaluator.scope = m.evaluator.scope := rfl
  rw [hrun, hrun, hhere]
  have hs := hp.here_eq
  have hmarked := hm.here
  generalize m.evaluator.scope = s at hs hmarked
  have howner : ((m.strip hidden).scopes.getD s default).owner =
    (m.scopes.getD s default).owner := owner_strip
  cases ho : (m.scopes.getD s default).owner with
  | none =>
    rw [inChild_eq_error ho, inChild_eq_error (howner.trans ho)]
    exact behaves_fail (f := .value) nofun m hm hp
  | some o =>
    -- `o` enters the new scope and comes back from it, be it the evaluator at work or not
    rw [inChild_eq ho, inChild_eq (howner.trans ho), inside_strip hp.toInner]
    obtain ⟨i, hi, hother, hat⟩ := around_inside (o := o) hp s
    have hbeyond := beyond_inside hidden m s o
    refine (hbody i hi _ (sound_inside hm hmarked o) hat).ensuring hmarked hbeyond fun n hn hq => ?_
    have hmn : Beyond hidden m n := hbeyond.trans hn
    rw [leaveTo_inside ho hn.older]
    refine hp.beyond (hmn.trans (beyond_enter hidden n o s)) (fun hf => ?_) fun ht => ?_
    · rw [evaluator_enter n o s (hmn.older.active_lt (hp.active_lt hf))]
      split
      case isTrue => exact hs hf
      case isFalse hne => exact (hq.here_eq hf).trans (hother (hmn.older.active_eq ▸ hne))
    · rw [stack_enter (hmn.older.active_lt (hm.active_lt ht))]
      exact hq.stack_eq ht

theorem scope_inBlock {e : Exits} {body : Eval α} (ht : Watch.tame = true) (hm : Sound R m)
    (hp : Around p m) (hbody : ∀ i, Behaves R ⟨i, p.stack, fun _ => False⟩ e body Q)
    (ho : (m.scopes.getD m.evaluator.scope default).owner = some m.active) :
    (finalState (inBlock body m)).evaluator.scope = m.evaluator.scope := by
  change (finalState (inChild m.evaluator.scope none body m)).evaluator.scope = _
  have hfinal : finalState (inChild m.evaluator.scope none body m) =
      (finalState (body (inside m m.evaluator.scope m.active))).leaveTo m.evaluator.scope := by
    rw [inChild_eq ho]
    unfold ensuring
    dsimp only [Option.getD_none]
    cases body (inside m m.evaluator.scope m.active) <;> rfl
  obtain ⟨i, -, -, hat⟩ := around_inside (o := m.active) hp m.evaluator.scope
  have hinner := ((hbody i _ (sound_inside hm hm.here m.active) hat).beyond fun hs =>
    nomatch ht.symm.trans hs.1).older
  have holder := (older_inside m _ m.active).trans hinner
  rw [hfinal, leaveTo_inside ho hinner, evaluator_enter _ _ _ (holder.active_lt (hm.active_lt ht)),
    if_pos holder.active_eq.symm]

theorem Behaves.returned (hbody : Behaves R p ⟨true, breaks, strays⟩ body Good) :
    Behaves R p ⟨false, breaks, strays⟩ (returned body) Good := by
  intro m hm hp
  rw [returned_eq, returned_eq]
  have hends := hbody m hm hp
  generalize body m = r at hends
  generalize body (m.strip hidden) = r' at hends
  cases hends with
  | gaveUp hf => exact .gaveUp hf
  | both S hRS hn hmn hfits =>
    rcases r with ⟨v, n⟩ | ⟨f | v | _, n⟩
    · exact .both (r := .ok Value.nil n) S hRS hn hmn ⟨hfits.1, trivial⟩
    · exact .both (r := .error (.fault f) n) S hRS hn hmn hfits
    · exact .both (r := .ok v n) S hRS hn hmn hfits.2
    · exact .both (r := .error .brk n) S hRS hn hmn hfits

theorem Behaves.unbroken (hbody : Behaves R p ⟨returns, true, strays⟩ body Good) :
    Behaves R p ⟨returns, breaks, strays⟩ (unbroken body) fun _ _ => True := by
  intro m hm hp
  rw [unbroken_eq, unbroken_eq]
  have hends := hbody m hm hp
  generalize body m = r at hends
  generalize body (m.strip hidden) = r' at hends
  cases hends with
  | gaveUp hf => exact .gaveUp hf
  | both S hRS hn hmn hfits =>
    rcases r with ⟨v, n⟩ | ⟨f | v | _, n⟩
    · exact .both (r := .ok true n) S hRS hn hmn ⟨hfits.1, trivial⟩
    · exact .both (r := .error (.fault f) n) S hRS hn hmn hfits
    · exact .both (r := .error (.ret v) n) S hRS hn hmn hfits
    · exact .both (r := .ok false n) S hRS hn hmn ⟨hfits.2, trivial⟩

/-! ### Calls -/

theorem calm_bindParams (hp : p.here ∉ hidden) : ∀ {ps : List Param} {args : List Value},
    AllGood R args → Calm R p (bindParams ps args) Anything
  | [], _, _ => behaves_pure ⟨rfl, trivial⟩
  | .name _ :: _, [], h =>
    (calm_bindName (v := .nil) hp trivial).andThen fun _ _ => calm_bindParams hp h
  | .varargs :: _, [], _ => behaves_fail nofun
  | .name _ :: _, _ :: _, h => (calm_bindName hp h.1).andThen fun _ _ => calm_bindParams hp h.2
  | .varargs :: _, a :: as, h => calm_bindName (v := .rest (a :: as)) hp h

theorem behaves_callBody {c : Closure} (hp : p.here ∉ hidden) (hargs : AllGood R args)
    (hrec : Behaves R p ⟨true, false, false⟩ (rec (.block f.body)) Good) :
    Behaves R p ⟨false, false, false⟩ (callBody rec c f args) Good :=
  (calm_bindParams hp hargs).andThen fun _ _ => hrec.returned

theorem sound_atFunction (hm : Sound R m) (hs : R.scope s) : Sound R (atFunction m s) :=
  (hm.adjust (f := Evaluator.push) hm.here).adjust hs

theorem beyond_atFunction (m : Machine) (s : ScopeId) : Beyond hidden m (atFunction m s) :=
  (beyond_adjust hidden _ m).trans (beyond_adjust hidden _ _)

def Place.called (p : Place) (m : Machine) : Place :=
  ⟨m.scopes.size, p.here :: p.stack, fun _ => False⟩

theorem around_called (hp : Around p m) (s : ScopeId) :
    Around (p.called m) (inside (atFunction m s) s m.active) := by
  have hbeyond := (beyond_atFunction m s).trans (beyond_inside hidden (atFunction m s) s m.active)
  have hlt (hf : Watch.follows = true) :
      (atFunction m s).active < (atFunction m s).evaluators.size :=
    (beyond_atFunction m s).older.active_lt (hp.active_lt hf)
  refine ⟨hp.toInner.beyond hbeyond, fun hf => hbeyond.older.active_lt (hp.active_lt hf),
    fun hf => ?_, fun ht => ?_,
    .inr (by simp [Place.called, inside, atFunction, Machine.adjust, Machine.addScope,
      Machine.enter]),
    fun _ hf => hf.elim⟩
  · rw [evaluator_inside (hlt hf), if_pos (show m.active = (atFunction m s).active from rfl)]
    rfl
  · have hf := Watch.follows_of_tame ht
    rw [stack_inside (hlt hf), evaluator_atFunction (hp.active_lt hf)]
    exact congr (congrArg List.cons (hp.here_eq hf)) (hp.stack_eq ht)

theorem evaluator_afterCall {n : Machine} {o : Nat} (ht : Watch.tame = true)
    (ho : (m.scopes.getD s default).owner = some o)
    (hn : Older (inside (atFunction m s) s m.active) n) (hat : Around (p.called m) n) :
    ((n.leaveTo s).adjust pop).evaluator.scope = p.here ∧
      ((n.leaveTo s).adjust pop).evaluator.stack = p.stack := by
  have hlt := hat.active_lt (Watch.follows_of_tame ht)
  have hstack : (n.leaveTo s).evaluator.stack = p.here :: p.stack := by
    rw [leaveTo_inside (m := atFunction m s) ho hn, stack_enter hlt]
    exact hat.stack_eq ht
  rw [evaluator_adjust]
  · exact ⟨by rw [pop, hstack]; rfl, by rw [pop, hstack]; rfl⟩
  · exact (beyond_leaveTo hidden n s).older.active_lt hlt

/-- What neither returns nor breaks inside a function leaves the caller in its scope, with its own
callers on the stack, if these are known. -/
theorem ends_afterCall (hm : Sound R m) (hp : Around p m) (hs : R.scope s)
    (hbody : Behaves R (p.called m) ⟨false, false, false⟩ body Good) :
    let call := EStateM.bind (inChild s (some m.active) body)
      (fun v => do modifyCurrent pop; return v)
    Ends R p m ⟨returns, breaks, true⟩ Good (call (atFunction m s))
      (call ((atFunction m s).strip hidden)) := by
  intro call
  have hentered := (beyond_atFunction m s).trans (beyond_inside hidden (atFunction m s) s m.active)
  have howner : (((atFunction m s).strip hidden).scopes.getD s default).owner =
    (m.scopes.getD s default).owner := owner_strip
  unfold call EStateM.bind
  cases ho : (m.scopes.getD s default).owner with
  | none =>
    rw [inChild_eq_error (m := atFunction m s) ho, inChild_eq_error (howner.trans ho)]
    exact .both (r := .error (.fault .value) (atFunction m s)) R (le_refl R)
      (sound_atFunction hm hs) (beyond_atFunction m s) fun _ => nofun
  | some o =>
    rw [inChild_eq (m := atFunction m s) ho, inChild_eq (howner.trans ho), Option.getD_some,
      inside_strip (hp.toInner.beyond (beyond_atFunction m s))]
    have hends := hbody _ (sound_inside (sound_atFunction hm hs) hs m.active) (around_called hp s)
    unfold ensuring
    generalize body (inside (atFunction m s) s m.active) = r at hends
    generalize body ((inside (atFunction m s) s m.active).strip hidden) = r' at hends
    cases hends with
    | gaveUp hf => exact .gaveUp hf
    | both S hRS hn hkn hfits =>
      -- the function's scope is left first, for its owner, then the caller's comes off the stack
      have hleft : Sound S ((finalState r).leaveTo s) := hn.leaveTo (hRS.1 s hs)
      have hbeyond : Beyond hidden m ((finalState r).leaveTo s) :=
        hentered.trans (hkn.trans (beyond_leaveTo hidden _ s))
      rcases r with ⟨v, n⟩ | ⟨f | v | _, n⟩
      · have hstrip : ((n.strip hidden).leaveTo s).adjust pop =
            ((n.leaveTo s).adjust pop).strip hidden := by
          rw [leaveTo_strip]
          rfl
        change Ends R p m _ Good (.ok v ((n.leaveTo s).adjust pop))
          (.ok v (((n.strip hidden).leaveTo s).adjust pop))
        rw [hstrip]
        have hback (ht : Watch.tame = true) := evaluator_afterCall ht ho hkn.older
          (hfits.1.resolve_right fun h => nomatch h.1)
        have hmn := hbeyond.trans (beyond_adjust hidden pop _)
        refine .both (r := .ok v _) S hRS (hleft.adjust ?_) hmn ⟨?_, hfits.2⟩
        · rcases hleft.all with ht | hall
          · rw [← evaluator_adjust pop (hleft.active_lt ht), (hback ht).1]
            exact hRS.1 _ (hp.here_eq (Watch.follows_of_tame ht) ▸ hm.here)
          · exact hall _
        · cases ht : Watch.tame with
          | true =>
            exact .inl (hp.beyond hmn (fun _ => (hback ht).1) fun _ => (hback ht).2)
          | false => exact .of_not_tame rfl ht
      · change Ends R p m _ Good (.error (.fault f) (n.leaveTo s))
          (.error (.fault f) ((n.strip hidden).leaveTo s))
        rw [leaveTo_strip]
        exact .both (r := .error (.fault f) _) S hRS hleft hbeyond hfits
      · exact nomatch hfits.1
      · have ht : Watch.tame = false := Bool.eq_false_iff.mpr fun h => nomatch hfits.1 h
        change Ends R p m _ Good (.error .brk (n.leaveTo s))
          (.error .brk ((n.strip hidden).leaveTo s))
        rw [leaveTo_strip]
        exact .both (r := .error .brk _) S hRS hleft hbeyond
          ⟨fun h => absurd (h.symm.trans ht) nofun, .of_not_tame rfl ht⟩

theorem behaves_execute {f : Value} (hf : Good R f) (hargs : AllGood R args)
    (hrec : ∀ g, f = .func g → ∀ q, Behaves R q ⟨true, false, false⟩ (rec (.block g.body)) Good) :
    Behaves R p ⟨returns, breaks, true⟩ (execute rec f args) Good := by
  intro m hm hp
  have hpushed : Ends R p m ⟨returns, breaks, true⟩ Good
      (.error (.fault .member) (m.adjust Evaluator.push))
      (.error (.fault .member) ((m.adjust Evaluator.push).strip hidden)) :=
    .both (r := .error (.fault .member) _) R (le_refl R) (hm.adjust hm.here)
      (beyond_adjust hidden _ m) fun _ => nofun
  cases f with
  | nil => exact behaves_pure (a := Value.nil) trivial m hm hp
  | func g =>
    cases hs : (closureIn m g).scope with
    | none =>
      rw [execute_eq_error hs, execute_eq_error (m := m.strip hidden) hs]
      exact hpushed
    | some s =>
      rw [execute_eq hs, execute_eq (m := m.strip hidden) hs]
      exact ends_afterCall hm hp (hm.goodClosure hf.1 s hs)
        (behaves_callBody hp.size_not_mem hargs (hrec g rfl _))
  | _ => exact hpushed

end Blocks

end WikiFeed.Prefab

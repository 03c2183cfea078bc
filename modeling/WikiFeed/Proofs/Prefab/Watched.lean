import WikiFeed.Proofs.Prefab.Hidden

/-! # Computations under watch

`Behaves R p e x Q` says of a computation `x` that starts in a state that is sound for `R`, at the
place `p`:

* it does the same without the variables out of sight, and leaves these variables as they are;
* the state at its end is sound, perhaps with more functions within reach;
* it ends with a value as `Q` says or in a fault, and in a return or a break if `e` lets it. Unless
  there is a fault, it ends at the place `p`.

If all syntax has to be tame, no computation ends in a division by zero, the one fault that is ever
caught. If there are variables to be spared, a computation may give up, after which nothing is
known, and end at another place if `e` lets it stray. -/

namespace WikiFeed.Prefab

open Lua

/-- How a computation may end besides with a value or in a fault, and whether at another place. -/
structure Exits where
  returns : Bool
  breaks : Bool
  strays : Bool

def Arrives [Watch] (p : Place) (e : Exits) (n : Machine) : Prop :=
  Around p n ∨ e.strays = true ∧ Watch.Spares

def Fits {α : Type} [Watch] (p : Place) (e : Exits) (S : Reach) (Q : α → Prop) :
    EStateM.Result Signal Machine α → Prop
  | .ok a n => Arrives p e n ∧ Q a
  | .error (.ret v) n => e.returns = true ∧ Arrives p e n ∧ Good S v
  | .error .brk n => Asked e.breaks ∧ Arrives p e n
  | .error (.fault f) _ => Watch.tame = true → f ≠ .zeroDivision

/-- How the runs from a state `m` and from the state without the variables out of sight end: the
first one gives up, or both end in the same way. -/
inductive Ends {α : Type} [Watch] (R : Reach) (p : Place) (m : Machine) (e : Exits)
    (Q : Reach → α → Prop) :
    EStateM.Result Signal Machine α → EStateM.Result Signal Machine α → Prop where
  | gaveUp {n : Machine} {r : EStateM.Result Signal Machine α} : Watch.Spares →
      Ends R p m e Q (.error (.fault .tooDeep) n) r
  | both {r : EStateM.Result Signal Machine α} (S : Reach) : R ≤ S → Sound S (finalState r) →
      Beyond hidden m (finalState r) → Fits p e S (Q S) r →
      Ends R p m e Q r (mapState (Machine.strip hidden) r)

/-- All runs from sound states at the place `p` end so. -/
def Behaves {α : Type} [Watch] (R : Reach) (p : Place) (e : Exits) (x : Eval α)
    (Q : Reach → α → Prop) : Prop :=
  ∀ m, Sound R m → Around p m → Ends R p m e Q (x m) (x (m.strip hidden))

/-- Brings no more functions within reach, and neither returns nor breaks. -/
abbrev Calm {α : Type} [Watch] (R : Reach) (p : Place) (x : Eval α) (P : α → Prop) : Prop :=
  Behaves R p ⟨false, false, false⟩ x fun S a => S = R ∧ P a

variable {breaks returns : Bool}

section Rules

variable {α β : Type} [Watch] {R S : Reach} {p : Place} {m n : Machine} {e e' : Exits}
  {P : Reach → α → Prop} {Q : Reach → β → Prop}

theorem Arrives.of_not_tame (hs : e.strays = true) (ht : Watch.tame = false) : Arrives p e n := by
  cases hf : Watch.follows with
  | true => exact .inr ⟨hs, ht, hf⟩
  | false => exact .inl (around_of_not_follows hf p n)

theorem Fits.error {P : α → Prop} {Q : β → Prop} {s : Signal} (h : Fits p e S P (.error s n))
    (hr : e.returns = true → e'.returns = true) (hb : e.breaks = true → e'.breaks = true)
    (hs : e.strays = true → Watch.Spares → e'.strays = true) : Fits p e' S Q (.error s n) := by
  have harrives (hn : Arrives p e n) : Arrives p e' n := hn.imp_right fun h => ⟨hs h.1 h.2, h.2⟩
  cases s with
  | fault f => exact h
  | ret v => exact ⟨hr h.1, harrives h.2.1, h.2.2⟩
  | brk => exact ⟨fun ht => hb (h.1 ht), harrives h.2⟩

theorem Ends.after {r r' : EStateM.Result Signal Machine α} (hRS : R ≤ S)
    (hmn : Beyond hidden m n) (h : Ends S p n e P r r') : Ends R p m e P r r' := by
  cases h with
  | gaveUp ht => exact .gaveUp ht
  | both T hST hk hnk hfits => exact .both T (hRS.trans hST) hk (hmn.trans hnk) hfits

variable {x : Eval α} {f : α → Eval β}

theorem Ends.bind {s s' : Bool} (hx : Ends R p m ⟨returns, breaks, s⟩ P (x m) (x (m.strip hidden)))
    (hs : s = true → s' = true)
    (hf : ∀ S, R ≤ S → ∀ a n, P S a → Sound S n → Arrives p ⟨returns, breaks, s⟩ n →
      Ends S p n ⟨returns, breaks, s'⟩ Q (f a n) (f a (n.strip hidden))) :
    Ends R p m ⟨returns, breaks, s'⟩ Q ((x >>= f) m) ((x >>= f) (m.strip hidden)) := by
  change Ends R p m _ Q (EStateM.bind x f m) (EStateM.bind x f (m.strip hidden))
  unfold EStateM.bind
  generalize x m = r at hx
  generalize x (m.strip hidden) = r' at hx
  cases hx with
  | gaveUp ht => exact .gaveUp ht
  | both S hRS hn hmn hfits =>
    cases r with
    | ok a n => exact (hf S hRS a n hfits.2 hn hfits.1).after hRS hmn
    | error s n => exact .both S hRS hn hmn (hfits.error id id fun h _ => hs h)

theorem Behaves.bind {strays : Bool} (hx : Behaves R p ⟨returns, breaks, false⟩ x P)
    (hf : ∀ S, R ≤ S → ∀ a, P S a → Behaves S p ⟨returns, breaks, strays⟩ (f a) Q) :
    Behaves R p ⟨returns, breaks, strays⟩ (x >>= f) Q :=
  fun m hm hp => (hx m hm hp).bind nofun fun S hRS a n ha hn harrives =>
    hf S hRS a ha n hn (harrives.resolve_right fun h => nomatch h.1)

theorem Behaves.known (hx : R.tame = Watch.tame → Behaves R p e x P) : Behaves R p e x P :=
  fun m hm hp => hx hm.tame m hm hp

theorem Behaves.loosen (hx : Behaves R p e x P) (hr : e.returns = true → e'.returns = true)
    (hb : e.breaks = true → e'.breaks = true)
    (hs : e.strays = true → Watch.Spares → e'.strays = true) : Behaves R p e' x P := by
  intro m hm hp
  have hends := hx m hm hp
  generalize x m = r at hends
  generalize x (m.strip hidden) = r' at hends
  cases hends with
  | gaveUp ht => exact .gaveUp ht
  | both S hRS hn hmn hfits =>
    refine .both S hRS hn hmn ?_
    cases r with
    | ok a n => exact ⟨hfits.1.imp_right fun h => ⟨hs h.1 h.2, h.2⟩, hfits.2⟩
    | error s n => exact hfits.error hr hb hs

theorem Behaves.of_names (hnone : hidden = [])
    (hx : Behaves R { p with names := fun _ => True } e x P) : Behaves R p e x P := by
  have hiff (n : Machine) : Around { p with names := fun _ => True } n ↔ Around p n :=
    ⟨fun hn => { hn with clear := fun s _ => hn.clear s trivial },
      fun hn => { hn with clear := fun _ _ _ _ => hnone ▸ List.not_mem_nil }⟩
  have harrives (n : Machine) : Arrives { p with names := fun _ => True } e n → Arrives p e n :=
    Or.imp_left (hiff n).mp
  intro m hm hp
  have hends := hx m hm ((hiff m).mpr hp)
  generalize x m = r at hends
  generalize x (m.strip hidden) = r' at hends
  cases hends with
  | gaveUp hs => exact .gaveUp hs
  | both S hRS hn hmn hfits =>
    refine .both S hRS hn hmn ?_
    rcases r with ⟨a, n⟩ | ⟨f | v | _, n⟩
    · exact hfits.imp_left (harrives n)
    · exact hfits
    · exact hfits.imp_right (And.imp_left (harrives n))
    · exact hfits.imp_right (harrives n)

theorem Calm.andThen {P : α → Prop} (hx : Calm R p x P) (hf : ∀ a, P a → Behaves R p e (f a) Q) :
    Behaves R p e (x >>= f) Q := by
  have hloose : Behaves R p ⟨e.returns, e.breaks, false⟩ x fun S a => S = R ∧ P a :=
    hx.loosen nofun nofun nofun
  refine hloose.bind fun S _ a ha => ?_
  obtain ⟨rfl, ha⟩ := ha
  exact hf a ha

theorem behaves_pure {a : α} (h : P R a) : Behaves R p e (pure a) P :=
  fun m hm hp => .both (r := .ok a m) R (le_refl R) hm (.refl _ m) ⟨.inl hp, h⟩

variable {P' : α → Prop}

theorem Calm.behaves (hx : Calm R p x P') (h : ∀ a, P' a → P R a) : Behaves R p e x P := by
  rw [← bind_pure x]
  exact hx.andThen fun a ha => behaves_pure (h a ha)

theorem Behaves.ite {c : Prop} [Decidable c] {y : Eval α} (hx : Behaves R p e x P)
    (hy : Behaves R p e y P) : Behaves R p e (if c then x else y) P := by
  split
  · exact hx
  · exact hy

theorem behaves_fail {f : Fault} (h : f ≠ .zeroDivision) : Behaves R p e (fail f) P :=
  fun m hm _ => .both (r := .error (.fault f) m) R (le_refl R) hm (.refl _ m) fun _ => h

theorem Behaves.check {c : Prop} [Decidable c] {f : Fault} {k : PUnit → Eval α}
    (hf : f ≠ .zeroDivision) (h : Behaves R p e (k ⟨⟩) P) :
    Behaves R p e (if c then fail f >>= k else k ⟨⟩) P :=
  Behaves.ite (behaves_fail hf) h

theorem behaves_mapM {f : α → Eval Value} : ∀ {R : Reach} {as : List α},
    (∀ S, R ≤ S → ∀ a ∈ as, Behaves S p ⟨true, breaks, false⟩ (f a) Good) →
      Behaves R p ⟨true, breaks, false⟩ (as.mapM f) AllGood
  | R, [], _ => behaves_pure trivial
  | R, a :: as, h => by
    rw [List.mapM_cons]
    refine (h R (le_refl R) a List.mem_cons_self).bind fun S hRS v hv => ?_
    refine (behaves_mapM fun T hST b hb =>
      h T (hRS.trans hST) b (List.mem_cons_of_mem _ hb)).bind fun T hST vs hvs => ?_
    exact behaves_pure ⟨hv.mono hST, hvs⟩

/-! ### Operations that do not look at scopes -/

theorem ends_of_blind (hp : Arrives p e m)
    (hblind : ∀ scopes evaluators active, x (m.among scopes evaluators active) =
      mapState (Machine.among scopes evaluators active) (x m)) (hRS : R ≤ S)
    (hn : Sound S (finalState (x m))) (hquiet : Quiet (P S) (x m)) :
    Ends R p m e P (x m) (x (m.strip hidden)) := by
  -- the scopes and evaluators at the end are those at the start
  have hfinal := congrArg finalState (hblind m.scopes m.evaluators m.active)
  rw [finalState_mapState] at hfinal
  have hown : finalState (x m) =
    Machine.among m.scopes m.evaluators m.active (finalState (x m)) := hfinal
  have hstrip : x (m.strip hidden) = mapState (Machine.strip hidden) (x m) := by
    refine (hblind (strip hidden m.scopes) m.evaluators m.active).trans ?_
    cases hr : x m with
    | ok a n | error s n =>
      rw [hr] at hown
      change n = _ at hown
      rw [hown]
      rfl
  have harrives : Arrives p e (finalState (x m)) := by
    rw [hown]
    exact hp.imp_left fun hat => hat.of_same rfl rfl rfl
  rw [hstrip]
  refine .both S hRS hn ?_ ?_
  · rw [hown]
    exact beyond_of_scopes_eq _ rfl rfl rfl
  · rcases hr : x m with ⟨a, n⟩ | ⟨f | v | _, n⟩
    · rw [hr] at hquiet harrives
      exact ⟨harrives, hquiet⟩
    · rw [hr] at hquiet
      exact fun _ => hquiet
    · rw [hr] at hquiet
      exact hquiet.elim
    · rw [hr] at hquiet
      exact hquiet.elim

theorem ScopeBlind.behaves (hx : ScopeBlind x) (h : ∀ m, Sound R m →
    ∃ S, R ≤ S ∧ Sound S (finalState (x m)) ∧ Quiet (P S) (x m)) : Behaves R p e x P := by
  intro m hm hp
  obtain ⟨S, hRS, hn, hquiet⟩ := h m hm
  exact ends_of_blind (.inl hp) (fun ss es a => hx ss es a m) hRS hn hquiet

theorem ends_plain (hx : Plain R x P') (h : ∀ a, P' a → P R a) (hm : Sound R m)
    (hp : Arrives p e m) : Ends R p m e P (x m) (x (m.strip hidden)) := by
  obtain ⟨hstore, hquiet, hsame⟩ := hx m hm.store
  have hfinal := congrArg finalState (hsame m.surroundings)
  rw [finalState_mapState] at hfinal
  have hown : finalState (x m) = Machine.within m.surroundings (finalState (x m)) := hfinal
  refine ends_of_blind hp (among_of_within hsame) (le_refl R) ?_ (hquiet.imp h)
  rw [hown]
  exact { hm with
    store := hstore
    homed := fun h hh => (hm.homed h hh).of_le rfl (Nat.le_refl _) (Nat.le_refl _) }

theorem Plain.behaves (hx : Plain R x P') (h : ∀ a, P' a → P R a) : Behaves R p e x P :=
  fun _ hm hp => ends_plain hx h hm (.inl hp)

theorem Behaves.andPlain {strays : Bool} (hx : Behaves R p ⟨returns, breaks, strays⟩ x P)
    (hf : ∀ S a, P S a → Plain S (f a) (Q S)) : Behaves R p ⟨returns, breaks, strays⟩ (x >>= f) Q :=
  fun m hm hp => (hx m hm hp).bind id fun S _ a _ ha hn harrives =>
    ends_plain (hf S a ha) (fun _ h => h) hn harrives

theorem Plain.calm (hx : Plain R x P') : Calm R p x P' :=
  hx.behaves fun _ ha => ⟨rfl, ha⟩

end Rules

/-! ### Basic steps -/

section Basic

variable {α : Type} [Watch] {R : Reach} {p : Place} {e : Exits} {Q : Reach → α → Prop}
  {name v : Value}

theorem behaves_read {f : Machine → Eval α} (hf : ∀ m, f (m.strip hidden) = f m)
    (h : ∀ m, Sound R m → Behaves R p e (f m) Q) : Behaves R p e (get >>= f) Q := by
  intro m hm hp
  have hstrip : (get >>= f) (m.strip hidden) = f (m.strip hidden) (m.strip hidden) := rfl
  rw [hstrip, hf]
  exact h m hm m hm hp

theorem behaves_current {f : Evaluator → Eval α} (h : ∀ ev, Behaves R p e (f ev) Q) :
    Behaves R p e (current >>= f) Q :=
  fun m hm hp => h m.evaluator m hm hp

theorem behaves_look {f : Machine → ScopeId → Eval α}
    (hf : ∀ m i, Around p m → p.At i → f (m.strip hidden) i = f m i)
    (h : ∀ m i, Sound R m → p.At i → R.scope i → Behaves R p e (f m i) Q) :
    Behaves R p e (get >>= fun m => here >>= f m) Q := by
  intro m hm hp
  have hrun (k : Machine) :
    (get >>= fun m => here >>= f m : Eval α) k = f k k.evaluator.scope k := rfl
  have hhere : (m.strip hidden).evaluator.scope = m.evaluator.scope := rfl
  rw [hrun, hrun, hhere, hf m _ hp hp.here_eq]
  exact h m _ hm hp.here_eq hm.here m hm hp

theorem behaves_here {f : ScopeId → Eval α}
    (h : ∀ i, p.At i → R.scope i → Behaves R p e (f i) Q) : Behaves R p e (here >>= f) Q :=
  behaves_look (f := fun _ => f) (fun _ _ _ _ => rfl) fun _ i _ => h i

theorem calm_modify {g : Machine → Machine} (h : ∀ m, Sound R m → Around p m → Sound R (g m) ∧
    Around p (g m) ∧ Beyond hidden m (g m) ∧ g (m.strip hidden) = (g m).strip hidden) :
    Calm R p (modify g) Anything := by
  intro m hm hp
  obtain ⟨hn, hat, hmn, hstrip⟩ := h m hm hp
  have hrun : (modify g : Eval PUnit) (m.strip hidden) = .ok ⟨⟩ ((g m).strip hidden) :=
    congrArg (EStateM.Result.ok PUnit.unit) hstrip
  rw [hrun]
  exact .both (r := .ok PUnit.unit (g m)) R (le_refl R) hn hmn ⟨.inl hat, rfl, trivial⟩

theorem calm_modifyCurrent {f : Evaluator → Evaluator}
    (h : ∀ e, (f e).scope = e.scope ∧ (f e).stack = e.stack) :
    Calm R p (modifyCurrent f) Anything := by
  refine calm_modify fun m hm hp => ?_
  have hscope := (h m.evaluator).1
  refine ⟨hm.adjust (hscope.symm ▸ hm.here), hp.beyond (beyond_adjust _ f m) (fun hf => ?_)
    fun ht => ?_, beyond_adjust _ f m, rfl⟩
  · rw [evaluator_adjust f (hp.active_lt hf), hscope, hp.here_eq hf]
  · rw [evaluator_adjust f (hm.active_lt ht), (h _).2, hp.stack_eq ht]

theorem calm_setPassing (passing : Bool) :
    Calm R p (modifyCurrent fun e => { e with passing := passing }) Anything :=
  calm_modifyCurrent fun _ => ⟨rfl, rfl⟩

theorem calm_defineAt {place : Array Scope → ScopeId} (hname : Good R name) (hv : Good R v)
    (hplace : ∀ m, Around p m →
      place (strip hidden m.scopes) = place m.scopes ∧ place m.scopes ∉ hidden) :
    Calm R p (modifyScopes fun ss => define ss (place ss) name v) Anything := by
  refine calm_modify fun m hm hp => ?_
  obtain ⟨hsame, hout⟩ := hplace m hp
  have hbeyond := beyond_define hout m name v
  refine ⟨hm.define _ hname hv, hp.beyond hbeyond hp.here_eq hp.stack_eq, hbeyond, ?_⟩
  change { m with
    scopes := define (strip hidden m.scopes) (place (strip hidden m.scopes)) name v } = _
  rw [hsame, define_strip hout]
  rfl

theorem calm_define {i : ScopeId} (hi : i ∉ hidden) (hname : Good R name) (hv : Good R v) :
    Calm R p (modifyScopes fun ss => define ss i name v) Anything :=
  calm_defineAt hname hv fun _ _ => ⟨rfl, hi⟩

theorem calm_defineHere (hp : p.here ∉ hidden) (hname : Good R name) (hv : Good R v) :
    Calm R p (defineHere name v) Anything :=
  behaves_here fun _ hi _ => calm_define (hi.not_mem hp) hname hv

theorem calm_bindName (hp : p.here ∉ hidden) {s : String} (hv : Good R v) :
    Calm R p (defineHere (.str s) v) Anything :=
  calm_defineHere hp trivial hv

theorem calm_defineOutermost (i : ScopeId) (hname : Good R name) (hv : Good R v) :
    Calm R p (modifyScopes fun ss => define ss (outermost ss i) name v) Anything :=
  calm_defineAt hname hv fun _ hm => ⟨outermost_strip, hm.outermost_not_mem _⟩

theorem calm_assign {i : ScopeId} {s : String} (hi : p.At i) (hs : p.names s) (hv : Good R v) :
    Calm R p (modifyScopes fun ss => assign ss i (.str s) v) Anything := by
  simp only [assign_eq_define]
  refine calm_defineAt trivial hv fun m hm => ⟨target_strip fun _ hl => hm.clear_at hi hs hl, ?_⟩
  · unfold Scoped.target
    cases hb : Scoped.binder? m.scopes i (.str s) with
    | none => exact hm.outermost_not_mem _
    | some l => exact hm.clear_at hi hs hb

end Basic

end WikiFeed.Prefab

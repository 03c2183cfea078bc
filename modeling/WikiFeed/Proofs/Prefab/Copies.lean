import WikiFeed.Proofs.Prefab.Watched

/-! # Closures and copies

A function comes within reach when its closure is written: from then on its label is marked, and its
closure keeps to marked scopes. A copy is made of new objects, of new scopes beside marked ones and
of functions with new labels, so the copy of a good value is good. `Copies` says this of a step of
copying, together with the same of all that has been copied before. -/

namespace WikiFeed.Prefab

open Lua Places

/-! ### Closures -/

def GoodClosure (R : Reach) (c : Closure) : Prop := ∀ s, c.scope = some s → R.scope s

theorem goodClosure_none {R : Reach} {n : Nat} : GoodClosure R ⟨none, n⟩ := nofun

def marked (R : Reach) (l : Nat) : Reach := { R with label := fun l' => R.label l' ∨ l' = l }

/-- A label that is not the one of the watched function. -/
def Foreign [Watch] (l : Nat) : Prop := ∀ h, Watch.home = some h → l ≠ h.label

section Closures

variable {R S : Reach} {m : Machine} {l : Nat} {c : Closure}

theorem le_marked (R : Reach) (l : Nat) : R ≤ marked R l :=
  ⟨fun _ => id, fun _ => id, fun _ => .inl, id⟩

theorem marked_eq (h : R.label l) : marked R l = R := by
  have hlabel : (fun l' => R.label l' ∨ l' = l) = R.label :=
    funext fun l' => propext ⟨fun h' => h'.elim id fun heq => heq ▸ h, .inl⟩
  unfold marked
  rw [hlabel]

variable [Watch]

theorem Sound.setClosure (hm : Sound R m) (hc : GoodClosure R c)
    (hhome : ∀ h, Watch.home = some h → l = h.label → c = h.closure) :
    Sound (marked R l)
      { m with closures := (l, c) :: m.closures.filter fun p => p.1 != l } where
  tame := hm.tame
  all := hm.all
  active_lt := hm.active_lt
  here := hm.here
  scopes := ⟨hm.scopes.parent, fun i hi => (hm.scopes.vars i hi).mono (le_marked R l),
    hm.scopes.fresh⟩
  store := ⟨fun r hr => (hm.store.contents r hr).mono (le_marked R l), hm.store.fresh⟩
  closures l' c' s hl' hlookup hs := by
    -- the function itself has its new closure, all others keep theirs
    rw [List.lookup_cons] at hlookup
    by_cases heq : l' = l
    · simp only [heq, beq_self_eq_true, Option.some.injEq] at hlookup
      exact hc s (hlookup ▸ hs)
    · rw [beq_eq_false_iff_ne.mpr heq] at hlookup
      rw [lookup_filter_of_ne heq] at hlookup
      exact hm.closures l' c' s (hl'.resolve_right heq) hlookup hs
  modules := hm.modules.mono (le_marked R l)
  required := hm.required
  homed h hh := by
    refine { hm.homed h hh with closure_eq := ?_ }
    rw [List.lookup_cons]
    by_cases heq : h.label = l
    · rw [heq, beq_self_eq_true, hhome h hh heq.symm]
    · rw [beq_eq_false_iff_ne.mpr heq]
      exact (lookup_filter_of_ne heq _).trans (hm.homed h hh).closure_eq

theorem Sound.goodClosure (hm : Sound R m) (hl : R.label l) :
    GoodClosure R ((m.closures.lookup l).getD ⟨none, 0⟩) := by
  intro s hs
  cases hlookup : m.closures.lookup l with
  | none =>
    rw [hlookup] at hs
    nomatch hs
  | some c =>
    rw [hlookup] at hs
    exact hm.closures l c s hl hlookup hs

variable {p : Place} {e : Exits}

theorem calm_closureOf_any : Calm R p (closureOf l) Anything :=
  behaves_read (fun _ => rfl) fun _ _ => behaves_pure ⟨rfl, trivial⟩

theorem calm_closureOf (hl : R.label l) : Calm R p (closureOf l) (GoodClosure R) :=
  behaves_read (fun _ => rfl) fun _ hm => behaves_pure ⟨rfl, hm.goodClosure hl⟩

theorem behaves_modifyClosure {f : Closure → Closure} (hf : ∀ c, GoodClosure R (f c))
    (hhome : Foreign l) :
    Behaves R p e (modifyClosure l f) fun S _ => S.label l :=
  (scopeBlind_modifyClosure l f).behaves fun _ hm =>
    ⟨marked R l, le_marked R l, hm.setClosure (hf _) fun h hh heq => absurd heq (hhome h hh),
      .inr rfl⟩

theorem calm_modifyClosure {f : Closure → Closure} (hl : R.label l)
    (hf : ∀ c, GoodClosure R c → GoodClosure R (f c))
    (hhome : Foreign l) : Calm R p (modifyClosure l f) Anything := by
  refine (scopeBlind_modifyClosure l f).behaves fun m hm => ⟨R, le_refl R, ?_, rfl, trivial⟩
  have hm' := hm.setClosure (l := l) (hf _ (hm.goodClosure hl)) fun h hh heq =>
    absurd heq (hhome h hh)
  rwa [marked_eq hl] at hm'

end Closures

/-! ### Steps of copying -/

structure GoodCopies [Watch] (R : Reach) (c : Copied) : Prop where
  objects : ∀ p ∈ c.objects, Good R p.2
  labels : ∀ p ∈ c.labels, Foreign p.2
  scopes : ∀ p ∈ c.scopes, R.scope p.2

/-- A step of copying that neither returns nor breaks, has a result as `Q` says and makes only good
copies. -/
def Copies {α : Type} [Watch] (R : Reach) (p : Place) (x : Copying α) (Q : Reach → α → Prop) :
    Prop :=
  ∀ c, GoodCopies R c →
    Behaves R p ⟨false, false, false⟩ (x c) fun S q => Q S q.1 ∧ GoodCopies S q.2

variable {copy : Value → Copying Value}

section CopyRules

variable [Watch] {α β : Type} {R S : Reach} {P : Reach → α → Prop} {Q : Reach → β → Prop}
  {p : Place}

theorem GoodCopies.mono {c : Copied} (hc : GoodCopies R c) (h : R ≤ S) : GoodCopies S c :=
  ⟨fun p hp => (hc.objects p hp).mono h, hc.labels, fun p hp => h.1 p.2 (hc.scopes p hp)⟩

theorem Copies.bind {x : Copying α} {f : α → Copying β} (hx : Copies R p x P)
    (hf : ∀ S, R ≤ S → ∀ a, P S a → Copies S p (f a) Q) : Copies R p (x >>= f) Q :=
  fun c hc => (hx c hc).bind fun S hRS q hq => hf S hRS q.1 hq.1 q.2 hq.2

theorem copies_pure {a : α} (h : P R a) : Copies R p (pure a) P := fun _ hc => behaves_pure ⟨h, hc⟩

theorem copies_lift {x : Eval α} (hx : Behaves R p ⟨false, false, false⟩ x P) :
    Copies R p (liftM x) P :=
  fun _ hc => hx.bind fun _ hRS _ ha => behaves_pure ⟨ha, hc.mono hRS⟩

theorem Calm.copying {x : Eval α} {f : α → Copying β} {P' : α → Prop} (hx : Calm R p x P')
    (hf : ∀ a, P' a → Copies R p (f a) Q) : Copies R p (liftM x >>= f) Q := by
  intro c hc
  have hpair : Calm R p (do let a ← x; pure (a, c)) fun q => P' q.1 ∧ q.2 = c :=
    hx.andThen fun _ ha => behaves_pure ⟨rfl, ha, rfl⟩
  exact hpair.andThen fun q hq => hf q.1 hq.1 q.2 (hq.2 ▸ hc)

theorem copies_read {f : Machine → Copying β} (hf : ∀ m, f (m.strip hidden) = f m)
    (h : ∀ m, Sound R m → Copies R p (f m) Q) : Copies R p (getThe Machine >>= f) Q :=
  fun c hc => behaves_read (f := fun m => f m c) (fun m => congrFun (hf m) c)
    fun m hm => h m hm c hc

theorem copies_get_bind {f : Copied → Copying β} (hf : ∀ c, GoodCopies R c → Copies R p (f c) Q) :
    Copies R p (get >>= f) Q :=
  fun c hc => hf c hc c hc

theorem copies_modify_bind {g : Copied → Copied} {f : PUnit → Copying β}
    (hg : ∀ c, GoodCopies R c → GoodCopies R (g c)) (hf : Copies R p (f ⟨⟩) Q) :
    Copies R p (modify g >>= f) Q :=
  fun c hc => hf (g c) (hg c hc)

theorem copies_mapM (hcopy : ∀ S v, Good S v → Copies S p (copy v) Good) :
    ∀ {R : Reach} {vs : List Value}, AllGood R vs → Copies R p (vs.mapM copy) AllGood
  | _, [], _ => copies_pure trivial
  | _, v :: vs, h => by
    rw [List.mapM_cons]
    refine (hcopy _ v h.1).bind fun S hRS w hw => ?_
    refine (copies_mapM hcopy (h.2.mono hRS)).bind fun T hST ws hws => ?_
    exact copies_pure ⟨hw.mono hST, hws⟩

end CopyRules

/-! ### Copies -/

section Copies

variable [Watch] {R : Reach} {p : Place} {e : Exits} {v : Value}

theorem calm_newScope {parent : Option ScopeId} {owner : Option Nat}
    (hparent : ∀ i, parent = some i → R.scope i) : Calm R p (newScope parent owner) R.scope := by
  intro m hm hp
  have hbeyond := beyond_addScope hidden m parent owner
  have hstrip : newScope parent owner (m.strip hidden) =
      .ok m.scopes.size ((m.addScope parent owner).strip hidden) := by
    rw [← addScope_strip hp.toInner]
    exact congrArg (EStateM.Result.ok · _) (size_strip hidden m.scopes)
  rw [hstrip]
  exact .both (r := .ok m.scopes.size (m.addScope parent owner)) R (le_refl R)
    (hm.addScope hparent owner) hbeyond
    ⟨.inl (hp.beyond hbeyond hp.here_eq hp.stack_eq), rfl, hm.scopes.fresh _ (Nat.le_refl _)⟩

theorem copies_copyScope {i : ScopeId} (hi : R.scope i) : Copies R p (copyScope i) Reach.scope := by
  refine copies_get_bind fun c hc => ?_
  cases hj : c.scopes.lookup i with
  | some j => exact copies_pure (hc.scopes _ (mem_of_lookup_eq_some hj))
  | none =>
    refine copies_read (fun m => ?_) fun m hm => ?_
    · have hparent : ((m.strip hidden).scopes.getD i default).parent =
          (m.scopes.getD i default).parent := parent_strip
      have howner : ((m.strip hidden).scopes.getD i default).owner =
          (m.scopes.getD i default).owner := owner_strip
      dsimp only
      rw [hparent, howner]
    refine (calm_newScope fun q hq => hm.scopes.parent i q hi hq).copying fun j hj => ?_
    refine copies_modify_bind (fun c hc => ⟨hc.objects, hc.labels, fun q hq => ?_⟩) (copies_pure hj)
    rcases List.mem_cons.mp hq with rfl | hq
    · exact hj
    · exact hc.scopes q hq

theorem copies_copyLabel (l : Nat) : Copies R p (copyLabel l) fun _ => Foreign := by
  refine copies_get_bind fun c hc => ?_
  cases hnew : c.labels.lookup l with
  | some new => exact copies_pure (hc.labels _ (mem_of_lookup_eq_some hnew))
  | none =>
    refine calm_closureOf_any.copying fun closure _ => ?_
    -- the copy gets a label that no function has
    have hlabel : Calm R p (modifyGet fun m => (m.labels, { m with labels := m.labels + 1 }))
        Foreign :=
      ScopeBlind.behaves (fun _ _ _ _ => rfl) fun _ hm => ⟨R, le_refl R, { hm with
        homed := fun h hh => (hm.homed h hh).of_le rfl (Nat.le_refl _) (Nat.le_succ _) }, rfl,
        fun h hh => Nat.ne_of_gt (hm.homed h hh).label_lt⟩
    refine hlabel.copying fun new hnew => ?_
    refine (copies_lift (behaves_modifyClosure (fun _ => goodClosure_none) hnew)).bind
      fun S _ _ _ => ?_
    refine copies_modify_bind (fun c hc => ⟨hc.objects, fun q hq => ?_, hc.scopes⟩)
      (copies_pure hnew)
    rcases List.mem_cons.mp hq with rfl | hq
    · exact hnew
    · exact hc.labels q hq

/-- A step of copying whose result is as `Q` says whatever is within reach. -/
def Retains {α : Type} (p : Place) (x : Copying α) (Q : α → Prop) : Prop :=
  ∀ R, Copies R p x fun _ => Q

theorem Retains.bind {α β : Type} {x : Copying α} {f : α → Copying β} {P : α → Prop}
    {Q : β → Prop} (hx : Retains p x P) (hf : ∀ a, P a → Retains p (f a) Q) :
    Retains p (x >>= f) Q :=
  fun R => (hx R).bind fun S _ a ha => hf a ha S

theorem retains_pure {α : Type} {a : α} {Q : α → Prop} (h : Q a) : Retains p (pure a) Q :=
  fun _ => copies_pure h

mutual

theorem retains_expr : ∀ e : Expr, Retains p (e.relabelM copyLabel) (·.tame = e.tame)
  | .index i v _ => (retains_expr i).bind fun _ hi => (retains_expr v).bind fun _ hv =>
    retains_pure (congrArg₂ and hi hv)
  | .call c args => (retains_expr c).bind fun _ hc => (retains_exprs args).bind fun _ ha =>
    retains_pure (congrArg₂ and hc ha)
  | .invoke s _ args => (retains_expr s).bind fun _ hs => (retains_exprs args).bind fun _ ha =>
    retains_pure (congrArg₂ and hs ha)
  | .function f => (retains_func f).bind fun _ hf => retains_pure hf.2
  | .table fields => (retains_fields fields).bind fun _ hf => retains_pure hf
  | .unary _ e => (retains_expr e).bind fun _ he => retains_pure he
  | .binary _ l r => (retains_expr l).bind fun _ hl => (retains_expr r).bind fun _ hr =>
    retains_pure (congrArg₂ and hl hr)
  | .nil | .true | .false | .number _ | .string _ | .varargs | .name _ => retains_pure rfl

theorem retains_exprs : ∀ es, Retains p (relabelExprs copyLabel es) (tameExprs · = tameExprs es)
  | [] => retains_pure rfl
  | e :: es => (retains_expr e).bind fun _ he => (retains_exprs es).bind fun _ hes =>
    retains_pure (congrArg₂ and he hes)

theorem retains_fields :
    ∀ fs, Retains p (relabelFields copyLabel fs) (tameFields · = tameFields fs)
  | [] => retains_pure rfl
  | .mk k v _ :: fs => (retains_expr k).bind fun _ hk => (retains_expr v).bind fun _ hv =>
    (retains_fields fs).bind fun _ hfs => retains_pure (congrArg₂ and (congrArg₂ and hk hv) hfs)

theorem retains_head : ∀ h : Head, Retains p (h.relabelM copyLabel) (·.tame = h.tame)
  | .global t => (retains_expr t).bind fun _ ht => retains_pure ht
  | .method s _ => (retains_expr s).bind fun _ hs => retains_pure hs
  | .local _ | .anonymous => retains_pure rfl

theorem retains_func : ∀ f : Func,
    Retains p (f.relabelM copyLabel) fun g => Foreign g.label ∧ g.tame = f.tame
  | .mk l head _ body => Retains.bind (fun _ => copies_copyLabel l) fun _ hl =>
    (retains_head head).bind fun _ hh => (retains_stmts body).bind fun _ hb =>
    retains_pure ⟨hl, congrArg₂ and hh (hb false)⟩

theorem retains_stmt : ∀ s : Stmt,
    Retains p (s.relabelM copyLabel) fun t => ∀ loop, t.tame loop = s.tame loop
  | .assign ts vs => (retains_exprs ts).bind fun _ ht => (retains_exprs vs).bind fun _ hv =>
    retains_pure fun _ => congrArg₂ and ht hv
  | .local _ vs | .return vs => (retains_exprs vs).bind fun _ hv => retains_pure fun _ => hv
  | .expr e => (retains_expr e).bind fun _ he => retains_pure fun _ => he
  | .function f => (retains_func f).bind fun _ hf => retains_pure fun _ => hf.2
  | .while t body => (retains_expr t).bind fun _ ht => (retains_stmts body).bind fun _ hb =>
    retains_pure fun loop => congrArg₂ and ht (hb loop)
  | .repeat body t => (retains_stmts body).bind fun _ hb => (retains_expr t).bind fun _ ht =>
    retains_pure fun loop => congrArg₂ and (hb loop) ht
  | .do body => (retains_stmts body).bind fun _ hb => retains_pure hb
  | .if t body orelse => (retains_expr t).bind fun _ ht => (retains_stmts body).bind fun _ hb =>
    (retains_orelse orelse).bind fun _ ho =>
    retains_pure fun loop => congrArg₂ and (congrArg₂ and ht (hb loop)) (ho loop)
  | .fornum _ a b none body => (retains_expr a).bind fun _ ha => (retains_expr b).bind fun _ hb =>
    (retains_stmts body).bind fun _ hs =>
    retains_pure fun loop => congrArg₂ and (congrArg₂ and ha hb) (hs loop)
  | .fornum _ a b (some c) body => (retains_expr a).bind fun _ ha =>
    (retains_expr b).bind fun _ hb => (retains_expr c).bind fun _ hc =>
    (retains_stmts body).bind fun _ hs =>
    retains_pure fun loop => congrArg₂ and (congrArg₂ and (congrArg₂ and ha hb) hc) (hs loop)
  | .forin _ iter body => (retains_exprs iter).bind fun _ hi =>
    (retains_stmts body).bind fun _ hb =>
    retains_pure fun _ => congrArg₂ and hi (hb true)
  | .goto _ | .label _ | .break | .semicolon => retains_pure fun _ => rfl

theorem retains_stmts : ∀ ss, Retains p (relabelStmts copyLabel ss) fun ts =>
    ∀ loop, tameStmts loop ts = tameStmts loop ss
  | [] => retains_pure fun _ => rfl
  | s :: ss => (retains_stmt s).bind fun _ hs => (retains_stmts ss).bind fun _ hss =>
    retains_pure fun loop => congrArg₂ and (hs loop) (hss loop)

theorem retains_orelse : ∀ o : Orelse,
    Retains p (o.relabelM copyLabel) fun o' => ∀ loop, o'.tame loop = o.tame loop
  | .none => retains_pure fun _ => rfl
  | .block body => (retains_stmts body).bind fun _ hb => retains_pure hb
  | .elseif t body orelse => (retains_expr t).bind fun _ ht =>
    (retains_stmts body).bind fun _ hb => (retains_orelse orelse).bind fun _ ho =>
    retains_pure fun loop => congrArg₂ and (congrArg₂ and ht (hb loop)) (ho loop)

end

theorem copies_copyFunc {f : Func} (hf : Good R (.func f)) : Copies R p (copyFunc f) Good := by
  refine (calm_closureOf hf.1).copying fun closure hclosure => ?_
  refine (retains_func f R).bind fun S hRS g hg => ?_
  have hscope : Copies S p (closure.scope.mapM copyScope) fun T scope =>
      ∀ receivers, GoodClosure T ⟨scope, receivers⟩ := by
    cases hs : closure.scope with
    | none => exact copies_pure fun _ => goodClosure_none
    | some i =>
      refine (copies_copyScope (hRS.1 i (hclosure i hs))).bind fun T _ j hj => copies_pure ?_
      rintro _ _ ⟨⟩
      exact hj
  -- the copy is good only when the closure under its new label has got its scope
  refine hscope.bind fun T hST scope hscope => ?_
  refine (copies_lift (behaves_modifyClosure (fun c => hscope c.receivers) hg.1)).bind
    fun U hTU _ hl => copies_pure ⟨hl, fun ht => ?_⟩
  exact hg.2.trans (hf.2 ((hRS.trans (hST.trans hTU)).2.2.2 ht))

theorem copies_copyEntries (hcopy : ∀ S v, Good S v → Copies S p (copy v) Good) (r : Ref) :
    ∀ {R : Reach} {pairs : List (Value × Value)}, (∀ p ∈ pairs, Good R p.1 ∧ Good R p.2) →
      Copies R p (copyEntries copy r pairs) fun _ _ => True
  | _, [], _ => copies_pure trivial
  | R, (k, v) :: rest, h => by
    obtain ⟨hk, hv⟩ := h (k, v) List.mem_cons_self
    refine (hcopy R k hk).bind fun S hRS k' hk' => ?_
    refine (hcopy S v (hv.mono hRS)).bind fun T hST v' hv' => ?_
    refine (plain_put (hk'.mono hST) hv').calm.copying fun _ _ => ?_
    have hRT : R ≤ T := hRS.trans hST
    refine copies_copyEntries hcopy r fun q hq => ?_
    obtain ⟨hp₁, hp₂⟩ := h q (List.mem_cons_of_mem _ hq)
    exact ⟨hp₁.mono hRT, hp₂.mono hRT⟩

theorem copies_three {f : Value → Value → Value → Copying Unit}
    (hcopy : ∀ S v, Good S v → Copies S p (copy v) Good) {x y z : Value} (h : AllGood R [x, y, z])
    (hf : ∀ S x y z, AllGood S [x, y, z] → Copies S p (f x y z) fun _ _ => True) :
    Copies R p (do f (← copy x) (← copy y) (← copy z)) fun _ _ => True := by
  obtain ⟨hx, hy, hz, -⟩ := h
  refine (hcopy R x hx).bind fun S hRS x' hx' => ?_
  refine (hcopy S y (hy.mono hRS)).bind fun T hST y' hy' => ?_
  refine (hcopy T z (hz.mono (hRS.trans hST))).bind fun U hTU z' hz' => ?_
  -- the parts that were copied first are still good when the last one has been copied
  exact hf U x' y' z' ⟨hx'.mono (hST.trans hTU), hy'.mono hTU, hz', trivial⟩

theorem copies_copyParts (hcopy : ∀ S v, Good S v → Copies S p (copy v) Good) (r : Ref) {c : Cell}
    (hc : AllGood R c.contents) : Copies R p (copyParts copy r c) fun _ _ => True := by
  unfold copyParts
  extract_lets set
  have hset {S : Reach} {c : Cell} (h : AllGood S c.contents) :
      Copies S p (liftM (set c)) fun _ _ => True :=
    copies_lift ((plain_modifyStore fun _ hs => hs.update fun _ _ => h).behaves fun _ _ => trivial)
  split
  case h_1 xs => exact (copies_mapM hcopy hc).bind fun _ _ _ hys => hset hys
  case h_2 x y z => exact copies_three hcopy hc fun _ _ _ _ h => hset h
  case h_3 t f p => exact copies_three hcopy hc fun _ _ _ _ h => hset h
  case h_4 n p =>
    refine (hcopy R n hc.1).bind fun S hRS n' hn' => ?_
    refine (hcopy S (.object .phrase p) (hc.2.1.mono hRS)).bind fun T hST p' hp' => ?_
    split
    · exact hset ⟨hn'.mono hST, hp', trivial⟩
    · exact copies_pure trivial
  case h_5 t tags o a =>
    obtain ⟨-, htags, ho, ha⟩ : AllGood R t.contents ∧ AllGood R tags ∧ Good R o ∧
        AllGood R a.toList := by simpa [Cell.contents, AllGood] using hc
    refine (hcopy R o ho).bind fun S hRS o' ho' => ?_
    have hupdate : Plain S (modifyStore (·.update r fun c => .entity c.entries tags o' a))
        Anything := plain_modifyStore fun s hs => hs.update fun _ hcell => allGood_append.mpr
          ⟨hcell.entries, allGood_append.mpr ⟨htags.mono hRS, ho', ha.mono hRS⟩⟩
    exact copies_lift (hupdate.behaves fun _ _ => trivial)
  case h_6 => exact copies_pure trivial

theorem copies_copyObject (hcopy : ∀ S v, Good S v → Copies S p (copy v) Good) {k : Kind} {r : Ref}
    (hr : R.cell r) : Copies R p (copyObject copy k r) Good := by
  refine copies_read (fun _ => rfl) fun m hm => ?_
  have hcell : AllGood R (m.store.cell r).contents := hm.store.contents r hr
  refine (plain_alloc (hcell.withEntries allGood_contents_empty)).calm.copying fun new hnew => ?_
  refine copies_modify_bind (fun c hc => ⟨fun q hq => ?_, hc.labels, hc.scopes⟩) ?_
  · rcases List.mem_cons.mp hq with rfl | hq
    · exact hnew
    · exact hc.objects q hq
  split
  · rename_i q
    refine (copies_copyEntries hcopy q hcell.entries.toList).bind fun S hRS _ _ => ?_
    refine (copies_copyParts hcopy q (hcell.mono hRS)).bind fun T hST _ _ => ?_
    exact copies_pure (hnew.mono (hRS.trans hST))
  · refine copies_pure ?_
    split
    · exact hnew
    · exact hnew

theorem copies_copyUpTo : ∀ (n : Nat) (R : Reach) (v : Value), Good R v →
    Copies R p (copyUpTo n v) Good
  | 0, _, _, _ => fun _ _ => behaves_fail nofun
  | n + 1, R, v, hv => by
    have hcopy := copies_copyUpTo n
    have hitems {xs : List Value} (h : AllGood R xs) : Copies R p (xs.mapM (copyUpTo n)) AllGood :=
      copies_mapM hcopy h
    unfold copyUpTo
    split
    iterate 3 · exact (hitems hv).bind fun _ _ _ hxs => copies_pure hxs
    · exact copies_copyFunc hv
    · rename_i k r
      refine copies_get_bind fun c hc => ?_
      cases hw : c.objects.lookup r with
      | some w => exact copies_pure (hc.objects _ (mem_of_lookup_eq_some hw))
      | none => exact copies_copyObject hcopy hv
    · exact copies_pure hv

theorem behaves_deepCopy (hv : Good R v) : Behaves R p e (deepCopy v) Good := by
  have hcopy := copies_copyUpTo (p := p) 300 R v hv ⟨[], [], []⟩ ⟨nofun, nofun, nofun⟩
  have hcopied : Behaves R p ⟨false, false, false⟩ (deepCopy v) Good :=
    hcopy.bind fun S _ q hq => behaves_pure hq.1
  exact hcopied.loosen nofun nofun nofun

end Copies

end WikiFeed.Prefab

import WikiFeed.Proofs.Prefab.Blind

/-! # Library functions only move values around

Members, traversals and library functions do not look at scopes, and from good stores and good
arguments they give good values and leave good stores. -/

namespace WikiFeed.Prefab

open Lua

variable {α : Type} {R : Reach} {r : Ref} {k v w : Value}

/-! ### Members -/

theorem plain_lengthOf (v : Value) : Plain R (lengthOf v) (Good R) := by
  refine Plain.read (fun _ _ => rfl) fun m _ => ?_
  split
  · exact plain_pure trivial
  · exact plain_fail (by simp)

theorem plain_itemAt (xs : List α) (k : Value) : Plain R (itemAt xs k) (· ∈ xs) := by
  unfold itemAt
  split
  · exact plain_fail nofun
  · dsimp only
    split
    case h_1 x hx =>
      obtain ⟨-, hx⟩ : _ ∧ xs[_]? = some x := by simpa using hx
      exact plain_pure (List.mem_of_getElem? hx)
    case h_2 => exact plain_fail nofun

theorem plain_vectorMember (hr : R.cell r) (k : Value) : Plain R (vectorMember r k) (Good R) := by
  refine Plain.read (fun _ _ => rfl) fun m hm => ?_
  have hc := hm.contents r hr
  split
  case h_1 heq | h_2 heq | h_3 heq =>
    rw [heq] at hc
    first
      | exact plain_pure hc.1
      | exact plain_pure hc.2.1
      | exact plain_pure hc.2.2.1
  case h_4 => exact plain_pure hr
  case h_5 => exact Plain.ite (plain_fail nofun) (plain_pure trivial)
  case h_6 => exact plain_fail nofun

theorem plain_dummyMember (hk : Good R k) (hr : R.cell r) : Plain R (dummyMember r k) (Good R) := by
  refine (plain_tableOf hr).bind fun t ht => ?_
  extract_lets found
  have hfound : Good R found := by
    unfold found
    split
    · exact ht.get k
    · exact trivial
  refine Plain.ite (plain_newDummy.bind fun d hd => ?_) (plain_pure hfound)
  exact Plain.ite ((plain_put hk hd).bind fun _ _ => plain_pure hd) (plain_pure hd)

theorem plain_member (hv : Good R v) (hk : Good R k) : Plain R (member v k) (Good R) := by
  unfold member
  split
  · exact (plain_itemAt _ _).bind fun _ _ => plain_pure trivial
  · exact (plain_itemAt _ _).imp fun _ hx => AllGood.mem hv hx
  · exact (plain_itemAt _ _).imp fun _ hx => AllGood.mem hv hx
  case h_4 r =>
    refine Plain.read (fun _ _ => rfl) fun m hm => ?_
    have hc := hm.contents r hv
    split
    case h_1 xs heq =>
      rw [heq] at hc
      exact (plain_itemAt _ _).imp fun _ hx => AllGood.mem hc hx
    case h_2 => exact plain_fail nofun
  case h_5 =>
    refine (plain_tableOf hv).bind fun t ht => plain_pure ?_
    split
    · exact ht.get k
    · exact trivial
  · exact plain_dummyMember hk hv
  · exact plain_dummyMember hk hv
  · refine Plain.check nofun ((plain_tableOf hv).bind fun t ht => ?_)
    split
    case h_1 w hw => exact plain_pure (ht.get? hw)
    case h_2 => exact plain_fail nofun
  · exact plain_vectorMember hv k
  · exact plain_alloc ⟨hk, hv, trivial⟩
  · exact plain_fail nofun

theorem plain_setEntry (r : Ref) (hk : Good R k) (hv : Good R v) :
    Plain R (setEntry r k v) Anything := by
  refine Plain.ite (Plain.ite ?_ (plain_pure trivial))
    (Plain.ite (plain_put hk hv) (plain_fail nofun))
  exact plain_modifyTable fun _ ht => ht.erase k

theorem plain_setMember (o : Value) (hk : Good R k) (hv : Good R v) :
    Plain R (setMember o k v) Anything := by
  unfold setMember
  split
  · exact plain_setEntry _ hk hv
  · exact plain_setEntry _ hk hv
  · exact plain_setEntry _ hk hv
  · exact Plain.ite (plain_put hk hv) (plain_fail nofun)
  case h_5 r =>
    refine Plain.read (fun _ _ => rfl) fun m hm => ?_
    split
    case h_1 xs i heq _ =>
      refine Plain.ite (plain_modifyStore fun s hs => hs.update fun hr _ => ?_) (plain_fail nofun)
      have hxs := hm.contents r hr
      rw [heq] at hxs
      refine allGood_iff.mpr fun u hu => ?_
      rcases List.mem_or_eq_of_mem_set hu with hu | rfl
      · exact AllGood.mem hxs hu
      · exact hv
    case h_2 => exact plain_fail nofun
  · exact plain_fail nofun

theorem plain_containsValue {o : Value} (ho : Good R o) (v : Value) :
    Plain R (containsValue o v) Anything := by
  have hkey (r : Ref) (hr : R.cell r) : Plain R
      (if v.isKey then do return (← tableOf r).contains v else fail .kind) Anything :=
    Plain.ite ((plain_tableOf hr).bind fun _ _ => plain_pure trivial) (plain_fail nofun)
  unfold containsValue
  split
  · exact hkey _ ho
  · exact hkey _ ho
  · exact hkey _ ho
  · exact hkey _ ho
  · exact plain_pure trivial
  · exact plain_pure trivial
  · refine Plain.read (fun _ _ => rfl) fun m _ => ?_
    split <;> exact plain_pure trivial
  · split
    · exact plain_pure trivial
    · exact plain_fail nofun
  · exact plain_pure trivial
  · exact plain_fail nofun

/-! ### Operators -/

theorem yields_compareWith (op : BinOp) (v w : Value) :
    Yields false Anything (compareWith op v w) := by
  unfold compareWith
  split
  · trivial
  · trivial
  · exact Yields.ite trivial (yields_order _ v w)

def divides : BinOp → Bool
  | .div | .floorDiv | .mod => true
  | _ => false

theorem yields_arithmetic (s : Store) (op : BinOp) (hv : Good R v) (hw : Good R w) :
    Yields (divides op) (Good R) (arithmetic s op v w) := by
  unfold arithmetic
  split
  · exact Yields.ite hw (yields_add hv hw)
  · exact Yields.ite trivial (Yields.ite hv yields_sub)
  · exact Yields.ite hw (Yields.ite hv (yields_mul hv hw))
  · exact Yields.ite hw (yields_onNumbers fun _ _ _ => rfl)
  · exact yields_onNumbers fun _ _ _ => rfl
  · split
    · exact yields_percent _ _
    · exact yields_onNumbers fun _ _ _ => rfl
  · exact (yields_toFloat _).bind fun x _ => (yields_toFloat _).bind fun y _ =>
      (yields_calculated (calculates_powFloat x y)).bind fun _ _ => trivial
  · exact nofun

theorem plain_arithmetic (s : Store) {op : BinOp} (hop : divides op = false) (hv : Good R v)
    (hw : Good R w) : Plain R (lift (arithmetic s op v w)) (Good R) :=
  plain_lift (hop ▸ yields_arithmetic s op hv hw)

theorem plain_compareWith (op : BinOp) (v w : Value) :
    Plain R (lift (compareWith op v w)) Anything :=
  plain_lift (yields_compareWith op v w)

theorem plain_succ (s : Store) (hk : Good R k) :
    Plain R (lift (arithmetic s .add k (.int 1))) (Good R) :=
  plain_arithmetic s rfl hk trivial

theorem plain_unaryValue (op : UnOp) (v : Value) : Plain R (unaryValue op v) (Good R) := by
  unfold unaryValue
  split
  · exact Plain.ite (plain_pure trivial) (plain_lift yields_neg)
  · exact plain_lift yields_complement
  · exact Plain.read (fun _ _ => rfl) fun _ _ => plain_pure trivial
  · exact plain_lengthOf v

/-! ### Traversal -/

theorem allGood_pairs {t : Table} (ht : AllGood R t.contents) :
    AllGood R (t.toList.map fun (k, v) => .tuple [k, v]) := by
  refine allGood_iff.mpr fun u hu => ?_
  obtain ⟨p, hp, rfl⟩ := List.mem_map.mp hu
  obtain ⟨hk, hv⟩ := ht.toList p hp
  exact ⟨hk, hv, trivial⟩

theorem plain_items (hv : Good R v) : Plain R (items v) (AllGood R) := by
  unfold items
  split
  · refine plain_pure (allGood_iff.mpr fun u hu => ?_)
    obtain ⟨c, -, rfl⟩ := List.mem_map.mp hu
    trivial
  · exact plain_pure hv
  · exact plain_pure hv
  case h_4 r =>
    refine Plain.read (fun _ _ => rfl) fun m hm => ?_
    have hc := hm.contents r hv
    split
    case h_1 xs heq =>
      rw [heq] at hc
      exact plain_pure hc
    case h_2 => exact plain_pure trivial
  · exact (plain_tableOf hv).bind fun t ht => plain_pure (allGood_append.mp ht).1
  iterate 3 · exact (plain_tableOf hv).bind fun t ht => plain_pure (allGood_pairs ht)
  · refine (plain_mapM fun n _ => ?_).imp fun _ => allGood_iff.mpr
    have hcell : AllGood R (Cell.phrase (.str n) (some _)).contents := ⟨trivial, hv, trivial⟩
    exact (plain_alloc hcell).bind fun u hu => plain_pure ⟨trivial, hu, trivial⟩
  · exact plain_fail nofun

theorem plain_pairOf (hv : Good R v) : Plain R (pairOf v) fun p => Good R p.1 ∧ Good R p.2 := by
  refine (plain_items hv).bind fun xs hxs => ?_
  split
  · exact plain_pure ⟨hxs.1, hxs.2.1⟩
  · exact plain_fail nofun

/-! ### Mathematics -/

theorem plain_extreme (op : BinOp) : ∀ {best : Value} {vs : List Value},
    Good R best → AllGood R vs →
    Plain R (extreme op best vs) (Good R)
  | _, [], hbest, _ => plain_pure hbest
  | best, v :: vs, hbest, hvs => by
    refine (plain_compareWith op v best).bind fun b _ => plain_extreme op ?_ hvs.2
    split
    · exact hvs.1
    · exact hbest

variable {args : List Value}

theorem plain_extremeOf (op : BinOp) (h : AllGood R args) :
    Plain R (extremeOf op args) (Good R) := by
  unfold extremeOf
  extract_lets rest
  have hrest {xs : List Value} (hxs : AllGood R xs) : Plain R (rest xs) (Good R) := by
    unfold rest
    split
    · exact plain_fail nofun
    · exact plain_extreme op hxs.1 hxs.2
  split
  · exact (plain_items h.1).bind fun xs hxs => hrest hxs
  · exact hrest h

theorem plain_clamp {num low high : Value} (hn : Good R num) (hl : Good R low) (hh : Good R high) :
    Plain R (clamp num low high) (Good R) := by
  refine Plain.read (fun _ _ => rfl) fun m _ => (plain_compareWith _ _ _).bind fun atLow _ => ?_
  refine Plain.ite (plain_pure hl) ((plain_compareWith _ _ _).bind fun atHigh _ => ?_)
  exact Plain.ite (plain_pure hh) (plain_pure hn)

theorem plain_chance (h : AllGood R args) : Plain R (chance args) (Good R) := by
  unfold chance
  split
  · exact plain_pure trivial
  · exact plain_pure trivial
  · exact plain_pure trivial
  · exact Plain.read (fun _ _ => rfl) fun m _ => plain_arithmetic m.store rfl h.1 trivial
  · exact Plain.read (fun _ _ => rfl) fun m _ => plain_arithmetic m.store rfl h.1 trivial
  · split
    · exact Plain.ite (plain_fail nofun) (plain_pure trivial)
    · exact plain_fail nofun

/-! ### Tables -/

theorem plain_insertFrom (hr : R.cell r) (hv : Good R v) : ∀ (n : Nat) {k : Value}, Good R k →
    Plain R (insertFrom r v n k) Anything
  | 0, _, _ => plain_fail nofun
  | n + 1, k, hk => by
    unfold insertFrom
    refine Plain.check nofun ((plain_tableOf hr).bind fun t _ => Plain.ite ?_ (plain_put hk hv))
    refine Plain.read (fun _ _ => rfl) fun m _ => (plain_succ m.store hk).bind fun next hnext => ?_
    exact plain_insertFrom hr hv n hnext

variable {t : Value}

theorem plain_tableInsert {position : Value} (ht : Good R t) (hp : Good R position)
    (hv : Good R v) : Plain R (tableInsert t position v) (Good R) := by
  unfold tableInsert
  split
  case h_1 r =>
    have hinsert {k u : Value} (hk : Good R k) (hu : Good R u) : Plain R (do
        insertFrom r u ((← tableOf r).size + 2) k
        return .nil) (Good R) :=
      (plain_tableOf ht).bind fun _ _ => (plain_insertFrom ht hu _ hk).bind fun _ _ =>
        plain_pure trivial
    refine Plain.check nofun ?_
    dsimp only
    split
    · exact hinsert trivial hp
    · refine hinsert ?_ hv
      split
      · trivial
      · exact hp
  case h_2 => exact plain_fail nofun

theorem plain_collectFrom (hr : R.cell r) (bound : Value) : ∀ (n : Nat) {k : Value}, Good R k →
    Plain R (collectFrom r bound n k) (AllGood R)
  | 0, _, _ => plain_pure trivial
  | n + 1, k, hk => by
    unfold collectFrom
    refine Plain.check nofun ((plain_tableOf hr).bind fun t ht => ?_)
    split
    case h_1 => exact plain_pure trivial
    case h_2 v hv =>
      have hv : Good R v := ht.get? hv
      refine Plain.read (fun _ _ => rfl) fun m _ => ?_
      extract_lets s rest
      have hrest (past : Bool) : Plain R (rest past) (AllGood R) := by
        refine Plain.ite (plain_pure ⟨hv, trivial⟩) ((plain_succ s hk).bind fun next hnext => ?_)
        exact (plain_collectFrom hr bound n hnext).bind fun vs hvs => plain_pure ⟨hv, hvs⟩
      refine Plain.ite ((plain_compareWith _ _ _).bind fun past _ => hrest past) (hrest false)

theorem plain_tableUnpack {first bound : Value} (ht : Good R t) (hf : Good R first) :
    Plain R (tableUnpack t first bound) (Good R) := by
  unfold tableUnpack
  split
  · exact plain_pure trivial
  · refine Plain.check nofun (Plain.read (fun _ _ => rfl) fun m _ => ?_)
    extract_lets k
    have hk : Good R k := by
      unfold k
      split
      · exact hf
      · trivial
    exact (plain_tableOf ht).bind fun _ _ => (plain_collectFrom ht bound _ hk).bind fun vs hvs =>
      plain_pure hvs
  · exact plain_fail nofun

theorem plain_textsFrom (ht : Good R t) (last : Value) : ∀ (n : Nat) {k : Value},
    Good R k → Plain R (textsFrom t last n k) Anything
  | 0, _, _ => plain_fail nofun
  | n + 1, k, hk => by
    refine (plain_compareWith _ _ _).bind fun b _ => Plain.ite ?_ (plain_pure trivial)
    refine (plain_member ht hk).bind fun u _ => (plain_displayed u).bind fun text _ => ?_
    refine Plain.read (fun _ _ => rfl) fun m _ => (plain_succ m.store hk).bind fun next hnext => ?_
    exact (plain_textsFrom ht last n hnext).bind fun _ _ => plain_pure trivial

theorem plain_tableConcat {separator before last : Value} (ht : Good R t) (hb : Good R before) :
    Plain R (tableConcat t separator before last) (Good R) := by
  refine Plain.read (fun _ _ => rfl) fun m _ => (plain_succ m.store hb).bind fun first hfirst => ?_
  extract_lets rest
  have hrest (last : Value) : Plain R (rest last) (Good R) := by
    refine (plain_textsFrom ht last _ hfirst).bind fun texts _ => ?_
    split
    · exact plain_pure trivial
    · exact plain_fail nofun
  exact Plain.ite ((plain_lengthOf t).bind fun last _ => hrest last) (hrest last)

theorem plain_shiftDown (hr : R.cell r) (last : Int) : ∀ (n : Nat) {k : Value}, Good R k →
    Plain R (shiftDown r last n k) Anything
  | 0, _, _ => plain_pure trivial
  | n + 1, k, hk => by
    refine (plain_compareWith _ _ _).bind fun b _ => Plain.ite ?_ (plain_pure trivial)
    refine Plain.read (fun _ _ => rfl) fun m _ => (plain_succ m.store hk).bind fun next hnext => ?_
    refine Plain.check nofun ((plain_tableOf hr).bind fun t ht => ?_)
    split
    · exact plain_fail nofun
    case h_2 v hv => exact (plain_put hk (ht.get? hv)).bind fun _ _ =>
      plain_shiftDown hr last n hnext

theorem plain_tableRemove {position : Value} (ht : Good R t) (hp : Good R position) :
    Plain R (tableRemove t position) (Good R) := by
  unfold tableRemove
  split
  · refine Plain.check nofun ((plain_tableOf ht).bind fun table _ => ?_)
    extract_lets last rest
    have hrest : Plain R (rest ⟨⟩) (Good R) := plain_pure trivial
    refine Plain.ite (Plain.ite ?_ ?_) (Plain.ite ?_ ?_)
    · exact (plain_modifyTable fun _ h => h.erase _).bind fun _ _ => hrest
    · exact plain_fail_bind nofun
    · exact (plain_shiftDown ht last _ hp).bind fun _ _ => hrest
    · exact plain_fail_bind nofun
  · exact plain_fail nofun

theorem plain_tableContains (ht : Good R t) (v : Value) : Plain R (tableContains t v) (Good R) := by
  unfold tableContains
  split
  · exact Plain.ite ((plain_tableOf ht).bind fun _ _ => plain_pure trivial) (plain_fail nofun)
  · exact plain_fail nofun

/-! ### Texts -/

theorem mem_of_mem_between {xs : List α} {start : Int} {stop : Option Int} {x : α}
    (h : x ∈ between xs start stop) : x ∈ xs :=
  List.mem_of_mem_take (List.mem_of_mem_drop h)

theorem plain_sliceValue (hv : Good R v) (start : Int) (stop : Option Int) :
    Plain R (sliceValue v start stop) (Good R) := by
  unfold sliceValue
  split
  · exact plain_pure trivial
  · exact plain_pure (AllGood.subset hv fun _ => mem_of_mem_between)
  · exact plain_pure trivial
  case h_4 r =>
    refine Plain.read (fun _ _ => rfl) fun m hm => ?_
    have hc := hm.contents r hv
    split
    case h_1 xs heq =>
      rw [heq] at hc
      exact plain_alloc (AllGood.subset hc fun _ => mem_of_mem_between)
    case h_2 => exact plain_fail nofun
  · exact plain_fail nofun

theorem plain_stringFind (hv : Good R v) (pattern first : Value) :
    Plain R (stringFind v pattern first) (Good R) := by
  unfold stringFind
  split
  · exact plain_fail nofun
  · refine (plain_sliceValue hv _ _).bind fun u _ => ?_
    split
    · exact plain_pure ⟨trivial, trivial, trivial⟩
    · exact plain_fail nofun
    · exact plain_fail nofun

theorem plain_stringGsub (v pattern new limit : Value) :
    Plain R (stringGsub v pattern new limit) (Good R) := by
  unfold stringGsub
  split
  · split
    · exact plain_pure trivial
    · exact plain_fail nofun
  · exact plain_fail nofun

theorem plain_stringChar (vs : List Value) : Plain R (stringChar vs) Anything := by
  induction vs with
  | nil => exact plain_pure trivial
  | cons v vs ih =>
    unfold stringChar
    split
    · exact plain_fail nofun
    · exact Plain.check nofun (ih.bind fun _ _ => plain_pure trivial)

theorem plain_stringSub (hv : Good R v) {first last : Value} (hf : Good R first)
    (hl : Good R last) : Plain R (stringSub v first last) (Good R) := by
  unfold stringSub
  extract_lets shifted
  have hshifted (u : Value) (op : BinOp) (hu : Good R u) : Plain R (shifted u op) (Good R) :=
    (plain_compareWith _ _ _).bind fun b _ => Plain.ite
      (Plain.read (fun _ _ => rfl) fun m _ => plain_arithmetic m.store rfl hu trivial)
      (plain_pure hu)
  refine (hshifted first .ge hf).bind fun a _ => ?_
  extract_lets rest
  have hrest (b : Value) : Plain R (rest b) (Good R) := by
    unfold rest
    split
    · exact plain_fail nofun
    · exact plain_sliceValue hv _ _
    · split
      · exact plain_sliceValue hv _ _
      · exact plain_fail nofun
  exact Plain.ite (hrest .nil) ((hshifted last .gt hl).bind fun b _ => hrest b)

theorem plain_stringMatch (v pattern : Value) : Plain R (stringMatch v pattern) (Good R) := by
  unfold stringMatch
  split
  · split
    · exact plain_fail nofun
    · split
      · extract_lets cs
        split
        · exact plain_pure trivial
        · refine Plain.check nofun ?_
          split
          · exact plain_pure trivial
          · exact plain_pure trivial
      · exact plain_fail nofun
  · exact plain_fail nofun

theorem plain_cased (f : String → String) (v : Value) : Plain R (cased f v) (Good R) := by
  unfold cased
  split
  · exact plain_pure trivial
  · exact plain_fail nofun

/-! ### Basic functions and entities -/

theorem plain_typeName (v : Value) : Plain R (typeName v) (Good R) := by
  unfold typeName
  split
  case h_7 =>
    exact Plain.ite (plain_pure trivial) ((plain_displayed _).bind fun _ _ => plain_fail nofun)
  all_goals exact plain_pure trivial

theorem plain_newEntity : Plain R newEntity (Good R) := by
  have hdummy {fields : List (String × Value)} (h : ∀ p ∈ fields, Good R p.2) :
      Plain R (alloc (.dummy (.ofFields fields) none)) (Good R) :=
    plain_alloc (allGood_append.mpr ⟨.ofFields h, trivial⟩)
  have hentity {fields : List (String × Value)} (h : ∀ p ∈ fields, Good R p.2) :
      Plain R (alloc (.entity (.ofFields fields) [] .nil none)) (Good R) :=
    plain_alloc (allGood_append.mpr ⟨.ofFields h, trivial, trivial⟩)
  refine plain_newDummy.bind fun components hc => plain_newDummy.bind fun entity he => ?_
  refine (hdummy fun p hp => ?_).bind fun anim ha => ?_
  · cases List.mem_singleton.mp hp
    trivial
  · refine hentity fun p hp => ?_
    simp only [List.mem_cons, List.not_mem_nil, or_false] at hp
    rcases hp with rfl | rfl | rfl | rfl | rfl | rfl
    · exact hc
    · exact he
    · exact ha
    all_goals trivial

variable {self : Value}

theorem plain_addTag {tag : Value} (ht : Good R tag) : Plain R (addTag self tag) (Good R) := by
  unfold addTag
  split
  · refine Plain.check nofun ?_
    refine (plain_modifyStore fun s hs => hs.update fun _ hc => ?_).bind fun _ _ =>
      plain_pure trivial
    split
    case h_1 t tags o a heq =>
      rw [heq] at hc
      obtain ⟨hentries, hrest⟩ := allGood_append.mp hc
      obtain ⟨htags, hother⟩ := allGood_append.mp hrest
      refine allGood_append.mpr ⟨hentries, allGood_append.mpr ⟨?_, hother⟩⟩
      split
      · exact htags
      · exact allGood_append.mpr ⟨htags, ht, trivial⟩
    case h_2 => exact hc
  · exact plain_fail nofun

theorem plain_setOverride {name : Value} (hn : Good R name) :
    Plain R (setOverride self name) (Good R) := by
  unfold setOverride
  split
  · refine (plain_modifyStore fun s hs => hs.update fun _ hc => ?_).bind fun _ _ =>
      plain_pure trivial
    split
    case h_1 t tags o a heq =>
      rw [heq] at hc
      obtain ⟨hentries, hrest⟩ := allGood_append.mp hc
      obtain ⟨htags, -, hanswer⟩ := allGood_append.mp hrest
      exact allGood_append.mpr ⟨hentries, allGood_append.mpr ⟨htags, hn, hanswer⟩⟩
    case h_2 => exact hc
  · exact Plain.ite (plain_pure trivial) (plain_fail nofun)

theorem plain_addComponent {name : Value} (hs : Good R self) (hn : Good R name) :
    Plain R (addComponent self name) (Good R) := by
  have hmember : Plain R (member self (.str "components")) (Good R) := plain_member hs trivial
  refine plain_newDummy.bind fun d hd => hmember.bind fun components _ => ?_
  exact (plain_setMember components hn hd).bind fun _ _ => plain_pure hd

theorem plain_gameMode : Plain R gameMode (Good R) := by
  have hdict {fields : List (String × Value)} (h : ∀ p ∈ fields, Good R p.2) :
      Plain R (alloc (.dict (.ofFields fields))) (Good R) :=
    plain_alloc (AllGood.ofFields h)
  have hempty : AllGood R (Cell.dict .empty).contents := allGood_contents_empty
  refine (plain_alloc hempty).bind fun recipes hr => hdict fun p hp => ?_
  simp only [List.mem_cons, List.not_mem_nil, or_false] at hp
  rcases hp with rfl | rfl | rfl | rfl | rfl | rfl | rfl | rfl | rfl | rfl | rfl | rfl
  case inr.inr.inr.inr.inr.inr.inr.inr.inr.inr.inr => exact hr
  all_goals trivial

variable {vs : List Value}

theorem plain_sequence (h : AllGood R vs) : Plain R (sequence vs) (Good R) := by
  have hfold : ∀ (us : List Value) (t : Table), AllGood R us → AllGood R t.contents →
      AllGood R (us.foldl (fun t v => t.put (.int (t.border + 1)) v) t).contents := by
    intro us
    induction us with
    | nil => exact fun _ _ ht => ht
    | cons u us ih => exact fun t hus ht => ih _ hus.2 (ht.put trivial hus.1)
  exact plain_alloc (hfold vs _ h allGood_contents_empty)

/-! ### All library functions that do without the evaluator -/

theorem good_getD {d : Value} (h : AllGood R vs) (hd : Good R d) (i : Nat) :
    Good R (vs.getD i d) := by
  rw [List.getD_eq_getElem?_getD]
  cases hi : vs[i]? with
  | none => exact hd
  | some v => exact h.mem (List.mem_of_getElem? hi)

theorem good_head? (h : AllGood R vs) : Good R (vs.head?.getD .nil) := by
  cases vs with
  | nil => trivial
  | cons v vs => exact h.1

theorem good_arg (h : AllGood R args) (i : Nat) : Good R (arg args i) :=
  good_getD h (d := .nil) trivial i

theorem good_fixedAnswer (name : String) : Good R (fixedAnswer name) := by
  unfold fixedAnswer
  split <;> trivial

theorem plain_plainRule (name : String) (h : AllGood R args) :
    Plain R (plainRule name args) (Good R) := by
  have ha (i : Nat) : Good R (arg args i) := good_arg h i
  have hd (i : Nat) {d : Value} (hd : Good R d) : Good R (args.getD i d) := good_getD h hd i
  unfold plainRule
  extract_lets a
  refine Plain.read (fun _ _ => rfl) fun m hm => ?_
  extract_lets s
  split
  -- mathematics
  iterate 8 · exact plain_lift (yields_mathCall (by decide) args)
  · exact plain_lift yields_absolute
  · exact plain_extremeOf _ h
  · exact plain_extremeOf _ h
  · exact plain_clamp (ha 0) (ha 1) (ha 2)
  · exact plain_chance h
  -- tables
  · exact plain_tableInsert (ha 0) (ha 1) (ha 2)
  · exact plain_tableUnpack (ha 0) (ha 1)
  · exact plain_tableConcat (ha 0) (hd 2 trivial)
  · exact plain_tableContains (ha 0) _
  · exact plain_tableRemove (ha 0) (ha 1)
  -- texts
  · exact plain_lengthOf _
  · exact plain_stringFind (ha 0) _ _
  · exact plain_stringGsub _ _ _ _
  · exact (plain_stringChar args).bind fun _ _ => plain_pure trivial
  · exact plain_cased _ _
  · exact plain_cased _ _
  · split
    · exact (plain_lift (yields_fillTemplate _ _)).bind fun _ _ => plain_pure trivial
    · exact plain_fail nofun
  · exact plain_stringSub (ha 0) (ha 1) (ha 2)
  · exact plain_stringMatch _ _
  -- basic functions
  · exact Plain.ite (plain_pure trivial) (plain_fail nofun)
  · exact plain_typeName _
  · exact (plain_mapM fun v _ => plain_displayed v).bind fun _ _ =>
      (plain_printLine _).bind fun _ _ => plain_pure trivial
  · exact Plain.ite (plain_pure trivial) ((plain_displayed _).bind fun _ _ => plain_pure trivial)
  · split
    case h_1 kind r heq =>
      have hr : Good R (.object kind r) := by
        rw [← heq]
        exact ha 0
      refine plain_pure ?_
      split
      · exact good_head? (allGood_append.mp (hm.table hr)).2
      · trivial
    case h_2 => exact plain_pure trivial
  · exact Plain.read (fun _ _ => rfl) fun _ _ =>
      (plain_setEntry _ (ha 0) (ha 1)).bind fun _ _ => plain_pure trivial
  -- objects
  · exact plain_alloc ⟨hd 0 trivial, hd 1 trivial, hd 2 trivial, trivial⟩
  · exact plain_alloc ⟨ha 0, ha 1, ha 2, trivial⟩
  · exact plain_newEntity
  · exact plain_newEntity
  · exact plain_newDummy
  · exact plain_newDummy
  · exact plain_gameMode
  · exact plain_alloc ⟨trivial, trivial, trivial, trivial⟩
  · exact plain_addTag (ha 1)
  · exact plain_setOverride (ha 1)
  · exact plain_addComponent (ha 0) (ha 1)
  · exact plain_pure (good_fixedAnswer _)

/-! ### Parts of the statements -/

theorem plain_setAlong : ∀ {o : Value} {keys : List Value}, Good R o → AllGood R keys → Good R v →
    Plain R (setAlong o keys v) Anything
  | _, [], _, _, _ => plain_pure trivial
  | o, [_], _, hks, hv => plain_setMember o hks.1 hv
  | _, _ :: _ :: _, ho, hks, hv =>
    (plain_member ho hks.1).bind fun _ hm => plain_setAlong hm hks.2 hv

theorem plain_targetName (x : Expr) : Plain R (targetName x) Anything := by
  unfold targetName
  split
  · exact plain_pure trivial
  · exact plain_fail nofun

theorem plain_insertAll (r : Ref) (h : AllGood R vs) : Plain R (insertAll r vs) Anything := by
  induction vs with
  | nil => exact plain_pure trivial
  | cons v vs ih =>
    have hput : Plain R (modifyTable r fun t => t.put (.int (t.border + 1)) v) Anything :=
      plain_modifyTable fun t ht => ht.put trivial h.1
    exact Plain.ite (hput.bind fun _ _ => ih h.2) (ih h.2)

end WikiFeed.Prefab

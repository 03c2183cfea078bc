import WikiFeed.Proofs.Lua.Labels
import WikiFeed.Proofs.Prefab.Blocks

/-! # Evaluation under watch

There is one lemma for each rule of the evaluator, under the hypothesis that the parts of a piece of
syntax behave (`Visits`): good values are evaluated to good values, and syntax that is as tame as
asked ends as it may. A piece of syntax resolves few names itself (`Node.names`), all others are
resolved by its parts; none of these may lead to a variable out of sight (`behaves_visitStep`).
Where no variable is out of sight and no function is in question, the evaluator itself behaves
(`visits_visitUpTo`). -/

namespace WikiFeed.Prefab

open Lua

/-! ### The names that a piece of syntax resolves itself -/

/-- The name at the root of a target of an assignment. The root can also be a call, and a text that
it gives is taken for a name, whichever it is. -/
def rootNames : Expr → List (Option String)
  | .name n => [some n]
  | .index _ value _ => rootNames value
  | .call _ _ => [none]
  | _ => []

def headNames : Head → List (Option String)
  | .global target => rootNames target
  | .method (.name cls) _ => [some cls]
  | _ => []

def takesRest : Field → Bool
  | .mk _ .varargs _ => true
  | _ => false

def exprNames : Expr → List (Option String)
  | .name n => [some n]
  | .invoke _ _ _ => [some "string"]
  | .function f => headNames f.head
  | .table fields => if fields.any takesRest then [some "..."] else []
  | _ => []

/-- The names that a piece of syntax resolves itself, apart from those that its parts resolve;
`none` stands for any name. -/
def Node.names : Node → List (Option String)
  | .expr e => exprNames e
  | .stmt (.expr e) => exprNames e
  | .stmt (.assign targets _) => targets.flatMap rootNames
  | .stmt (.function f) => headNames f.head
  | .value (.func f) => headNames f.head
  | _ => []

def Resolves (names : List (Option String)) (s : String) : Prop := some s ∈ names ∨ none ∈ names

def Node.opensBlock : Node → Bool
  | .chunk _ | .block _ => true
  | _ => false

/-- The function that a piece of syntax defines. A function that is evaluated once more as a value
is defined once more, too. -/
def Node.function? : Node → Option Func
  | .stmt (.function f) | .stmt (.expr (.function f)) | .expr (.function f) | .value (.func f) =>
    some f
  | _ => none

def Node.LeavesHome [Watch] (node : Node) : Prop :=
  ∀ f, node.function? = some f → ∀ h, Watch.home = some h → f.label ≠ h.label

/-- No name of those given leads to a variable out of sight. -/
def Place.Clears (p : Place) (names : List (Option String)) : Prop :=
  ∀ s, Resolves names s → p.names s

/-- A computation gives a good value, or returns. It may break and stray if it is told so. -/
abbrev Gives [Watch] (R : Reach) (p : Place) (breaks strays : Bool) (x : Eval Value) : Prop :=
  Behaves R p ⟨true, breaks, strays⟩ x Good

abbrev Acts {α : Type} [Watch] (R : Reach) (p : Place) (breaks : Bool) (x : Eval α) : Prop :=
  Behaves R p ⟨true, breaks, false⟩ x fun _ _ => True

/-! ### Library functions that call back -/

/-- A host whose functions run good values and chunks that are as tame as asked. -/
structure GoodHost [Watch] (h : Host) : Prop where
  visit : ∀ {R p b t v}, Good R v → Behaves R p ⟨true, b, t⟩ (h.visit v) Good
  run : ∀ {R p b t chunk}, Asked (tameStmts false chunk) →
    Behaves R p ⟨true, b, t⟩ (h.run chunk) Good
  call : ∀ {R p b f args}, Good R f → AllGood R args →
    Behaves R p ⟨true, b, true⟩ (h.call f args) Good

section Hosts

variable [Watch] {R : Reach} {p : Place} {m : Machine} {b t : Bool} {h : Host} {v w : Value}
  {args : List Value}

theorem behaves_assertion (hh : GoodHost h) (hv : Good R v) (hw : Good R w) :
    Gives R p b t (assertion h v w) := by
  refine (hh.visit hv).bind fun S hRS x hx => ?_
  refine behaves_read (fun _ => rfl) fun m hm => ?_
  extract_lets rest
  have hrest {T : Reach} : Gives T p b t (rest ⟨⟩) := behaves_pure trivial
  refine Behaves.ite ?_ hrest
  refine (hh.visit (hw.mono hRS)).bind fun T hST y hy => ?_
  refine (plain_displayed y).calm.andThen fun text _ => ?_
  exact (plain_printLine _).calm.andThen fun _ _ => hrest

theorem Sound.putModule (hm : Sound R m) (hv : Good R v) (hw : Good R w) :
    Sound R { m with modules := m.modules.put v w } :=
  { hm with
    modules := hm.modules.put hv hw
    required := by
      rintro block ⟨archive, path, bytes, label, next, hs, hp, hnone, hb, hr⟩
      exact hm.required block ⟨archive, path, bytes, label, next, hs, hp,
        Table.get?_of_put hnone, hb, hr⟩
    homed := fun h hh => (hm.homed h hh).of_le rfl (Nat.le_refl _) (Nat.le_refl _) }

omit [Watch] in
theorem load_eq (source : String) (m : Machine) :
    load source m = match readChunk m.labels source with
      | .error e => .error (.fault (.unreadable e)) m
      | .ok (chunk, next) => .ok chunk { m with labels := next } := by
  have hget (f : Machine → Eval Block) : (get >>= f : Eval Block) m = f m m := rfl
  unfold load
  rw [hget]
  cases readChunk m.labels source <;> rfl

theorem calm_load (source : String) :
    Calm R p (load source) fun chunk =>
      ∃ label next, readChunk label source = .ok (chunk, next) := by
  refine ScopeBlind.behaves (fun scopes evaluators active m => ?_) fun m hm => ?_
  · rw [load_eq, load_eq]
    change (match readChunk m.labels source with | .error e => _ | .ok (chunk, next) => _) = _
    cases readChunk m.labels source <;> rfl
  · rw [load_eq]
    cases hread : readChunk m.labels source with
    | error e => exact ⟨R, le_refl R, hm, nofun⟩
    | ok q =>
      have hlabels := le_of_readChunk hread
      exact ⟨R, le_refl R, { hm with
        homed := fun h hh => (hm.homed h hh).of_le rfl (Nat.le_refl _) hlabels }, rfl, _, _, hread⟩

theorem behaves_newModule (hh : GoodHost h) (hm : Sound R m) {archive : Archive} {path : String}
    {bytes : List UInt8} (hscripts : m.scripts = some archive) (hpassed : passedOver path = false)
    (hnone : m.modules.get? (.str path) = none)
    (hbytes : archive.member? (modulePath path) = some bytes) :
    Gives R p b t (do
      let chunk ← load (Text.withPlainFeeds (Text.decodeLossy bytes))
      let v ← h.run chunk
      modify fun m => { m with modules := m.modules.put (.str path) v }
      return v) := by
  refine (calm_load _).andThen fun chunk hchunk => ?_
  obtain ⟨label, next, hread⟩ := hchunk
  have htame : Asked (tameStmts false chunk) :=
    hm.required chunk ⟨archive, path, bytes, label, next, hscripts, hpassed, hnone, hbytes, hread⟩
  refine (hh.run htame).bind fun S _ w hw => ?_
  have hput : Calm S p (modify fun m => { m with modules := m.modules.put (.str path) w })
      Anything :=
    ScopeBlind.behaves (fun _ _ _ _ => rfl) fun _ hn =>
      ⟨S, le_refl S, hn.putModule (v := .str path) trivial hw, rfl, trivial⟩
  exact hput.andThen fun _ _ => behaves_pure hw

theorem behaves_require (hh : GoodHost h) : Gives R p b t (require h v) := by
  unfold require
  refine Behaves.check nofun (behaves_read (fun _ => rfl) fun m hm => ?_)
  cases hmodule : m.modules.get? v with
  | some w => exact behaves_pure (hm.modules.get? hmodule)
  | none =>
    dsimp only
    split
    · rename_i path
      by_cases hpassed : passedOver path = true
      · rw [if_pos hpassed]
        exact behaves_pure trivial
      · rw [if_neg hpassed]
        cases hscripts : m.scripts with
        | none => exact behaves_fail nofun
        | some archive =>
          dsimp only
          cases hbytes : archive.member? (modulePath path) with
          | none => exact behaves_fail nofun
          | some bytes =>
            exact behaves_newModule hh hm hscripts (Bool.eq_false_iff.mpr hpassed) hmodule hbytes
    · exact behaves_fail nofun

theorem behaves_registerPrefab (hh : GoodHost h) (hw : Good R w) :
    Gives R p b true (registerPrefab h v w) := by
  have hcall : Gives R p b true (h.call w []) := hh.call hw trivial
  refine hcall.andPlain fun S inst hinst => Plain.ite ?_ (Plain.check nofun ?_)
  · refine (plain_displayed v).bind fun text _ => ?_
    exact (plain_printLine _).bind fun _ _ => plain_pure trivial
  · have hput : Plain S (modify fun m => { m with prefabs := m.prefabs.put v inst }) Anything :=
      fun _ hm => ⟨hm, trivial, fun _ => rfl⟩
    exact hput.bind fun _ _ => plain_pure hinst

theorem behaves_applyRule (hh : GoodHost h) (name : String) (hargs : AllGood R args) :
    Gives R p b true (applyRule h name args) := by
  unfold applyRule
  split
  · exact behaves_require hh
  · exact behaves_assertion hh (good_arg hargs 0) (good_getD hargs (d := .str _) trivial 1)
  · exact behaves_registerPrefab hh (good_arg hargs 1)
  · exact behaves_deepCopy (good_arg hargs 0)
  · exact (plain_plainRule _ hargs).behaves fun _ h => h

theorem goodHost_missing : GoodHost .missing :=
  ⟨fun _ => behaves_fail nofun, fun _ => behaves_fail nofun, fun _ _ => behaves_fail nofun⟩

theorem behaves_applyNative (hh : GoodHost h) (name : String) (received : Bool)
    (hargs : AllGood R args) : Gives R p b true (applyNative h name received args) := by
  unfold applyNative
  extract_lets receiver own
  have hown : AllGood R own := by
    unfold own
    split
    · exact hargs.subset fun _ => List.mem_of_mem_tail
    · exact hargs
  have hhost : GoodHost (if receiver then .missing else h) := by
    split
    · exact goodHost_missing
    · exact hh
  exact Behaves.check nofun (Behaves.check nofun (behaves_applyRule hhost name hown))

theorem behaves_applyValue (hh : GoodHost h) (hv : Good R v) (received : Bool)
    (hargs : AllGood R args) : Gives R p b true (applyValue h v received args) := by
  unfold applyValue
  split
  · exact behaves_applyNative hh _ received hargs
  · refine Behaves.check nofun (behaves_read (fun _ => rfl) fun m hm => ?_)
    have hcell := hm.store.contents _ hv
    split
    · rename_i x y z heq
      rw [heq] at hcell
      exact (plain_sequence hcell).behaves fun _ h => h
    · exact behaves_pure trivial
  · exact (plain_tableOf hv).calm.andThen fun t ht => behaves_pure (ht.get _)
  · refine behaves_read (fun _ => rfl) fun m hm => ?_
    have hcell := hm.store.contents _ hv
    split
    · rename_i t w heq
      rw [heq] at hcell
      exact behaves_pure (allGood_append.mp hcell).2.1
    · rename_i t tags o w heq
      rw [heq] at hcell
      exact behaves_pure (allGood_append.mp (allGood_append.mp hcell).2).2.2.1
    · exact plain_newDummy.behaves fun _ h => h
  · exact behaves_fail nofun

end Hosts

/-! ### Parts of syntax -/

/-- Whether every break in a piece of syntax lies inside a generic loop of the same function; `loop`
says that the piece of syntax itself does. -/
def Node.tame (loop : Bool) : Node → Bool
  | .chunk b => tameStmts false b
  | .block b => tameStmts loop b
  | .stmt s => s.tame loop
  | .expr e => e.tame
  | .orelse o => o.tame loop
  | .value _ => true

def Node.values : Node → List Value
  | .value v => [v]
  | _ => []

/-- Syntax that is as tame as asked, and good values, behave wherever they are evaluated. -/
def Visits [Watch] (rec : Visitor) : Prop :=
  ∀ R p loop node, Asked (node.tame loop) → AllGood R node.values →
    Behaves R p ⟨true, loop, false⟩ (rec node) Good

section Visitors

variable [Watch] {rec : Visitor} {R : Reach} {p : Place} {b t : Bool} {v w : Value}
  {args : List Value}

variable (hrec : Visits rec)

include hrec

theorem Visits.node (node : Node) (h : Asked (node.tame b))
    (hvalues : AllGood R node.values) : Gives R p b t (rec node) :=
  (hrec R p b node h hvalues).loosen id id nofun

theorem Visits.expr {x : Expr} (h : Asked x.tame) : Gives R p b t (rec (.expr x)) :=
  hrec.node (.expr x) h trivial

variable {xs : List Expr}

theorem Visits.exprs (h : Asked (tameExprs xs)) :
    Behaves R p ⟨true, b, false⟩ (xs.mapM fun x => rec (.expr x)) AllGood :=
  behaves_mapM fun _ _ _ hx => hrec.expr fun ht => tame_of_mem (h ht) hx

variable {body : Block}

theorem Visits.block (h : Asked (tameStmts b body)) : Gives R p b t (rec (.block body)) :=
  hrec.node (.block body) h trivial

theorem Visits.value (hv : Good R v) : Gives R p b t (rec (.value v)) :=
  hrec.node (.value v) (fun _ => rfl) ⟨hv, trivial⟩

/-! ### Calls -/

theorem Visits.execute (hv : Good R v) (hargs : AllGood R args) :
    Gives R p b true (execute rec v args) := by
  refine Behaves.known fun hR => behaves_execute hv hargs fun f hf q => hrec.block fun ht => ?_
  subst hf
  exact Func.tame_body (hv.2 (hR.trans ht))

theorem Visits.host : GoodHost (host rec) where
  visit hv := hrec.value hv
  run h := hrec.node (.chunk _) h trivial
  call hf hargs := hrec.execute hf hargs

theorem behaves_argumentValues :
    ∀ {R : Reach} {done : List Value} {xs : List Expr}, AllGood R done → Asked (tameExprs xs) →
      Behaves R p ⟨true, b, false⟩ (argumentValues rec done xs) fun S q => AllGood S q.1
  | _, done, [], hdone, _ => behaves_pure (hdone.subset fun _ => List.mem_reverse.mp)
  | R, done, x :: xs, hdone, h => by
    obtain ⟨hx, hxs⟩ := Asked.and h
    unfold argumentValues
    refine (hrec.expr hx).bind fun S hRS v hv => ?_
    split
    -- a spread takes the place of all arguments, also of those in front of it
    · rename_i vs
      have hvs : AllGood S vs := hv
      have hvisit : Behaves S p ⟨true, b, false⟩ (vs.mapM fun v => rec (.value v)) AllGood :=
        behaves_mapM fun T hST v hmem => hrec.value ((hvs.mem hmem).mono hST)
      exact hvisit.bind fun T _ us hus => behaves_pure hus
    · exact behaves_argumentValues ⟨hv, hdone.mono hRS⟩ hxs

theorem behaves_callWith (hv : Good R v) (hargs : AllGood R args)
    (spread : Bool) : Gives R p b true (callWith rec v args spread) := by
  refine Behaves.ite ?_ (hrec.execute hv hargs)
  have happly : Gives R p b true (applyValue (Prefab.host rec) v true args) :=
    behaves_applyValue hrec.host hv true hargs
  split
  · exact Behaves.check nofun happly
  · exact happly

theorem behaves_visitCall {callee : Expr}
    (hcallee : Asked callee.tame) (hxs : Asked (tameExprs xs)) :
    Gives R p b true (visitCall rec callee xs) := by
  refine (hrec.expr hcallee).bind fun S _ f hf => ?_
  refine Behaves.ite (behaves_callWith hrec hf allGood_nil false) ?_
  have hargs : Behaves S p ⟨true, b, false⟩ (argumentValues rec [] xs) fun S q => AllGood S q.1 :=
    behaves_argumentValues hrec trivial hxs
  exact hargs.bind fun T hST q hq => behaves_callWith hrec (hf.mono hST) hq q.2

omit hrec in
theorem calm_methodsOf (hv : Good R v) (hN : p.names "string") :
    Calm R p (methodsOf v) (Good R) := by
  unfold methodsOf
  split
  iterate 4 · exact behaves_pure ⟨rfl, hv⟩
  · refine behaves_look (fun m i hm hi => by rw [hm.lookup_strip hi hN]) fun m i hm _ hscope => ?_
    split
    · exact behaves_fail nofun
    · rename_i s hs
      exact Behaves.ite (behaves_pure ⟨rfl, hm.lookup hscope hs⟩) (behaves_fail nofun)

theorem behaves_visitInvoke {source : Expr} (name : String)
    (hsource : Asked source.tame) (hxs : Asked (tameExprs xs)) (hN : p.names "string") :
    Gives R p b true (visitInvoke rec source name xs) := by
  refine (hrec.expr hsource).bind fun S _ self hself => ?_
  refine (calm_methodsOf hself hN).andThen fun o ho => ?_
  refine (plain_member (k := .str name) ho trivial).calm.andThen fun f hf => ?_
  extract_lets rest
  have hrest {T : Reach} (hST : S ≤ T) {vs : List Value} (hvs : AllGood T vs) :
      Gives T p b true (rest vs) :=
    Behaves.ite (behaves_applyValue hrec.host (hf.mono hST) false hvs)
      (hrec.execute (hf.mono hST) hvs)
  refine Behaves.ite (hrest (le_refl S) allGood_nil) ?_
  exact (hrec.exprs hxs).bind fun T hST vs hvs => hrest hST ⟨hself.mono hST, hvs⟩

/-! ### Assignment -/

theorem behaves_pathOf : ∀ {R : Reach} {x : Expr}, Asked x.tame →
    p.Clears (rootNames x) → Behaves R p ⟨true, b, false⟩ (pathOf rec x) fun S path =>
      AllGood S path ∧ ∃ keys root, path = keys ++ [root] ∧ ∀ s, root = .str s → p.names s
  | _, .name n, _, hN => by
    refine behaves_pure ⟨⟨trivial, trivial⟩, [], .str n, rfl, fun s hs => ?_⟩
    cases hs
    exact hN n (.inl List.mem_cons_self)
  | _, .call _ _, h, hN => (hrec.expr h).bind fun _ _ v hv =>
    behaves_pure ⟨⟨hv, trivial⟩, [], v, rfl, fun s _ => hN s (.inr List.mem_cons_self)⟩
  | R, .index idx value dot, h, hN => by
    obtain ⟨hidx, hvalue⟩ := Asked.and h
    unfold pathOf
    extract_lets rest
    have hrest {S : Reach} {k : Value} (hk : Good S k) :
        Behaves S p ⟨true, b, false⟩ (rest k) fun S path =>
        AllGood S path ∧ ∃ keys root, path = keys ++ [root] ∧ ∀ s, root = .str s → p.names s := by
      refine (behaves_pathOf hvalue hN).bind fun _ hST ks hks => ?_
      obtain ⟨hgood, keys, root, rfl, hroot⟩ := hks
      exact behaves_pure ⟨⟨hk.mono hST, hgood⟩, k :: keys, root, rfl, hroot⟩
    split
    · exact hrest (k := .str _) trivial
    · exact (hrec.expr hidx).bind fun _ _ _ hk => hrest hk
  | _, .nil, _, _ | _, .true, _, _ | _, .false, _, _ | _, .number _, _, _ | _, .string _, _, _
  | _, .varargs, _, _ | _, .invoke _ _ _, _, _ | _, .function _, _, _ | _, .table _, _, _
  | _, .unary _ _, _, _ | _, .binary _ _ _, _, _ => behaves_fail nofun

omit hrec in
theorem calm_rootOf (hv : Good R v) (hN : ∀ s, v = .str s → p.names s) :
    Calm R p (rootOf v) fun o => ∀ w, o = some w → Good R w := by
  unfold rootOf
  split
  case h_1 n =>
    refine behaves_current fun ev => Behaves.ite (behaves_pure ⟨rfl, nofun⟩) ?_
    have hlook := hN n rfl
    refine behaves_look (fun m i hm hi => by rw [hm.lookup_strip hi hlook])
      fun m i hm _ hscope => ?_
    split
    · rename_i w hw
      exact behaves_pure ⟨rfl, fun _ h => Option.some.inj h ▸ hm.lookup hscope hw⟩
    · have hempty : AllGood R (Cell.table .empty).contents := allGood_contents_empty
      refine (plain_alloc hempty).calm.andThen fun t ht => behaves_here fun i _ _ => ?_
      refine (calm_defineOutermost i hv ht).andThen fun _ _ => ?_
      exact behaves_pure ⟨rfl, fun _ h => Option.some.inj h ▸ ht⟩
  case h_2 => exact behaves_pure ⟨rfl, fun _ h => Option.some.inj h ▸ hv⟩

theorem behaves_assignTo {target : Expr} (htarget : Asked target.tame)
    (hN : p.Clears (rootNames target)) (hv : Good R v) :
    Behaves R p ⟨true, b, t⟩ (assignTo rec target v) fun _ _ => True := by
  unfold assignTo
  split
  · refine behaves_here fun i hi _ => ?_
    exact (calm_assign hi (hN _ (.inl List.mem_cons_self)) hv).behaves fun _ _ => trivial
  · refine (behaves_pathOf hrec htarget hN).bind fun S hRS path hpath => ?_
    obtain ⟨hgood, keys, root, rfl, hroot⟩ := hpath
    obtain ⟨hkeys, hgood, -⟩ := allGood_append.mp hgood
    rw [List.reverse_append, List.reverse_singleton, List.singleton_append]
    refine (calm_rootOf hgood hroot).andThen fun o ho => ?_
    split
    · exact (plain_setAlong (ho _ rfl) (hkeys.subset fun _ => List.mem_reverse.mp)
        (hv.mono hRS)).behaves fun _ _ => trivial
    · exact behaves_pure trivial
  · exact behaves_fail nofun

theorem behaves_assignOne {target value : Expr} (htarget : Asked target.tame)
    (hN : p.Clears (rootNames target)) (hvalue : Asked value.tame) :
    Behaves R p ⟨true, b, t⟩ (assignOne rec target value) fun _ _ => True := by
  unfold assignOne
  extract_lets plain
  have hplain : Behaves R p ⟨true, b, t⟩ plain fun _ _ => True :=
    (hrec.expr hvalue).bind fun _ _ _ hv => behaves_assignTo hrec htarget hN hv
  split
  case h_1 n =>
    refine behaves_current fun ev => Behaves.ite ?_ hplain
    have hlook := hN n (.inl List.mem_cons_self)
    refine behaves_look (fun m i hm hi => by rw [hm.lookup_strip hi hlook]) fun m i _ _ _ => ?_
    exact Behaves.ite (behaves_assignTo (v := .nil) hrec htarget hN trivial) (behaves_pure trivial)
  case h_2 => exact hplain

theorem behaves_assignAll : ∀ {R : Reach} {targets values : List Expr},
    Asked (tameExprs targets) → (∀ x ∈ targets, p.Clears (rootNames x)) → Asked (tameExprs values) →
    Acts R p b (assignAll rec targets values)
  | _, [], _, _, _, _ => behaves_pure trivial
  | _, _ :: _, [], _, _, _ => behaves_fail nofun
  | _, x :: _, _ :: _, hxs, hN, hvs => by
    obtain ⟨hx, hxs⟩ := Asked.and hxs
    obtain ⟨hv, hvs⟩ := Asked.and hvs
    refine (behaves_assignOne hrec hx (hN x List.mem_cons_self) hv).bind fun _ _ _ _ => ?_
    exact behaves_assignAll hxs (fun y hy => hN y (List.mem_cons_of_mem _ hy)) hvs

theorem behaves_visitAssign {targets values : List Expr} (htargets : Asked (tameExprs targets))
    (hN : ∀ x ∈ targets, p.Clears (rootNames x)) (hvalues : Asked (tameExprs values)) :
    Gives R p b t (visitAssign rec targets values) := by
  refine (behaves_assignAll hrec htargets hN hvalues).bind fun S _ _ _ => ?_
  refine behaves_current fun ev => ?_
  extract_lets rest
  have hrest : Gives S p b t (rest ⟨⟩) := behaves_pure trivial
  refine Behaves.ite ?_ hrest
  split
  · refine (plain_targetName _).calm.andThen fun n _ => Behaves.ite ?_ hrest
    exact (calm_setPassing true).andThen fun _ _ => hrest
  · exact hrest

omit hrec in
theorem behaves_bindLocals (hp : p.here ∉ hidden) {value : Nat → Eval Value}
    (hvalue : ∀ S i, R ≤ S → Gives S p b false (value i)) :
    ∀ {S : Reach} {i : Nat} {names : List String}, R ≤ S →
      Acts S p b (bindLocals value i names)
  | _, _, [], _ => behaves_pure trivial
  | S, i, n :: ns, hRS => by
    refine behaves_current fun ev => ?_
    extract_lets rest
    have hrest {T : Reach} (hRT : R ≤ T) : Acts T p b (rest ⟨⟩) :=
      behaves_bindLocals hp hvalue hRT
    refine Behaves.ite ?_ ?_
    · refine behaves_look (fun m i _ hi => ?_) fun m i _ _ _ => Behaves.ite ?_ (hrest hRS)
      · have hbound : bound (m.strip hidden).scopes (.str n) i = bound m.scopes (.str n) i :=
          bound_strip (hi.not_mem hp)
        rw [hbound]
      · exact (calm_bindName (v := .nil) hp trivial).andThen fun _ _ => hrest hRS
    · refine (hvalue S i hRS).bind fun T hST v hv => ?_
      exact (calm_bindName hp hv).andThen fun _ _ => hrest (hRS.trans hST)

theorem behaves_itemOf (hv : Good R v) (i : Nat) : Gives R p b false (itemOf rec v i) := by
  refine behaves_read (fun _ => rfl) fun m _ => Behaves.ite (behaves_pure trivial) ?_
  refine (plain_lengthOf v).calm.andThen fun n _ => ?_
  split
  · refine Behaves.ite ?_ (behaves_pure trivial)
    exact (plain_member (k := .int i) hv trivial).calm.andThen fun w hw => hrec.value hw
  · exact behaves_pure trivial

theorem behaves_visitLocal (hp : p.here ∉ hidden) (names : List String) {values : List Expr}
    (hvalues : Asked (tameExprs values)) : Gives R p b t (visitLocal rec names values) := by
  have hbind {S : Reach} {value : Nat → Eval Value}
      (hvalue : ∀ T i, S ≤ T → Gives T p b false (value i)) :
      Gives S p b t (do bindLocals value 0 names; return .nil) :=
    (behaves_bindLocals hp hvalue (le_refl S)).bind fun _ _ _ _ => behaves_pure trivial
  refine Behaves.ite ?_ ?_
  · have hhead : Asked (values.headD .nil).tame := by
      cases values with
      | nil => exact fun _ => rfl
      | cons x xs => exact (Asked.and hvalues).1
    refine (hrec.expr hhead).bind fun S _ v hv => ?_
    extract_lets u
    have hu : Good S u := by
      unfold u
      split
      · exact hv
      · exact hv
    exact hbind fun T i hST => behaves_itemOf hrec (hu.mono hST) i
  · refine hbind fun T i _ => ?_
    split
    · rename_i x hx
      exact hrec.expr fun ht => tame_of_mem (hvalues ht) (List.mem_of_getElem? hx)
    · exact behaves_pure trivial

/-! ### Functions and tables -/

variable {f : Func}

omit hrec in
theorem calm_defineMethod (hf : Good R (.func f)) {source : Expr} {name : String}
    (hN : p.Clears (headNames (.method source name)))
    (hhome : ∀ h, Watch.home = some h → f.label ≠ h.label) :
    Calm R p (defineMethod f source name) Anything := by
  cases source with
  | name cls =>
    have hcls := hN cls (.inl List.mem_cons_self)
    change Calm R p (pure cls >>= _) _
    rw [pure_bind]
    refine behaves_look (fun m i hm hi => by rw [hm.lookup_strip hi hcls]) fun m i _ _ _ => ?_
    split
    · exact behaves_fail nofun
    · split
      · refine Behaves.check nofun ?_
        refine (plain_put (k := .str name) trivial hf).calm.andThen fun _ _ => ?_
        exact calm_modifyClosure hf.1 (fun _ hc => hc) hhome
      · exact behaves_fail nofun
  | _ => exact behaves_fail nofun

def isMethod (f : Func) : Bool :=
  match f.head with
  | .method _ _ => true
  | _ => false

def bindFunction (rec : Visitor) (f : Func) : Eval Value := do
  match f.head with
  | .anonymous => pure ()
  | .local n => defineHere (.str n) (.func f)
  | .global target => assignTo rec target (.func f)
  | .method source n => defineMethod f source n
  return .func f

theorem behaves_bindFunction (hp : p.here ∉ hidden)
    (hf : Good R (.func f)) (htame : Asked f.tame) (hN : p.Clears (headNames f.head))
    (hhome : ∀ h, Watch.home = some h → f.label = h.label → isMethod f = false) :
    Gives R p b t (bindFunction rec f) := by
  unfold bindFunction
  extract_lets rest
  have hrest {S : Reach} (hRS : R ≤ S) : Gives S p b t (rest ⟨⟩) :=
    behaves_pure (hf.mono hRS)
  split
  · exact hrest (le_refl R)
  · exact (calm_bindName hp hf).andThen fun _ _ => hrest (le_refl R)
  · rename_i target heq
    rw [heq] at hN
    have htarget : Asked target.tame := fun ht => by
      have hhead := f.tame_head (htame ht)
      rwa [heq] at hhead
    exact (behaves_assignTo hrec htarget hN hf).bind fun S hRS _ _ => hrest hRS
  · rename_i source name heq
    rw [heq] at hN
    refine (calm_defineMethod hf hN fun h hh hlabel => ?_).andThen fun _ _ => hrest (le_refl R)
    have hno := hhome h hh hlabel
    unfold isMethod at hno
    rw [heq] at hno
    cases hno

def Machine.captured (m : Machine) (f : Func) : Machine :=
  { m with closures := (f.label, { closureIn m f with scope := some m.evaluator.scope }) ::
      m.closures.filter fun p => p.1 != f.label }

omit [Watch] hrec in
theorem visitFunction_eq (rec : Visitor) (f : Func) (m : Machine) :
    visitFunction rec f m = bindFunction rec f (m.captured f) :=
  rfl

/-- A function comes within reach where it is evaluated. The one in question may be given the scope
that it has, as long as it is not a method. -/
theorem ends_visitFunction (hp : p.here ∉ hidden) (hf : Asked f.tame)
    (hN : p.Clears (headNames f.head)) {m : Machine} (hm : Sound R m) (hat : Around p m)
    (hhome : ∀ h, Watch.home = some h → f.label = h.label →
      m.evaluator.scope = h.scope ∧ isMethod f = false) :
    Ends R p m ⟨true, b, t⟩ Good (visitFunction rec f m)
      (visitFunction rec f (m.strip hidden)) := by
  have hcaptured : Sound (marked R f.label) (m.captured f) := by
    refine hm.setClosure (fun _ hs => Option.some.inj hs ▸ hm.here) fun h hh hlabel => ?_
    unfold closureIn
    rw [hlabel, (hm.homed h hh).closure_eq, (hhome h hh hlabel).1]
    rfl
  have hfunc : Good (marked R f.label) (.func f) := ⟨.inr rfl, fun hR => hf (hm.tame.symm.trans hR)⟩
  have hbind : Behaves (marked R f.label) p ⟨true, b, t⟩ (bindFunction rec f) Good :=
    behaves_bindFunction hrec hp hfunc hf hN fun h hh hlabel => (hhome h hh hlabel).2
  have hbeyond : Beyond hidden m (m.captured f) := beyond_of_scopes_eq _ rfl rfl rfl
  exact (hbind _ hcaptured (hat.of_same rfl rfl rfl)).after (le_marked R _) hbeyond

theorem behaves_visitFunction (hp : p.here ∉ hidden) (hf : Asked f.tame)
    (hN : p.Clears (headNames f.head)) (hhome : ∀ h, Watch.home = some h → f.label ≠ h.label) :
    Gives R p b t (visitFunction rec f) :=
  fun _ hm hat => ends_visitFunction hrec hp hf hN hm hat fun h hh hlabel =>
    absurd hlabel (hhome h hh)

theorem behaves_visitField (r : Ref) {f : Field} (hkey : Asked f.key.tame)
    (hvalue : Asked f.value.tame) (hN : takesRest f = true → p.names "...") :
    Acts R p b (visitField rec r f) := by
  have hset {S : Reach} {k v : Value} (hk : Good S k) (hv : Good S v) :
      Acts S p b (setEntry r k v) :=
    (plain_setEntry r hk hv).behaves fun _ _ => trivial
  unfold visitField
  split
  · have hlook := hN rfl
    refine behaves_look (fun m i hm hi => by rw [hm.lookup_strip hi hlook])
      fun m i hm _ hscope => ?_
    split
    · exact behaves_fail nofun
    · rename_i v hv
      refine (plain_items (hm.lookup hscope hv)).calm.andThen fun vs hvs => ?_
      exact (plain_insertAll r hvs).behaves fun _ _ => trivial
  · rename_i n value _
    exact (hrec.expr hvalue).bind fun _ _ _ hv => hset (k := .str n) trivial hv
  · refine (hrec.expr hvalue).bind fun S _ v hv => ?_
    exact (hrec.expr hkey).bind fun T hST k hk => hset hk (hv.mono hST)
  · refine (hrec.expr hkey).bind fun S _ k hk => ?_
    refine (hrec.expr hvalue).bind fun T hST v hv => ?_
    exact Behaves.ite (hset (hk.mono hST) hv) (behaves_pure trivial)

theorem behaves_visitFields (r : Ref) : ∀ {R : Reach} {fields : List Field},
    Asked (tameFields fields) → (fields.any takesRest = true → p.names "...") →
      Acts R p b (visitFields rec r fields)
  | _, [], _, _ => behaves_pure trivial
  | _, .mk key value bracketed :: fields, h, hN => by
    obtain ⟨hfield, hfields⟩ := Asked.and h
    obtain ⟨hkey, hvalue⟩ := Asked.and hfield
    rw [List.any_cons, Bool.or_eq_true] at hN
    refine (behaves_visitField (f := .mk key value bracketed) hrec r hkey hvalue fun hf =>
      hN (.inl hf)).bind fun _ _ _ _ => ?_
    exact behaves_visitFields r hfields fun hfs => hN (.inr hfs)

theorem behaves_visitTable {fields : List Field} (h : Asked (tameFields fields))
    (hN : fields.any takesRest = true → p.names "...") : Gives R p b t (visitTable rec fields) := by
  have hempty : AllGood R (Cell.table .empty).contents := allGood_contents_empty
  refine (plain_alloc hempty).calm.andThen fun t ht => ?_
  split
  · exact (behaves_visitFields hrec _ h hN).bind fun S hRS _ _ => behaves_pure (ht.mono hRS)
  · exact behaves_pure ht

/-! ### Operators -/

/-- Evaluates the operands of an operation, whose own outcome is not yet taken over. -/
def operated (rec : Visitor) (op : BinOp) (l r : Expr) : Eval (Result Value) := do
  let v ← rec (.expr l)
  let w ← rec (.expr r)
  return arithmetic (← get).store op v w

omit [Watch] hrec in
theorem visitArithmetic_eq (op : BinOp) (l r : Expr) (m : Machine) :
    visitArithmetic rec op l r m = match operated rec op l r m with
      | .ok (.ok v) n => .ok v n
      | .ok (.error f) n => pastZero (.fault f) n
      | .error s n => pastZero s n := by
  simp only [visitArithmetic, operated, tryCatch, tryCatchThe, MonadExceptOf.tryCatch,
    EStateM.tryCatch, bind, EStateM.bind]
  rcases rec (.expr l) m with ⟨v, n⟩ | ⟨s, n⟩
  · dsimp only
    rcases rec (.expr r) n with ⟨w, k⟩ | ⟨s, k⟩
    · dsimp only [get, getThe, MonadStateOf.get, EStateM.get]
      cases arithmetic k.store op v w <;> rfl
    · rfl
  · rfl

omit [Watch] hrec in
theorem pastZero_eq {f : Fault} (h : f ≠ .zeroDivision) : pastZero (.fault f) = fail f := by
  cases f with
  | zeroDivision => exact absurd rfl h
  | _ => rfl

omit hrec in
theorem ends_pastZero {m n : Machine} {f : Fault} {S : Reach} (hRS : R ≤ S) (hn : Sound S n)
    (hmn : Beyond hidden m n) (hzero : f = .zeroDivision → Arrives p ⟨true, b, true⟩ n) :
    Ends R p m ⟨true, b, true⟩ Good (pastZero (.fault f) n)
      (pastZero (.fault f) (n.strip hidden)) := by
  by_cases hf : f = .zeroDivision
  · subst hf
    exact .both (r := .ok (Value.float Decimal.infinity) n) S hRS hn hmn ⟨hzero rfl, trivial⟩
  · rw [pastZero_eq hf]
    exact .both (r := .error (.fault f) n) S hRS hn hmn fun _ => hf

/-- The division by zero of an operation is caught. So is one of an operand, which may have led to
another place. -/
theorem behaves_visitArithmetic (op : BinOp) {l r : Expr} (hl : Asked l.tame)
    (hr : Asked r.tame) : Gives R p b true (visitArithmetic rec op l r) := by
  have hoperated : Behaves R p ⟨true, b, true⟩ (operated rec op l r) fun S v =>
      ∀ w, v = .ok w → Good S w := by
    refine (hrec.expr hl).bind fun S _ v hv => (hrec.expr hr).bind fun T hST w hw => ?_
    refine behaves_read (fun _ => rfl) fun m _ => behaves_pure fun u hu => ?_
    have hyields := yields_arithmetic m.store op (hv.mono hST) hw
    rwa [hu] at hyields
  intro m hm hp
  have hends := hoperated m hm hp
  rw [visitArithmetic_eq, visitArithmetic_eq]
  generalize operated rec op l r m = run at hends
  generalize operated rec op l r (m.strip hidden) = run' at hends
  cases hends with
  | gaveUp hf => exact .gaveUp hf
  | both S hRS hn hmn hfits =>
    rcases run with ⟨f | v, n⟩ | ⟨f | v | _, n⟩
    · exact ends_pastZero hRS hn hmn fun _ => hfits.1
    · exact .both (r := .ok v n) S hRS hn hmn ⟨hfits.1, hfits.2 v rfl⟩
    -- an operand of tame syntax never ends in a division by zero
    · refine ends_pastZero hRS hn hmn fun hf => .of_not_tame rfl
        (Bool.eq_false_iff.mpr fun ht => ?_)
      exact hfits ht hf
    · exact .both (r := .error (.ret v) n) S hRS hn hmn hfits
    · exact .both (r := .error .brk n) S hRS hn hmn hfits

theorem behaves_visitBinary (op : BinOp) {l r : Expr} (hl : Asked l.tame)
    (hr : Asked r.tame) : Gives R p b true (visitBinary rec op l r) := by
  have hleft : Gives R p b false (rec (.expr l)) := hrec.expr hl
  have hright {S : Reach} {t : Bool} : Gives S p b t (rec (.expr r)) := hrec.expr hr
  have hcompare : Gives R p b true (do
      let v ← rec (.expr l)
      let w ← rec (.expr r)
      return .bool (← lift (compareWith op v w))) := by
    refine hleft.bind fun S _ v _ => hright.bind fun T _ w _ => ?_
    exact (plain_compareWith op v w).calm.andThen fun _ _ => behaves_pure trivial
  cases op with
  | add | sub | mul | div | floorDiv | mod | pow => exact behaves_visitArithmetic hrec _ hl hr
  | lt | gt | le | ge | eq | ne => exact hcompare
  | concat =>
    refine hleft.bind fun S _ v hv => hright.bind fun T hST w _ => ?_
    refine (plain_displayed w).calm.andThen fun text _ => behaves_read (fun _ => rfl) fun m _ => ?_
    exact (plain_arithmetic (w := .str text) m.store rfl (hv.mono hST) trivial).behaves fun _ h => h
  | and => exact hleft.bind fun S _ v _ => Behaves.ite hright (behaves_pure trivial)
  | or => exact hleft.bind fun S _ v hv => Behaves.ite (behaves_pure hv) hright
  | _ => exact behaves_fail nofun

theorem behaves_visitExpr (hp : p.here ∉ hidden) {x : Expr} (h : Asked x.tame)
    (hN : p.Clears (exprNames x)) (hdef : (Node.expr x).LeavesHome) :
    Gives R p b true (visitExpr rec x) := by
  cases x with
  | nil | true | false | string => exact behaves_pure trivial
  | number n =>
    cases n with
    | int | float => exact behaves_pure trivial
  | name n =>
    have hn := hN n (.inl List.mem_cons_self)
    refine behaves_look (fun m i hm hi => by rw [hm.lookup_strip hi hn]) fun m i hm _ hscope =>
      behaves_pure ?_
    cases hv : lookup? m.scopes i (.str n) with
    | none => exact trivial
    | some v => exact hm.lookup hscope hv
  | index idx value dot =>
    obtain ⟨hidx, hvalue⟩ := Asked.and h
    have hrest {S : Reach} {k : Value} (hk : Good S k) : Gives S p b true (do
        let v ← rec (.expr value)
        if v.isNil then return .nil else member v k) := by
      refine (hrec.expr hvalue).bind fun T hST v hv => Behaves.ite (behaves_pure trivial) ?_
      exact (plain_member hv (hk.mono hST)).behaves fun _ h => h
    unfold visitExpr
    dsimp only
    split
    · exact hrest (k := .str _) trivial
    · exact (hrec.expr hidx).bind fun _ _ _ hk => hrest hk
  | call f args =>
    obtain ⟨hf, hargs⟩ := Asked.and h
    exact behaves_visitCall hrec hf hargs
  | invoke source name args =>
    obtain ⟨hsource, hargs⟩ := Asked.and h
    exact behaves_visitInvoke hrec name hsource hargs (hN _ (.inl List.mem_cons_self))
  | function f => exact behaves_visitFunction hrec hp h hN (hdef f rfl)
  | table fields =>
    refine behaves_visitTable hrec h fun hrest => hN _ ?_
    simp only [exprNames, if_pos hrest]
    exact .inl List.mem_cons_self
  | unary op x =>
    exact (hrec.expr (x := x) h).bind fun _ _ v _ => (plain_unaryValue op v).behaves fun _ h => h
  | binary op l r =>
    obtain ⟨hl, hr⟩ := Asked.and h
    exact behaves_visitBinary hrec op hl hr
  | varargs => exact behaves_fail nofun

/-! ### Loops -/

omit hrec in
theorem behaves_forEntries {body : Value → Value → Eval Bool} {r : Ref}
    (hbody : ∀ S k v, Good S k → Good S v → Acts S p b (body k v))
    (size : Nat) : ∀ {R : Reach} {rounds moment : Nat}, R.cell r →
      Acts R p b (forEntries r size body rounds moment)
  | _, 0, _, hr =>
    (plain_tableOf hr).calm.andThen fun _ _ =>
      Behaves.ite (behaves_fail nofun) (behaves_pure trivial)
  | R, rounds + 1, moment, hr => by
    refine (plain_tableOf hr).calm.andThen fun t ht => Behaves.check nofun ?_
    split
    · exact behaves_pure trivial
    · rename_i entry hentry
      obtain ⟨hk, hv⟩ := allGood_contents_iff.mp ht entry (List.mem_of_find?_eq_some hentry)
      refine (hbody R entry.key entry.value hk hv).bind fun S hRS go _ => ?_
      exact Behaves.ite (behaves_forEntries hbody size (hRS.2.1 r hr)) (behaves_pure trivial)

omit hrec in
theorem behaves_forItems {body : Value → Eval Bool}
    (hbody : ∀ S v, Good S v → Acts S p b (body v)) :
    ∀ {R : Reach} {vs : List Value}, AllGood R vs →
      Acts R p b (forItems body vs)
  | _, [], _ => behaves_pure trivial
  | R, v :: vs, h => by
    refine (hbody R v h.1).bind fun S hRS go _ => ?_
    exact Behaves.ite (behaves_forItems hbody (h.2.mono hRS)) (behaves_pure trivial)

omit hrec in
theorem behaves_forPairs {body : Value → Value → Eval Bool}
    (hbody : ∀ S k v, Good S k → Good S v → Acts S p b (body k v))
    (hv : Good R v) : Acts R p b (forPairs v body) := by
  have htable {r : Ref} (hr : R.cell r) : Acts R p b (do
      let n := (← tableOf r).size
      forEntries r n body n 0) :=
    (plain_tableOf hr).calm.andThen fun t _ => behaves_forEntries hbody t.size hr
  unfold forPairs
  split
  · exact htable hv
  · exact htable hv
  · exact htable hv
  · refine (plain_items hv).calm.andThen fun vs hvs => behaves_forItems (fun S p hp => ?_) hvs
    exact (plain_pairOf hp).calm.andThen fun q hq => hbody S q.1 q.2 hq.1 hq.2

theorem behaves_visitPairs (hp : p.here ∉ hidden) (key : String)
    (value : Option String) (hv : Good R v) (hbody : Asked (tameStmts true body)) :
    Acts R p b (visitPairs rec key value v body) := by
  refine behaves_forPairs (fun S k w hk hw => Behaves.inBlock fun i hi => ?_) hv
  have hi : i ∉ hidden := hi.elim (fun h => h ▸ hp) id
  -- a break of the body ends in the round, whether or not the loop itself may be broken
  have hround : Acts S ⟨i, p.stack, fun _ => False⟩ b (unbroken (rec (.block body))) :=
    (hrec.block hbody).unbroken
  refine (calm_bindName hi hk).andThen fun _ _ => ?_
  split
  · exact (calm_bindName hi hw).andThen fun _ _ => hround
  · exact hround

theorem behaves_visitSequence (hp : p.here ∉ hidden) (key : String)
    (value : Option String) (hbody : Asked (tameStmts true body)) :
    ∀ {R : Reach} {rounds : Nat} {k : Int}, Good R v →
      Acts R p b (visitSequence rec key value v body rounds k)
  | _, 0, _, _ => behaves_fail nofun
  | R, rounds + 1, k, hv => by
    unfold visitSequence
    refine (plain_containsValue hv (.int k)).calm.andThen fun more _ =>
      Behaves.ite ?_ (behaves_pure trivial)
    refine (plain_member (k := .int k) hv trivial).calm.andThen fun w hw => ?_
    refine (calm_bindName (v := .int k) hp trivial).andThen fun _ _ => ?_
    have hname : Good R ((value.map Value.str).getD .nil) := by
      cases value <;> exact trivial
    refine (calm_defineHere hp hname hw).andThen fun _ _ => ?_
    have hround : Acts R p b (unbroken (rec (.block body))) :=
      (hrec.block hbody).unbroken
    refine hround.bind fun S hRS go _ => Behaves.ite ?_ (behaves_pure trivial)
    exact behaves_visitSequence hp key value hbody (hv.mono hRS)

theorem behaves_visitForin (hp : p.here ∉ hidden) (targets : List String) {iter : List Expr}
    (hiter : Asked (tameExprs iter)) (hbody : Asked (tameStmts true body)) :
    Gives R p b t (visitForin rec targets iter body) := by
  unfold visitForin
  split
  · rename_i callee args rest
    obtain ⟨hcall, -⟩ := Asked.and hiter
    obtain ⟨-, hargs⟩ := Asked.and hcall
    refine (plain_targetName callee).calm.andThen fun name _ => ?_
    split
    · exact behaves_fail nofun
    · refine (hrec.expr (Asked.and hargs).1).bind fun S _ v hv => ?_
      split
      · exact behaves_pure trivial
      · have hnil {T : Reach} : Gives T p b t (pure .nil) := behaves_pure trivial
        split
        · exact (behaves_visitPairs hrec hp _ _ hv hbody).bind fun _ _ _ _ => hnil
        · exact (behaves_visitSequence hrec hp _ _ hbody hv).bind fun _ _ _ _ => hnil
        · exact hnil
  · exact behaves_fail nofun

theorem behaves_countRounds {scope : ScopeId} (hout : scope ∉ hidden)
    {var stop step : Value} (hbody : Asked (tameStmts b body)) :
    ∀ {R : Reach} {rounds : Nat}, R.scope scope → Good R var → Good R step →
      Acts R p b (countRounds rec scope var stop step body rounds)
  | _, 0, _, _, _ => behaves_fail nofun
  | R, rounds + 1, hscope, hvar, hstep => by
    unfold countRounds
    extract_lets value
    have hvalue {S : Reach} (hRS : R ≤ S) : Calm S p value (Good S) := by
      refine behaves_read (fun m => ?_) fun m hm => behaves_pure ⟨rfl, ?_⟩
      · have hsame : (m.strip hidden).scopes.getD scope default = m.scopes.getD scope default :=
          (getD_strip _ _ _).trans (if_neg hout)
        rw [hsame]
      · exact (hm.scopes.vars scope (hRS.1 _ hscope)).get var
    refine (hvalue (le_refl R)).andThen fun v _ => ?_
    refine (plain_compareWith .ge stop v).calm.andThen fun more _ =>
      Behaves.ite ?_ (behaves_pure trivial)
    have hround : Acts R p b (inBlock do let _ ← rec (.block body)) :=
      Behaves.inBlock fun i _ => (hrec.block hbody).bind fun _ _ _ _ => behaves_pure trivial
    -- the body may have changed the variable, so it is read again
    refine hround.bind fun S hRS _ _ => behaves_read (fun _ => rfl) fun m _ => ?_
    refine (hvalue hRS).andThen fun w hw => ?_
    refine (plain_arithmetic m.store rfl hw (hstep.mono hRS)).calm.andThen fun next hnext => ?_
    refine (calm_define hout (hvar.mono hRS) hnext).andThen fun _ _ => ?_
    exact behaves_countRounds hout hbody (hRS.1 _ hscope) (hvar.mono hRS) (hstep.mono hRS)

theorem behaves_visitFornum (hp : p.here ∉ hidden) (target : String) {start stop : Expr}
    {step : Option Expr} (hstart : Asked start.tame) (hstop : Asked stop.tame)
    (hstep : ∀ x, step = some x → Asked x.tame) (hbody : Asked (tameStmts b body)) :
    Gives R p b t (visitFornum rec target start stop step body) := by
  refine behaves_here fun i hi hscope => ?_
  have hout := hi.not_mem hp
  refine (hrec.expr hstart).bind fun S hRS first hfirst => ?_
  have hname : Good S (.str target) := trivial
  refine (calm_define hout hname hfirst).andThen fun _ _ => ?_
  refine (hrec.expr hstop).bind fun T hST last hlast => ?_
  extract_lets rest
  have hrest {U : Reach} (hTU : T ≤ U) {w : Value} (hw : Good U w) :
      Gives U p b t (rest w) := by
    have hscope' : U.scope i := (hRS.trans (hST.trans hTU)).1 _ hscope
    have htarget : Good U (.str target) := trivial
    exact (behaves_countRounds hrec hout hbody hscope' htarget hw).bind fun _ _ _ _ =>
      behaves_pure trivial
  split
  · exact (hrec.expr (hstep _ rfl)).bind fun U hTU w hw => hrest hTU hw
  · exact (hrec.value (v := .int 1) trivial).bind fun U hTU w hw => hrest hTU hw

/-! ### Statements -/

theorem behaves_visitIf {test : Expr} {orelse : Orelse}
    (htest : Asked test.tame) (hbody : Asked (tameStmts b body)) (horelse : Asked (orelse.tame b)) :
    Gives R p b t (visitIf rec test body orelse) := by
  refine (hrec.expr htest).bind fun S _ v _ => ?_
  have hnil {T : Reach} : Gives T p b t (pure .nil) := behaves_pure trivial
  refine Behaves.ite ((hrec.block hbody).bind fun _ _ _ _ => hnil) ?_
  split
  · exact hnil
  · exact (hrec.block horelse).bind fun _ _ _ _ => hnil
  · exact (hrec.node (.orelse _) horelse trivial).bind fun _ _ _ _ => hnil

omit [Watch] hrec in
theorem good_packed : ∀ {vs : List Value}, AllGood R vs → Good R (packed vs)
  | [], _ => trivial
  | [_], h => h.1
  | _ :: _ :: _, h => h

theorem behaves_visitStmt (hp : p.here ∉ hidden) {s : Stmt}
    (h : Asked (s.tame b)) (hN : p.Clears (Node.stmt s).names) (hdef : (Node.stmt s).LeavesHome) :
    Gives R p b true (visitStmt rec s) := by
  cases s with
  | assign targets values =>
    obtain ⟨htargets, hvalues⟩ := Asked.and h
    have hroots (x : Expr) (hx : x ∈ targets) : p.Clears (rootNames x) := fun s hs =>
      hN s (hs.imp (fun h => List.mem_flatMap.mpr ⟨x, hx, h⟩)
        fun h => List.mem_flatMap.mpr ⟨x, hx, h⟩)
    exact behaves_visitAssign hrec htargets hroots hvalues
  | «local» names values => exact behaves_visitLocal hrec hp names h
  | expr x =>
    refine behaves_visitExpr hrec hp h hN fun f hf => hdef f ?_
    cases x <;> exact hf
  | function f => exact behaves_visitFunction hrec hp h hN (hdef f rfl)
  | «break» =>
    exact fun m hm hp => .both (r := .error .brk m) R (le_refl R) hm (.refl _ m) ⟨h, .inl hp⟩
  | semicolon => exact behaves_pure trivial
  | «if» test body orelse =>
    obtain ⟨hhead, horelse⟩ := Asked.and h
    obtain ⟨htest, hbody⟩ := Asked.and hhead
    exact behaves_visitIf hrec htest hbody horelse
  | fornum target start stop step body =>
    cases step with
    | none =>
      obtain ⟨hhead, hbody⟩ := Asked.and h
      obtain ⟨hstart, hstop⟩ := Asked.and hhead
      have hstep (x : Expr) (hx : none = some x) : Asked x.tame := nomatch hx
      exact behaves_visitFornum hrec hp target hstart hstop hstep hbody
    | some step =>
      obtain ⟨hhead, hbody⟩ := Asked.and h
      obtain ⟨hhead, hstep⟩ := Asked.and hhead
      obtain ⟨hstart, hstop⟩ := Asked.and hhead
      have hstep' (x : Expr) (hx : some step = some x) : Asked x.tame := Option.some.inj hx ▸ hstep
      exact behaves_visitFornum hrec hp target hstart hstop hstep' hbody
  | forin targets iter body =>
    obtain ⟨hiter, hbody⟩ := Asked.and h
    exact behaves_visitForin hrec hp targets hiter hbody
  | «return» values =>
    refine (hrec.exprs h).bind fun S _ vs hvs m hm hp => ?_
    exact .both (r := .error (.ret (packed vs)) m) S (le_refl S) hm (.refl _ m)
      ⟨rfl, .inl hp, good_packed hvs⟩
  | _ => exact behaves_fail nofun

theorem behaves_visitStmts : ∀ {R : Reach} {ss : List Stmt},
    Asked (tameStmts b ss) → Acts R p b (visitStmts rec ss)
  | _, [], _ => behaves_pure trivial
  | _, s :: _, h => by
    obtain ⟨hs, hss⟩ := Asked.and h
    exact (hrec.node (.stmt s) hs trivial).bind fun _ _ _ _ => behaves_visitStmts hss

theorem behaves_insideBlock (h : Asked (tameStmts b body)) :
    Acts R p b (do
      modifyCurrent fun e => { e with firstBlock := e.firstBlock.or (some e.scope) }
      visitStmts rec body) := by
  have hfirst : Calm R p (modifyCurrent fun e => { e with
      firstBlock := e.firstBlock.or (some e.scope) }) Anything :=
    calm_modifyCurrent fun _ => ⟨rfl, rfl⟩
  exact hfirst.andThen fun _ _ => behaves_visitStmts hrec h

theorem behaves_visitBlock (h : Asked (tameStmts b body)) : Gives R p b t (visitBlock rec body) :=
  (Behaves.inBlock fun _ _ => behaves_insideBlock hrec h).bind fun _ _ _ _ => behaves_pure trivial

theorem behaves_visitValue (hp : p.here ∉ hidden) (hv : Good R v)
    (hN : p.Clears (Node.value v).names) (hdef : (Node.value v).LeavesHome) :
    Gives R p b t (visitValue rec v) := by
  refine Behaves.known fun hR => ?_
  unfold visitValue
  split
  case h_1 f => exact behaves_visitFunction hrec hp (fun ht => hv.2 (hR.trans ht)) hN (hdef f rfl)
  case h_2 x => exact hrec.expr fun ht => hv (hR.trans ht)
  case h_3 s =>
    have hstmt : Gives R p false t (rec (.stmt s)) :=
      hrec.node (.stmt s) (fun ht => hv (hR.trans ht)) trivial
    exact hstmt.loosen id nofun fun h _ => h
  case h_10 n =>
    split
    · exact behaves_fail nofun
    · exact behaves_pure hv
  case h_11 => exact behaves_pure hv
  all_goals exact behaves_fail nofun

variable {node : Node}

theorem behaves_carryOut (hp : node.opensBlock = false → p.here ∉ hidden) (hN : p.Clears node.names)
    (hdef : node.LeavesHome) (h : Asked (node.tame b)) (hvalues : AllGood R node.values) :
    Gives R p b true (carryOut rec node) := by
  cases node with
  | chunk body =>
    have hchunk : Gives R p false true (rec (.block body)) := hrec.block h
    exact hchunk.returned.loosen nofun nofun fun h _ => h
  | block body => exact behaves_visitBlock hrec h
  | stmt s => exact behaves_visitStmt hrec (hp rfl) h hN hdef
  | expr x => exact behaves_visitExpr hrec (hp rfl) h hN hdef
  | orelse o =>
    cases o with
    | none => exact behaves_pure trivial
    | block body => exact behaves_visitBlock hrec h
    | elseif test body orelse =>
      obtain ⟨hhead, horelse⟩ := Asked.and h
      obtain ⟨htest, hbody⟩ := Asked.and hhead
      exact behaves_visitIf hrec htest hbody horelse
  | value v => exact behaves_visitValue hrec (hp rfl) hvalues.1 hN hdef

theorem behaves_visitStep (hp : node.opensBlock = false → p.here ∉ hidden)
    (hN : p.Clears node.names) (hdef : node.LeavesHome) (h : Asked (node.tame b))
    (hvalues : AllGood R node.values) : Gives R p b true (visitStep rec node) := by
  have hcarry := behaves_carryOut hrec hp hN hdef h hvalues
  refine behaves_current fun ev => Behaves.ite hcarry ?_
  split
  · exact hcarry
  · exact hcarry
  · refine (plain_targetName _).calm.andThen fun n _ => Behaves.ite ?_ (behaves_pure trivial)
    exact (calm_setPassing false).andThen fun _ _ => hcarry
  · exact behaves_pure trivial

theorem Visits.step (hno : ¬ Watch.Spares) (hnone : hidden = [])
    (hdef : node.LeavesHome) (h : Asked (node.tame b)) (hvalues : AllGood R node.values) :
    Gives R p b false (visitStep rec node) := by
  have hstep : Gives R { p with names := fun _ => True } b true (visitStep rec node) :=
    behaves_visitStep hrec (fun _ => hnone ▸ List.not_mem_nil) (fun _ _ => trivial) hdef h hvalues
  have hstrict : Gives R { p with names := fun _ => True } b false (visitStep rec node) :=
    hstep.loosen id id fun _ hs => absurd hs hno
  exact hstrict.of_names hnone

omit hrec in
theorem visits_visitUpTo (hno : ¬ Watch.Spares) (hnone : hidden = []) (hhome : Watch.home = none) :
    ∀ depth, Visits (visitUpTo depth)
  | 0, _, _, _, _, _, _ => behaves_fail nofun
  | depth + 1, _, _, _, _, h, hvalues =>
    (visits_visitUpTo hno hnone hhome depth).step hno hnone
      (fun _ _ _ hh => nomatch hhome.symm.trans hh) h hvalues

end Visitors

end WikiFeed.Prefab

import WikiFeed.Lua.Format
import WikiFeed.Lua.Mathematics
import WikiFeed.Proofs.Lua.Reach

/-! # Results of operations

Of all operations on values only the three sorts of division fail for a division by zero. An
operation on good values gives a good value. Both are said by `Yields`, one lemma for each
operation. -/

namespace WikiFeed.Lua

open Value

/-- An operation whose value, if it has one, is as `Q` says, and which fails for a division by zero
only if `divides` says so. -/
def Yields {α : Type} (divides : Bool) (Q : α → Prop) : Result α → Prop
  | .ok a => Q a
  | .error f => f = .zeroDivision → divides = true

def Anything {α : Type} (_ : α) : Prop := True

section Rules

variable {α β : Type} {d : Bool} {P : α → Prop} {Q : β → Prop}

variable {f : α → Result β}

theorem Yields.bind {x : Result α} (hx : Yields d P x)
    (hf : ∀ a, P a → Yields d Q (f a)) : Yields d Q (x >>= f) := by
  cases x with
  | ok a => exact hf a hx
  | error e => exact hx

theorem yields_anything (x : Result α) : Yields true Anything x := by
  cases x with
  | ok a => trivial
  | error e => exact fun _ => rfl

theorem Yields.ite {c : Prop} [Decidable c] {x y : Result α} (hx : Yields d P x)
    (hy : Yields d P y) : Yields d P (if c then x else y) := by
  split
  · exact hx
  · exact hy

theorem yields_mapM : ∀ {as : List α}, (∀ a ∈ as, Yields d Anything (f a)) →
    Yields d Anything (as.mapM f)
  | [], _ => trivial
  | a :: as, h => by
    rw [List.mapM_cons]
    exact (h a List.mem_cons_self).bind fun _ _ =>
      (yields_mapM fun b hb => h b (List.mem_cons_of_mem _ hb)).bind fun _ _ => trivial

end Rules

/-! ### Numbers -/

def Calculates {α : Type} (divides : Bool) (r : Number.Outcome α) : Prop :=
  r = .error .zeroDivision → divides = true

theorem calculates_toFloat (d : Bool) (n : Number) : Calculates d n.toFloat := by
  unfold Number.toFloat
  split
  · split <;> exact nofun
  · exact nofun

variable {α : Type} {d : Bool} {double : Float → Float → Number.Outcome α}

theorem calculates_both {whole : Int → Int → Number.Outcome α}
    (hw : ∀ m n, Calculates d (whole m n)) (hd : ∀ x y, Calculates d (double x y)) (a b : Number) :
    Calculates d (Number.both whole double a b) := by
  unfold Number.both
  split
  · exact hw _ _
  · intro h
    cases ha : a.toFloat with
    | error e =>
      rw [ha] at h
      cases h
      exact calculates_toFloat d a ha
    | ok x =>
      rw [ha] at h
      cases hb : b.toFloat with
      | error e =>
        rw [hb] at h
        cases h
        exact calculates_toFloat d b hb
      | ok y =>
        rw [hb] at h
        exact hd x y h

theorem calculates_powFloat (x y : Float) : Calculates false (Number.powFloat x y) := by
  unfold Number.powFloat
  extract_lets finite z
  split
  · exact nofun
  · split
    · split
      · exact nofun
      · split <;> exact nofun
    · exact nofun

theorem yields_calculated {r : Number.Outcome α} (h : Calculates d r) :
    Yields d Anything (calculated r) := by
  cases r with
  | ok a => trivial
  | error e =>
    cases e with
    | zeroDivision => exact fun _ => h rfl
    | overflow => exact nofun
    | domain => exact nofun

theorem yields_toFloat (v : Value) : Yields d Anything v.toFloat := by
  unfold toFloat
  split
  · exact yields_calculated (calculates_toFloat d _)
  · exact nofun

section Values

variable {R : Reach} {v w : Value}

theorem good_ofNumber (n : Number) : Good R (.ofNumber n) := by
  cases n <;> trivial

theorem yields_onNumbers {op : Number → Number → Number.Outcome Number}
    (h : ∀ a b, Calculates d (op a b)) : Yields d (Good R) (onNumbers op v w) := by
  unfold onNumbers
  split
  · exact (yields_calculated (h _ _)).bind fun n _ => good_ofNumber n
  · exact nofun

/-! ### Operators -/

theorem yields_add (hv : Good R v) (hw : Good R w) : Yields false (Good R) (v.add w) := by
  unfold add
  split
  · trivial
  · exact allGood_append.mpr ⟨hv, hw⟩
  · exact yields_onNumbers (calculates_both (fun _ _ => nofun) fun _ _ => nofun)

theorem yields_sub : Yields false (Good R) (onNumbers Number.sub v w) :=
  yields_onNumbers (calculates_both (fun _ _ => nofun) fun _ _ => nofun)

theorem yields_copies (n : Int) (xs : List α) :
    Yields d (fun ys => ∀ y ∈ ys, y ∈ xs) (copies n xs) := by
  refine Yields.ite nofun ?_
  intro y hy
  obtain ⟨zs, hzs, hy⟩ := List.mem_flatten.mp hy
  rwa [(List.mem_replicate.mp hzs).2] at hy

theorem yields_repeatText (s : String) (w : Value) : Yields d (Good R) (mul.repeatText s w) := by
  unfold mul.repeatText
  split
  · exact (yields_copies _ _).bind fun _ _ => trivial
  · exact nofun

theorem yields_repeatTuple {xs : List Value} (h : AllGood R xs) (w : Value) :
    Yields d (Good R) (mul.repeatTuple xs w) := by
  unfold mul.repeatTuple
  split
  · exact (yields_copies _ _).bind fun _ hys => h.subset hys
  · exact nofun

theorem yields_mul (hv : Good R v) (hw : Good R w) : Yields false (Good R) (v.mul w) := by
  unfold mul
  split
  · exact yields_repeatText _ _
  · exact yields_repeatText _ _
  · exact yields_repeatTuple hv _
  · exact yields_repeatTuple hw _
  · exact yields_onNumbers (calculates_both (fun _ _ => nofun) fun _ _ => nofun)

theorem yields_neg : Yields false (Good R) v.neg := by
  unfold neg
  split
  · trivial
  · trivial
  · exact nofun

theorem yields_complement : Yields false (Good R) v.complement := by
  unfold complement
  split
  · trivial
  · exact nofun

theorem yields_orderLists (op : BinOp) : ∀ xs ys : List Value,
    Yields false Anything (order.orderLists op xs ys)
  | [], [] => trivial
  | [], _ :: _ => trivial
  | _ :: _, [] => trivial
  | x :: xs, y :: ys => by
    refine Yields.ite (yields_orderLists op xs ys) ?_
    split
    · trivial
    · split
      · trivial
      · exact nofun

theorem yields_order (op : BinOp) (v w : Value) : Yields false Anything (v.order op w) := by
  unfold order
  split
  · trivial
  · exact yields_orderLists op _ _
  · split
    · trivial
    · exact nofun

/-! ### Mathematical functions -/

theorem yields_realFunction (f : Float → Float) (grows : Bool) :
    Yields false (Good R) (realFunction f grows v) := by
  refine (yields_toFloat v).bind fun x _ => ?_
  extract_lets y
  refine Yields.ite nofun (Yields.ite ?_ trivial)
  cases grows <;> exact nofun

theorem yields_roundedBy (round : Float → Option Int) :
    Yields false (Good R) (roundedBy round v) := by
  unfold roundedBy
  split
  · trivial
  · split
    · trivial
    · split <;> exact nofun
  · exact nofun

theorem yields_absolute : Yields false (Good R) (absolute v) := by
  unfold absolute
  split
  · trivial
  · trivial
  · exact nofun

def mathFunctions : List String := ["sqrt", "sin", "cos", "asin", "ceil", "floor", "pow", "atan2"]

variable {name : String}

theorem yields_mathOfOne (h : name ∈ mathFunctions) : Yields false (Good R) (mathOfOne name v) := by
  simp only [mathFunctions, List.mem_cons, List.not_mem_nil, or_false] at h
  rcases h with rfl | rfl | rfl | rfl | rfl | rfl | rfl | rfl
  iterate 4 · exact yields_realFunction _ _
  · exact yields_roundedBy _
  · exact yields_roundedBy _
  · exact nofun
  · exact nofun

theorem yields_mathOfTwo (h : name ∈ mathFunctions) :
    Yields false (Good R) (mathOfTwo name v w) := by
  simp only [mathFunctions, List.mem_cons, List.not_mem_nil, or_false] at h
  rcases h with rfl | rfl | rfl | rfl | rfl | rfl | rfl | rfl
  case inr.inr.inr.inr.inr.inr.inl =>
    exact (yields_toFloat v).bind fun x _ => (yields_toFloat w).bind fun y _ =>
      (yields_calculated (calculates_powFloat x y)).bind fun _ _ => trivial
  case inr.inr.inr.inr.inr.inr.inr =>
    exact (yields_toFloat v).bind fun _ _ => (yields_toFloat w).bind fun _ _ => trivial
  all_goals exact nofun

theorem yields_mathCall (h : name ∈ mathFunctions) (args : List Value) :
    Yields false (Good R) (mathCall name args) := by
  unfold mathCall
  split
  · exact absurd h (by decide)
  · exact absurd h (by decide)
  · split
    · exact yields_mathOfOne h
    · exact yields_mathOfTwo h
    · exact nofun

end Values

/-! ### Texts -/

section Texts

variable {st : Style} {s : Store}

theorem yields_displayIn : ∀ (n : Nat) (v : Value), Yields false Anything (displayIn st s n v)
  | 0, _ => nofun
  | n + 1, v => by
    unfold displayIn
    split
    · trivial
    · split
      · exact (yields_mapM fun u _ => yields_displayIn n u).bind fun _ _ => trivial
      · trivial
    · split
      · exact (yields_displayIn n _).bind fun _ _ => (yields_displayIn n _).bind fun _ _ => trivial
      · trivial
    · exact Yields.ite trivial nofun
    all_goals trivial

theorem yields_display (v : Value) : Yields false Anything (display st s v) :=
  yields_displayIn 100 v

theorem yields_layoutText (l : Layout) (t : String) : Yields false Anything (l.text t) :=
  Yields.ite nofun trivial

theorem yields_layoutFloat (l : Layout) (x : Float) : Yields false Anything (l.float x) := by
  unfold Layout.float
  extract_lets negative
  split
  · exact Yields.ite nofun trivial
  · trivial
  · trivial
  · trivial
  · exact nofun

theorem yields_layoutInt (l : Layout) (n : Int) : Yields false Anything (l.int n) := by
  have hfloat : Yields false Anything (do l.float (← calculated (Number.int n).toFloat)) :=
    (yields_calculated (calculates_toFloat _ _)).bind fun x _ => yields_layoutFloat l x
  unfold Layout.int
  split
  · exact hfloat
  · exact hfloat
  · exact hfloat
  · exact Yields.ite trivial nofun
  · refine Yields.ite nofun ?_
    split
    · trivial
    · exact nofun

theorem yields_layoutValue (bare : Bool) (l : Layout) (v : Value) :
    Yields false Anything (l.value st s bare v) := by
  refine Yields.ite (yields_display v) ?_
  split
  · exact yields_layoutText l _
  · exact yields_layoutFloat l _
  · split
    · exact yields_layoutInt l _
    · exact nofun

theorem yields_readLayout (cs : List Char) : Yields false Anything (readLayout cs) := by
  unfold readLayout
  extract_lets aligns
  -- the seven parts are read one after the other; only what stands behind them can be wrong
  iterate 7 split
  extract_lets layout
  refine Yields.ite nofun ?_
  split
  · trivial
  · trivial
  · exact nofun

theorem yields_splitField (cs : List Char) : Yields false Anything (splitField cs) := by
  unfold splitField
  extract_lets head
  split
  · trivial
  · trivial
  · trivial
  · trivial
  · exact nofun

theorem yields_templateParts (acc : Option (List Char)) (cs : List Char) :
    Yields false Anything (templateParts acc cs) := by
  fun_induction templateParts acc cs with
  | case1 => trivial
  | case2 => exact nofun
  | case3 acc c r _ ih => exact (yields_splitField _).bind fun _ _ => ih.bind fun _ _ => trivial
  | case4 => exact nofun
  | case5 _ _ _ _ _ ih => exact ih
  | case6 r ih => exact ih.bind fun _ _ => trivial
  | case7 r ih => exact ih.bind fun _ _ => trivial
  | case8 r _ ih => exact ih
  | case9 => exact nofun
  | case10 c r _ _ _ _ ih => exact ih.bind fun _ _ => trivial

theorem yields_fieldArgument (args : List Value) (name : List Char) (n : Numbering) :
    Yields false Anything (fieldArgument args name n) := by
  unfold fieldArgument
  extract_lets at_
  have hat (i : Nat) : Yields false Anything (at_ i) := by
    unfold at_
    split
    · trivial
    · exact nofun
  refine Yields.ite ?_ (Yields.ite ?_ nofun)
  · split
    · exact nofun
    · exact (hat _).bind fun _ _ => trivial
    · exact (hat _).bind fun _ _ => trivial
  · split
    · exact nofun
    · exact (hat _).bind fun _ _ => trivial

theorem yields_fillParts (args : List Value) : ∀ (n : Numbering) (parts : List Part),
    Yields false Anything (fillParts st s args n parts)
  | _, [] => trivial
  | n, .text c :: r => (yields_fillParts args n r).bind fun _ _ => trivial
  | n, .field name conversion layout :: r => by
    refine (yields_fieldArgument args name n).bind fun ⟨v, n'⟩ _ => ?_
    dsimp only
    have hrest (u : Value) : Yields false Anything (do
        let l ← readLayout layout
        return (← l.value st s layout.isEmpty u) ++ (← fillParts st s args n' r)) :=
      (yields_readLayout layout).bind fun l _ => (yields_layoutValue _ l u).bind fun _ _ =>
        (yields_fillParts args n' r).bind fun _ _ => trivial
    split
    · exact hrest v
    · exact (yields_display _).bind fun t _ => hrest (.str t)
    · exact hrest _
    · exact nofun

theorem yields_fillTemplate (template : String) (args : List Value) :
    Yields false Anything (fillTemplate st s template args) :=
  (yields_templateParts _ _).bind fun parts _ => yields_fillParts args _ parts

theorem yields_percent {R : Reach} (template : String) (v : Value) :
    Yields true (Good R) (percent st s template v) :=
  (yields_anything _).bind fun _ _ => Yields.ite trivial nofun

end Texts

end WikiFeed.Lua

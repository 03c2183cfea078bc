import Mathlib.Order.Lattice
import WikiFeed.Proofs.Decimal.Zero
import WikiFeed.Proofs.Outcome
import WikiFeed.Sprite.Geometry

/-! # Work that stops for calculations alone

Work on data `Completes` if it gives a value as promised or stops because a calculation leaves the
range of its numbers, and never because something is not there, of the wrong kind, or divided by
zero. Rows of steps and loops complete if their steps do, and calculations with numbers complete. -/

namespace WikiFeed.Sprite

open List
open Outcome (ok_bind)

/-- The fault of a calculation with numbers out of range: beyond all doubles, or outside of what a
function takes. -/
def Fault.OfCalculation (e : Fault) : Prop := e = .overflow ∨ e = .value

/-- Work whose value is as `P` says and which stops for calculations alone. -/
def Completes {α : Type} (P : α → Prop) : Result α → Prop
  | .ok a => P a
  | .error e => e.OfCalculation

section Rules

variable {α β σ : Type} {P : α → Prop} {Q : β → Prop}

theorem completes_ok {a : α} (h : P a) : Completes P (.ok a) := h

theorem completes_value : Completes P (.error .value) := .inr rfl

variable {x : Result α} {f : α → Result β}

theorem Completes.bind (hx : Completes P x) (hf : ∀ a, P a → Completes Q (f a)) :
    Completes Q (x >>= f) := by
  cases x with
  | ok a => exact hf a hx
  | error e => exact hx

variable {P' : α → Prop}

theorem Completes.mono (hx : Completes P x) (h : ∀ a, P a → P' a) : Completes P' x := by
  cases x with
  | ok a => exact h a hx
  | error e => exact hx

theorem Completes.and (hx : Completes P x) (hx' : Completes P' x) :
    Completes (fun a => P a ∧ P' a) x := by
  cases x with
  | ok a => exact ⟨hx, hx'⟩
  | error e => exact hx

theorem Completes.eq_ok (hx : Completes P x) : Completes (fun a => x = .ok a) x := by
  cases x with
  | ok a => rfl
  | error e => exact hx

theorem completes_mapM {R : α → β → Prop} : ∀ {as : List α},
    (∀ a ∈ as, Completes (R a) (f a)) → Completes (Forall₂ R as) (as.mapM f)
  | [], _ => .nil
  | a :: as, h => by
    rw [mapM_cons]
    refine (h a mem_cons_self).bind fun b hb => ?_
    exact (completes_mapM fun c hc => h c (mem_cons_of_mem _ hc)).bind fun bs hbs =>
      completes_ok (.cons hb hbs)

theorem completes_mapM_all : ∀ {as : List α}, (∀ a ∈ as, Completes Q (f a)) →
    Completes (fun bs => ∀ b ∈ bs, Q b) (as.mapM f)
  | [], _ => fun _ hb => absurd hb not_mem_nil
  | a :: as, h => by
    rw [mapM_cons]
    refine (h a mem_cons_self).bind fun b hb => ?_
    exact (completes_mapM_all fun c hc => h c (mem_cons_of_mem _ hc)).bind fun bs hbs =>
      completes_ok (forall_mem_cons.mpr ⟨hb, hbs⟩)

variable {step : σ → α → Result σ} {I : σ → Prop}

theorem completes_foldlM : ∀ {as : List α} {s : σ},
    (∀ a ∈ as, ∀ s, I s → Completes I (step s a)) → I s → Completes I (as.foldlM step s)
  | [], _, _, hs => hs
  | a :: as, s, h, hs => by
    rw [foldlM_cons]
    refine (h a mem_cons_self s hs).bind fun s' hs' => ?_
    exact completes_foldlM (fun b hb => h b (mem_cons_of_mem _ hb)) hs'

/-- A loop that keeps an invariant and only adds to its state leaves what each of its rounds
left. -/
theorem completes_gathering {Sub : σ → σ → Prop} (hrefl : ∀ s, Sub s s)
    (htrans : ∀ {s t u}, Sub s t → Sub t u → Sub s u) {C : α → σ → Prop}
    (hmono : ∀ a {s t}, Sub s t → C a s → C a t) :
    ∀ {as : List α} {s : σ},
      (∀ a ∈ as, ∀ s, I s → Completes (fun t => I t ∧ Sub s t ∧ C a t) (step s a)) → I s →
      Completes (fun t => I t ∧ Sub s t ∧ ∀ a ∈ as, C a t) (as.foldlM step s)
  | [], s, _, hs => ⟨hs, hrefl s, fun _ ha => absurd ha not_mem_nil⟩
  | a :: as, s, h, hs => by
    rw [foldlM_cons]
    refine (h a mem_cons_self s hs).bind fun t ⟨ht, hst, hat⟩ => ?_
    have hrest : ∀ b ∈ as, ∀ s, I s → Completes (fun t => I t ∧ Sub s t ∧ C b t) (step s b) :=
      fun b hb => h b (mem_cons_of_mem _ hb)
    refine (completes_gathering hrefl htrans hmono hrest ht).mono fun u ⟨hu, htu, hall⟩ => ?_
    exact ⟨hu, htrans hst htu, forall_mem_cons.mpr ⟨hmono a htu hat, hall⟩⟩

end Rules

/-! ### Numbers -/

def IsNumber (d : Datum) : Prop := ∃ n, numberOf? d = some n

theorem isNumber_int (n : Int) : IsNumber (.int n) := ⟨.int n, rfl⟩

theorem isNumber_float (x : Float) : IsNumber (.float x) := ⟨.float x, rfl⟩

theorem isNumber_ofNumber (n : Number) : IsNumber (ofNumber n) := by
  cases n with
  | int n => exact isNumber_int n
  | float x => exact isNumber_float x

theorem IsNumber.numberOf {d : Datum} (h : IsNumber d) : ∃ n, numberOf d = .ok n := by
  obtain ⟨n, hn⟩ := h
  exact ⟨n, by rw [Sprite.numberOf, hn]⟩

def Undivided {α : Type} (r : Number.Outcome α) : Prop := r ≠ .error .zeroDivision

variable {α : Type} {r : Number.Outcome α}

theorem completes_calculated (h : Undivided r) : Completes (fun a => r = .ok a) (calculated r) := by
  cases r with
  | ok a => exact rfl
  | error e =>
    cases e with
    | zeroDivision => exact absurd rfl h
    | overflow => exact .inl rfl
    | domain => exact .inr rfl

theorem undivided_ok (a : α) : Undivided (.ok a) := fun h => by cases h

theorem Undivided.bind {β : Type} {f : α → Number.Outcome β}
    (hr : Undivided r) (hf : ∀ a, r = .ok a → Undivided (f a)) : Undivided (r >>= f) := by
  cases r with
  | ok a => exact hf a rfl
  | error e => exact fun h => hr (congrArg Except.error (Except.error.inj h))

theorem undivided_toFloat (n : Number) : Undivided n.toFloat := by
  cases n with
  | int n => cases hx : Decimal.ofInt? n <;> simp [Undivided, Number.toFloat, hx]
  | float x => exact undivided_ok x

theorem undivided_both {whole : Int → Int → Number.Outcome α}
    {double : Float → Float → Number.Outcome α} (hwhole : ∀ m n, Undivided (whole m n))
    (hdouble : ∀ x y, Undivided (double x y)) (m n : Number) :
    Undivided (Number.both whole double m n) := by
  unfold Number.both
  split
  · exact hwhole _ _
  · exact (undivided_toFloat _).bind fun _ _ => (undivided_toFloat _).bind fun _ _ => hdouble _ _

theorem undivided_add (m n : Number) : Undivided (m.add n) :=
  undivided_both (fun _ _ => undivided_ok _) (fun _ _ => undivided_ok _) m n

theorem undivided_sub (m n : Number) : Undivided (m.sub n) :=
  undivided_both (fun _ _ => undivided_ok _) (fun _ _ => undivided_ok _) m n

theorem undivided_mul (m n : Number) : Undivided (m.mul n) :=
  undivided_both (fun _ _ => undivided_ok _) (fun _ _ => undivided_ok _) m n

theorem undivided_truncate (n : Number) : Undivided n.truncate := by
  unfold Number.truncate
  split
  · exact undivided_ok _
  · split
    · exact undivided_ok _
    · split_ifs <;> simp [Undivided]

theorem undivided_powFloat (x y : Float) : Undivided (Number.powFloat x y) := by
  unfold Number.powFloat
  simp only
  split_ifs <;> simp [Undivided]

theorem undivided_doubles {x y : Float} (hy : (y == 0.0) = false) :
    Undivided (if y == 0.0 then .error .zeroDivision else .ok (x / y) : Number.Outcome Float) := by
  rw [hy]
  exact undivided_ok _

theorem undivided_div_float (m : Number) {y : Float} (hy : (y == 0.0) = false) :
    Undivided (m.div (.float y)) := by
  have hquotient : Undivided (m.quotient (.float y)) := by
    cases m with
    | int n => exact (undivided_toFloat (.int n)).bind fun _ _ => undivided_doubles hy
    | float x => exact undivided_doubles hy
  exact hquotient.bind fun _ _ => undivided_ok _

theorem undivided_div_int (m : Number) {n : Int} (hn : n ≠ 0) : Undivided (m.div (.int n)) := by
  have hquotient : Undivided (m.quotient (.int n)) := by
    cases m with
    | int k =>
      unfold Number.quotient Number.both
      simp only [if_neg hn]
      split_ifs <;> simp [Undivided]
    | float x =>
      refine (undivided_toFloat (.int n)).bind fun y hy => undivided_doubles ?_
      cases hx : Decimal.ofInt? n with
      | none => simp [Number.toFloat, hx] at hy
      | some x =>
        obtain rfl : x = y := by simpa [Number.toFloat, hx] using hy
        exact Decimal.beq_zero_of_ofInt? hn hx
  exact hquotient.bind fun _ _ => undivided_ok _

variable {a b : Datum}

theorem IsNumber.completes {P : α → Prop} {f : Number → Result α} (h : IsNumber a)
    (hf : ∀ n, Completes P (f n)) : Completes P (Sprite.numberOf a >>= f) := by
  obtain ⟨n, hn⟩ := h.numberOf
  rw [hn, ok_bind]
  exact hf n

theorem completes_onNumbers {op : Number → Number → Number.Outcome Number}
    (hop : ∀ m n, Undivided (op m n)) (ha : IsNumber a) (hb : IsNumber b) :
    Completes IsNumber (onNumbers op a b) :=
  ha.completes fun m => hb.completes fun n => (completes_calculated (hop m n)).bind fun r _ =>
    isNumber_ofNumber r

theorem completes_plus (ha : IsNumber a) (hb : IsNumber b) : Completes IsNumber (plus a b) :=
  completes_onNumbers undivided_add ha hb

theorem completes_minus (ha : IsNumber a) (hb : IsNumber b) : Completes IsNumber (minus a b) :=
  completes_onNumbers undivided_sub ha hb

theorem completes_times (ha : IsNumber a) (hb : IsNumber b) : Completes IsNumber (times a b) :=
  completes_onNumbers undivided_mul ha hb

theorem completes_dividedBy (ha : IsNumber a) {n : Int} (hn : n ≠ 0) :
    Completes IsNumber (dividedBy a (.int n)) :=
  ha.completes fun m => (completes_calculated (undivided_div_int m hn)).bind fun r _ =>
    isNumber_ofNumber r

theorem completes_negative (ha : IsNumber a) : Completes IsNumber (negative a) :=
  ha.completes fun n => isNumber_ofNumber n.neg

theorem completes_ofAngle (f : Float → Float) (ha : IsNumber a) :
    Completes IsNumber (ofAngle f a) :=
  ha.completes fun _ => (completes_calculated (undivided_toFloat _)).bind fun x _ => by
    split
    · exact completes_value
    · exact isNumber_float (f x)

/-! ### The least and the greatest -/

theorem below_eq {m n : Number} (ha : numberOf? a = some m) (hb : numberOf? b = some n) :
    below a b = .ok (m.less n) := by
  unfold below
  split
  iterate 3 · exact absurd ha (by simp [numberOf?])
  · simp only [Sprite.numberOf, ha, hb, ok_bind]
    rfl

theorem exists_chosen (better : Datum → Datum → Result Bool)
    (hbetter : ∀ a b, IsNumber a → IsNumber b → ∃ r, better a b = .ok r) :
    ∀ {ds : List Datum} {d : Datum}, (∀ e ∈ d :: ds, IsNumber e) →
      ∃ e ∈ d :: ds, ds.foldlM (fun m y => do return if ← better m y then y else m) d = .ok e
  | [], d, _ => ⟨d, mem_cons_self, rfl⟩
  | c :: ds, d, h => by
    simp only [forall_mem_cons] at h
    obtain ⟨hd, hc, hds⟩ := h
    obtain ⟨r, hr⟩ := hbetter d c hd hc
    have hchosen : IsNumber (if r then c else d) := by
      split_ifs
      · exact hc
      · exact hd
    obtain ⟨e, he, heq⟩ := exists_chosen better hbetter (forall_mem_cons.mpr ⟨hchosen, hds⟩)
    refine ⟨e, ?_, ?_⟩
    · rcases mem_cons.mp he with rfl | he
      · split_ifs <;> simp
      · simp [he]
    · rw [foldlM_cons, hr]
      exact heq

theorem exists_below_eq (ha : IsNumber a) (hb : IsNumber b) : ∃ r, below a b = .ok r := by
  obtain ⟨m, hm⟩ := ha
  obtain ⟨n, hn⟩ := hb
  exact ⟨_, below_eq hm hn⟩

theorem completes_greatest {ds : List Datum} (hne : ds ≠ []) (h : ∀ d ∈ ds, IsNumber d) :
    Completes IsNumber (greatest ds) := by
  obtain ⟨d, ds, rfl⟩ := exists_cons_of_ne_nil hne
  obtain ⟨e, he, heq⟩ := exists_chosen below (fun _ _ => exists_below_eq) h
  rw [greatest, heq]
  exact h e he

theorem completes_least {ds : List Datum} (hne : ds ≠ []) (h : ∀ d ∈ ds, IsNumber d) :
    Completes IsNumber (least ds) := by
  obtain ⟨d, ds, rfl⟩ := exists_cons_of_ne_nil hne
  obtain ⟨e, he, heq⟩ :=
    exists_chosen (fun m y => below y m) (fun _ _ ha hb => exists_below_eq hb ha) h
  rw [least, heq]
  exact h e he

theorem greatest_atLeastOne {n : Number} (hn : numberOf? a = some n) :
    greatest [a, .int 1] = .ok (if n.less (.int 1) then .int 1 else a) := by
  rw [greatest, foldlM_cons, below_eq hn rfl]
  rfl

theorem completes_atLeastOne (ha : IsNumber a) :
    Completes (fun d => ∃ n, numberOf d = .ok n ∧ n.less (.int 1) = false)
      (greatest [a, .int 1]) := by
  obtain ⟨n, hn⟩ := ha
  rw [greatest_atLeastOne hn]
  cases hless : n.less (.int 1) with
  | true => exact ⟨.int 1, rfl, by decide⟩
  | false => exact ⟨n, by simp [numberOf, hn], hless⟩

theorem less_int (m n : Int) : (Number.int m).less (.int n) = decide (m < n) := by
  simp only [Number.less, Number.compare?]
  rcases lt_trichotomy m n with h | rfl | h
  · simp [h, compare_lt_iff_lt.mpr h]
  · simp
  · simp [not_lt.mpr h.le, compare_gt_iff_gt.mpr h]

theorem foldlM_greatest_int : ∀ (ns : List Int) (n : Int),
    (ns.map Datum.int).foldlM (fun m y => do return if ← below m y then y else m) (.int n) =
      .ok (.int (ns.foldl max n))
  | [], _ => rfl
  | k :: ns, n => by
    rw [map_cons, foldlM_cons, below_eq rfl rfl, less_int, foldl_cons,
      ← foldlM_greatest_int ns (max n k)]
    rcases lt_or_ge n k with h | h
    · rw [max_eq_right h.le, decide_eq_true h]
      rfl
    · rw [max_eq_left h, decide_eq_false (not_lt.mpr h)]
      rfl

theorem exists_greatest_int {ns : List Int} (hne : ns ≠ []) :
    ∃ m ∈ ns, greatest (ns.map .int) = .ok (.int m) ∧ ∀ n ∈ ns, n ≤ m := by
  obtain ⟨n, ns, rfl⟩ := exists_cons_of_ne_nil hne
  have hmax : (n :: ns).max? = some (ns.foldl max n) := max?_cons'
  obtain ⟨hmem, hle⟩ := max?_eq_some_iff.mp hmax
  exact ⟨ns.foldl max n, hmem, foldlM_greatest_int ns n, hle⟩

end WikiFeed.Sprite

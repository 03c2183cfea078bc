import WikiFeed.Proofs.Decimal.Finite
import WikiFeed.Proofs.Sprite.Cuts

/-! # What goes through leaves exact records

Writing that goes through adds bytes to a draft and keeps the codes that it knows (`Draft.Grows`).
The bytes of each field are read exactly (`Lays`), and so are the bytes of fields one behind the
other (`Lays.seq`), those of a row of records, by a row of as many reads (`lays_forM`), and those of
the table of names at the end, by as many as it has lines (`lays_nameTable`). Nothing is asked of
the data: they are what they have to be, or else writing would have stopped. -/

namespace WikiFeed.Sprite

open List Writing
open Decimal (Single)
open Outcome (bind_eq_ok exists_of_bind_eq_ok forall₂_of_mapM_eq_ok)

def Draft.codes (d : Draft) : List UInt32 := d.names.map (·.1)

/-- A draft with bytes behind it, that knows no less, and has as many animations. -/
structure Draft.Grows (d d' : Draft) (bs : Bytes) : Prop where
  bytes : d'.bytes = d.bytes ++ bs
  codes : d.codes ⊆ d'.codes
  animations : d'.tally.animations = d.tally.animations

theorem Draft.Grows.refl (d : Draft) : d.Grows d [] :=
  ⟨(append_nil _).symm, List.Subset.refl _, rfl⟩

theorem Draft.Grows.trans {d d' d'' : Draft} {as bs : Bytes} (h : d.Grows d' as)
    (h' : d'.Grows d'' bs) : d.Grows d'' (as ++ bs) where
  bytes := by rw [h'.bytes, h.bytes, append_assoc]
  codes := List.Subset.trans h.codes h'.codes
  animations := h'.animations.trans h.animations

/-! ### Steps that go through -/

variable {v : Datum} {xs : List Float}

section Steps

variable {α β : Type} {d d' : Draft}

theorem lift_bind_eq_ok {r : Result α} {f : α → Writing β} {b : β} :
    (lift r >>= f) d = .ok b d' ↔ ∃ a, r = .ok a ∧ f a d = .ok b d' := by
  cases r with
  | ok a =>
    rw [lift_ok_bind]
    exact ⟨fun h => ⟨a, rfl, h⟩, fun ⟨a', ha, h⟩ => by cases ha; exact h⟩
  | error e =>
    constructor
    · intro h
      cases h
    · rintro ⟨a, ha, -⟩
      cases ha

theorem seq_eq_ok {w : Writing Unit} {f : Unit → Writing β} {b : β} :
    (w >>= f) d = .ok b d' ↔ ∃ d₁, w d = .ok () d₁ ∧ f () d₁ = .ok b d' :=
  bind_eq_ok.trans ⟨fun ⟨_, d₁, h⟩ => ⟨d₁, h⟩, fun ⟨d₁, h⟩ => ⟨(), d₁, h⟩⟩

theorem grows_put {bs : Bytes} (h : put bs d = .ok () d') : d.Grows d' bs := by
  cases h
  refine ⟨?_, List.Subset.refl _, rfl⟩
  change (bs :: d.pieces).reverse.flatten = d.pieces.reverse.flatten ++ bs
  simp

theorem grows_word {n : UInt32} (h : word n d = .ok () d') :
    d.Grows d' (wordBytes n) := grows_put h

theorem grows_count {n : Nat} (h : count n d = .ok () d') :
    n < 2 ^ 32 ∧ d.Grows d' (wordBytes n.toUInt32) := by
  unfold Writing.count at h
  split_ifs at h with hn
  · exact ⟨hn, grows_word h⟩
  · cases h

theorem grows_singles (h : singles xs d = .ok () d') :
    ∃ ss, xs.mapM narrowed = .ok ss ∧ d.Grows d' (ss.flatMap wordBytes) := by
  obtain ⟨ss, hss, hput⟩ := lift_bind_eq_ok.mp h
  exact ⟨ss, hss, grows_put hput⟩

theorem grows_text {s : String} (h : text s d = .ok () d') :
    IsAscii s ∧ s.length < 2 ^ 31 ∧ d.Grows d' (textBytes s) := by
  obtain ⟨bs, hbs, hput⟩ := lift_bind_eq_ok.mp h
  unfold asciiBytes at hbs
  split_ifs at hbs with hascii
  cases hbs
  have hs : IsAscii s := fun c hc => of_decide_eq_true (all_eq_true.mp hascii c hc)
  split_ifs at hput with hlen
  · refine ⟨hs, ?_, grows_put hput⟩
    rw [← length_asciiOf]
    exact hlen
  · cases hput

theorem codes_put (t : NameTable) (code : UInt32) (s : String) :
    t.map (·.1) ⊆ (t.put code s).map (·.1) ∧ code ∈ (t.put code s).map (·.1) := by
  refine ⟨fun other hother => isSome_name?.mp ?_, isSome_name?.mp ?_⟩
  · rw [name?_put]
    split_ifs
    · rfl
    · exact isSome_name?.mpr hother
  · rw [name?_put, if_pos rfl]
    rfl

theorem grows_code {n : UInt32} (h : code v d = .ok n d') : d.Grows d' [] ∧ n ∈ d'.codes := by
  obtain ⟨d₁, d₂, hget, h⟩ := bind_eq_ok.mp h
  cases hget
  obtain ⟨s, -, h⟩ := lift_bind_eq_ok.mp h
  obtain ⟨⟨n', names⟩, hrecord, h⟩ := lift_bind_eq_ok.mp h
  obtain ⟨code, -, hcode⟩ := exists_of_bind_eq_ok hrecord
  cases hcode
  cases h
  obtain ⟨hsubset, hmem⟩ := codes_put d.names n s
  exact ⟨⟨(append_nil _).symm, hsubset, rfl⟩, hmem⟩

end Steps

/-! ### Items and numbers of the data -/

theorem exists_items_of_size {d : Datum} {n : Nat} (h : sizeOfItems d = .ok n) :
    ∃ items, itemsOf d = .ok items ∧ n = items.length := by
  obtain ⟨items, hitems, hn⟩ := exists_of_bind_eq_ok h
  cases hn
  exact ⟨items, hitems, rfl⟩

theorem length_of_doublesOf {c : Datum} {names : List String} (h : doublesOf c names = .ok xs) :
    xs.length = names.length :=
  (forall₂_of_mapM_eq_ok h).length_eq.symm

theorem length_of_narrowed {ss : List Single} (h : xs.mapM narrowed = .ok ss) :
    ss.length = xs.length :=
  (forall₂_of_mapM_eq_ok h).length_eq.symm

def FiniteDouble (v : Datum) : Prop := ∀ x, doubleOf v = .ok x → Decimal.IsFinite x

theorem finiteDouble_int (n : Int) : FiniteDouble (.int n) := by
  intro x hx
  change calculated (Number.toFloat (.int n)) = .ok x at hx
  unfold Number.toFloat at hx
  cases hn : Decimal.ofInt? n with
  | none =>
    simp only [hn] at hx
    cases hx
  | some y =>
    simp only [hn] at hx
    cases hx
    exact Decimal.isFinite_of_ofInt? hn

variable {s : Single}

theorem ofFloat?_of_narrowed {x : Float} (h : narrowed x = .ok s) : Single.ofFloat? x = some s := by
  unfold narrowed at h
  cases hs : Single.ofFloat? x with
  | none =>
    rw [hs] at h
    cases h
  | some s' =>
    rw [hs] at h
    cases h
    rfl

theorem exact_whole {x : Float} (hx : Decimal.IsFinite x) (h : narrowed x = .ok s) :
    ∃ n, Exact (Reading.whole s.toFloat) [] n := by
  obtain ⟨n, hn⟩ :=
    Single.exists_truncate? (Single.isFinite_of_ofFloat? hx (ofFloat?_of_narrowed h))
  refine ⟨n, fun rest => ?_, fun hp hne => absurd (prefix_nil.mp hp) hne⟩
  simp only [Reading.whole, Number.truncate, hn]
  rfl

theorem doubleOf_of_numberOf? {n : Number} (h : numberOf? v = some n) :
    doubleOf v = calculated n.toFloat := by
  cases v with
  | bool b => cases h; rfl
  | int m => cases h; rfl
  | float x => cases h; rfl
  | null | str _ | list _ | tuple _ | dict _ | other _ => cases h

theorem exists_double_of_singleOf (h : singleOf v = .ok s) :
    ∃ x, doubleOf v = .ok x ∧ narrowed x = .ok s := by
  unfold singleOf at h
  cases hn : numberOf? v with
  | none =>
    rw [hn] at h
    cases h
  | some n =>
    rw [hn, Option.map_some] at h
    cases hx : n.toFloat with
    | error e =>
      rw [hx] at h
      cases h
    | ok x =>
      rw [hx] at h
      exact ⟨x, by rw [doubleOf_of_numberOf? hn, hx]; rfl, h⟩

/-! ### Records -/

/-- What is written can be read exactly, and what is read agrees with the codes that are known. -/
def Lays {α : Type} (w : Writing Unit) (r : Reading α) (known : List UInt32 → α → Prop) : Prop :=
  ∀ ⦃d d' : Draft⦄, w d = .ok () d' → ∃ bs v, d.Grows d' bs ∧ Exact r bs v ∧ known d'.codes v

section Rules

variable {α β : Type} {w : Writing Unit} {r : Reading α} {known : List UInt32 → α → Prop}
  {known' : List UInt32 → β → Prop}

theorem lays_pure {a : α} (h : ∀ cs, known cs a) : Lays (pure ()) (pure a) known := by
  intro d d' hd
  cases hd
  exact ⟨[], a, .refl d, exact_pure a, h _⟩

theorem Lays.imp {known' : List UInt32 → α → Prop} (h : Lays w r known)
    (hknown : ∀ cs a, known cs a → known' cs a) : Lays w r known' := by
  intro d d' hd
  obtain ⟨bs, a, hgrows, hexact, ha⟩ := h hd
  exact ⟨bs, a, hgrows, hexact, hknown _ a ha⟩

theorem Lays.map (h : Lays w r known) {f : α → β} (hf : ∀ cs a, known cs a → known' cs (f a)) :
    Lays w (do return f (← r)) known' := by
  intro d d' hd
  obtain ⟨bs, a, hgrows, hexact, ha⟩ := h hd
  exact ⟨bs, f a, hgrows, hexact.map f, hf _ a ha⟩

/-- A field, and what is written behind it. What agrees with the codes that are known behind the
field has to agree with those at the end. -/
theorem Lays.seq {f : Unit → Writing Unit} {g : α → Reading β} (h : Lays w r known)
    (hf : ∀ cs a, known cs a → Lays (f ()) (g a) fun cs' b => cs ⊆ cs' → known' cs' b) :
    Lays (w >>= f) (r >>= g) known' := by
  intro d d' hd
  obtain ⟨d₁, hw, hrest⟩ := seq_eq_ok.mp hd
  obtain ⟨bs, a, hgrows, hexact, ha⟩ := h hw
  obtain ⟨bs', b, hgrows', hexact', hb⟩ := hf _ a ha hrest
  exact ⟨bs ++ bs', b, hgrows.trans hgrows', hexact.bind hexact', hb hgrows'.codes⟩

/-- Nothing is read in front of what is written. -/
theorem Lays.skip {g : α → Reading β} {a : α} (hr : Exact r [] a) (h : Lays w (g a) known') :
    Lays w (r >>= g) known' := by
  intro d d' hd
  obtain ⟨bs, b, hgrows, hexact, hb⟩ := h hd
  exact ⟨bs, b, hgrows, hr.bind hexact, hb⟩

theorem lays_lift {x : Result β} {f : β → Writing Unit}
    (h : ∀ b, x = .ok b → Lays (f b) r known) : Lays (lift x >>= f) r known := by
  intro d d' hd
  obtain ⟨b, hb, hrest⟩ := lift_bind_eq_ok.mp hd
  exact h b hb hrest

theorem lays_get {f : Draft → Writing Unit} (h : ∀ d, Lays (f d) r known) :
    Lays (get >>= f) r known :=
  fun d _ hd => h d hd

theorem Lays.tally {step : Tally → Tally} (h : Lays w r known)
    (hstep : ∀ t, (step t).animations = t.animations) : Lays (do tally step; w) r known := by
  intro d d' hd
  obtain ⟨d₁, htally, hrest⟩ := seq_eq_ok.mp hd
  cases htally
  obtain ⟨bs, a, hgrows, hexact, ha⟩ := h hrest
  exact ⟨bs, a, ⟨hgrows.bytes, hgrows.codes, hgrows.animations.trans (hstep _)⟩, hexact, ha⟩

end Rules

/-! ### Fields -/

theorem lays_word (n : UInt32) : Lays (word n) Reading.word fun _ m => m = n :=
  fun _ _ h => ⟨_, n, grows_word h, exact_word n, rfl⟩

theorem lays_byte (b : UInt8) : Lays (put [b]) Reading.byte fun _ b' => b' = b :=
  fun _ _ h => ⟨_, b, grows_put h, exact_byte b, rfl⟩

theorem lays_count (n : Nat) : Lays (count n) Reading.word fun _ m => m.toNat = n := by
  intro d d' h
  obtain ⟨hn, hgrows⟩ := grows_count h
  exact ⟨_, _, hgrows, exact_word _, toNat_toUInt32 hn⟩

theorem lays_whole (v : Datum) : Lays (whole v) Reading.word fun _ _ => True := by
  intro d d' h
  unfold whole at h
  split at h
  · split_ifs at h
    · exact ⟨_, _, grows_word h, exact_word _, trivial⟩
    · cases h
  · exact ⟨_, _, grows_word h, exact_word _, trivial⟩
  · cases h

theorem lays_name (v : Datum) : Lays (name v) Reading.word fun cs n => n ∈ cs := by
  intro d d' h
  obtain ⟨n, d₁, hcode, hword⟩ := bind_eq_ok.mp h
  obtain ⟨hgrows, hn⟩ := grows_code hcode
  exact ⟨_, n, hgrows.trans (grows_word hword), exact_word n, (grows_word hword).codes hn⟩

theorem lays_text {s : String} {r : Reading String}
    (hr : IsAscii s → s.length < 2 ^ 31 → Exact r (textBytes s) s) :
    Lays (text s) r fun _ s' => s' = s := by
  intro d d' h
  obtain ⟨hascii, hlen, hgrows⟩ := grows_text h
  exact ⟨_, s, hgrows, hr hascii hlen, rfl⟩

theorem lays_single (x : Float) :
    Lays (singles [x]) Reading.single fun _ y => ∃ s, narrowed x = .ok s ∧ y = s.toFloat := by
  intro d d' h
  obtain ⟨ss, hss, hgrows⟩ := grows_singles h
  rw [mapM_cons] at hss
  obtain ⟨s, hs, hss⟩ := exists_of_bind_eq_ok hss
  cases hss
  exact ⟨_, _, hgrows, exact_single s, s, hs, rfl⟩

theorem lays_singles {n : Nat} (hn : xs.length = n) :
    Lays (singles xs) (Reading.singles n) fun _ _ => True := by
  intro d d' h
  obtain ⟨ss, hss, hgrows⟩ := grows_singles h
  rw [← hn, ← length_of_narrowed hss]
  exact ⟨_, _, hgrows, exact_singles ss, trivial⟩

/-! ### Rows -/

section Rows

variable {α β : Type} {f : α → Writing Unit} {record : Reading β} {as : List α}

/-- A row of records is read by as many reads. What agrees with the codes that are known behind a
record has to agree with those behind the row. -/
theorem lays_forM {known : List UInt32 → α → β → Prop}
    (hmono : ∀ ⦃cs cs' a v⦄, cs ⊆ cs' → known cs a v → known cs' a v)
    (h : ∀ a ∈ as, Lays (f a) record fun cs => known cs a) :
    Lays (as.forM f) (strict (Reading.several record as.length))
      fun cs vs => Forall₂ (known cs) as vs := by
  induction as with
  | nil => exact lays_pure fun _ => .nil
  | cons a as ih =>
    rw [length_cons, strict_several_succ]
    exact (h a mem_cons_self).seq fun cs v hv => (ih fun b hb => h b (mem_cons_of_mem a hb)).map
      fun cs' vs hvs hcs => .cons (hmono hcs hv) hvs

theorem forall_mem_of_forall₂ {P : β → Prop} : ∀ {as : List α} {vs : List β},
    Forall₂ (fun _ v => P v) as vs → ∀ v ∈ vs, P v
  | _, _, .nil => fun _ hv => absurd hv not_mem_nil
  | _, _, .cons h hs => forall_mem_cons.mpr ⟨h, forall_mem_of_forall₂ hs⟩

theorem lays_row {known : List UInt32 → β → Prop} (h : ∀ a ∈ as, Lays (f a) record known)
    (hmono : ∀ ⦃cs cs' v⦄, cs ⊆ cs' → known cs v → known cs' v) :
    Lays (as.forM f) (strict (Reading.several record as.length))
      fun cs vs => ∀ v ∈ vs, known cs v :=
  (@lays_forM α β f record as (fun cs _ => known cs) (fun _ _ _ _ hcs hv => hmono hcs hv) h).imp
    fun _ _ hvs => forall_mem_of_forall₂ hvs

theorem lays_counted {known : List UInt32 → α → β → Prop}
    (hmono : ∀ ⦃cs cs' a v⦄, cs ⊆ cs' → known cs a v → known cs' a v)
    (h : ∀ a ∈ as, Lays (f a) record fun cs => known cs a) :
    Lays (do count as.length; as.forM f) (counted record)
      fun cs vs => Forall₂ (known cs) as vs := by
  refine (lays_count _).seq fun _ n hn => ?_
  rw [hn]
  exact (lays_forM hmono h).imp fun _ _ hvs _ => hvs

theorem lays_nameTable {d d' : Draft} (h : nameTable d = .ok () d') : ∃ bs, d.Grows d' bs ∧
    Exact (counted Reading.nameEntry) bs d.names := by
  obtain ⟨d₁, d₂, hget, h⟩ := bind_eq_ok.mp h
  cases hget
  have hentry : ∀ e ∈ d.names, Lays (do word e.1; text e.2) Reading.nameEntry
      fun _ e' => e = e' := fun e _ =>
    (lays_word e.1).seq fun _ n hn => (lays_text exact_text).map fun _ s hs _ => by rw [hn, hs]
  obtain ⟨bs, t, hgrows, hexact, ht⟩ := lays_counted (fun _ _ _ _ _ h => h) hentry h
  rw [forall₂_eq_eq_eq] at ht
  cases ht
  exact ⟨bs, hgrows, hexact⟩

end Rows

end WikiFeed.Sprite

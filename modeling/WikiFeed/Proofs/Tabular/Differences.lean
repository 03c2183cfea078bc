import Mathlib.Logic.Function.Basic
import WikiFeed.Proofs.Overlays
import WikiFeed.Proofs.Sprite.Members
import WikiFeed.Tabular.Sheet

/-! # Differences of tables

Rows are known by their first cells, and of rows with one key the last one counts. Two tables differ
in the rows that only one of them has and in the rows that were changed; a row is changed unless the
new one agrees with the beginning of the old one. A comparison goes on as long as the cells agree,
so it runs out of the old row exactly if that is the beginning of a longer new one. Main statement:
`difference_exact`. -/

namespace WikiFeed.Tabular

open List Function
open Lua (Result)
open Places (Distinct)
open Sprite (Keying keyed lookup_keyed_map put_keyed_map)

/-! ### Mappings -/

abbrev Key := Option String

def Key.datum : Key → Datum
  | none => .null
  | some s => .str s

theorem keying_key : Keying Key.datum :=
  ⟨fun j k => by cases j <;> cases k <;> simp [Key.datum, Datum.same]⟩

theorem Key.isKey_datum (k : Key) : k.datum.isKey := by
  cases k <;> simp [datum, Datum.isKey]

section Holds

variable {α : Type} {g : α → Datum} {es : List (Datum × Datum)} {f : Key → Option α}

def entries (g : α → Datum) (ps : List (Key × α)) : List (Datum × Datum) :=
  keyed Key.datum (ps.map fun p => (p.1, g p.2))

/-- A mapping has one entry for each key that has a value, and no other entries. -/
def Holds (g : α → Datum) (es : List (Datum × Datum)) (f : Key → Option α) : Prop :=
  ∃ ps, es = entries g ps ∧ Distinct ps ∧ ∀ k, ps.lookup k = f k

theorem holds_nil : Holds g [] fun _ => none := ⟨[], rfl, nodup_nil, fun _ => rfl⟩

theorem Holds.lookup (h : Holds g es f) (k : Key) : Datum.lookup es k.datum = (f k).map g := by
  obtain ⟨ps, rfl, -, hf⟩ := h
  rw [entries, lookup_keyed_map keying_key, hf]

variable {f' : Key → Option α} {k : Key}

theorem Holds.congr (h : Holds g es f) (hk : f' k = f k) (hne : ∀ j, j ≠ k → f' j = f j) :
    Holds g es f' := by
  have hf : f' = f := funext fun j => by
    by_cases hj : j = k
    · rw [hj, hk]
    · exact hne j hj
  rwa [hf]

theorem Holds.put {x : α} (h : Holds g es f) (hk : f' k = some x)
    (hne : ∀ j, j ≠ k → f' j = f j) : Holds g (Datum.put es k.datum (g x)) f' := by
  obtain ⟨ps, rfl, hps, hf⟩ := h
  refine ⟨Places.put ps k x, put_keyed_map keying_key g ps k x, hps.put k x, fun j => ?_⟩
  by_cases hj : j = k
  · rw [hj, Places.lookup_put_self, hk]
  · rw [Places.lookup_put_of_ne hj, hf, hne j hj]

theorem Holds.erase (h : Holds g es f) (hk : f' k = none) (hne : ∀ j, j ≠ k → f' j = f j) :
    Holds g (Datum.erase es k.datum) f' := by
  obtain ⟨ps, rfl, hps, hf⟩ := h
  refine ⟨ps.filter fun p => p.1 != k, ?_, (filter_sublist.map _).nodup hps, fun j => ?_⟩
  · rw [Datum.erase, entries, entries, keyed, keyed, map_map, map_map, filter_map]
    congr 1
    exact filter_congr fun p _ => by simp [keying_key.same, bne]
  · by_cases hj : j = k
    · rw [hj, hk]
      exact Places.lookup_eq_none_of_not_mem (by simp)
    · rw [Places.lookup_filter_of_ne hj, hf, hne j hj]

end Holds

/-! ### Rows -/

structure Line where
  key : Key
  rest : List Datum

namespace Line

def cells (r : Line) : List Datum := r.key.datum :: r.rest

def datum (r : Line) : Datum := .list r.cells

end Line

/-- The row of a table that counts for a key. -/
def lastRow (rows : List Line) (k : Key) : Option Line := (rows.filter (·.key == k)).getLast?

theorem byFirst_eq (rows : List Line) (ps : List (Key × Line)) :
    byFirst (entries Line.datum ps) (rows.map Line.datum) =
      .ok (entries Line.datum (rows.foldl (fun ps r => Places.put ps r.key r) ps)) := by
  induction rows generalizing ps with
  | nil => rfl
  | cons r rows ih =>
    rw [map_cons, byFirst, foldl_cons, ← ih, entries, entries,
      ← put_keyed_map keying_key Line.datum]
    change (if r.key.datum.isKey then _ else _) = _
    rw [if_pos r.key.isKey_datum]

theorem exists_byFirst (rows : List Line) :
    ∃ es, byFirst [] (rows.map Line.datum) = .ok es ∧ Holds Line.datum es (lastRow rows) := by
  refine ⟨_, byFirst_eq rows [], _, rfl, ?_, fun k => ?_⟩
  · exact foldlRecOn rows _ nodup_nil fun _ hps r _ => Distinct.put hps r.key r
  · simpa [lastRow] using Places.lookup_foldl_put Line.key id rows [] k

/-! ### Two rows -/

def agrees (new old : List Datum) : Bool := (new.zip old).all fun p => p.1.same p.2

def begins (new old : List Datum) : Bool := agrees new old && new.length ≤ old.length

def outruns (new old : List Datum) : Bool := agrees new old && old.length < new.length

theorem agrees_cons (x y : Datum) (xs ys : List Datum) :
    agrees (x :: xs) (y :: ys) = (x.same y && agrees xs ys) := rfl

theorem outruns_cons (x y : Datum) (xs ys : List Datum) :
    outruns (x :: xs) (y :: ys) = (x.same y && outruns xs ys) := by
  simp [outruns, agrees_cons, Bool.and_assoc]

theorem rowChanged_eq (xs seen ys : List Datum) : rowChanged (.list (seen ++ ys)) seen.length xs =
    if outruns xs ys then .error .position else .ok !agrees xs ys := by
  induction xs generalizing seen ys with
  | nil => simp [rowChanged, outruns, agrees]
  | cons x xs ih =>
    cases ys with
    | nil => simp [rowChanged, itemAt, outruns, agrees, bind, Except.bind]
    | cons y ys =>
      have hnext := ih (seen ++ [y]) ys
      rw [append_assoc, singleton_append, length_append, length_singleton] at hnext
      have hitem : itemAt (.list (seen ++ y :: ys)) seen.length = .ok y := by simp [itemAt]
      rw [rowChanged, hitem, agrees_cons, outruns_cons]
      change (if x.same y then _ else _) = _
      rw [hnext]
      cases x.same y <;> rfl

theorem begins_eq_agrees {xs ys : List Datum} (h : outruns xs ys = false) :
    begins xs ys = agrees xs ys := by
  unfold outruns at h
  unfold begins
  cases hag : agrees xs ys with
  | false => rfl
  | true => simpa [hag] using h

theorem sameItems_of_agrees : ∀ {xs ys : List Datum}, agrees xs ys → xs.length = ys.length →
    Datum.sameItems xs ys
  | [], [], _, _ => rfl
  | x :: xs, y :: ys, h, hlength => by
    rw [agrees_cons, Bool.and_eq_true_iff] at h
    rw [Datum.sameItems, h.1, sameItems_of_agrees h.2 (Nat.succ.inj hlength)]
    rfl

/-! ### All rows -/

/-- What is told of a key: its row if that is new, its row if that is gone, and the old and the new
row if that is changed. -/
structure Verdict where
  added : Option Line
  removed : Option Line
  changed : Option (Line × Line)

/-- What is to be told of a key with these rows in the old table and in the new one. -/
def verdict : Option Line → Option Line → Verdict
  | none, none => ⟨none, none, none⟩
  | none, some w => ⟨some w, none, none⟩
  | some o, none => ⟨none, some o, none⟩
  | some o, some w => ⟨none, none, if begins w.cells o.cells then none else some (o, w)⟩

@[simp]
theorem verdict_none (old : Option Line) : verdict old none = ⟨none, old, none⟩ := by
  cases old <;> rfl

def changedRow (p : Line × Line) : Datum := .tuple [p.1.datum, p.2.datum]

/-- A difference tells of each key what is to be told. -/
structure Difference.Tells (d : Difference) (old new : Key → Option Line) : Prop where
  added : Holds Line.datum d.added fun k => (verdict (old k) (new k)).added
  removed : Holds Line.datum d.removed fun k => (verdict (old k) (new k)).removed
  changed : Holds changedRow d.changed fun k => (verdict (old k) (new k)).changed

def fails (old : Key → Option Line) (p : Key × Line) : Bool :=
  (old p.1).any fun o => outruns p.2.cells o.cells

section Run

variable {d : Difference} {old seen : Key → Option Line}

theorem Difference.Tells.compareRows_cons (h : d.Tells old seen) {k : Key} (hk : seen k = none)
    (w : Line) (rest : List (Datum × Datum)) :
    if fails old (k, w) then compareRows d ((k.datum, w.datum) :: rest) = .error .position
    else ∃ d', compareRows d ((k.datum, w.datum) :: rest) = compareRows d' rest ∧
      d'.Tells old (update seen k (some w)) := by
  have hne (j) (hj : j ≠ k) : verdict (old j) (update seen k (some w) j) =
      verdict (old j) (seen j) := by
    rw [update_of_ne hj]
  have hadded j hj := congrArg Verdict.added (hne j hj)
  have hremoved j hj := congrArg Verdict.removed (hne j hj)
  have hchanged j hj := congrArg Verdict.changed (hne j hj)
  have hlookup := h.removed.lookup k
  change if _ then compareRows d ((k.datum, .list w.cells) :: rest) = _
    else ∃ d', compareRows d ((k.datum, .list w.cells) :: rest) = _ ∧ _
  rw [compareRows, hlookup, hk]
  cases ho : old k with
  | none =>
    simp only [fails, ho]
    exact ⟨_, rfl, h.added.put (by simp [ho, verdict]) hadded,
      h.removed.congr (by simp [ho, hk, verdict]) hremoved,
      h.changed.congr (by simp [ho, hk, verdict]) hchanged⟩
  | some o =>
    have hrow : rowChanged o.datum 0 w.cells = _ := rowChanged_eq w.cells [] o.cells
    simp only [verdict, Option.map_some, hrow, fails, ho, Option.any_some]
    cases hout : outruns w.cells o.cells with
    | true => rfl
    | false =>
      have hbegins := begins_eq_agrees hout
      cases hag : agrees w.cells o.cells with
      | true =>
        exact ⟨_, rfl, h.added.congr (by simp [ho, hk, verdict]) hadded,
          h.removed.erase (by simp [ho, verdict]) hremoved,
          h.changed.congr (by simp [ho, hk, verdict, hbegins, hag]) hchanged⟩
      | false =>
        exact ⟨_, rfl, h.added.congr (by simp [ho, hk, verdict]) hadded,
          h.removed.erase (by simp [ho, verdict]) hremoved,
          h.changed.put (x := (o, w)) (by simp [ho, verdict, hbegins, hag]) hchanged⟩

theorem Difference.Tells.compareRows_run {ps : List (Key × Line)} (hps : Distinct ps)
    (hseen : ∀ p ∈ ps, seen p.1 = none) (h : d.Tells old seen) :
    if ps.any (fails old) then
      compareRows d (entries Line.datum ps) = .error .position
    else ∃ d', compareRows d (entries Line.datum ps) = .ok d' ∧
      d'.Tells old fun k => (ps.lookup k).or (seen k) := by
  induction ps generalizing d seen with
  | nil => exact ⟨d, rfl, h⟩
  | cons p ps ih =>
    obtain ⟨k, w⟩ := p
    obtain ⟨hk, hps⟩ := hps.of_cons
    obtain ⟨hnew, hseen⟩ := forall_mem_cons.mp hseen
    have hstep := h.compareRows_cons hnew w (entries Line.datum ps)
    rw [any_cons]
    cases hfails : fails old (k, w) with
    | true =>
      rw [hfails] at hstep
      exact hstep
    | false =>
      rw [hfails] at hstep
      obtain ⟨d₁, hcompare, h₁⟩ := hstep
      have hall : (fun j => (((k, w) :: ps).lookup j).or (seen j)) =
          fun j => (ps.lookup j).or (update seen k (some w) j) := funext fun j => by
        by_cases hj : j = k
        · rw [hj, Places.lookup_eq_none_of_not_mem hk]
          simp
        · rw [lookup_cons, beq_eq_false_iff_ne.mpr hj, update_of_ne hj]
      have hunseen : ∀ q ∈ ps, update seen k (some w) q.1 = none := fun q hq => by
        rw [update_of_ne fun heq => hk (mem_map.mpr ⟨q, hq, heq⟩), hseen q hq]
      rw [hall]
      exact hcompare ▸ ih hps hunseen h₁

end Run

/-! ### The difference -/

/-- What a difference makes of the row of a key: it goes if it is gone, and comes or changes as the
difference says. -/
def Difference.patched (d : Difference) (old : Option Datum) (k : Datum) : Option Datum :=
  match Datum.lookup d.changed k with
  | some (.tuple [_, row]) => some row
  | _ => (Datum.lookup d.added k).or (if (Datum.lookup d.removed k).isSome then none else old)

theorem Difference.Tells.patched_eq {d : Difference} {old new : Key → Option Line}
    (h : d.Tells old new) (k : Key)
    (hlength : ∀ o w, old k = some o → new k = some w → w.cells.length = o.cells.length) :
    Option.Rel (fun row w => row = w ∨ w.same row)
      (d.patched ((old k).map Line.datum) k.datum) ((new k).map Line.datum) := by
  rw [patched, h.changed.lookup, h.added.lookup, h.removed.lookup]
  cases ho : old k with
  | none =>
    cases hw : new k with
    | none => exact .none
    | some w => exact .some (.inl rfl)
  | some o =>
    cases hw : new k with
    | none => exact .none
    | some w =>
      simp only [verdict]
      cases hbegins : begins w.cells o.cells with
      | true =>
        have hag : agrees w.cells o.cells := (Bool.and_eq_true_iff.mp hbegins).1
        exact .some (.inr (sameItems_of_agrees hag (hlength o w ho hw)))
      | false => exact .some (.inl rfl)

theorem any_fails_iff {ps : List (Key × Line)} (hps : Distinct ps) (old : Key → Option Line) :
    ps.any (fails old) ↔
      ∃ k o w, old k = some o ∧ ps.lookup k = some w ∧ outruns w.cells o.cells := by
  simp only [any_eq_true, fails, Option.any_eq_true, Prod.exists, Places.mem_iff_lookup hps]
  exact ⟨fun ⟨k, w, hw, o, ho, h⟩ => ⟨k, o, w, ho, hw, h⟩,
    fun ⟨k, o, w, ho, hw, h⟩ => ⟨k, w, hw, o, ho, h⟩⟩

def Overrun (old new : List Line) : Prop :=
  ∃ k o w, lastRow old k = some o ∧ lastRow new k = some w ∧ outruns w.cells o.cells

theorem difference_cases (old new : List Line) :
    Overrun old new ∧
        difference (.list (old.map Line.datum)) (new.map Line.cells) = .error .position ∨
      ¬ Overrun old new ∧ ∃ d, difference (.list (old.map Line.datum)) (new.map Line.cells) =
        .ok d ∧
        d.Tells (lastRow old) (lastRow new) := by
  obtain ⟨es, hes, hold⟩ := exists_byFirst old
  obtain ⟨_, hns, ps, rfl, hps, hnew⟩ := exists_byFirst new
  have hrows : (new.map Line.cells).map Datum.list = new.map Line.datum := map_map
  have hdifference : difference (.list (old.map Line.datum)) (new.map Line.cells) =
      compareRows ⟨[], es, []⟩ (entries Line.datum ps) := by
    change (byFirst [] (old.map Line.datum) >>= _) = _
    rw [hes, hrows]
    change (byFirst [] (new.map Line.datum) >>= _) = _
    rw [hns]
    rfl
  have hstart : Difference.Tells ⟨[], es, []⟩ (lastRow old) fun _ => none := by
    constructor <;> simp only [verdict_none]
    · exact holds_nil
    · exact hold
    · exact holds_nil
  have hrun := hstart.compareRows_run hps fun _ _ => rfl
  have hany := any_fails_iff hps (lastRow old)
  simp only [hnew, Option.or_none, ← hdifference] at hrun hany
  split_ifs at hrun with hfails
  · exact .inl ⟨hany.mp hfails, hrun⟩
  · exact .inr ⟨mt hany.mpr hfails, hrun⟩

/-- **A difference is exact.** The comparison fails, at a cell that is not there, exactly if under
some key the old row is the beginning of a longer new one. Otherwise it tells the rows whose keys
only the new table has, those whose keys only the old one has, and under each key of both the two
rows unless the new one is the beginning of the old one. Where all rows have one length, the old
table with the difference put to it has under each key the row of the new one. Of rows with one key
the last one counts on both sides. -/
theorem difference_exact (old new : List Line) :
    let result := difference (.list (old.map Line.datum)) (new.map Line.cells)
    (∀ e, result = .error e ↔ e = .position ∧ Overrun old new) ∧
    ∀ d, result = .ok d → d.Tells (lastRow old) (lastRow new) ∧
      ∀ width, (∀ row ∈ old ++ new, row.cells.length = width) → ∀ k,
        Option.Rel (fun row w => row = w ∨ w.same row)
          (d.patched ((lastRow old k).map Line.datum) k.datum)
          ((lastRow new k).map Line.datum) := by
  intro result
  rcases difference_cases old new with ⟨hover, herror⟩ | ⟨hover, d, hok, htells⟩
  · refine ⟨fun e => ?_, fun d hd => by cases herror.symm.trans hd⟩
    rw [show result = _ from herror, Except.error.injEq, eq_comm, and_iff_left hover]
  · refine ⟨fun e => ⟨fun he => ?_, fun he => absurd he.2 hover⟩, fun d' hd => ?_⟩
    · cases hok.symm.trans he
    cases hok.symm.trans hd
    refine ⟨htells, fun width hwidth k => htells.patched_eq k fun o w ho hw => ?_⟩
    have hlength {rows : List Line} {r : Line} (hrows : rows ⊆ old ++ new)
        (hr : lastRow rows k = some r) : r.cells.length = width :=
      hwidth r (hrows (mem_of_mem_filter (mem_of_getLast? hr)))
    rw [hlength (subset_append_right ..) hw, hlength (subset_append_left ..) ho]

end WikiFeed.Tabular

import WikiFeed.Proofs.Places
import WikiFeed.Tabular.Tables

/-! # Saved rows

A table takes calls that make rows and calls that save them, and each of them can fail. A row that
was saved fits the columns of the table, and it can be saved again, so no later call that fails can
spoil it. Main statement: `saved_rows_fit`. -/

namespace WikiFeed

open List

namespace Text

def Trimmed (s : String) : Prop :=
  (∀ c ∈ s.toList.head?, isBlank c = false) ∧ ∀ c ∈ s.toList.getLast?, isBlank c = false

theorem head?_dropWhile {p : Char → Bool} (cs : List Char) :
    ∀ c ∈ (cs.dropWhile p).head?, p c = false := by
  intro c hc
  have h := head?_dropWhile_not p cs
  rw [Option.mem_def.mp hc] at h
  exact h

theorem trimmed_strip (s : String) : Trimmed (strip s) := by
  rw [Trimmed, strip, String.toList_ofList, trim, trimEnd, getLast?_reverse]
  refine ⟨fun c hc => ?_, head?_dropWhile _⟩
  -- what is left of the text starts as it did before its end was cut
  obtain ⟨t, ht⟩ := reverse_prefix.mpr
    (dropWhile_suffix isBlank (l := (trimStart s.toList).reverse))
  have hhead : (trimStart s.toList).head? = some c := by
    rw [reverse_reverse] at ht
    rw [← ht, head?_append, Option.mem_def.mp hc]
    rfl
  exact head?_dropWhile _ c hhead

end Text

namespace Tabular

variable {r : Row} {k a : String} {c : Column} {d : Datum} {s : Schema}

@[simp]
theorem Row.cell_put (r : Row) (key other : String) (d : Datum) :
    (r.put key d).cell other = if other = key then d else r.cell other := by
  rw [Row.cell, Row.put, Places.lookup_put]
  by_cases h : other = key <;> simp [h, Row.cell]

/-! ### Cells that fit -/

/-- Whether a cell fits a column: it is null, or of the kind that the column takes and, if it is a
text, without white space at its ends. -/
def Column.Fits (c : Column) (d : Datum) : Prop :=
  d = .null ∨ c.kind.takes d ∧ ∀ s, d = .str s → Text.Trimmed s

def Schema.Fits (s : Schema) (r : Row) : Prop := ∀ c ∈ s.columns, c.Fits (r.cell c.key)

theorem Column.of_check (h : c.check d = .ok ()) : d = .null ∨ c.kind.takes d := by
  unfold Column.check at h
  split at h
  · cases h
  · exact .inl rfl
  · split at h
    · exact .inr ‹_›
    · cases h

theorem Column.check_of_takes (hnull : c.null) (hkind : c.kind ≠ .none)
    (h : d = .null ∨ c.kind.takes d) : c.check d = .ok () := by
  unfold Column.check
  split
  · exact absurd ‹_› hkind
  · exact if_pos hnull
  · exact if_pos (h.resolve_left ‹_›)

theorem ColumnKind.takes_str {k : ColumnKind} {s : String} : k.takes (.str s) ↔ k = .text := by
  cases k <;> simp [takes]

theorem Schema.validate_eq_ok :
    s.validate r = .ok () ↔ ∀ c ∈ s.columns, c.check (r.cell c.key) = .ok () := by
  rw [validate]
  induction s.columns with
  | nil => simp; rfl
  | cons c cs ih =>
    rw [forall_mem_cons, ← ih]
    change (c.check (r.cell c.key) >>= fun _ => _) = _ ↔ _
    cases c.check (r.cell c.key) with
    | error e => simp [bind, Except.bind]
    | ok u => simp [bind, Except.bind]

/-! ### Stripping -/

theorem cell_stripCell (r : Row) (c : Column) (k : String) :
    (stripCell r c).cell k = r.cell k ∧ (c.kind = .text → c.key = k → ∀ s, r.cell k ≠ .str s) ∨
      ∃ s, r.cell k = .str s ∧ (stripCell r c).cell k = .str (Text.strip s) := by
  unfold stripCell
  split
  · rename_i t hkind hcell
    rw [Row.cell_put]
    split
    · rename_i hk
      subst hk
      exact .inr ⟨t, hcell, rfl⟩
    · rename_i hk
      exact .inl ⟨rfl, fun _ h => absurd h.symm hk⟩
  · rename_i h
    refine .inl ⟨rfl, ?_⟩
    rintro hkind rfl s hs
    exact h s hkind hs

/-- A cell is left as it is, which can be the text of no column for texts, or it is a text that is
stripped. -/
theorem cell_foldl_strip (cs : List Column) (r : Row) (k : String) :
    (cs.foldl stripCell r).cell k = r.cell k ∧
        (∀ c ∈ cs, c.kind = .text → c.key = k → ∀ s, r.cell k ≠ .str s) ∨
      ∃ s t, r.cell k = .str s ∧ (cs.foldl stripCell r).cell k = .str (Text.strip t) := by
  induction cs generalizing r with
  | nil => exact .inl ⟨rfl, by simp⟩
  | cons c cs ih =>
    rw [foldl_cons]
    rcases cell_stripCell r c k with ⟨hsame, hc⟩ | ⟨s, hs, hcell⟩
    · rcases ih (stripCell r c) with ⟨hrest, hcs⟩ | ⟨s, t, hs, ht⟩
      · rw [hsame] at hrest hcs
        exact .inl ⟨hrest, forall_mem_cons.mpr ⟨hc, hcs⟩⟩
      · exact .inr ⟨s, t, hsame ▸ hs, ht⟩
    · rcases ih (stripCell r c) with ⟨hrest, -⟩ | ⟨-, t, -, ht⟩
      · exact .inr ⟨s, s, hs, hrest.trans hcell⟩
      · exact .inr ⟨s, t, hs, ht⟩

theorem Schema.fits_strip (h : s.validate r = .ok ()) : s.Fits (s.strip r) := by
  intro c hc
  have htakes := Column.of_check (Schema.validate_eq_ok.mp h c hc)
  rcases cell_foldl_strip s.columns r c.key with ⟨hsame, htext⟩ | ⟨a, b, ha, hb⟩
  · rw [Schema.strip, hsame]
    refine htakes.imp_right fun htakes => ⟨htakes, fun t ht => ?_⟩
    rw [ht, ColumnKind.takes_str] at htakes
    exact absurd ht (htext c hc htakes rfl t)
  · rw [Schema.strip, hb]
    refine .inr ⟨?_, ?_⟩
    · rw [ha, ColumnKind.takes_str] at htakes
      rw [ColumnKind.takes_str]
      exact htakes.resolve_left (by simp)
    · rintro _ ⟨⟩
      exact Text.trimmed_strip b

/-! ### Tables that keep their rows -/

/-- A table with a rule of its own for saved rows: a row that was prepared and checked keeps the
rule once it is stripped, and a row that fits and keeps the rule can be saved again. -/
structure Schema.Keeps (s : Schema) (rule : Row → Prop) : Prop where
  saved : ∀ r r', s.prepare r = (r', .ok ()) → s.validate r' = .ok () → rule (s.strip r')
  again : ∀ r, s.Fits r → rule r → ∃ r', s.prepare r = (r', .ok ()) ∧ s.validate r' = .ok ()

/-- A call: a new row with some cells, or the row at a place is saved. -/
inductive Call where
  | make (cells : Row)
  | save (place : Nat)

namespace Sheet

/-- Carries out a call. There is nothing to save at a place where no row was made. -/
def call (t : Sheet) : Call → Sheet × Outcome Unit
  | .make cells =>
    match t.add cells with
    | .ok (t', _) => (t', .ok ())
    | .error e => (t, .error e)
  | .save i => if i < t.rows.size then t.save i else (t, .error (.fault .position))

def calls (t : Sheet) (cs : List Call) : Sheet := cs.foldl (fun t c => (t.call c).1) t

theorem row_setRow (t : Sheet) (i j : Nat) (r : Row) :
    (t.setRow i r).row j = if i = j ∧ j < t.rows.size then r else t.row j :=
  Places.getD_modify ..

/-- A sheet of a table whose saved rows were made, fit and keep the rule. -/
structure Sound (s : Schema) (rule : Row → Prop) (t : Sheet) : Prop where
  schema : t.schema = s
  rows : ∀ i ∈ t.saved, i < t.rows.size ∧ s.Fits (t.row i) ∧ rule (t.row i)

structure Untouched (t u : Sheet) : Prop where
  schema : u.schema = t.schema
  saved : u.saved = t.saved
  size : t.rows.size ≤ u.rows.size
  rows : ∀ i ∈ t.saved, u.row i = t.row i

theorem Untouched.toList_eq {t u : Sheet} (h : Untouched t u) : u.toList = t.toList := by
  rw [toList, toList, h.schema, h.saved]
  exact map_congr_left fun i hi => by rw [h.rows i hi]

section Calls

variable {rule : Row → Prop} {t : Sheet}

theorem Sound.untouched {u : Sheet} (ht : Sound s rule t) (h : Untouched t u) : Sound s rule u := by
  refine ⟨h.schema.trans ht.schema, fun i hi => ?_⟩
  rw [h.saved] at hi
  rw [h.rows i hi]
  exact (ht.rows i hi).imp_left fun hsize => Nat.lt_of_lt_of_le hsize h.size

theorem untouched_setRow {i : Nat} (hi : i ∉ t.saved) (r : Row) : Untouched t (t.setRow i r) := by
  refine ⟨rfl, rfl, by simp [setRow], fun j hj => ?_⟩
  rw [row_setRow, if_neg]
  rintro ⟨rfl, -⟩
  exact hi hj

theorem Sound.untouched_add (ht : Sound s rule t) (r : Row) :
    Untouched t { t with rows := t.rows.push r } :=
  ⟨rfl, rfl, by simp, fun i hi =>
    (Places.getD_push ..).trans (if_neg (Nat.ne_of_lt (ht.rows i hi).1))⟩

/-- A call that does not save a row leaves the saved ones as they are. A row that was saved before
is never refused. -/
theorem Sound.call_cases (ht : Sound s rule t) (hs : s.Keeps rule) (c : Call) :
    Untouched t (t.call c).1 ∧ (∀ i, c = .save i → (t.call c).2 ≠ .ok ()) ∨
      ∃ i r, c = .save i ∧ i < t.rows.size ∧ s.prepare (t.row i) = (r, .ok ()) ∧
        s.validate r = .ok () ∧
        t.call c = ({ t.setRow i (s.strip r) with saved := t.saved ++ [i] }, .ok ()) := by
  have hidle : Untouched t t := ⟨rfl, rfl, Nat.le_refl _, fun _ _ => rfl⟩
  cases c with
  | make cells =>
    refine .inl ⟨?_, nofun⟩
    rw [call, add]
    cases t.schema.newRow cells with
    | error e => exact hidle
    | ok r => exact ht.untouched_add r
  | save i =>
    -- a row that was saved can be saved again, so this is none if it is refused
    have hagain (hi : i ∈ t.saved) :
        ∃ r, s.prepare (t.row i) = (r, .ok ()) ∧ s.validate r = .ok () :=
      hs.again _ (ht.rows i hi).2.1 (ht.rows i hi).2.2
    rw [call, save, ht.schema]
    split
    · rename_i hi
      cases hprepare : s.prepare (t.row i) with
      | mk r result =>
        rw [hprepare] at hagain
        cases result with
        | error e => exact .inl ⟨untouched_setRow (fun h => by simpa using hagain h) r, nofun⟩
        | ok u =>
          dsimp only
          cases hvalidate : s.validate r with
          | error e =>
            refine .inl ⟨untouched_setRow (fun h => ?_) r, nofun⟩
            obtain ⟨_, hr, hok⟩ := hagain h
            cases hr
            cases hvalidate.symm.trans hok
          | ok u => exact .inr ⟨i, r, rfl, hi, hprepare, hvalidate, rfl⟩
    · exact .inl ⟨hidle, nofun⟩

theorem Sound.call (ht : Sound s rule t) (hs : s.Keeps rule) (c : Call) :
    Sound s rule (t.call c).1 := by
  rcases ht.call_cases hs c with ⟨h, -⟩ | ⟨i, r, rfl, hi, hprepare, hvalidate, hcall⟩
  · exact ht.untouched h
  · rw [hcall]
    refine ⟨ht.schema, fun j hj => ?_⟩
    change j < (t.setRow i (s.strip r)).rows.size ∧ s.Fits ((t.setRow i (s.strip r)).row j) ∧
      rule ((t.setRow i (s.strip r)).row j)
    have hsize : (t.setRow i (s.strip r)).rows.size = t.rows.size := Array.size_modify ..
    rw [row_setRow, hsize]
    by_cases hij : i = j
    · subst hij
      rw [if_pos ⟨rfl, hi⟩]
      exact ⟨hi, Schema.fits_strip hvalidate, hs.saved _ _ hprepare hvalidate⟩
    · rw [if_neg fun h => hij h.1]
      exact ht.rows j ((mem_append.mp hj).resolve_right fun h => hij (mem_singleton.mp h).symm)

theorem sound_calls (hs : s.Keeps rule) (cs : List Call) :
    Sound s rule ((Sheet.ofSchema s).calls cs) :=
  foldlRecOn cs _ ⟨rfl, by simp [ofSchema]⟩ fun _ ht c _ => ht.call hs c

end Calls

end Sheet

/-! ### The tables of the wiki -/

theorem Schema.str_strip (s : Schema) (h : r.cell k = .str a) :
    ∃ b, (s.strip r).cell k = .str b := by
  rcases cell_foldl_strip s.columns r k with ⟨hsame, -⟩ | ⟨-, b, -, hb⟩
  · exact ⟨a, hsame.trans h⟩
  · exact ⟨_, hb⟩

theorem Schema.strip_eq_null (s : Schema) : (s.strip r).cell k = .null ↔ r.cell k = .null := by
  rcases cell_foldl_strip s.columns r k with ⟨hsame, -⟩ | ⟨a, b, ha, hb⟩
  · rw [Schema.strip, hsame]
  · simp [Schema.strip, ha, hb]

theorem Schema.validate_of_takes (hopen : ∀ c ∈ s.columns, c.null ∧ c.kind ≠ .none)
    (h : ∀ c ∈ s.columns, r.cell c.key = .null ∨ c.kind.takes (r.cell c.key)) :
    s.validate r = .ok () :=
  Schema.validate_eq_ok.mpr fun c hc =>
    Column.check_of_takes (hopen c hc).1 (hopen c hc).2 (h c hc)

theorem Schema.Fits.takes (h : s.Fits r) (hc : c ∈ s.columns) :
    r.cell c.key = .null ∨ c.kind.takes (r.cell c.key) :=
  (h c hc).imp_right And.left

theorem plainQuotes_of_str (h : r.cell k = .str a) :
    ∃ b, plainQuotes r k = (r.put k (.str b), .ok ()) := by
  rw [plainQuotes, h]
  exact ⟨_, rfl⟩

theorem of_plainQuotes {r' : Row} {u : Unit} (h : plainQuotes r k = (r', .ok u)) :
    ∃ b, r' = r.put k (.str b) := by
  unfold plainQuotes at h
  split at h
  · exact ⟨_, (Prod.mk.inj h).1.symm⟩
  · cases (Prod.mk.inj h).2

theorem takes_put_str {b : String} (hk : r.cell k = .str a)
    (h : r.cell c.key = .null ∨ c.kind.takes (r.cell c.key)) :
    (r.put k (.str b)).cell c.key = .null ∨ c.kind.takes ((r.put k (.str b)).cell c.key) := by
  rw [Row.cell_put]
  split
  · rename_i hkey
    rw [hkey, hk, ColumnKind.takes_str] at h
    exact .inr (ColumnKind.takes_str.mpr (h.resolve_left (by simp)))
  · exact h

theorem itemTable_keeps : itemTable.Keeps fun r =>
    (∃ a, r.cell "name_cn" = .str a) ∧ ∃ b, r.cell "name_en" = .str b where
  saved r r' hprepare _ := by
    change prepareItem r = _ at hprepare
    unfold prepareItem at hprepare
    split at hprepare
    · rename_i q u hq
      obtain ⟨a, rfl⟩ := of_plainQuotes hq
      obtain ⟨b, rfl⟩ := of_plainQuotes hprepare
      exact ⟨itemTable.str_strip (a := a) (by simp), itemTable.str_strip (a := b) (by simp)⟩
    · rename_i h
      exact absurd hprepare (h r' ())
  again r hfits h := by
    obtain ⟨⟨a, ha⟩, b, hb⟩ := h
    obtain ⟨a', ha'⟩ := plainQuotes_of_str ha
    have hb : (r.put "name_cn" (.str a')).cell "name_en" = .str b := by simpa using hb
    obtain ⟨b', hb'⟩ := plainQuotes_of_str hb
    have hprepare : prepareItem r = plainQuotes (r.put "name_cn" (.str a')) "name_en" := by
      rw [prepareItem, ha']
    exact ⟨_, hprepare.trans hb', Schema.validate_of_takes (by decide +kernel) fun c hc =>
      takes_put_str hb (takes_put_str ha (hfits.takes hc))⟩

def filled (r : Row) (k : String) (d : Datum) : Row :=
  match r.cell k with
  | .null => r.put k d
  | _ => r

theorem cell_filled_of_ne {j : String} (h : j ≠ k) (r : Row) (d : Datum) :
    (filled r k d).cell j = r.cell j := by
  unfold filled
  split
  · rw [Row.cell_put, if_neg h]
  · rfl

theorem cell_filled_eq_null : (filled r k d).cell k = .null ↔ r.cell k = .null ∧ d = .null := by
  unfold filled
  split
  · simp [*]
  · simpa using fun h => absurd h ‹_›

theorem cell_filled (h : r.cell k = .null → d = .null) (j : String) :
    (filled r k d).cell j = r.cell j := by
  unfold filled
  split
  · rename_i hnull
    rw [Row.cell_put, h hnull]
    split
    · simp [*]
    · rfl
  · rfl

theorem prepareRecipe_eq (r : Row) : prepareRecipe r =
    (filled (filled r "product" (r.cell "recipe_name")) "numtogive" (.int 1), .ok ()) := rfl

def Completed (r : Row) : Prop :=
  r.cell "numtogive" ≠ .null ∧ (r.cell "product" = .null → r.cell "recipe_name" = .null)

theorem recipeTable_keeps : recipeTable.Keeps Completed where
  saved r r' hprepare _ := by
    cases (prepareRecipe_eq r).symm.trans hprepare
    simp (disch := decide) only [Completed, Ne, recipeTable.strip_eq_null, cell_filled_eq_null,
      cell_filled_of_ne, reduceCtorEq]
    exact ⟨And.right, And.right⟩
  again r hfits h := by
    refine ⟨_, prepareRecipe_eq r, Schema.validate_of_takes (by decide +kernel) fun c hc => ?_⟩
    have hnumber : (filled r "product" (r.cell "recipe_name")).cell "numtogive" ≠ .null := by
      rw [cell_filled_of_ne (by decide)]
      exact h.1
    rw [cell_filled fun hnull => absurd hnull hnumber, cell_filled h.2]
    exact hfits.takes hc

theorem speechTable_keeps : speechTable.Keeps fun _ => True where
  saved _ _ _ _ := trivial
  again r hfits _ := ⟨r, rfl, Schema.validate_of_takes (by decide +kernel) fun _ => hfits.takes⟩

inductive Table where
  | items
  | recipes
  | speech

namespace Table

def schema : Table → Schema
  | .items => itemTable
  | .recipes => recipeTable
  | .speech => speechTable

def rule : Table → Row → Prop
  | .items => fun r => (∃ a, r.cell "name_cn" = .str a) ∧ ∃ b, r.cell "name_en" = .str b
  | .recipes => Completed
  | .speech => fun _ => True

theorem keeps : ∀ table : Table, table.schema.Keeps table.rule
  | .items => itemTable_keeps
  | .recipes => recipeTable_keeps
  | .speech => speechTable_keeps

end Table

/-- **Saved rows fit at all times**, whatever calls a table has taken and however many of them
failed. Each row has one cell for each column, in their order: null, or of the kind of the column
and, if it is a text, without white space at its ends. A recipe has a number, and it has a product
unless it has no name. A call that fails, and one that only makes a row, leaves the saved rows as
they are; a call that saves a row puts it behind them and changes no other one. -/
theorem saved_rows_fit (table : Table) (cs : List Call) :
    let t := (Sheet.ofSchema table.schema).calls cs
    (∀ row ∈ t.toList, ∃ r, row = table.schema.cells r ∧ table.schema.Fits r ∧
      (table = .recipes → Completed r)) ∧
    ∀ c : Call,
      ((∃ e, (t.call c).2 = .error e) ∨ (∃ cells, c = .make cells) →
        (t.call c).1.saved = t.saved ∧ (t.call c).1.toList = t.toList) ∧
      ∀ i, c = .save i → (t.call c).2 = .ok () →
        (t.call c).1.saved = t.saved ++ [i] ∧ ∀ j, j ≠ i → (t.call c).1.row j = t.row j := by
  intro t
  have ht : t.Sound table.schema table.rule := Sheet.sound_calls table.keeps cs
  refine ⟨fun row hrow => ?_, fun c => ?_⟩
  · obtain ⟨i, hi, rfl⟩ := List.mem_map.mp hrow
    obtain ⟨-, hfits, hrule⟩ := ht.rows i hi
    refine ⟨t.row i, by rw [ht.schema], hfits, ?_⟩
    rintro rfl
    exact hrule
  · rcases ht.call_cases table.keeps c with ⟨h, hno⟩ | ⟨i, r, rfl, hi, hprepare, hvalidate, hcall⟩
    · exact ⟨fun _ => ⟨h.saved, h.toList_eq⟩, fun i hc hok => absurd hok (hno i hc)⟩
    · rw [hcall]
      refine ⟨?_, ?_⟩
      · rintro (⟨e, he⟩ | ⟨cells, hcells⟩)
        · cases he
        · cases hcells
      · rintro _ ⟨⟩ -
        refine ⟨rfl, fun j hj => ?_⟩
        exact (t.row_setRow i j _).trans (if_neg fun h => hj h.1.symm)

end Tabular

end WikiFeed

import Mathlib.Tactic.ByContra
import Mathlib.Tactic.SplitIfs
import WikiFeed.Proofs.Places
import WikiFeed.Skin.Feed

/-! # Descriptions of granted skins

A skin hands its description on to the skins that are granted with it, but only to those whose own
description is the text for "not available". A skin that the catalog does not describe has no text
at all at that time, so it gets nothing (`description_of_granted`). -/

namespace WikiFeed.Skin

open List

/-! ### Tables -/

theorem Table.get?_put_self (t : Table) (id : Id) (text : String) :
    (t.put id text).get? id = some text := Places.lookup_put_self ..

theorem Table.get?_put_of_ne {id other : Id} (h : other ≠ id) (t : Table) (text : String) :
    (t.put id text).get? other = t.get? other := Places.lookup_put_of_ne h ..

theorem Table.filled?_eq_some {t : Table} {id : Id} {text : String} :
    t.filled? id = some text ↔ t.get? id = some text ∧ text ≠ "" := by
  simp [filled?, Option.filter_eq_some_iff]

/-! ### Lines about other things -/

theorem descriptions_collect (f : Facts) (id : Id) (tags : List String) :
    (f.collect id tags).descriptions = f.descriptions := by
  induction tags generalizing f with
  | nil => rfl
  | cons tag tags ih =>
    refine (ih _).trans ?_
    dsimp only
    split <;> rfl

theorem descriptions_line (f : Facts) (depth : String) (id : Id) (line : String) :
    (f.line depth id line).descriptions = f.descriptions := by
  simp only [Facts.line, apply_ite Facts.descriptions, descriptions_collect, ite_self]

theorem descriptions_foldl {σ : Type} {step : Facts × σ → String → Facts × σ}
    (h : ∀ state line, (step state line).1.descriptions = state.1.descriptions)
    (lines : List String) (state : Facts × σ) :
    (lines.foldl step state).1.descriptions = state.1.descriptions := by
  induction lines generalizing state with
  | nil => rfl
  | cons line lines ih => rw [foldl_cons, ih, h]

theorem descriptions_things (f : Facts) (lines : List String) :
    (f.things lines).descriptions = f.descriptions := by
  refine descriptions_foldl (fun state line => ?_) lines _
  unfold Facts.thingLine
  dsimp only
  split
  · rfl
  split
  · rfl
  · exact descriptions_line ..

theorem descriptions_clothes (f : Facts) (name : String) (lines : List String) :
    (f.clothes name lines).descriptions = f.descriptions := by
  refine descriptions_foldl (fun state line => ?_) lines _
  unfold Facts.clothLine
  dsimp only
  split_ifs
  · rfl
  · rfl
  · rfl
  split
  · rfl
  · exact descriptions_line ..

/-! ### Handing on -/

/-- The skins that are granted with others, each with the one that grants it. -/
def grantPairs : Id → List String → List (Id × String)
  | _, [] => []
  | id, line :: lines =>
    match skinStart? line with
    | some id => grantPairs (some id) lines
    | none => (if Text.occurs "\tgranted_items = \x7b " line then
        (quotedWords line.toList).map (id, ·) else []) ++ grantPairs id lines

def handOn (t : Table) (p : Id × String) : Table :=
  match t.filled? p.1 with
  | some d => if t.get? (some p.2) = some "n/a" then t.put (some p.2) d else t
  | none => t

theorem descriptions_handed {f g : Facts} (hg : g.descriptions = f.descriptions) (id : Id)
    (granted : String) :
    (match g.descriptions.filled? id, g.descriptions.get? (some granted) with
      | some d, some "n/a" => { g with descriptions := g.descriptions.put (some granted) d }
      | _, _ => g).descriptions = handOn f.descriptions (id, granted) := by
  rw [← hg]
  unfold handOn
  split
  · rename_i hd hnone
    rw [hd]
    exact (if_pos hnone).symm
  · rename_i hother
    split
    · rename_i hd
      rw [if_neg (hother _ hd)]
    · rfl

theorem descriptions_grant (f : Facts) (id : Id) (granted : String) :
    (f.grant id granted).descriptions = handOn f.descriptions (id, granted) := by
  refine descriptions_handed ?_ id granted
  split <;> rfl

theorem descriptions_foldl_grant (id : Id) (words : List String) (f : Facts) :
    (words.foldl (Facts.grant id) f).descriptions =
      (words.map (id, ·)).foldl handOn f.descriptions := by
  induction words generalizing f with
  | nil => rfl
  | cons word words ih => rw [foldl_cons, ih, descriptions_grant, map_cons, foldl_cons]

theorem descriptions_grants (f : Facts) (lines : List String) :
    (f.grants lines).descriptions = (grantPairs none lines).foldl handOn f.descriptions := by
  unfold Facts.grants
  generalize (none : Id) = id
  induction lines generalizing f id with
  | nil => rfl
  | cons line lines ih =>
    rw [foldl_cons]
    unfold grantPairs
    cases hstart : skinStart? line with
    | some next =>
      have hline : Facts.grantLine (f, id) line = (f, some next) := by
        simp only [Facts.grantLine, hstart]
      rw [hline, ih]
    | none =>
      rw [foldl_append]
      by_cases hgrants : Text.occurs "\tgranted_items = \x7b " line
      · have hline : Facts.grantLine (f, id) line =
            ((quotedWords line.toList).foldl (Facts.grant id) f, id) := by
          simp only [Facts.grantLine, hstart, if_pos hgrants]
        rw [hline, ih, descriptions_foldl_grant, if_pos hgrants]
      · have hline : Facts.grantLine (f, id) line = (f, id) := by
          simp only [Facts.grantLine, hstart, if_neg hgrants]
        rw [hline, ih, if_neg hgrants]
        rfl

theorem descriptions_facts (s : Sources) : s.facts.descriptions =
    (grantPairs none s.things).foldl handOn (Facts.ofPhrases s.names s.catalog).descriptions := by
  simp only [Sources.facts, descriptions_clothes, descriptions_grants, descriptions_things]

section HandOn

variable {t : Table} {id : Id} {p : Id × String}

theorem get?_handOn_of_ne {granted : String} (h : p.2 ≠ granted) :
    (handOn t p).get? (some granted) = t.get? (some granted) := by
  unfold handOn
  split
  · split
    · exact Table.get?_put_of_ne (fun heq => h (Option.some.inj heq).symm) ..
    · rfl
  · rfl

theorem get?_handOn (h : t.get? id ≠ some "n/a") (p : Id × String) :
    (handOn t p).get? id = t.get? id := by
  unfold handOn
  split
  · split
    · rename_i hnone
      refine Table.get?_put_of_ne ?_ ..
      rintro rfl
      exact h hnone
    · rfl
  · rfl

theorem get?_foldl_handOn (h : t.get? id ≠ some "n/a") (ps : List (Id × String)) :
    (ps.foldl handOn t).get? id = t.get? id := by
  induction ps generalizing t with
  | nil => rfl
  | cons p ps ih =>
    rw [foldl_cons, ih (by rwa [get?_handOn h]), get?_handOn h]

theorem exists_get?_foldl_handOn {granted : String} {a : Id} {d : String} (hd : d ∉ ["", "n/a"]) :
    ∀ {ps : List (Id × String)} {t : Table}, t.get? (some granted) = some "n/a" →
      t.get? a = some d → (a, granted) ∈ ps →
      ∃ b e, (b, granted) ∈ ps ∧ e ≠ "n/a" ∧ (ps.foldl handOn t).get? (some granted) = some e ∧
        (ps.foldl handOn t).get? b = some e
  | p :: ps, t, hnone, ha, hmem => by
    simp only [mem_cons, not_mem_nil, or_false, not_or] at hd
    rw [foldl_cons]
    by_cases hp : p.2 = granted ∧ ∃ e, t.filled? p.1 = some e ∧ e ≠ "n/a"
    · -- the first description that is handed on stays
      obtain ⟨rfl, e, he, hne⟩ := hp
      have hput : handOn t p = t.put (some p.2) e := by
        unfold handOn
        rw [he]
        exact if_pos hnone
      have hself : p.1 ≠ some p.2 := by
        intro hself
        rw [Table.filled?_eq_some, hself, hnone] at he
        exact hne (Option.some.inj he.1).symm
      have hgranted : (handOn t p).get? (some p.2) = some e := by
        rw [hput, Table.get?_put_self]
      have hfirst : (handOn t p).get? p.1 = some e := by
        rw [hput, Table.get?_put_of_ne hself]
        exact (Table.filled?_eq_some.mp he).1
      refine ⟨p.1, e, mem_cons_self, hne, ?_, ?_⟩
      · rw [get?_foldl_handOn (by simp [hgranted, hne]), hgranted]
      · rw [get?_foldl_handOn (by simp [hfirst, hne]), hfirst]
    · have hfilled : t.filled? a = some d := Table.filled?_eq_some.mpr ⟨ha, hd.1⟩
      have hrest : (a, granted) ∈ ps := by
        refine (mem_cons.mp hmem).resolve_left ?_
        rintro rfl
        exact hp ⟨rfl, d, hfilled, hd.2⟩
      have hstill : (handOn t p).get? (some granted) = some "n/a" := by
        by_cases hg : p.2 = granted
        · unfold handOn
          split
          · rename_i e he
            have hsame : e = "n/a" := by
              by_contra hne
              exact hp ⟨hg, e, he, hne⟩
            rw [hg, if_pos hnone, hsame, Table.get?_put_self]
          · exact hnone
        · rw [get?_handOn_of_ne hg, hnone]
      have ha' : (handOn t p).get? a = some d := by
        rw [get?_handOn (by simp [ha, hd.2]), ha]
      obtain ⟨b, e, hb, h⟩ := exists_get?_foldl_handOn (by simp [hd]) hstill ha' hrest
      exact ⟨b, e, mem_cons_of_mem _ hb, h⟩

end HandOn

/-! ### Rows -/

def Sources.described (s : Sources) : Table := (Facts.ofPhrases s.names s.catalog).descriptions

def Sources.Grants (s : Sources) (a b : Id) : Prop :=
  ∃ granted, b = some granted ∧ (a, granted) ∈ grantPairs none s.things

section Rows

variable {s : Sources} {id : Id}

theorem get?_descriptions (h : s.described.get? id ≠ some "n/a") :
    s.facts.descriptions.get? id = s.described.get? id := by
  rw [descriptions_facts]
  exact get?_foldl_handOn h _

theorem getD_descriptions_of_none (h : s.described.get? id = none) :
    s.facts.descriptions.getD id = "n/a" := by
  rw [Table.getD, get?_descriptions (by simp [h]), h]
  rfl

theorem exists_getD_descriptions {a : Id} {d : String} (h : s.described.get? id = some "n/a")
    (hgrants : s.Grants a id) (ha : s.described.get? a = some d) (hd : d ∉ ["", "n/a"]) :
    ∃ b, s.Grants b id ∧ s.facts.descriptions.getD id = s.facts.descriptions.getD b ∧
      s.facts.descriptions.getD id ≠ "n/a" := by
  obtain ⟨granted, rfl, hmem⟩ := hgrants
  obtain ⟨b, text, hb, hreal, hgranted, hfrom⟩ := exists_get?_foldl_handOn hd h ha hmem
  rw [descriptions_facts]
  refine ⟨b, ⟨granted, rfl, hb⟩, ?_, ?_⟩
  · exact congrArg (Option.getD · "n/a") (hgranted.trans hfrom.symm)
  · exact fun hnone => hreal ((congrArg (Option.getD · "n/a") hgranted).symm.trans hnone)

theorem description_eq {r : Row} (hr : r ∈ s.facts.rows)
    (hbuild : s.facts.overrides.filled? r.id = none) :
    r.description = s.facts.descriptions.getD r.id := by
  obtain ⟨e, -, rfl⟩ := mem_map.mp hr
  unfold Facts.overridden at *
  split
  · rfl
  · rename_i other hother
    rw [hother] at hbuild
    exact absurd (hother.symm.trans hbuild) nofun

theorem mem_rows_of_sortRows {rows : List Row} (h : sortRows s.facts.rows = .ok rows) {r : Row} :
    r ∈ rows ↔ r ∈ s.facts.rows := by
  unfold sortRows at h
  split at h
  · cases h
    exact mem_mergeSort
  · nomatch h

theorem exists_row (hsort : canSort s.facts.rows) {e : Id × String} (h : e ∈ s.facts.kinds) :
    ∃ rows r, sortRows s.facts.rows = .ok rows ∧ r ∈ rows ∧ r.id = e.1 := by
  refine ⟨_, s.facts.overridden (s.facts.plainRow e.1 e.2), if_pos hsort, ?_, ?_⟩
  · exact mem_mergeSort.mpr (mem_map_of_mem h)
  · unfold Facts.overridden
    split <;> rfl

end Rows

/-- **The description in a saved row** of a skin that uses no other's build is that of the catalog.
A skin that the catalog does not describe has none, whatever grants it. Only if the catalog has the
text for "not available" the skin gets a description of a skin that grants it, if there is one. -/
theorem description_of_granted (s : Sources) {rows : List Row}
    (hrows : sortRows s.facts.rows = .ok rows) {r : Row} (hr : r ∈ rows)
    (hbuild : s.facts.overrides.filled? r.id = none) :
    (s.described.get? r.id = none → r.description = "n/a") ∧
      (∀ d, s.described.get? r.id = some d → d ≠ "n/a" → r.description = d) ∧
      (s.described.get? r.id = some "n/a" → ∀ a d, s.Grants a r.id → s.described.get? a = some d →
        d ∉ ["", "n/a"] → ∃ b, s.Grants b r.id ∧ r.description = s.facts.descriptions.getD b ∧
          r.description ≠ "n/a") := by
  rw [description_eq ((mem_rows_of_sortRows hrows).mp hr) hbuild]
  refine ⟨getD_descriptions_of_none, fun d hd hne => ?_, fun hnone a d hgrants hd hne => ?_⟩
  · rw [Table.getD, get?_descriptions (by simp [hd, hne]), hd]
    rfl
  · exact exists_getD_descriptions hnone hgrants hd hne

/-! ### A skin that grants another one -/

def grantLine : String := "\tgranted_items = \x7b \"_\", \"__\"\x7d,\n"

/-- A skin with a description that grants two others, of which the catalog describes neither: it has
the text for "not available" for the first one, and nothing for the second one. -/
def granting : Sources where
  names := []
  catalog := ["#. STRINGS.SKIN_DESCRIPTIONS.a", "msgstr \"axe\"", "#. STRINGS.SKIN_DESCRIPTIONS._",
    "msgstr \"n/a\""]
  things := ["CreatePrefabSkin(\"a\",\n", grantLine, "CreatePrefabSkin(\"_\",\n",
    "\ttype = \"item\",\n", "CreatePrefabSkin(\"__\",\n", "\ttype = \"item\",\n"]
  clothing := []
  beefaloClothing := []
  emotes := []
  misc := []
  blacklist := []

theorem grantPairs_granting :
    grantPairs none granting.things = [(some "a", "_"), (some "a", "__")] := by
  decide +kernel

theorem canSort_granting : canSort granting.facts.rows := by
  decide +kernel

theorem kinds_granting : (some "_", "item") ∈ granting.facts.kinds ∧
    (some "__", "item") ∈ granting.facts.kinds := by
  decide +kernel

theorem description_of_granted_granting : ∃ rows r, sortRows granting.facts.rows = .ok rows ∧
    r ∈ rows ∧ r.id = some "_" ∧ granting.described.get? r.id = some "n/a" ∧
    ∃ b, granting.Grants b r.id ∧ r.description = granting.facts.descriptions.getD b ∧
      r.description ≠ "n/a" := by
  obtain ⟨rows, r, hrows, hr, hid⟩ := exists_row canSort_granting kinds_granting.1
  have hnone : granting.described.get? r.id = some "n/a" := by
    rw [hid]
    decide +kernel
  have hbuild : granting.facts.overrides.filled? r.id = none := by
    rw [hid]
    decide +kernel
  refine ⟨rows, r, hrows, hr, hid, hnone, ?_⟩
  refine (description_of_granted granting hrows hr hbuild).2.2 hnone (some "a") "axe" ?_ ?_ ?_
  · exact ⟨"_", hid, by simp [grantPairs_granting]⟩
  · decide +kernel
  · decide

/-- A skin that the catalog does not know gets nothing from the skin that grants it. -/
theorem unknown_gets_nothing : granting.Grants (some "a") (some "__") ∧
    granting.facts.descriptions.getD (some "a") = "axe" ∧
    ∃ rows r, sortRows granting.facts.rows = .ok rows ∧ r ∈ rows ∧ r.id = some "__" ∧
      r.description = "n/a" := by
  obtain ⟨rows, r, hrows, hr, hid⟩ := exists_row canSort_granting kinds_granting.2
  have hbuild : granting.facts.overrides.filled? r.id = none := by
    rw [hid]
    decide +kernel
  refine ⟨⟨"__", rfl, by simp [grantPairs_granting]⟩, ?_, rows, r, hrows, hr, hid, ?_⟩
  · decide +kernel
  · rw [description_eq ((mem_rows_of_sortRows hrows).mp hr) hbuild, hid]
    decide +kernel

end WikiFeed.Skin

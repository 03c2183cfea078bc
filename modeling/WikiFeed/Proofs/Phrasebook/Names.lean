import Mathlib.Data.List.Nodup
import Mathlib.Tactic.Tauto
import WikiFeed.Phrasebook.Basic
import WikiFeed.Proofs.Places

/-! # Names of things

Codes, wordings and translations share one set of names. A wording or a translation is added to what
its name stands for already, but a code takes its name for itself. So under a name stand the phrases
that bear it, from the last phrase on that has it as its code (`mem_standing_foldl`), and a phrase
whose wording is the code of a later one is lost under its wording. Main statement: `names_find`. -/

namespace WikiFeed.Phrasebook

open List

/-! ### What a name stands for -/

def Named.phrases : Named → List Phrase
  | .one p => [p]
  | .many ps => ps

def standing (ns : List (String × Named)) (name : String) : List Phrase :=
  ((ns.lookup name).map Named.phrases).getD []

theorem standing_put_self (ns : List (String × Named)) (name : String) (v : Named) :
    standing (put ns name v) name = v.phrases := by
  have hput : (put ns name v).lookup name = some v := Places.lookup_put_self ..
  rw [standing, hput]
  rfl

theorem standing_put_of_ne {name other : String} (h : name ≠ other) (ns : List (String × Named))
    (v : Named) : standing (put ns other v) name = standing ns name := by
  have hput : (put ns other v).lookup name = ns.lookup name := Places.lookup_put_of_ne h ..
  rw [standing, hput]
  rfl

theorem standing_addName (ns : List (String × Named)) (name other : String) (p : Phrase) :
    standing (addName ns other p) name =
      standing ns name ++ if name = other then [p] else [] := by
  by_cases h : name = other
  · subst h
    rw [if_pos rfl, addName]
    split
    all_goals
      rename_i hns
      rw [standing_put_self, standing, hns]
      rfl
  · rw [if_neg h, append_nil, addName]
    split <;> exact standing_put_of_ne h ..

/-! ### One phrase -/

@[irreducible]
def code (p : Phrase) : String := Text.lower (lastPart p.context)

/-- The names that a phrase is added to: its wording, and its translation if that is another one. A
phrase without a wording is added to none. -/
def labels (p : Phrase) : List String :=
  if p.source = "" then []
  else if p.source = p.text ∨ p.text = "" then [p.source]
  else [p.source, p.text]

theorem source_mem_labels {p : Phrase} (h : p.source ≠ "") : p.source ∈ labels p := by
  rw [labels, if_neg h]
  split <;> exact mem_cons_self

theorem text_mem_labels {p : Phrase} (hs : p.source ≠ "") (ht : p.text ≠ "") :
    p.text ∈ labels p := by
  rw [labels, if_neg hs]
  split
  · rename_i h
    rw [h.resolve_right ht]
    exact mem_cons_self
  · exact mem_cons_of_mem _ mem_cons_self

theorem mem_labelled {q p : Phrase} (names : List String) (name : String)
    (ns : List (String × Named)) :
    q ∈ standing (names.foldl (fun ns n => addName ns n p) ns) name ↔
      q ∈ standing ns name ∨ q = p ∧ name ∈ names := by
  induction names generalizing ns with
  | nil => simp
  | cons n names ih =>
    rw [foldl_cons, ih, standing_addName]
    by_cases h : name = n <;> simp [h]
    tauto

theorem nameStep_eq (ns : List (String × Named)) (notes : List String) (p : Phrase) :
    (nameStep false (ns, notes) p).1 =
      (labels p).foldl (fun ns n => addName ns n p) (put ns (code p) (.one p)) := by
  unfold nameStep labels
  by_cases hs : p.source = ""
  · simp [hs, code]
  by_cases hsame : p.source = p.text
  · have ht : p.text ≠ "" := hsame ▸ hs
    simp [hsame, ht, code]
  by_cases ht : p.text = ""
  · simp [hs, ht, code]
  · simp [hs, hsame, ht, code]

theorem mem_standing_nameStep {q p : Phrase} (state : List (String × Named) × List String)
    (name : String) :
    q ∈ standing (nameStep false state p).1 name ↔
      q = p ∧ (name = code p ∨ name ∈ labels p) ∨ q ∈ standing state.1 name ∧ name ≠ code p := by
  rw [nameStep_eq, mem_labelled]
  by_cases h : name = code p
  · subst h
    rw [standing_put_self]
    simp [Named.phrases]
    tauto
  · rw [standing_put_of_ne h]
    tauto

/-! ### All phrases -/

/-- **Under a name** stand the phrases that bear it, from the last one on whose code it is. -/
theorem mem_standing_foldl {q : Phrase} (name : String) :
    ∀ (ps : List Phrase) (state : List (String × Named) × List String),
    q ∈ standing (ps.foldl (nameStep false) state).1 name ↔
      (∃ before after, ps = before ++ q :: after ∧ (name = code q ∨ name ∈ labels q) ∧
        ∀ r ∈ after, name ≠ code r) ∨
        q ∈ standing state.1 name ∧ ∀ r ∈ ps, name ≠ code r
  | [], _ => by simp
  | p :: ps, state => by
    rw [foldl_cons, mem_standing_foldl name ps, mem_standing_nameStep]
    constructor
    · rintro (⟨before, after, rfl, h⟩ | ⟨⟨rfl, hname⟩ | ⟨hold, hp⟩, hps⟩)
      · exact .inl ⟨p :: before, after, rfl, h⟩
      · exact .inl ⟨[], ps, rfl, hname, hps⟩
      · exact .inr ⟨hold, forall_mem_cons.mpr ⟨hp, hps⟩⟩
    · rintro (⟨before, after, hps, hname, hafter⟩ | ⟨hold, hps⟩)
      · cases before with
        | nil =>
          obtain ⟨rfl, rfl⟩ := cons.inj hps
          exact .inr ⟨.inl ⟨rfl, hname⟩, hafter⟩
        | cons b before =>
          obtain ⟨rfl, rfl⟩ := cons.inj hps
          exact .inl ⟨before, after, rfl, hname, hafter⟩
      · obtain ⟨hp, hps⟩ := forall_mem_cons.mp hps
        exact .inr ⟨.inr ⟨hold, hp⟩, hps⟩

def things (book : Phrasebook) : List Phrase :=
  (book.map (·.2)).filter fun p => p.context.startsWith "STRINGS.NAMES."

/-- A phrase is found under one of its names unless that is the code of a later one. -/
theorem mem_standing_names_iff {book : Phrasebook} {before after : List Phrase} {p : Phrase}
    (hbook : things book = before ++ p :: after) (hcodes : ((things book).map code).Nodup)
    {name : String} (hname : name = code p ∨ name ∈ labels p) :
    p ∈ standing (names book false).1 name ↔ ∀ q ∈ after, name ≠ code q := by
  have hrun := mem_standing_foldl (q := p) name (things book) ([], [])
  refine hrun.trans ⟨?_, fun hafter => .inl ⟨before, after, hbook, hname, hafter⟩⟩
  rintro (⟨before', after', hbook', -, hafter⟩ | ⟨hold, -⟩)
  · -- the phrase stands in one place of the book only
    have hnodup := hcodes.of_map code
    rw [hbook, nodup_middle, nodup_cons, mem_append, not_or] at hnodup
    rw [hbook, append_cons_inj_of_notMem hnodup.1.1 hnodup.1.2] at hbook'
    exact hbook'.2.2 ▸ hafter
  · cases hold

/-- **A thing is found** under its code, whatever else has a name. It is found under its wording and
under its translation exactly if that is not the code of a thing that comes later: a code takes a
name away from the phrases that were added to it. -/
theorem names_find (book : Phrasebook) {before after : List Phrase} {p : Phrase}
    (hbook : things book = before ++ p :: after) (hcodes : ((things book).map code).Nodup)
    (hs : p.source ≠ "") (ht : p.text ≠ "") :
    p ∈ standing (names book false).1 (code p) ∧
      (p ∈ standing (names book false).1 p.source ↔ ∀ q ∈ after, p.source ≠ code q) ∧
      (p ∈ standing (names book false).1 p.text ↔ ∀ q ∈ after, p.text ≠ code q) := by
  refine ⟨?_, mem_standing_names_iff hbook hcodes (.inr (source_mem_labels hs)),
    mem_standing_names_iff hbook hcodes (.inr (text_mem_labels hs ht))⟩
  refine (mem_standing_names_iff hbook hcodes (.inl rfl)).mpr fun q hq heq => ?_
  rw [hbook, List.map_append, List.map_cons, List.nodup_append, List.nodup_cons] at hcodes
  exact hcodes.2.1.1 (heq ▸ List.mem_map_of_mem hq)

def axe : Phrase := ⟨"STRINGS.NAMES.AXE", "blade", "斧头"⟩

def blade : Phrase := ⟨"STRINGS.NAMES.BLADE", "Blade", "刀"⟩

def axeAndBlade : Phrasebook := [(axe.context, axe), (blade.context, blade)]

theorem things_axeAndBlade : things axeAndBlade = [] ++ axe :: [blade] := by with_unfolding_all rfl

theorem code_axe : code axe = "axe" := by decide +kernel

theorem code_blade : code blade = "blade" := by decide +kernel

theorem codes_axeAndBlade : ((things axeAndBlade).map code).Nodup := by
  simp [things_axeAndBlade, code_axe, code_blade]

theorem names_find_axe : axe ∈ standing (names axeAndBlade false).1 "axe" ∧
    axe ∈ standing (names axeAndBlade false).1 "斧头" := by
  obtain ⟨hcode, -, htext⟩ :=
    names_find axeAndBlade things_axeAndBlade codes_axeAndBlade (by decide) (by decide)
  exact ⟨code_axe ▸ hcode, htext.mpr (by simp [code_blade, axe])⟩

/-- The wording of the axe stands for the blade only. -/
theorem wording_goes_to_later_code : axe ∈ things axeAndBlade ∧
    ((things axeAndBlade).map code).Nodup ∧
      axe ∉ standing (names axeAndBlade false).1 axe.source := by
  have hiff := mem_standing_names_iff things_axeAndBlade codes_axeAndBlade
    (.inr (source_mem_labels (p := axe) (by decide)))
  refine ⟨by simp [things_axeAndBlade], codes_axeAndBlade, fun h => ?_⟩
  exact hiff.mp h blade mem_cons_self code_blade.symm

end WikiFeed.Phrasebook

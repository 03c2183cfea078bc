import Mathlib.Data.Prod.Lex
import Mathlib.Data.String.Basic
import WikiFeed.History.Feed
import WikiFeed.Proofs.Decimal.Numerals
import WikiFeed.Proofs.Outcome
import WikiFeed.Proofs.Overlays
import WikiFeed.Proofs.Sprite.Members

/-! # First versions

The lists of strings are taken in the order of their versions as texts, and a prefab keeps the
version under which it is listed first. So a prefab that is not in the table yet gets the version
that is least as a text among the lists that name it. That is the least number only among versions
with equally many digits. Main statement: `saveVersions_lists_first`. -/

namespace WikiFeed

open List Places Decimal Outcome

/-! ### Versions as numbers -/

namespace Decimal

def withDigit (n : Nat) (c : Char) : Nat := n * 10 + (c.toNat - '0'.toNat)

theorem foldl_withDigit_lt : ∀ {cs ds : List Char}, AreDigits cs → cs.length = ds.length →
    ∀ {m n : Nat}, m < n → cs.foldl withDigit m < ds.foldl withDigit n
  | [], [], _, _, _, _, h => h
  | c :: cs, d :: ds, hcs, hlength, m, n, h => by
    obtain ⟨hc, hcs⟩ := forall_mem_cons.mp hcs
    have hc : c.toNat ≤ 57 := by simp [Char.isDigit, UInt32.le_iff_toNat_le] at hc; exact hc.2
    refine foldl_withDigit_lt hcs (Nat.succ.inj hlength) ?_
    unfold withDigit
    have : '0'.toNat = 48 := rfl
    omega

theorem foldl_withDigit_le : ∀ {cs ds : List Char}, AreDigits cs → AreDigits ds →
    cs.length = ds.length → ¬ ds < cs → ∀ n : Nat, cs.foldl withDigit n ≤ ds.foldl withDigit n
  | [], [], _, _, _, _, _ => Nat.le_refl _
  | c :: cs, d :: ds, hcs, hds, hlength, h, n => by
    obtain ⟨hc, hcs'⟩ := forall_mem_cons.mp hcs
    have hds' : AreDigits ds := (forall_mem_cons.mp hds).2
    rw [cons_lt_cons_iff, not_or, not_and] at h
    by_cases heq : c = d
    · subst heq
      exact foldl_withDigit_le hcs' hds' (Nat.succ.inj hlength) (h.2 rfl) _
    · have hlt : c.toNat < d.toNat := by
        have hle : c.toNat ≤ d.toNat := Nat.le_of_not_lt h.1
        have hne : c.toNat ≠ d.toNat := fun hn => heq (Char.toNat_inj.mp hn)
        omega
      have hc : 48 ≤ c.toNat := by simp [Char.isDigit, UInt32.le_iff_toNat_le] at hc; exact hc.1
      refine Nat.le_of_lt (foldl_withDigit_lt hcs' (Nat.succ.inj hlength) ?_)
      unfold withDigit
      have : '0'.toNat = 48 := rfl
      omega

end Decimal

/-! ### Files -/

namespace Folder

variable {f : Folder} {path other : String} {c x : Content}

/-- A path in plain form leads to a file, and the folder around it is there. -/
structure Holds (f : Folder) (path : String) (c : Content) : Prop where
  plain : path ∉ ["", "/"] ∧ Path.plain path = path
  found : f.entries.lookup path = some (some c)
  parent : f.hasParent path

theorem find?_eq (h : path ∉ ["", "/"] ∧ Path.plain path = path) :
    f.find? path = f.entries.lookup path := by
  obtain ⟨hne, hplain⟩ := h
  simp only [mem_cons, not_mem_nil, or_false, not_or] at hne
  unfold find?
  rw [if_neg (by simpa using hne.1), hplain]
  split
  · exact absurd rfl hne.1
  · exact absurd rfl hne.2
  · rfl

theorem Holds.read_eq (h : f.Holds path c) : f.read path = .ok c := by
  rw [read, find?_eq h.plain, h.found]

theorem Holds.write_eq (h : f.Holds path c) (x : Content) :
    f.write path x = .ok (f.put path (some x)) := by
  have hne : path ≠ "" := fun h' => h.plain.1 (by simp [h'])
  have hfolder : f.hasFolder path = false := by
    rw [hasFolder, find?_eq h.plain, h.found]
  simp [write, hne, h.parent, hfolder, h.plain.2]

theorem hasFolder_iff : f.hasFolder path ↔ path ≠ "" ∧
    (Path.plain path ∈ ["", "/"] ∨ f.entries.lookup (Path.plain path) = some none) := by
  unfold hasFolder find?
  by_cases h : path = ""
  · simp [h]
  rw [if_neg (by simpa using h)]
  generalize Path.plain path = p
  by_cases hempty : p = ""
  · simp [h, hempty]
  by_cases hroot : p = "/"
  · simp [h, hroot]
  simp only [hempty, hroot, mem_cons, not_mem_nil, false_or]
  cases f.entries.lookup p with
  | none => simp
  | some c => cases c <;> simp [h]

/-- The folders stay when a file is written anew. -/
theorem Holds.hasFolder_put (h : f.Holds path c) (x : Content) (hother : f.hasFolder other) :
    (f.put path (some x)).hasFolder other := by
  rw [hasFolder_iff] at hother ⊢
  refine ⟨hother.1, hother.2.imp_right fun hnone => ?_⟩
  have hne : Path.plain other ≠ path := by
    intro heq
    rw [heq, h.found] at hnone
    cases hnone
  exact (Places.lookup_put_of_ne hne ..).trans hnone

theorem Holds.put (h : f.Holds path c) (x : Content) {y : Content} (hother : f.Holds other y)
    (hne : other ≠ path) : (f.put path (some x)).Holds other y where
  plain := hother.plain
  found := (Places.lookup_put_of_ne hne ..).trans hother.found
  parent := by
    have hparent := hother.parent
    unfold hasParent at *
    split at hparent
    · rfl
    · exact h.hasFolder_put x hparent

end Folder

namespace History

open Sprite

/-! ### Rows -/

abbrev Rows := List (String × Datum)

def enlist (ps : Rows) (e : String × String) : Rows :=
  if (ps.lookup e.1).isSome then ps else ps ++ [(e.1, .str e.2)]

theorem lookup_enlist (ps : Rows) (e : String × String) (name : String) :
    (enlist ps e).lookup name =
      (ps.lookup name).or (if name = e.1 then some (.str e.2) else none) := by
  unfold enlist
  split
  · split
    · subst_vars
      exact (Option.or_of_isSome ‹_›).symm
    · rw [Option.or_none]
  · rw [lookup_append, lookup_cons, lookup_nil]
    by_cases h : name = e.1
    · simp [h]
    · simp [h, beq_eq_false_iff_ne.mpr h]

theorem distinct_enlist {ps : Rows} (h : Distinct ps) (e : String × String) :
    Distinct (enlist ps e) := by
  unfold enlist
  split
  · exact h
  · rename_i hnew
    rw [← Places.put_of_not_mem (mt (Places.lookup_isSome_iff ps e.1).mpr hnew)]
    exact h.put _ _

theorem lookup_foldl_enlist (name : String) : ∀ (es : List (String × String)) (ps : Rows),
    (es.foldl enlist ps).lookup name = (ps.lookup name).or ((es.lookup name).map .str)
  | [], ps => by simp
  | e :: es, ps => by
    rw [foldl_cons, lookup_foldl_enlist name es, lookup_enlist, Option.or_assoc, lookup_cons]
    by_cases h : name = e.1
    · simp [h]
    · simp [h, beq_eq_false_iff_ne.mpr h]

theorem distinct_foldl_enlist (es : List (String × String)) {ps : Rows} (h : Distinct ps) :
    Distinct (es.foldl enlist ps) := by
  induction es generalizing ps with
  | nil => exact h
  | cons e es ih => exact ih (distinct_enlist h e)

theorem take_keyed {e : Catalog.Entry} {name : Option String} (h : prefabIn e = .ok name)
    (version : String) (ps : Rows) : Versions.take version (keyed .str ps) e =
      .ok (keyed .str ((name.map (·, version)).toList.foldl enlist ps)) := by
  unfold Versions.take
  rw [h, ok_bind]
  cases name with
  | none => rfl
  | some name =>
    simp only [lookup_keyed keying_str, Option.map_some, Option.toList_some, foldl_cons, foldl_nil,
      enlist]
    split
    · rfl
    · simp [keyed, pure, Except.pure]

theorem takeAll_keyed (version : String) :
    ∀ {es : List Catalog.Entry} {names : List (Option String)},
    es.mapM prefabIn = .ok names → ∀ ps : Rows, Versions.takeAll version (keyed .str ps) es =
      .ok (keyed .str ((names.reduceOption.map (·, version)).foldl enlist ps))
  | [], _, h, _ => by
    cases h
    rfl
  | e :: es, _, h, ps => by
    rw [mapM_cons] at h
    obtain ⟨name, hname, h⟩ := exists_of_bind_eq_ok h
    obtain ⟨names, hnames, h⟩ := exists_of_bind_eq_ok h
    cases h
    rw [Versions.takeAll, foldlM_cons, take_keyed hname, ok_bind]
    rw [show foldlM (Versions.take version) _ es = _ from takeAll_keyed version hnames _]
    cases name <;> rfl

/-! ### Sorted rows -/

def paired (e : String × Datum) : Datum × Datum × Datum := (.list [.str e.1, e.2], .str e.1, e.2)

theorem below_paired {d e : String × Datum} (h : d.1 ≠ e.1) :
    below (paired d).1 (paired e).1 = .ok (decide (d.1 < e.1)) := by
  simp [below, below.belowItems, paired, same_str, h]

theorem exists_insertByKey (e : String × Datum) : ∀ es : Rows, e.1 ∉ es.map (·.1) →
    ∃ fs : Rows, insertByKey (paired e).1 (paired e).2 (es.map paired) = .ok (fs.map paired) ∧
      fs.Perm (e :: es)
  | [], _ => ⟨[e], rfl, .rfl⟩
  | d :: es, h => by
    rw [map_cons, mem_cons, not_or] at h
    rw [map_cons, show paired d = ((paired d).1, (paired d).2) from rfl, insertByKey,
      below_paired h.1, ok_bind]
    split
    · exact ⟨e :: d :: es, rfl, .rfl⟩
    · obtain ⟨fs, hfs, hperm⟩ := exists_insertByKey e es h.2
      rw [hfs]
      exact ⟨d :: fs, rfl, (hperm.cons d).trans (.swap e d es)⟩

theorem exists_foldlM_insertByKey : ∀ es done : Rows, Distinct (es ++ done) →
    ∃ fs : Rows, (es.map paired).foldlM (fun done e => insertByKey e.1 e.2 done) (done.map paired) =
      .ok (fs.map paired) ∧ fs.Perm (es ++ done)
  | [], done, _ => ⟨done, rfl, .rfl⟩
  | e :: es, done, h => by
    obtain ⟨hnew, hrest⟩ := Distinct.of_cons h
    obtain ⟨fs, hfs, hperm⟩ := exists_insertByKey e done (by simp_all)
    have hmiddle : (es ++ fs).Perm (e :: (es ++ done)) :=
      (hperm.append_left es).trans perm_middle
    obtain ⟨gs, hgs, hperm⟩ := exists_foldlM_insertByKey es fs
      ((hmiddle.map _).nodup_iff.mpr h)
    rw [map_cons, foldlM_cons, hfs, ok_bind]
    exact ⟨gs, hgs, hperm.trans hmiddle⟩

theorem exists_sorted_keyed {ps : Rows} (h : Distinct ps) :
    ∃ qs : Rows, Versions.sorted (keyed .str ps) = .ok (keyed .str qs) ∧ qs.Perm ps := by
  obtain ⟨qs, hqs, hperm⟩ := exists_foldlM_insertByKey ps [] (by simpa using h)
  refine ⟨qs, ?_, by simpa using hperm⟩
  have hpairs : (keyed .str ps).mapM (fun e => do
      return (← (Except.ok (.list [e.1, e.2]) : Result Datum), e)) = .ok (ps.map paired) := by
    refine (mapM_eq_ok (g := fun e : Datum × Datum => (Datum.list [e.1, e.2], e))
      fun _ _ => rfl).trans ?_
    simp [keyed, paired, Function.comp_def]
  unfold Versions.sorted sortByKey
  rw [hpairs, ok_bind]
  rw [show foldlM _ [] (ps.map paired) = _ from hqs, ok_bind]
  simp [keyed, paired, Function.comp_def, pure, Except.pure]

/-! ### Lists of strings -/

/-- The entries that are read from a list; none if its bytes are not text. -/
def entriesIn (c : Content) : Result (Option (List Catalog.Entry)) :=
  match Errand.plainText c with
  | .error _ => .ok none
  | .ok text =>
    match Errand.plainText (.bytes (withHeader c.toBytes text)) with
    | .error _ => .ok none
    | .ok text =>
      match Catalog.read? text with
      | some entries => .ok (some entries)
      | none => .error .notCatalog

def namesIn (c : Content) : Result (List String) := do
  match ← entriesIn c with
  | some entries => return (← entries.mapM prefabIn).reduceOption
  | none => return []

section Runs

variable {d : Desk} {p : Pot} {c : Content} {ps : Rows}

/-- A desk that differs in other files and in what is printed only. -/
structure Leaves (d : Desk) (path : String) (d' : Desk) : Prop where
  actions : d'.actions = d.actions
  holds {other : String} {x : Content} : other ≠ path → d.studio.folder.Holds other x →
    d'.studio.folder.Holds other x

theorem inStudio_eq {α : Type} {work : Work α} {a : α} {s : Studio} (h : work d.studio = .ok a s) :
    Errand.inStudio work d = .ok a { d with studio := s } := by
  unfold Errand.inStudio
  rw [bind_of_eq_ok (show (get : Errand Desk) d = .ok d d from rfl), h]
  rfl

theorem fileAt_eq {path : String} (h : d.studio.folder.Holds path c) :
    Errand.fileAt path d = .ok c d := by
  refine inStudio_eq ?_
  change Studio.lift (d.studio.folder.read path) d.studio = _
  rw [h.read_eq]
  rfl

theorem exists_storeFile {path : String} (h : d.studio.folder.Holds path c) (x : Content) :
    ∃ d', Errand.inStudio (Studio.storeFile path x) d = .ok () d' ∧ Leaves d path d' := by
  have hstore : Studio.storeFile path x d.studio =
      .ok () { d.studio with folder := d.studio.folder.put path (some x) } := by
    change (Studio.lift (d.studio.folder.write path x) >>= _) d.studio = _
    rw [h.write_eq]
    rfl
  exact ⟨_, inStudio_eq hstore, rfl, fun hne hother => h.put x hother hne⟩

theorem exists_entriesOf (h : d.studio.folder.Holds (inHome p.path) c)
    {entries : Option (List Catalog.Entry)} (hentries : entriesIn c = .ok entries) :
    ∃ d', entriesOf p d = .ok entries d' ∧ Leaves d (inHome p.path) d' := by
  unfold entriesIn at hentries
  unfold entriesOf
  rw [bind_of_eq_ok (fileAt_eq h)]
  cases htext : Errand.plainText c with
  | error e =>
    rw [htext] at hentries
    cases hentries
    exact ⟨d, rfl, rfl, fun _ => id⟩
  | ok text =>
    obtain ⟨d', hstore, hleaves⟩ := exists_storeFile h (.bytes (withHeader c.toBytes text))
    refine ⟨d', ?_, hleaves⟩
    rw [htext] at hentries
    simp only at hentries ⊢
    rw [bind_of_eq_ok hstore]
    cases hagain : Errand.plainText (.bytes (withHeader c.toBytes text)) with
    | error e =>
      rw [hagain] at hentries
      cases hentries
      rfl
    | ok text =>
      rw [hagain] at hentries
      simp only at hentries ⊢
      cases hread : Catalog.read? text with
      | none =>
        rw [hread] at hentries
        cases hentries
      | some entries =>
        rw [hread] at hentries
        cases hentries
        rfl

theorem exists_takePot (h : d.studio.folder.Holds (inHome p.path) c) {names : List String}
    (hnames : namesIn c = .ok names) (ps : Rows) :
    ∃ d', takePot (keyed .str ps) p d =
      .ok (keyed .str ((names.map (·, p.version)).foldl enlist ps)) d' ∧
      Leaves d (inHome p.path) d' := by
  obtain ⟨entries, hentries, hnames⟩ := exists_of_bind_eq_ok hnames
  obtain ⟨d', hd', hleaves⟩ := exists_entriesOf h hentries
  unfold takePot
  rw [bind_of_eq_ok hd']
  cases entries with
  | none =>
    cases hnames
    exact ⟨_, rfl, hleaves.actions, hleaves.holds⟩
  | some entries =>
    obtain ⟨found, hfound, hnames⟩ := exists_of_bind_eq_ok hnames
    cases hnames
    refine ⟨d', ?_, hleaves⟩
    change Errand.lift (Versions.takeAll p.version (keyed .str ps) entries) d' = _
    rw [takeAll_keyed p.version hfound]
    rfl

def finds (names : Pot → List String) (ls : List Pot) : List (String × String) :=
  ls.flatMap fun p => (names p).map (·, p.version)

theorem exists_foldlM_takePot {names : Pot → List String} : ∀ {ls : List Pot} {d : Desk},
    (ls.map fun p => inHome p.path).Nodup →
    (∀ p ∈ ls, ∃ c, d.studio.folder.Holds (inHome p.path) c ∧ namesIn c = .ok (names p)) →
    ∀ ps : Rows, ∃ d', ls.foldlM takePot (keyed .str ps) d =
      .ok (keyed .str ((finds names ls).foldl enlist ps)) d' ∧ d'.actions = d.actions
  | [], d, _, _, _ => ⟨d, rfl, rfl⟩
  | p :: ls, d, hpaths, hlists, ps => by
    obtain ⟨hp, hpaths⟩ := nodup_cons.mp hpaths
    obtain ⟨⟨c, hc, hnames⟩, hlists⟩ := forall_mem_cons.mp hlists
    obtain ⟨d', hd', hleaves⟩ := exists_takePot hc hnames ps
    have hrest (q) (hq : q ∈ ls) : ∃ c, d'.studio.folder.Holds (inHome q.path) c ∧
        namesIn c = .ok (names q) := by
      obtain ⟨x, hx, hq'⟩ := hlists q hq
      exact ⟨x, hleaves.holds (fun heq => hp (mem_map.mpr ⟨q, hq, heq⟩)) hx, hq'⟩
    obtain ⟨d'', hd'', hactions⟩ := exists_foldlM_takePot hpaths hrest
      ((names p).map (·, p.version) |>.foldl enlist ps)
    refine ⟨d'', ?_, hactions.trans hleaves.actions⟩
    rw [foldlM_cons, bind_of_eq_ok hd', hd'', show finds names (p :: ls) = _ from
      flatMap_cons, foldl_append]
    rfl

end Runs

/-! ### The order of versions -/

theorem Pot.atMost_iff {a b : Pot} :
    a.atMost b ↔ toLex (a.version, a.path) ≤ toLex (b.version, b.path) := by
  rw [Prod.Lex.toLex_le_toLex]
  unfold Pot.atMost
  by_cases h : a.version = b.version
  · simp [h, ← String.not_lt]
  · simp [h]

theorem pairwise_mergeSort_version (ls : List Pot) :
    (ls.mergeSort Pot.atMost).Pairwise fun a b => ¬ b.version < a.version := by
  refine (@pairwise_mergeSort _ Pot.atMost ?_ ?_ ls).imp ?_
  · intro a b c hab hbc
    rw [Pot.atMost_iff] at *
    exact hab.trans hbc
  · intro a b
    rw [Bool.or_eq_true, Pot.atMost_iff, Pot.atMost_iff]
    exact le_total _ _
  · intro a b hab
    exact not_lt.mpr (Prod.Lex.toLex_le_toLex'.mp (Pot.atMost_iff.mp hab)).1

/-- Among lists in order, the first one with a prefab has the least version. -/
theorem exists_of_lookup_finds {names : Pot → List String} {name version : String} :
    ∀ {ls : List Pot}, ls.Pairwise (fun a b => ¬ b.version < a.version) →
      (finds names ls).lookup name = some version →
      ∃ p ∈ ls, name ∈ names p ∧ version = p.version ∧
        ∀ q ∈ ls, name ∈ names q → ¬ q.version < p.version
  | p :: ls, hsorted, h => by
    obtain ⟨hp, hsorted⟩ := pairwise_cons.mp hsorted
    rw [finds, flatMap_cons, lookup_append] at h
    by_cases hname : name ∈ names p
    · have hfirst : ((names p).map (·, p.version)).lookup name = some p.version := by
        have hsome : (((names p).map (·, p.version)).lookup name).isSome := by
          rw [Places.lookup_isSome_iff]
          simpa using hname
        obtain ⟨v, hv⟩ := Option.isSome_iff_exists.mp hsome
        have hmem := Places.mem_of_lookup_eq_some hv
        simp only [mem_map, Prod.mk.injEq] at hmem
        obtain ⟨_, -, -, rfl⟩ := hmem
        exact hv
      rw [hfirst] at h
      cases h
      refine ⟨p, mem_cons_self, hname, rfl, fun q hq _ => ?_⟩
      rcases mem_cons.mp hq with rfl | hq
      · exact String.lt_irrefl _
      · exact hp q hq
    · rw [lookup_eq_none_of_not_mem (by simpa using hname), Option.none_or] at h
      obtain ⟨q, hq, hmem, hversion, hleast⟩ := exists_of_lookup_finds hsorted h
      refine ⟨q, mem_cons_of_mem _ hq, hmem, hversion, fun r hr hr' => ?_⟩
      rcases mem_cons.mp hr with rfl | hr
      · exact absurd hr' hname
      · exact hleast r hr hr'

/-! ### The lists of a folder -/

/-- The lists in a folder, in the order in which they are taken. -/
def potsIn (f : Folder) : List Pot :=
  potsAmong (((f.files.map (·.1)).filter (·.startsWith (inHome "pot/"))).map fun p =>
    (p.drop (inHome "").length).toString)

/-- Paths are in plain form, lead to one thing each, and the folders around files are there. -/
structure Tidy (f : Folder) : Prop where
  distinct : Distinct f.entries
  plain : ∀ e ∈ f.files, e.1 ∉ ["", "/"] ∧ Path.plain e.1 = e.1
  parent : ∀ e ∈ f.files, f.hasParent e.1

theorem Tidy.holds {f : Folder} (h : Tidy f) {e : String × Content} (he : e ∈ f.files) :
    f.Holds e.1 e.2 where
  plain := h.plain e he
  found := by
    obtain ⟨⟨path, c⟩, hmem, heq⟩ := mem_filterMap.mp he
    obtain ⟨c, rfl, rfl⟩ := Option.map_eq_some_iff.mp heq
    exact (mem_iff_lookup h.distinct).mp hmem
  parent := h.parent e he

theorem inHome_drop {path : String} (h : path.startsWith (inHome "pot/")) :
    inHome (path.drop (inHome "").length).toString = path := by
  obtain ⟨rest, hrest⟩ := String.startsWith_string_iff.mp h
  have hhome (s : String) : (inHome s).toList = (inHome "").toList ++ s.toList := by
    simp [inHome, String.toList_append]
  apply String.toList_inj.mp
  rw [hhome]
  change _ ++ (path.drop (inHome "").length).copy.toList = _
  rw [String.toList_copy_drop, ← hrest, hhome, append_assoc]
  exact congrArg _ (@drop_left _ (inHome "").toList _)

theorem files_sublist (f : Folder) : (f.files.map (·.1)).Sublist (f.entries.map (·.1)) := by
  unfold Folder.files
  generalize f.entries = es
  induction es with
  | nil => exact .slnil
  | cons e es ih =>
    rw [filterMap_cons]
    cases e.2 with
    | none => exact ih.cons _
    | some c => exact ih.cons_cons _

/-- The lists are files of the folder, and each of them is taken once. -/
theorem nodup_potsIn {f : Folder} (h : Tidy f) :
    ((potsIn f).map fun p => inHome p.path).Nodup ∧
      ∀ p ∈ potsIn f, ∃ c, (inHome p.path, c) ∈ f.files := by
  let paths := (f.files.map (·.1)).filter (·.startsWith (inHome "pot/"))
  let ends := (paths.map fun p => (p.drop (inHome "").length).toString).filter (·.endsWith ".pot")
  have hperm : ((potsIn f).map fun p => inHome p.path).Perm (ends.map inHome) := by
    have hsort := (mergeSort_perm (ends.map fun p =>
      (⟨Text.substitute ".pot" "" (Path.name p), p⟩ : Pot)) Pot.atMost).map fun p => inHome p.path
    rwa [map_map] at hsort
  have hsub : (ends.map inHome).Sublist (f.files.map (·.1)) := by
    have hends : (ends.map inHome).Sublist _ := filter_sublist.map inHome
    have hpaths : paths.map (inHome ∘ fun p => (p.drop (inHome "").length).toString) = paths :=
      (map_congr_left (g := id) fun p hp => inHome_drop (mem_filter.mp hp).2).trans (map_id paths)
    rw [map_map, hpaths] at hends
    exact hends.trans filter_sublist
  refine ⟨hperm.nodup_iff.mpr (.sublist (hsub.trans (files_sublist f)) h.distinct), fun p hp => ?_⟩
  obtain ⟨e, he, heq⟩ := mem_map.mp (hsub.subset (hperm.mem_iff.mp (mem_map_of_mem hp)))
  exact ⟨e.2, heq ▸ he⟩

def namesOf (f : Folder) (p : Pot) : List String :=
  match f.read (inHome p.path) >>= namesIn with
  | .ok names => names
  | .error _ => []

def Listed (f : Folder) (p : Pot) (name : String) : Prop := p ∈ potsIn f ∧ name ∈ namesOf f p

/-- All lists of the folder can be read. -/
def Readable (f : Folder) : Prop :=
  ∀ p ∈ potsIn f, ∀ c, (inHome p.path, c) ∈ f.files → ∃ names, namesIn c = .ok names

/-- What stands in the table that is saved: the rows before, and the first finds. -/
theorem exists_saveVersions (d : Desk) (ps : Rows) (hps : Distinct ps)
    (htidy : Tidy d.studio.folder)
    (hlists : Readable d.studio.folder) :
    ∃ d' qs, saveVersions (keyed .str ps) d = .ok () d' ∧
      d'.actions = d.actions ++ [.save pageTitle (tableText (keyed .str qs)) none] ∧
      Distinct qs ∧ ∀ name, qs.lookup name = (ps.lookup name).or
        (((finds (namesOf d.studio.folder) (potsIn d.studio.folder)).lookup name).map .str) := by
  have hholds (p) (hp : p ∈ potsIn d.studio.folder) : ∃ c, d.studio.folder.Holds (inHome p.path) c ∧
      namesIn c = .ok (namesOf d.studio.folder p) := by
    obtain ⟨c, hc⟩ := (nodup_potsIn htidy).2 p hp
    obtain ⟨names, hnames⟩ := hlists p hp c hc
    refine ⟨c, htidy.holds hc, ?_⟩
    rw [namesOf, (htidy.holds hc).read_eq, ok_bind, hnames]
  have hdistinct :=
    distinct_foldl_enlist (finds (namesOf d.studio.folder) (potsIn d.studio.folder)) hps
  obtain ⟨qs, hsorted, hperm⟩ := exists_sorted_keyed hdistinct
  have hqs : Distinct qs := (hperm.map _).nodup_iff.mpr hdistinct
  obtain ⟨d', hd', hactions⟩ := exists_foldlM_takePot (d := { d with studio := { d.studio with
    printed := d.studio.printed ++ (potsText (potsIn d.studio.folder) ++ "\n") } })
    (nodup_potsIn htidy).1 hholds ps
  refine ⟨{ d' with actions := d'.actions ++ [.save pageTitle (tableText (keyed .str qs)) none] },
    qs, ?_, congrArg (· ++ _) hactions, hqs, fun name => ?_⟩
  · unfold saveVersions
    rw [bind_of_eq_ok (show pots d = .ok (potsIn d.studio.folder) d from rfl),
      bind_of_eq_ok (show Errand.print _ d = .ok () _ from rfl), bind_of_eq_ok hd',
      hsorted]
    rfl
  · exact (lookup_eq_of_perm hqs hperm name).trans (lookup_foldl_enlist ..)

/-- **The table keeps the prefabs** that it has. Every other prefab in a list is added, with the
least version in the order of texts among the lists that name it, and no others are. Where the
versions are numerals with equally many digits, that is the least number. -/
theorem saveVersions_lists_first (d : Desk) (ps : Rows) (hps : Distinct ps)
    (htidy : Tidy d.studio.folder)
    (hlists : Readable d.studio.folder) :
    ∃ d' qs, saveVersions (keyed .str ps) d = .ok () d' ∧
      d'.actions = d.actions ++ [.save pageTitle (tableText (keyed .str qs)) none] ∧
      Distinct qs ∧ ps ⊆ qs ∧
      ∀ name, name ∉ ps.map (·.1) →
        (name ∈ qs.map (·.1) ↔ ∃ p, Listed d.studio.folder p name) ∧
        ∀ v, (name, v) ∈ qs → ∃ p, Listed d.studio.folder p name ∧ v = .str p.version ∧
          ∀ q, Listed d.studio.folder q name → ¬ q.version < p.version ∧
            (AreDigits p.version.toList → AreDigits q.version.toList →
              p.version.length = q.version.length →
              ofDigits p.version.toList ≤ ofDigits q.version.toList) := by
  obtain ⟨d', qs, hd', hactions, hqs, hlookup⟩ := exists_saveVersions d ps hps htidy hlists
  refine ⟨d', qs, hd', hactions, hqs, fun e he => ?_, fun name hname => ?_⟩
  · rw [mem_iff_lookup hqs, hlookup, (mem_iff_lookup hps).mp he, Option.some_or]
  have hnone : ps.lookup name = none := lookup_eq_none_of_not_mem hname
  refine ⟨?_, fun v hv => ?_⟩
  · rw [← Places.lookup_isSome_iff, hlookup, hnone, Option.none_or, Option.isSome_map,
      Places.lookup_isSome_iff]
    simp [finds, Listed]
  · rw [mem_iff_lookup hqs, hlookup, hnone, Option.none_or] at hv
    obtain ⟨version, hversion, rfl⟩ := Option.map_eq_some_iff.mp hv
    obtain ⟨p, hp, hmem, rfl, hleast⟩ :=
      exists_of_lookup_finds (pairwise_mergeSort_version _) hversion
    refine ⟨p, ⟨hp, hmem⟩, rfl, fun q hq => ⟨hleast q hq.1 hq.2, fun hpd hqd hlength => ?_⟩⟩
    exact Decimal.foldl_withDigit_le hpd hqd hlength (hleast q hq.1 hq.2) 0

/-! ### A version with one more digit -/

def listOfB : Content :=
  .ofText "msgid \"\"\nmsgstr \"\"\n\nmsgctxt \"STRINGS.NAMES.B\"\nmsgid \"x\"\nmsgstr \"\"\n"

def twoLists : Folder :=
  ⟨[("Prefab History", none), ("Prefab History/pot", none), ("Prefab History/pot/8", none),
    ("Prefab History/pot/9", none), ("Prefab History/pot/8/99999.pot", some listOfB),
    ("Prefab History/pot/9/100000.pot", some listOfB)]⟩

def potRoom : Desk := ⟨.empty, "", ⟨"", ""⟩, .ofFolder twoLists, [], []⟩

theorem tidy_twoLists : Tidy twoLists :=
  ⟨by rw [Distinct]; decide, by decide +kernel, by decide +kernel⟩

theorem potsIn_twoLists :
    potsIn twoLists = [⟨"100000", "pot/9/100000.pot"⟩, ⟨"99999", "pot/8/99999.pot"⟩] := by
  have hpaths : potsIn twoLists =
      ([⟨"99999", "pot/8/99999.pot"⟩, ⟨"100000", "pot/9/100000.pot"⟩] : List Pot).mergeSort
        Pot.atMost := by
    refine congrArg (mergeSort · Pot.atMost) ?_
    decide +kernel
  have hfirst : Pot.atMost ⟨"99999", "pot/8/99999.pot"⟩ ⟨"100000", "pot/9/100000.pot"⟩ = false := by
    decide +kernel
  rw [hpaths, mergeSort]
  simp [MergeSort.Internal.splitInTwo, hfirst]

theorem namesIn_listOfB : namesIn listOfB = .ok ["b"] := by
  have hnames : (namesIn listOfB).toOption = some ["b"] := by decide +kernel
  cases h : namesIn listOfB with
  | error e => rw [h] at hnames; cases hnames
  | ok names => rw [h] at hnames; cases hnames; rfl

theorem namesIn_twoLists (p : Pot) (c : Content) (h : (inHome p.path, c) ∈ twoLists.files) :
    namesIn c = .ok ["b"] := by
  have hc : c = listOfB := by
    simp [Folder.files, twoLists] at h
    tauto
  exact hc ▸ namesIn_listOfB

theorem namesOf_twoLists {p : Pot} (hp : p ∈ potsIn twoLists) : namesOf twoLists p = ["b"] := by
  obtain ⟨c, hc⟩ := (nodup_potsIn tidy_twoLists).2 p hp
  rw [namesOf, (tidy_twoLists.holds hc).read_eq, ok_bind, namesIn_twoLists p c hc]

theorem saveVersions_lists_first_twoLists :
    ∃ d' qs, saveVersions (keyed .str [("axe", .str "100")]) potRoom = .ok () d' ∧
      d'.actions = [.save pageTitle (tableText (keyed .str qs)) none] ∧
      ("axe", .str "100") ∈ qs ∧ "b" ∈ qs.map (·.1) := by
  obtain ⟨d', qs, hd', hactions, -, hrows, hnew⟩ :=
    saveVersions_lists_first potRoom [("axe", .str "100")] (by rw [Distinct]; decide)
      tidy_twoLists fun p _ c hc => ⟨_, namesIn_twoLists p c hc⟩
  have hpot : ⟨"99999", "pot/8/99999.pot"⟩ ∈ potsIn twoLists := by simp [potsIn_twoLists]
  exact ⟨d', qs, hd', hactions, hrows mem_cons_self, (hnew "b" (by decide)).1.mpr
    ⟨_, hpot, namesOf_twoLists hpot ▸ mem_cons_self⟩⟩

/-- Of two lists with one thing, the one with the greater number comes first as a text. -/
theorem longer_version_listed :
    (∀ p, Listed twoLists p "b" ↔
      p = ⟨"99999", "pot/8/99999.pot"⟩ ∨ p = ⟨"100000", "pot/9/100000.pot"⟩) ∧
      ∃ d' qs, saveVersions [] potRoom = .ok () d' ∧
        d'.actions = [.save pageTitle (tableText (keyed .str qs)) none] ∧
        qs.lookup "b" = some (.str "100000") := by
  have hlisted (p) : Listed twoLists p "b" ↔ p ∈ potsIn twoLists :=
    and_iff_left_of_imp fun hp => namesOf_twoLists hp ▸ mem_cons_self
  refine ⟨fun p => by rw [hlisted]; simp [potsIn_twoLists, or_comm], ?_⟩
  obtain ⟨d', qs, hd', hactions, -, hlookup⟩ :=
    exists_saveVersions potRoom [] nodup_nil tidy_twoLists
      fun p _ c hc => ⟨_, namesIn_twoLists p c hc⟩
  refine ⟨d', qs, hd', hactions, (hlookup "b").trans ?_⟩
  have hfinds : finds (namesOf twoLists) (potsIn twoLists) =
      (potsIn twoLists).flatMap fun p => [("b", p.version)] :=
    flatMap_congr fun p hp => by rw [namesOf_twoLists hp]; rfl
  change Option.or _ (((finds (namesOf twoLists) (potsIn twoLists)).lookup "b").map _) = _
  rw [hfinds, potsIn_twoLists]
  rfl

end History

end WikiFeed

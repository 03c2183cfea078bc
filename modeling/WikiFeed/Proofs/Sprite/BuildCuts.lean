import WikiFeed.Proofs.Sprite.BuildFile
import WikiFeed.Proofs.Sprite.Growth

/-! # Build files that are cut off

A build file is read in five parts (`buildParts`), and a fault of a part is the fault of the file
(`buildFile_of_error`). Each part of a file that could be written is read exactly, record by record,
so the file is (`exact_buildFile`), provided that the frames have finite sizes, since these lose
their fractions when they are read. -/

namespace WikiFeed.Sprite

open List Reading
open Decimal (Single)
open Outcome (ok_bind bind_eq_ok exists_of_bind_eq_ok forall₂_of_mapM_eq_ok)

/-! ### Records of build files -/

def FiniteFrame (f : Datum) : Prop :=
  ∀ side ∈ ["w", "h"], ∀ v, named f side = .ok v → FiniteDouble v

theorem sizes_of_bounds {f : Datum} {bounds : List Datum} {ss : List Single}
    (hbounds : ["x", "y", "w", "h"].mapM (named f) = .ok bounds)
    (hss : bounds.mapM singleOf = .ok ss) : ∃ sx sy sw sh vw vh, ss = [sx, sy, sw, sh] ∧
      named f "w" = .ok vw ∧ singleOf vw = .ok sw ∧ named f "h" = .ok vh ∧
      singleOf vh = .ok sh := by
  have hvalues := forall₂_of_mapM_eq_ok hbounds
  have hsingles := forall₂_of_mapM_eq_ok hss
  simp only [forall₂_cons_left_iff, forall₂_nil_left_iff] at hvalues
  obtain ⟨vx, _, -, ⟨vy, _, -, ⟨vw, _, hw, ⟨vh, _, hh, rfl, rfl⟩, rfl⟩, rfl⟩, rfl⟩ := hvalues
  simp only [forall₂_cons_left_iff, forall₂_nil_left_iff] at hsingles
  obtain ⟨sx, _, -, ⟨sy, _, -, ⟨sw, _, hsw, ⟨sh, _, hsh, rfl, rfl⟩, rfl⟩, rfl⟩, rfl⟩ := hsingles
  exact ⟨sx, sy, sw, sh, vw, vh, rfl, hw, hsw, hh, hsh⟩

theorem lays_symbolFrame {f : Datum} (hf : FiniteFrame f) :
    Lays (Writing.symbolFrame f) symbolFrame fun _ _ => True := by
  refine lays_lift fun _ _ => (lays_whole _).seq fun _ number _ => lays_lift fun _ _ =>
    (lays_whole _).seq fun _ duration _ => lays_lift fun bounds hbounds => lays_lift
    fun ss hss d d' h => ?_
  obtain ⟨d₁, hput, h⟩ := seq_eq_ok.mp h
  obtain ⟨_, -, h⟩ := lift_bind_eq_ok.mp h
  obtain ⟨d₂, hfirst, h⟩ := seq_eq_ok.mp h
  obtain ⟨_, -, hcorners⟩ := lift_bind_eq_ok.mp h
  obtain ⟨sx, sy, sw, sh, vw, vh, rfl, hw, hsw, hh, hsh⟩ := sizes_of_bounds hbounds hss
  obtain ⟨x, hx, hnarrow⟩ := exists_double_of_singleOf hsw
  obtain ⟨y, hy, hnarrow'⟩ := exists_double_of_singleOf hsh
  obtain ⟨wide, hwide⟩ := exact_whole (hf "w" (by simp) vw hw x hx) hnarrow
  obtain ⟨high, hhigh⟩ := exact_whole (hf "h" (by simp) vh hh y hy) hnarrow'
  obtain ⟨_, k, hk, hfirst, -⟩ := lays_whole _ hfirst
  obtain ⟨_, l, hl, hcorners, -⟩ := lays_whole _ hcorners
  refine ⟨_, _, ?_, (exact_single sx).bind <| (exact_single sy).bind <| (exact_single sw).bind <|
    (exact_single sh).bind <| hfirst.bind <| hcorners.bind <| hwide.bind <| hhigh.bind <|
    exact_pure _, fun _ _ => trivial⟩
  simpa [append_assoc] using ((grows_put hput).trans hk).trans hl

def symbolRecord : Reading (UInt32 × List Datum) :=
  nested Reading.symbolHead Reading.symbolFrame Prod.snd fun s frames => (s.1, frames)

theorem strict_symbols (n : Nat) : strict (symbols n) = strict (several symbolRecord n) :=
  strict_severalNested _ _ _ _ n

theorem lays_pageName (a : Datum) : Lays (Writing.pageName a) longText fun _ _ => True :=
  lays_lift fun _ _ => lays_lift fun _ _ => (lays_text exact_longText).imp fun _ _ _ => trivial

theorem lays_corner (c : Datum) : Lays (Writing.corner c) corner fun _ _ => True :=
  lays_lift fun _ hxs => (lays_singles (length_of_doublesOf hxs)).map fun _ _ _ => trivial

theorem lays_symbol {symbols : Datum} {code : UInt32}
    (hfinite : ∀ name frames items, named symbols name = .ok frames → itemsOf frames = .ok items →
      ∀ f ∈ items, FiniteFrame f) :
    Lays (Writing.symbol symbols code) symbolRecord fun _ _ => True := by
  unfold symbolRecord nested symbolHead
  simp only [bind_assoc, pure_bind]
  refine (lays_word code).seq fun _ _ _ => lays_get fun d => lays_lift fun frames hframes =>
    lays_lift fun n hn => (lays_count n).seq fun _ m hm => lays_lift fun items hitems => ?_
  obtain ⟨items', hitems', rfl⟩ := exists_items_of_size hn
  cases hitems.symm.trans hitems'
  rw [hm]
  have hframe (f : Datum) (hf : f ∈ items) :
      Lays (Writing.symbolFrame f) symbolFrame fun _ _ => True :=
    lays_symbolFrame (hfinite _ _ _ hframes hitems f hf)
  exact (lays_row hframe fun _ _ _ _ h => h).map fun _ _ _ _ _ => trivial

/-! ### Build files -/

structure BuildParts where
  name : String
  pages : List String
  symbols : List (UInt32 × List Datum)
  corners : List Datum
  names : NameTable

def buildStart : Reading (UInt32 × String) := fun content => do
  let (n, name, rest) ← Reading.buildHead content
  return ((n, name), rest)

def buildParts : Reading BuildParts := do
  let start ← buildStart
  let pages ← counted Reading.longText
  let symbols ← strict (Reading.symbols start.1.toNat)
  let corners ← counted Reading.corner
  let names ← counted Reading.nameEntry
  return ⟨start.2, pages, symbols, corners, names⟩

theorem grows_codes : ∀ {vs : List Datum} {codes : List UInt32} {d d' : Draft},
    vs.mapM Writing.code d = .ok codes d' → codes.length = vs.length ∧ d.Grows d' []
  | [], _, d, _, h => by
    cases h
    exact ⟨rfl, .refl d⟩
  | v :: vs, codes, d, d', h => by
    rw [mapM_cons] at h
    obtain ⟨code, d₁, hcode, h⟩ := bind_eq_ok.mp h
    obtain ⟨rest, d₂, hrest, h⟩ := bind_eq_ok.mp h
    cases h
    obtain ⟨hlen, hgrows⟩ := grows_codes hrest
    exact ⟨congrArg (· + 1) hlen, (grows_code hcode).1.trans hgrows⟩

variable {content rest : Bytes}

theorem buildStart_of_name (h : longText (content.drop 16) = .error .field) :
    buildStart content = .error .field := by
  rcases word_cases (content.drop 8) with hn | ⟨n, rest, hn⟩
  · rw [buildStart, buildHead, hn]
    rfl
  · rw [buildStart, buildHead, hn, ok_bind, h]
    rfl

theorem exact_buildStart (first last : Bytes) (hfirst : first.length = 8) (hlast : last.length = 4)
    (n : UInt32) {name : String} (h : IsAscii name) (hlen : name.length < 2 ^ 31) :
    Exact buildStart (first ++ (wordBytes n ++ last) ++ textBytes name) (n, name) := by
  have hname := exact_longText h hlen
  have hhead : (first ++ (wordBytes n ++ last)).length = 16 := by
    rw [length_append, length_append, hfirst, hlast]
    rfl
  constructor
  · intro rest
    have hn : word ((first ++ (wordBytes n ++ last) ++ textBytes name ++ rest).drop 8) =
        .ok (n, last ++ (textBytes name ++ rest)) := by
      rw [append_assoc, append_assoc, drop_left' hfirst, append_assoc]
      exact reads_word n _
    have hdrop : (first ++ (wordBytes n ++ last) ++ textBytes name ++ rest).drop 16 =
        textBytes name ++ rest := by
      rw [append_assoc, drop_left' hhead]
    rw [buildStart, buildHead, hn, ok_bind, hdrop, hname.reads rest]
    rfl
  · intro p hp hne
    rcases prefix_append_cases hp with ⟨hp, hne⟩ | ⟨q, rfl, hq⟩
    · have hshort := length_lt_of_cut hp hne
      refine buildStart_of_name ?_
      rw [drop_eq_nil_of_le (by omega)]
      rfl
    · refine buildStart_of_name ?_
      rw [drop_left' hhead]
      exact hname.cut hq fun heq => hne (by rw [heq])

def FiniteFrames (data : Datum) : Prop :=
  ∀ symbols name frames items, named data "Symbol" = .ok symbols → named symbols name = .ok frames →
    itemsOf frames = .ok items → ∀ f ∈ items, FiniteFrame f

theorem exact_buildFile {data : Datum} {d : Draft} (hfinite : FiniteFrames data)
    (h : Writing.buildFile data .empty = .ok () d) : ∃ parts, Exact buildParts d.bytes parts := by
  obtain ⟨d₁, hput, h⟩ := seq_eq_ok.mp h
  obtain ⟨symbols, hsymbols, h⟩ := lift_bind_eq_ok.mp h
  obtain ⟨n, hn, h⟩ := lift_bind_eq_ok.mp h
  obtain ⟨items, hitems, rfl⟩ := exists_items_of_size hn
  obtain ⟨d₂, hcount, h⟩ := seq_eq_ok.mp h
  obtain ⟨sizes, -, h⟩ := lift_bind_eq_ok.mp h
  obtain ⟨d₃, hframes, h⟩ := seq_eq_ok.mp h
  obtain ⟨name, -, h⟩ := lift_bind_eq_ok.mp h
  obtain ⟨d₄, hname, h⟩ := seq_eq_ok.mp h
  obtain ⟨pages, -, h⟩ := lift_bind_eq_ok.mp h
  obtain ⟨d₅, hpagecount, h⟩ := seq_eq_ok.mp h
  obtain ⟨d₆, hpages, h⟩ := seq_eq_ok.mp h
  rw [hitems, lift_ok_bind] at h
  obtain ⟨codes, d₇, hcodes, h⟩ := bind_eq_ok.mp h
  obtain ⟨d₈, hrows, h⟩ := seq_eq_ok.mp h
  obtain ⟨corners, -, h⟩ := lift_bind_eq_ok.mp h
  obtain ⟨d₉, hcornercount, h⟩ := seq_eq_ok.mp h
  obtain ⟨d₁₀, hcorners, htable⟩ := seq_eq_ok.mp h
  obtain ⟨hlen, hn⟩ := grows_count hcount
  obtain ⟨-, hm⟩ := grows_count hframes
  obtain ⟨hascii, hnamelen, hnamed⟩ := grows_text hname
  have hstart := exact_buildStart ([0x42, 0x49, 0x4C, 0x44] ++ wordBytes buildVersion)
    (wordBytes (sizes.foldl (· + ·) 0).toUInt32) rfl rfl items.length.toUInt32 hascii hnamelen
  obtain ⟨ps, pages', hpaged, hps, -⟩ := lays_counted (fun _ _ _ _ _ h => h)
    (fun a _ => lays_pageName a) (seq_eq_ok.mpr ⟨d₅, hpagecount, hpages⟩)
  obtain ⟨hcodelen, hcoded⟩ := grows_codes hcodes
  obtain ⟨ss, symbols', hsymboled, hss, -⟩ := lays_forM (fun _ _ _ _ _ h => h)
    (fun code _ => lays_symbol fun name frames items => hfinite symbols name frames items hsymbols)
    hrows
  rw [length_mergeSort, hcodelen, ← strict_symbols, ← toNat_toUInt32 hlen] at hss
  obtain ⟨cs, corners', hcornered, hcs, -⟩ := lays_counted (fun _ _ _ _ _ h => h)
    (fun c _ => lays_corner c) (seq_eq_ok.mpr ⟨d₉, hcornercount, hcorners⟩)
  obtain ⟨ts, htabled, hts⟩ := lays_nameTable htable
  refine ⟨⟨name, pages', symbols', corners', d₁₀.names⟩, ?_⟩
  have hexact : Exact buildParts _ _ := hstart.bind <| hps.bind <| hss.bind <| hcs.bind <|
    hts.map fun names => BuildParts.mk name pages' symbols' corners' names
  have hbytes := ((grows_put hput).trans <| hn.trans <| hm.trans <| hnamed.trans <| hpaged.trans <|
    hcoded.trans <| hsymboled.trans <| hcornered.trans htabled).bytes
  rw [hbytes]
  simpa [Draft.bytes, Draft.empty, append_assoc] using hexact

def BuildParts.fill (b : BuildParts) (es : Members) : Members :=
  let table := b.symbols.foldl (fun t s => Places.put t (.code s.1) (Datum.list s.2)) []
  let es := Datum.put es (.str "name") (.str b.name)
  let es := Datum.put es (.str "Atlas") (.list (b.pages.map .str))
  let es := Datum.put es (.str "Symbol") (.dict (labelEntries table))
  let es := Datum.put es (.str "Vert") (.list b.corners)
  Datum.put es (.str "Symbol")
    (.dict (labelEntries (b.names.foldl (fun t e => relabel t e.1 (Text.lower e.2)) table)))

theorem buildHead_of_start {start : UInt32 × String} (h : buildStart content = .ok (start, rest)) :
    buildHead content = .ok (start.1, start.2, rest) := by
  obtain ⟨⟨n, name, rest'⟩, hhead, hpure⟩ := exists_of_bind_eq_ok h
  cases hpure
  exact hhead

theorem buildFile_of_ok {parts : BuildParts} (h : buildParts content = .ok (parts, rest))
    (es : Members) : Filling.buildFile content es = .ok () (parts.fill es) := by
  obtain ⟨start, rest₁, hstart, h⟩ := exists_of_reading_ok h
  obtain ⟨pages, rest₂, hpages, h⟩ := exists_of_reading_ok h
  obtain ⟨symbols, rest₃, hsymbols, h⟩ := exists_of_reading_ok h
  obtain ⟨corners, rest₄, hcorners, h⟩ := exists_of_reading_ok h
  obtain ⟨names, rest₅, hnames, h⟩ := exists_of_reading_ok h
  cases h
  obtain ⟨n₁, mid₁, hn₁, hrow₁⟩ := exists_of_counted_ok hpages
  obtain ⟨n₂, mid₂, hn₂, hrow₂⟩ := exists_of_counted_ok hcorners
  obtain ⟨n₃, mid₃, hn₃, hrow₃⟩ := exists_of_counted_ok hnames
  unfold Filling.buildFile
  simp only [buildHead_of_start hstart, Filling.lift_ok_bind, Filling.put_bind, hn₁, hrow₁,
    strict_eq_ok hsymbols, hn₂, hrow₂, hn₃, hrow₃]
  rfl

theorem buildHead_of_error {e : Fault} (h : buildStart content = .error e) :
    buildHead content = .error e := by
  unfold buildStart at h
  cases hhead : buildHead content with
  | error e' =>
    rw [hhead] at h
    cases h
    rfl
  | ok p =>
    rw [hhead] at h
    cases h

theorem buildFile_of_error {e : Fault} (h : buildParts content = .error e) (es : Members) :
    ∃ es', Filling.buildFile content es = .error e es' := by
  unfold Filling.buildFile
  rcases cases_of_reading_error h with h | ⟨start, rest₁, hstart, h⟩
  · exact ⟨es, by rw [buildHead_of_error h]; rfl⟩
  simp only [buildHead_of_start hstart, Filling.lift_ok_bind, Filling.put_bind]
  rcases cases_of_reading_error h with h | ⟨pages, rest₂, hpages, h⟩
  · rcases cases_of_counted_error h with hn | ⟨n, mid, as, hn, hrow⟩
    · exact ⟨_, by rw [hn]; rfl⟩
    · simp only [hn, Filling.lift_ok_bind, hrow, Filling.put_bind]
      exact ⟨_, rfl⟩
  obtain ⟨n₁, mid₁, hn₁, hrow₁⟩ := exists_of_counted_ok hpages
  simp only [hn₁, Filling.lift_ok_bind, hrow₁, Filling.put_bind]
  rcases cases_of_reading_error h with h | ⟨symbols, rest₃, hsymbols, h⟩
  · obtain ⟨as, hrow⟩ := strict_eq_error h
    simp only [hrow]
    exact ⟨_, rfl⟩
  simp only [strict_eq_ok hsymbols, Filling.lift_ok_bind]
  rcases cases_of_reading_error h with h | ⟨corners, rest₄, hcorners, h⟩
  · rcases cases_of_counted_error h with hn | ⟨n, mid, as, hn, hrow⟩
    · exact ⟨_, by rw [hn]; rfl⟩
    · simp only [hn, Filling.lift_ok_bind, hrow, Filling.put_bind]
      exact ⟨_, rfl⟩
  obtain ⟨n₂, mid₂, hn₂, hrow₂⟩ := exists_of_counted_ok hcorners
  simp only [hn₂, Filling.lift_ok_bind, hrow₂, Filling.put_bind]
  rcases cases_of_reading_error h with h | ⟨names, rest₅, hnames, h⟩
  · rcases cases_of_counted_error h with hn | ⟨n, mid, as, hn, hrow⟩
    · exact ⟨_, by rw [hn]; rfl⟩
    · simp only [hn, Filling.lift_ok_bind, hrow, Filling.put_bind]
      exact ⟨_, rfl⟩
  cases h

end WikiFeed.Sprite

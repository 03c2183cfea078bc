import WikiFeed.Proofs.Rows
import WikiFeed.Proofs.Sprite.Members
import WikiFeed.Proofs.Sprite.Wire
import WikiFeed.Sprite.Build

/-! # Build files and their data

A `BuildContent` is what a build file holds. Data `Describe` it if they have the members that are
written, whatever else they have. The writer turns such data into `BuildContent.bytes` if everything
fits its field, and stops at a field otherwise (`BuildContent.writes`); the reader turns these bytes
back into data, with the symbols' names in small letters (`BuildContent.fills`). Symbols are written
in the order of their codes and stand in their old order again once the table of names is read
(`BuildContent.foldl_relabel_table`). Main statement: `build_round_trip`. -/

namespace WikiFeed.Sprite

open List Reading
open Decimal (Single)
open Outcome (ok_bind)
open Places (lookup_of_mem)

/-! ### Frames of symbols -/

variable {v : Datum}

theorem IsSingle.singleOf_eq {s : Single} (h : IsSingle v s) : singleOf v = .ok (packed s) := by
  rw [← narrowed_toFloat]
  unfold singleOf
  rcases h with rfl | ⟨n, rfl, -, hn⟩
  · rfl
  · simp only [numberOf?, Option.map_some, Number.toFloat, hn]

theorem singleOf_int {n : Int} (h : Single.IsWhole n) :
    singleOf (.int n) = .ok (packedWhole n) := by
  obtain ⟨x, hx, hn, -⟩ := packedWhole_spec h
  unfold singleOf
  simp only [numberOf?, Option.map_some, Number.toFloat, hx, hn]

/-- A frame of a symbol: its number, how long it is shown, its place and size, and its corners. -/
structure SymbolFrame where
  number : UInt32
  duration : UInt32
  x : Single
  y : Single
  width : Int
  height : Int
  firstCorner : UInt32
  corners : UInt32
  width_whole : Single.IsWhole width
  height_whole : Single.IsWhole height

namespace SymbolFrame

def toDatum (f : SymbolFrame) : Datum :=
  .dict [(.str "framenum", .int f.number.toNat), (.str "duration", .int f.duration.toNat),
    (.str "x", .float f.x.toFloat), (.str "y", .float f.y.toFloat), (.str "w", .int f.width),
    (.str "h", .int f.height), (.str "alphaidx", .int f.firstCorner.toNat),
    (.str "alphacount", .int f.corners.toNat)]

structure Describes (d : Datum) (f : SymbolFrame) : Prop where
  number : named d "framenum" = .ok (.int f.number.toNat)
  duration : named d "duration" = .ok (.int f.duration.toNat)
  x : ∃ v, named d "x" = .ok v ∧ IsSingle v f.x
  y : ∃ v, named d "y" = .ok v ∧ IsSingle v f.y
  width : named d "w" = .ok (.int f.width)
  height : named d "h" = .ok (.int f.height)
  firstCorner : named d "alphaidx" = .ok (.int f.firstCorner.toNat)
  corners : named d "alphacount" = .ok (.int f.corners.toNat)

theorem describes_toDatum (f : SymbolFrame) : Describes f.toDatum f where
  number := rfl
  duration := rfl
  x := ⟨_, rfl, isSingle_float rfl⟩
  y := ⟨_, rfl, isSingle_float rfl⟩
  width := rfl
  height := rfl
  firstCorner := rfl
  corners := rfl

def bytes (f : SymbolFrame) : Bytes :=
  [f.number, f.duration, packed f.x, packed f.y, packedWhole f.width, packedWhole f.height,
    f.firstCorner, f.corners].flatMap wordBytes

theorem writes (f : SymbolFrame) (h : Describes v f) (d : Draft) :
    Writes d (Writing.symbolFrame v) True () (.ofBytes f.bytes) := by
  obtain ⟨x, hx, hsx⟩ := h.x
  obtain ⟨y, hy, hsy⟩ := h.y
  have hbounds : ["x", "y", "w", "h"].mapM (named v) = .ok [x, y, .int f.width, .int f.height] := by
    simp only [mapM_cons, mapM_nil, hx, hy, h.width, h.height, ok_bind]
    rfl
  have hsingles : [x, y, .int f.width, .int f.height].mapM singleOf = .ok [packed f.x, packed f.y,
      packedWhole f.width, packedWhole f.height] := by
    simp only [mapM_cons, mapM_nil, hsx.singleOf_eq, hsy.singleOf_eq,
      singleOf_int f.width_whole, singleOf_int f.height_whole, ok_bind]
    rfl
  have hfields := (writes_whole (d := d) f.number).seq fun _ _ => (writes_whole f.duration).seq
    fun _ _ => (writes_put ([packed f.x, packed f.y, packedWhole f.width,
      packedWhole f.height].flatMap wordBytes)).seq fun _ _ => (writes_whole f.firstCorner).seq
    fun _ _ => writes_whole f.corners
  unfold Writing.symbolFrame
  simp only [h.number, h.duration, h.firstCorner, h.corners, hbounds, hsingles, lift_ok_bind]
  refine hfields.congr (by simp) ?_
  simp only [Output.ofBytes_append, bytes, flatMap_cons, flatMap_nil, append_assoc, append_nil]

theorem reads (f : SymbolFrame) : Reads symbolFrame f.bytes f.toDatum := by
  rw [bytes]
  exact (reads_word _).bind <| (reads_word _).bind <| (reads_packed f.x).bind <|
    (reads_packed f.y).bind <| (exact_single _).reads.bind <| (exact_single _).reads.bind <|
    (reads_word _).bind <| (reads_word _).bind <| (reads_whole f.width_whole).bind <|
    (reads_whole f.height_whole).bind <| reads_pure _

end SymbolFrame

/-! ### Corners -/

structure Corner where
  x : Single
  y : Single
  z : Single
  u : Single
  v : Single
  w : Single

namespace Corner

def numbers (c : Corner) : List Single := [c.x, c.y, c.z, c.u, c.v, c.w]

def toDatum (c : Corner) : Datum := .dict (doubleMembers cornerNames (c.numbers.map Single.toFloat))

def Describes (d : Datum) (c : Corner) : Prop := HasSingles d cornerNames c.numbers

theorem describes_toDatum (c : Corner) : Describes c.toDatum c :=
  .cons ⟨_, rfl, isSingle_float rfl⟩ <| .cons ⟨_, rfl, isSingle_float rfl⟩ <|
    .cons ⟨_, rfl, isSingle_float rfl⟩ <| .cons ⟨_, rfl, isSingle_float rfl⟩ <|
    .cons ⟨_, rfl, isSingle_float rfl⟩ <| .cons ⟨_, rfl, isSingle_float rfl⟩ .nil

def bytes (c : Corner) : Bytes := singlesBytes c.numbers

theorem writes (c : Corner) (h : Describes v c) (d : Draft) :
    Writes d (Writing.corner v) True () (.ofBytes c.bytes) := by
  unfold Writing.corner
  rw [doublesOf_eq h, lift_ok_bind]
  exact writes_singles _

theorem reads (c : Corner) : Reads corner c.bytes c.toDatum :=
  (reads_singles c.numbers).map fun xs => Datum.dict (doubleMembers cornerNames xs)

end Corner

/-! ### Symbols -/

structure Symbol where
  name : String
  frames : List SymbolFrame

variable {s : Symbol}

namespace Symbol

def toEntry (s : Symbol) : Datum × Datum := (.str s.name, .list (s.frames.map SymbolFrame.toDatum))

def Describes (e : Datum × Datum) (s : Symbol) : Prop :=
  ∃ fs, e = (.str s.name, .list fs) ∧ Forall₂ SymbolFrame.Describes fs s.frames

theorem describes_toEntry (s : Symbol) : Describes s.toEntry s :=
  ⟨_, rfl, forall₂_map_left_iff.mpr
    (forall₂_same.mpr fun f _ => f.describes_toDatum)⟩

def lowered (s : Symbol) : Symbol := { s with name := Text.lower s.name }

def bytes (s : Symbol) : Bytes :=
  wordBytes (codeOf s.name) ++ (wordBytes s.frames.length.toUInt32 ++
    s.frames.flatMap SymbolFrame.bytes)

theorem named_eq : ∀ {es : List (Datum × Datum)} {ss : List Symbol}, Forall₂ Describes es ss →
    (ss.map name).Nodup → ∀ s ∈ ss, ∃ fs, named (.dict es) s.name = .ok (.list fs) ∧
      Forall₂ SymbolFrame.Describes fs s.frames
  | _, _, .nil, _, s, hs => absurd hs not_mem_nil
  | e :: es, s' :: ss, .cons ⟨fs, he, hfs⟩ hrest, hnodup, s, hs => by
    rw [map_cons, nodup_cons] at hnodup
    subst he
    rcases mem_cons.mp hs with rfl | hs
    · exact ⟨fs, named_of_lookup (lookup_cons_self _ _ _), hfs⟩
    · obtain ⟨fs', hfs', hd⟩ := named_eq hrest hnodup.2 s hs
      refine ⟨fs', ?_, hd⟩
      have hne : s'.name ≠ s.name := fun h => hnodup.1 (h ▸ mem_map_of_mem hs)
      rw [← hfs']
      unfold named memberAt
      simp only [lookup_cons_ne hne]

theorem writes {es : List (Datum × Datum)} {ss : List Symbol} (h : Forall₂ Describes es ss)
    (hnodup : (ss.map name).Nodup) (hs : s ∈ ss) {d : Draft}
    (hd : d.names.name? (codeOf s.name) = some s.name) :
    Writes d (Writing.symbol (.dict es) (codeOf s.name)) (s.frames.length < 2 ^ 32) ()
      (.ofBytes s.bytes) := by
  obtain ⟨fs, hfs, hframes⟩ := named_eq h hnodup s hs
  suffices hsteps : Writes d (Writing.symbol (.dict es) (codeOf s.name))
      (True ∧ s.frames.length < 2 ^ 32 ∧ ∀ f ∈ s.frames, True) ()
      (.ofBytes (wordBytes (codeOf s.name)) ++ (.ofBytes (wordBytes s.frames.length.toUInt32) ++
        .ofBytes (s.frames.flatMap SymbolFrame.bytes))) from hsteps.congr (by simp) rfl
  refine (writes_word _).seq fun d' hd' => writes_get ?_
  have hname : d'.names.name? (codeOf s.name) = some s.name := by rw [hd']; exact hd
  have hsize : sizeOfItems (.list fs) = .ok fs.length := rfl
  have hitems : itemsOf (.list fs) = .ok fs := rfl
  simp only [hname, Option.getD_some, hfs, lift_ok_bind, hsize, hitems]
  rw [← hframes.length_eq]
  exact (writes_count _).seq fun d'' _ =>
    writes_forM_bytes (fun v f hv d => f.writes hv d) hframes

theorem symbols_eq {ss : List Symbol} (h : ∀ s ∈ ss, s.frames.length < 2 ^ 32) (rest : Bytes) :
    symbols ss.length (ss.flatMap bytes ++ rest) =
      (ss.map fun s => (codeOf s.name, s.frames.map SymbolFrame.toDatum), .ok rest) := by
  refine severalNested_eq (fun s hs => ?_) rest
  have hhead : Reads symbolHead (wordBytes (codeOf s.name) ++ wordBytes s.frames.length.toUInt32)
      (codeOf s.name, s.frames.length.toUInt32) :=
    (reads_word _).bind ((reads_word _).map _)
  have hframes := reads_several fun f (_ : f ∈ s.frames) => f.reads
  rw [← toNat_toUInt32 (h s hs)] at hframes
  rw [bytes, ← append_assoc]
  exact hhead.bind (hframes.map fun frames => (codeOf s.name, frames))

theorem writes_codes {d : Draft} : ∀ {ss : List Symbol}, (∀ s ∈ ss, IsAscii s.name) →
    Writes d ((ss.map fun s => Datum.str s.name).mapM Writing.code) True
      (ss.map fun s => codeOf s.name) ⟨[], ss.map name, ⟨0, 0, 0⟩⟩
  | [], _ => (writes_pure []).congr Iff.rfl rfl
  | s :: ss, h => by
    rw [map_cons, mapM_cons]
    exact ((writes_code (h s mem_cons_self)).bind fun _ _ =>
      (writes_codes fun s' hs' => h s' (mem_cons_of_mem _ hs')).map (codeOf s.name :: ·)).congr
        (by simp) rfl

end Symbol

variable {α : Type}

namespace Filling

theorem lift_ok_bind {β : Type} (a : α) (f : α → Filling β) : (lift (.ok a) >>= f) = f a := by
  funext es
  rfl

theorem put_bind (name : String) (v : Datum) (f : Filling α) (es : Members) :
    (do put name v; f) es = f (Datum.put es (.str name) v) := rfl

end Filling

/-! ### Build files -/

/-- What a build file holds. Names are in ASCII characters, and symbols have different codes. -/
structure BuildContent where
  name : String
  pages : List String
  symbols : List Symbol
  corners : List Corner
  name_ascii : IsAscii name
  pages_ascii : ∀ p ∈ pages, IsAscii p
  symbols_ascii : ∀ s ∈ symbols, IsAscii s.name
  codes_nodup : (symbols.map fun s => codeOf s.name).Nodup

variable {b : BuildContent}

namespace BuildContent

def toData (b : BuildContent) : Members :=
  [(.str "name", .str b.name), (.str "Atlas", .list (b.pages.map .str)),
    (.str "Symbol", .dict (b.symbols.map Symbol.toEntry)),
    (.str "Vert", .list (b.corners.map Corner.toDatum))]

structure Describes (data : Datum) (b : BuildContent) : Prop where
  name : named data "name" = .ok (.str b.name)
  pages : named data "Atlas" = .ok (.list (b.pages.map .str))
  symbols : ∃ es, named data "Symbol" = .ok (.dict es) ∧ Forall₂ Symbol.Describes es b.symbols
  corners : ∃ cs, named data "Vert" = .ok (.list cs) ∧ Forall₂ Corner.Describes cs b.corners

theorem describes_toData (b : BuildContent) : Describes (.dict b.toData) b where
  name := rfl
  pages := rfl
  symbols := ⟨_, rfl,
    forall₂_map_left_iff.mpr (forall₂_same.mpr fun s _ => s.describes_toEntry)⟩
  corners := ⟨_, rfl,
    forall₂_map_left_iff.mpr (forall₂_same.mpr fun c _ => c.describes_toDatum)⟩

variable {ss : List Symbol}

theorem codes_lowered (h : ∀ s ∈ ss, IsAscii s.name) :
    ((ss.map Symbol.lowered).map fun s => codeOf s.name) = ss.map fun s => codeOf s.name := by
  rw [map_map]
  refine map_congr_left fun s hs => ?_
  rw [Function.comp_apply, Symbol.lowered, codeOf_lower (h s hs)]

def lowered (b : BuildContent) : BuildContent where
  name := b.name
  pages := b.pages
  symbols := b.symbols.map Symbol.lowered
  corners := b.corners
  name_ascii := b.name_ascii
  pages_ascii := b.pages_ascii
  symbols_ascii := by
    intro s hs
    obtain ⟨s', hs', rfl⟩ := List.mem_map.mp hs
    exact isAscii_lower (b.symbols_ascii s' hs')
  codes_nodup := by
    rw [codes_lowered b.symbols_ascii]
    exact b.codes_nodup

theorem lowered_eq (h : ∀ s ∈ b.symbols, Text.lower s.name = s.name) : b.lowered = b := by
  have hsymbols : b.symbols.map Symbol.lowered = b.symbols := by
    refine (map_congr_left fun s hs => ?_).trans (map_id _)
    rw [Symbol.lowered, h s hs]
    rfl
  cases b
  simp only [lowered, mk.injEq, true_and, and_true]
  exact hsymbols

def totalFrames (b : BuildContent) : Nat := (b.symbols.map fun s => s.frames.length).sum

def inOrder (b : BuildContent) : List Symbol :=
  b.symbols.mergeSort fun s s' => decide (codeOf s.name ≤ codeOf s'.name)

def table (b : BuildContent) : NameTable := b.symbols.map fun s => (codeOf s.name, s.name)

def ending (b : BuildContent) : Bytes :=
  wordBytes b.corners.length.toUInt32 ++ (b.corners.flatMap Corner.bytes ++ tableBytes b.table)

def body (b : BuildContent) : Bytes :=
  wordBytes b.pages.length.toUInt32 ++ (b.pages.flatMap textBytes ++
    (b.inOrder.flatMap Symbol.bytes ++ b.ending))

def bytes (b : BuildContent) : Bytes :=
  ([0x42, 0x49, 0x4C, 0x44] ++ wordBytes buildVersion) ++ (wordBytes b.symbols.length.toUInt32 ++
    (wordBytes b.totalFrames.toUInt32 ++ (textBytes b.name ++ b.body)))

/-- What is counted fits a word, and texts have lengths that fit 31 bits. -/
structure Fits (b : BuildContent) : Prop where
  symbols : b.symbols.length < 2 ^ 32
  frames : b.totalFrames < 2 ^ 32
  name : b.name.length < 2 ^ 31
  pages : b.pages.length < 2 ^ 32
  page : ∀ p ∈ b.pages, p.length < 2 ^ 31
  corners : b.corners.length < 2 ^ 32
  symbol : ∀ s ∈ b.symbols, s.name.length < 2 ^ 31

theorem names_nodup (b : BuildContent) : (b.symbols.map Symbol.name).Nodup := by
  have h := b.codes_nodup
  rw [show (fun s : Symbol => codeOf s.name) = codeOf ∘ Symbol.name from rfl, ← map_map] at h
  exact h.of_map _

theorem codesDiffer (b : BuildContent) : CodesDiffer (b.symbols.map Symbol.name) := by
  intro s hs s' hs' hcode
  obtain ⟨t, ht, rfl⟩ := mem_map.mp hs
  obtain ⟨t', ht', rfl⟩ := mem_map.mp hs'
  rw [inj_on_of_nodup_map b.codes_nodup ht ht' hcode]

theorem table_eq (b : BuildContent) : NameTable.ofNames (b.symbols.map Symbol.name) = b.table := by
  rw [ofNames_of_nodup b.names_nodup, map_map]
  rfl

theorem Fits.table (h : b.Fits) : b.table.length < 2 ^ 32 := by
  rw [BuildContent.table, length_map]
  exact h.symbols

theorem Fits.line (h : b.Fits) : ∀ e ∈ b.table, e.2.length < 2 ^ 31 := by
  intro e he
  obtain ⟨s, hs, rfl⟩ := mem_map.mp he
  exact h.symbol s hs

theorem table_ascii (b : BuildContent) : ∀ e ∈ b.table, IsAscii e.2 := by
  intro e he
  obtain ⟨s, hs, rfl⟩ := mem_map.mp he
  exact b.symbols_ascii s hs

theorem mem_inOrder : s ∈ b.inOrder ↔ s ∈ b.symbols :=
  mem_mergeSort

theorem frames_lt (h : b.totalFrames < 2 ^ 32) (hs : s ∈ b.symbols) : s.frames.length < 2 ^ 32 :=
  (le_sum_of_mem (mem_map_of_mem hs)).trans_lt h

variable {es : List (Datum × Datum)}

theorem mapM_sizes (h : Forall₂ Symbol.Describes es ss) :
    es.mapM (fun e => sizeOfItems e.2) = .ok (ss.map fun s => s.frames.length) := by
  refine Outcome.mapM_eq_ok_of_forall₂ (forall₂_map_right_iff.mpr (h.imp fun e s hs => ?_))
  obtain ⟨fs, rfl, hfs⟩ := hs
  rw [← hfs.length_eq]
  rfl

theorem keys_eq (h : Forall₂ Symbol.Describes es ss) :
    es.map (·.1) = ss.map fun s => Datum.str s.name := by
  refine Rows.map_eq_of_forall₂ (fun e s hs => ?_) h
  obtain ⟨fs, rfl, -⟩ := hs
  rfl

theorem mergeSort_codes (b : BuildContent) :
    (b.symbols.map fun s => codeOf s.name).mergeSort (fun m n => decide (m ≤ n)) =
      b.inOrder.map fun s => codeOf s.name := by
  have hmap := map_mergeSort (l := b.symbols) (f := fun s : Symbol => codeOf s.name)
    (r := fun s s' => decide (codeOf s.name ≤ codeOf s'.name)) (s := fun m n => decide (m ≤ n))
    fun _ _ _ _ => rfl
  exact hmap.symm

variable {d : Draft}

theorem writes_pageName {p : String} (h : IsAscii p) :
    Writes d (Writing.pageName (.str p)) (p.length < 2 ^ 31) () (.ofBytes (textBytes p)) := by
  have hsize : sizeOfItems (.str p) = .ok (p.toList.map fun c => Datum.str c.toString).length := rfl
  have htext : nameText (.str p) = .ok p := rfl
  unfold Writing.pageName
  rw [hsize, lift_ok_bind, htext, lift_ok_bind]
  exact writes_text h

theorem writes_pages (b : BuildContent) :
    Writes d ((b.pages.map .str).forM Writing.pageName) (∀ p ∈ b.pages, p.length < 2 ^ 31) ()
      (.ofBytes (b.pages.flatMap textBytes)) := by
  refine writes_forM_bytes (R := fun v p => v = .str p ∧ IsAscii p) ?_
    (forall₂_map_left_iff.mpr (forall₂_same.mpr fun p hp => ⟨rfl, b.pages_ascii p hp⟩))
  rintro v p ⟨rfl, hp⟩ d
  exact writes_pageName hp

theorem writes_symbols (h : Forall₂ Symbol.Describes es b.symbols) (hd : d.names = b.table) :
    Writes d (((b.symbols.map fun s => codeOf s.name).mergeSort fun m n => decide (m ≤ n)).forM
        (Writing.symbol (.dict es)))
      (∀ s ∈ b.inOrder, s.frames.length < 2 ^ 32) ()
        (.ofBytes (b.inOrder.flatMap Symbol.bytes)) := by
  rw [mergeSort_codes, ← Output.join_ofBytes]
  refine writes_forM (R := fun n s => n = codeOf s.name ∧ s ∈ b.symbols) (fun t => t = b.table)
    ?_ ?_ ?_ hd
  · exact fun _ _ ht => ht
  · rintro _ s ⟨rfl, hs⟩ d hd
    refine Symbol.writes h b.names_nodup hs ?_
    rw [hd, ← table_eq]
    exact name?_ofNames b.codesDiffer (mem_map_of_mem hs)
  · exact forall₂_map_left_iff.mpr (forall₂_same.mpr fun s hs => ⟨rfl, mem_inOrder.mp hs⟩)

theorem writes_table (hd : d.names = b.table) :
    Writes d Writing.nameTable (b.table.length < 2 ^ 32 ∧ ∀ e ∈ b.table, e.2.length < 2 ^ 31) ()
      (.ofBytes (tableBytes b.table)) := by
  rw [← hd]
  exact writes_nameTable (hd ▸ b.table_ascii)

theorem writes (b : BuildContent) {data : Datum} (h : b.Describes data) :
    Writes .empty (Writing.buildFile data) b.Fits ()
      ⟨b.bytes, b.symbols.map Symbol.name, ⟨0, 0, 0⟩⟩ := by
  obtain ⟨es, hsymbols, hes⟩ := h.symbols
  obtain ⟨cs, hcorners, hcs⟩ := h.corners
  have hsize : sizeOfItems (.dict es) = .ok b.symbols.length := by
    rw [← hes.length_eq, ← length_map (f := fun e : Datum × Datum => e.1)]
    rfl
  have hsizes : (do (← entriesOf (.dict es)).mapM fun e => sizeOfItems e.2) =
      (.ok (b.symbols.map fun s => s.frames.length) : Result (List Nat)) := mapM_sizes hes
  have hname : (do nameText (← named data "name")) = (.ok b.name : Result String) := by
    rw [h.name]
    rfl
  have hpages : (do itemsOf (← named data "Atlas")) =
      (.ok (b.pages.map .str) : Result (List Datum)) := by
    rw [h.pages]
    rfl
  have hkeys : itemsOf (.dict es) = .ok (b.symbols.map fun s => .str s.name) := by
    rw [← keys_eq hes]
    rfl
  have hitems : (do itemsOf (← named data "Vert")) = (.ok cs : Result (List Datum)) := by
    rw [hcorners]
    rfl
  -- no step before the codes of symbols learns a name, so these codes alone make the table
  have htable {d : Draft} (hd : d.names = NameTable.learn [] (b.symbols.map Symbol.name)) :
      d.names = b.table := by
    rw [hd, learn_eq b.codesDiffer, table_eq]
  unfold Writing.buildFile
  simp only [hsymbols, lift_ok_bind, hsize, hsizes, hname, hpages, hkeys, hitems, length_map,
    ← sum_eq_foldl, hcs.length_eq]
  apply Writes.congr
  case h =>
    exact (writes_put _).seq fun d₁ h₁ => (writes_count _).seq fun d₂ h₂ =>
      (writes_count _).seq fun d₃ h₃ => (writes_text b.name_ascii).seq fun d₄ h₄ =>
      (writes_count _).seq fun d₅ h₅ => b.writes_pages.seq fun d₆ h₆ =>
      (Symbol.writes_codes b.symbols_ascii).bind fun d₇ h₇ =>
      have hnames := htable (by rw [h₇, h₆, h₅, h₄, h₃, h₂, h₁]; rfl)
      (writes_symbols hes hnames).seq fun d₈ h₈ => (writes_count _).seq fun d₉ h₉ =>
      (writes_forM_bytes (fun _ c hv d => c.writes hv d) hcs).seq fun d₁₀ h₁₀ =>
      writes_table (by rw [h₁₀, h₉, h₈, ← hnames]; rfl)
  case hpq =>
    constructor
    · rintro ⟨-, hss, hfr, hn, hps, hp, -, -, hcs, -, -, hs⟩
      exact ⟨hss, hfr, hn, hps, hp, hcs, fun s hs' => hs _ (mem_map.mpr ⟨s, hs', rfl⟩)⟩
    · intro hfits
      exact ⟨trivial, hfits.symbols, hfits.frames, hfits.name, hfits.pages, hfits.page, trivial,
        fun s hs => frames_lt hfits.frames (mem_inOrder.mp hs), hfits.corners, by simp,
        hfits.table, hfits.line⟩
  case ho => simp [Output.append_eq, Output.ofBytes, bytes, body, ending, totalFrames]

theorem buildHead_eq (h : b.Fits) :
    buildHead b.bytes = .ok (b.symbols.length.toUInt32, b.name, b.body) := by
  have hcount : word (b.bytes.drop 8) = _ := reads_word b.symbols.length.toUInt32 _
  have hname : longText (b.bytes.drop 16) = .ok (b.name, b.body) :=
    (exact_longText b.name_ascii h.name).reads b.body
  unfold buildHead
  rw [hcount, ok_bind, hname]
  rfl

theorem inOrder_codes_nodup (b : BuildContent) : (b.inOrder.map fun s => codeOf s.name).Nodup :=
  ((mergeSort_perm _ _).map _).nodup_iff.mpr b.codes_nodup

def framesDatum (s : Symbol) : Datum := .list (s.frames.map SymbolFrame.toDatum)

theorem foldl_put_inOrder (b : BuildContent) :
    (b.inOrder.map fun s => (codeOf s.name, s.frames.map SymbolFrame.toDatum)).foldl
        (fun t s => Places.put t (.code s.1) (Datum.list s.2)) [] =
      coded (b.inOrder.map fun s => (codeOf s.name, framesDatum s)) := by
  have hkeys : ((b.inOrder.map fun s => (codeOf s.name, framesDatum s)).map (·.1)).Nodup := by
    rw [map_map]
    exact b.inOrder_codes_nodup
  have hfold := foldl_put_label (f := Label.code) (fun _ _ h => Label.code.inj h) hkeys
  rw [foldl_map] at hfold ⊢
  exact hfold

theorem put_members (n a s₀ v s : Datum) :
    Datum.put (Datum.put (Datum.put (Datum.put (Datum.put [] (.str "name") n) (.str "Atlas") a)
      (.str "Symbol") s₀) (.str "Vert") v) (.str "Symbol") s =
      [(.str "name", n), (.str "Atlas", a), (.str "Symbol", s), (.str "Vert", v)] := by
  simp [Datum.put, Datum.lookup, same_str]

theorem foldl_relabel_table (b : BuildContent) :
    b.table.foldl (fun t e => relabel t e.1 (Text.lower e.2))
        (coded (b.inOrder.map fun s => (codeOf s.name, framesDatum s))) =
      titled (b.symbols.map fun s => (Text.lower s.name, framesDatum s)) := by
  let t : NameTable := b.symbols.map fun s => (codeOf s.name, Text.lower s.name)
  let es := b.inOrder.map fun s => (codeOf s.name, framesDatum s)
  have hcodes : t.map (·.1) = b.symbols.map fun s => codeOf s.name := map_map
  have hnames : (t.map (·.2)).Nodup := by
    have := b.lowered.names_nodup
    rw [lowered, map_map] at this
    rw [map_map]
    exact this
  have hes : ∀ e ∈ es, e.1 ∈ t.map (·.1) := by
    intro e he
    obtain ⟨s, hs, rfl⟩ := mem_map.mp he
    rw [hcodes]
    exact mem_map.mpr ⟨s, mem_inOrder.mp hs, rfl⟩
  -- each line of the table finds its symbol by the code, so the order of codes does not matter
  have hentries : t.filterMap (entryOf es) =
      b.symbols.map fun s => (Text.lower s.name, framesDatum s) := by
    rw [filterMap_map, ← filterMap_eq_map]
    refine filterMap_congr fun s hs => ?_
    have hlookup : es.lookup (codeOf s.name) = some (framesDatum s) :=
      lookup_of_mem (p := (codeOf s.name, framesDatum s))
        (by rw [map_map]; exact b.inOrder_codes_nodup)
        (mem_map.mpr ⟨s, mem_inOrder.mpr hs, rfl⟩)
    simp only [Function.comp_apply, entryOf, hlookup, Option.map_some]
  rw [← hentries, ← foldl_relabel_eq (hcodes ▸ b.codes_nodup) hnames hes, table, foldl_map,
    foldl_map]

theorem fills (h : b.Fits) : Filling.buildFile b.bytes [] = .ok () b.lowered.toData := by
  have hpages : word b.body = _ := reads_word b.pages.length.toUInt32 _
  have hpage := several_eq (fun p hp => (exact_longText (b.pages_ascii p hp) (h.page p hp)).reads)
    (b.inOrder.flatMap Symbol.bytes ++ b.ending)
  have hsymbols := Symbol.symbols_eq
    (fun s (hs : s ∈ b.inOrder) => frames_lt h.frames (mem_inOrder.mp hs)) b.ending
  have hsorted : b.inOrder.length = b.symbols.length := length_mergeSort _
  have hcorners : word b.ending = _ := reads_word b.corners.length.toUInt32 _
  have hcorner := several_eq (fun c (_ : c ∈ b.corners) => c.reads) (tableBytes b.table)
  have hnames : word (tableBytes b.table) =
      .ok (b.table.length.toUInt32, b.table.flatMap entryBytes) := reads_word _ _
  have htable := several_nameEntry b.table_ascii h.line []
  rw [append_nil] at htable
  rw [hsorted] at hsymbols
  unfold Filling.buildFile
  simp only [buildHead_eq h, Filling.lift_ok_bind, Filling.put_bind, hpages, toNat_toUInt32 h.pages,
    hpage, toNat_toUInt32 h.symbols, hsymbols, hcorners, toNat_toUInt32 h.corners, hcorner, hnames,
    toNat_toUInt32 h.table, htable, foldl_put_inOrder, foldl_relabel_table, put_members]
  simp only [toData, lowered, map_id', labelEntries, titled, map_map]
  rfl

end BuildContent

/-! ### Builds -/

namespace Building

theorem build_bind (f : Build → Building α) (s : Build × List String) :
    (build >>= f) s = f s.1 s := rfl

theorem write_eq {data : Members} (hdata : data ≠ []) (folder : String) (notes : List String) :
    write (.ofData data folder, notes) = match Writing.buildFile (.dict data) .empty with
      | .ok _ d => .ok () ({ Build.ofData data folder with content := some d.bytes }, notes)
      | .error e d =>
        .error e ({ Build.ofData data folder with content := some d.bytes }, notes) := by
  obtain ⟨e, es, rfl⟩ := exists_cons_of_ne_nil hdata
  unfold write
  rw [build_bind]
  simp only [Build.ofData]
  cases Writing.buildFile (.dict (e :: es)) .empty <;> rfl

theorem read_of_ok {data : Members} {bs : Bytes} (hbs : bs ≠ [])
    (h : Filling.buildFile bs [] = .ok () data) (folder : String) (notes : List String) :
    read (.ofBytes bs folder, notes) = .ok () ({ Build.ofBytes bs folder with data }, notes) := by
  obtain ⟨x, xs, rfl⟩ := exists_cons_of_ne_nil hbs
  unfold read
  rw [build_bind]
  simp only [Build.ofBytes, h]
  rfl

end Building

/-- **A build that is written and read back.** Data that describe the content of a build file are
written if and only if counts and texts fit their fields. What is written is read as the same
content, symbols in their order and with names in small letters. If these are small letters already,
writing what was read gives the same bytes. -/
theorem build_round_trip {b : BuildContent} {data : Members} (h : b.Describes (.dict data))
    (folder : String) (notes : List String) :
    (b.Fits → ∃ bs,
      Building.write (.ofData data folder, notes) =
        .ok () ({ Build.ofData data folder with content := some bs }, notes) ∧
      Building.read (.ofBytes bs folder, notes) =
        .ok () ({ Build.ofBytes bs folder with data := b.lowered.toData }, notes) ∧
      ((∀ s ∈ b.symbols, Text.lower s.name = s.name) →
        Building.write (.ofData b.lowered.toData folder, notes) =
          .ok () ({ Build.ofData b.lowered.toData folder with content := some bs }, notes))) ∧
    (¬ b.Fits → ∃ b', Building.write (.ofData data folder, notes) = .error .field (b', notes)) := by
  have hdata : ∀ {es : Members}, b.Describes (.dict es) → es ≠ [] := by
    rintro _ hes rfl
    exact absurd hes.name (by simp [named, memberAt, Datum.lookup])
  have hwrite : b.Fits → ∀ {es : Members}, b.Describes (.dict es) →
      Building.write (.ofData es folder, notes) =
        .ok () ({ Build.ofData es folder with content := some b.bytes }, notes) := by
    intro hfits es hes
    obtain ⟨d, hd, hext⟩ := (b.writes hes).done hfits
    rw [Building.write_eq (hdata hes), hd, ← show d.bytes = b.bytes from hext.bytes]
  refine ⟨fun hfits => ⟨b.bytes, hwrite hfits h, ?_, fun hlow => ?_⟩, fun hfits => ?_⟩
  · exact Building.read_of_ok (List.cons_ne_nil _ _) (BuildContent.fills hfits) folder notes
  · rw [BuildContent.lowered_eq hlow]
    exact hwrite hfits b.describes_toData
  · obtain ⟨d, hd⟩ := (b.writes h).stops hfits
    refine ⟨{ Build.ofData data folder with content := some d.bytes }, ?_⟩
    rw [Building.write_eq (hdata h), hd]

def wick : SymbolFrame where
  number := 7
  duration := 1
  x := 0x3F000000
  y := 0x80000000
  width := -3
  height := 33554432
  firstCorner := 0
  corners := 1
  width_whole := Single.isWhole_of_natAbs_le (by decide)
  height_whole := ⟨by decide, 1, 25, by decide, by decide⟩

def wickCorner : Corner := ⟨0x3F000000, 0xC0200000, 0, 0x3F000000, 0x3F800000, 0x40400000⟩

def lantern : BuildContent where
  name := "Lantern"
  pages := ["lantern-0.tex"]
  symbols := [⟨"Wick", [wick]⟩, ⟨"GLASS", []⟩]
  corners := [wickCorner]
  name_ascii := by decide +kernel
  pages_ascii := by decide +kernel
  symbols_ascii := by decide +kernel
  codes_nodup := by decide +kernel

def wickData : Datum :=
  .dict [(.str "h", .int 33554432), (.str "w", .int (-3)), (.str "x", .float 0.5),
    (.str "y", .float (-0.0)), (.str "framenum", .int 7), (.str "duration", .int 1),
    (.str "alphaidx", .int 0), (.str "alphacount", .int 1)]

def wickCornerData : Datum :=
  .dict [(.str "w", .int 3), (.str "x", .float 0.5), (.str "y", .float (-2.5)), (.str "z", .int 0),
    (.str "u", .float 0.5), (.str "v", .int 1)]

def lanternData : Members :=
  [(.str "scale", .int 1), (.str "Vert", .list [wickCornerData]),
    (.str "Symbol", .dict [(.str "Wick", .list [wickData]), (.str "GLASS", .list [])]),
    (.str "Atlas", .list [.str "lantern-0.tex"]), (.str "name", .str "Lantern")]

theorem build_round_trip_lantern : lantern.Describes (.dict lanternData) ∧ lantern.Fits ∧ ∃ bs,
    Building.write (.ofData lanternData "", []) =
      .ok () ({ Build.ofData lanternData "" with content := some bs }, []) ∧
    Building.read (.ofBytes bs "", []) =
      .ok () ({ Build.ofBytes bs "" with data := lantern.lowered.toData }, []) := by
  have hwick : SymbolFrame.Describes wickData wick :=
    ⟨rfl, rfl, ⟨_, rfl, isSingle_float (by decide +kernel)⟩,
      ⟨_, rfl, isSingle_float (by decide +kernel)⟩, rfl, rfl, rfl, rfl⟩
  have hcorner : Corner.Describes wickCornerData wickCorner :=
    .cons ⟨_, rfl, isSingle_float (by decide +kernel)⟩ <|
    .cons ⟨_, rfl, isSingle_float (by decide +kernel)⟩ <|
    .cons ⟨_, rfl, isSingle_int (by decide) (by decide +kernel)⟩ <|
    .cons ⟨_, rfl, isSingle_float (by decide +kernel)⟩ <|
    .cons ⟨_, rfl, isSingle_int (by decide) (by decide +kernel)⟩ <|
    .cons ⟨_, rfl, isSingle_int (by decide) (by decide +kernel)⟩ .nil
  have hdescribes : lantern.Describes (.dict lanternData) :=
    ⟨rfl, rfl, ⟨_, rfl, .cons ⟨_, rfl, .cons hwick .nil⟩ (.cons ⟨_, rfl, .nil⟩ .nil)⟩,
      ⟨_, rfl, .cons hcorner .nil⟩⟩
  have hfits : lantern.Fits := by
    constructor <;> decide
  obtain ⟨bs, hwrite, hread, -⟩ := (build_round_trip hdescribes "" []).1 hfits
  exact ⟨hdescribes, hfits, bs, hwrite, hread⟩

end WikiFeed.Sprite

import WikiFeed.Proofs.Rows
import WikiFeed.Proofs.Scene.Data

/-! # Strips of frames

A symbol of a build is a `Strip` of frames that take numbers and do not overlap. An `Album` is what
the folders of a scene are made from: under each name the frames by their numbers. It holds the
frames of all strips, and besides these fillers for what only a bank knows (`Album.Holds`). -/

namespace WikiFeed.Scene

open Sprite List Places
open Outcome (ok_bind exists_foldlM_eq_ok)

/-! ### Data -/

def HasShare (d : Datum) (name : String) (side : Int) : Prop :=
  ∃ v n q, named d name = .ok v ∧ numberOf? v = some n ∧ n.quotient (.int side) = .ok q

/-- A frame of a symbol: its number, the numbers that it takes, and its size, which doubles can
hold. -/
structure Cel where
  number : Nat
  duration : Nat
  width : Int
  height : Int
  lasting : 1 ≤ duration
  width_pos : 0 < width
  height_pos : 0 < height
  width_double : (Decimal.ofInt? width).isSome
  height_double : (Decimal.ofInt? height).isSome

structure IsSized (d : Datum) (width height : Int) : Prop where
  x : HasShare d "x" width
  y : HasShare d "y" height
  w : named d "w" = .ok (.int width)
  h : named d "h" = .ok (.int height)

structure IsCel (d : Datum) (c : Cel) : Prop extends IsSized d c.width c.height where
  number : named d "framenum" = .ok (.int c.number)
  duration : named d "duration" = .ok (.int c.duration)

def Cel.Takes (c : Cel) (n : Nat) : Prop := c.number ≤ n ∧ n < c.number + c.duration

def Cel.Apart (c d : Cel) : Prop :=
  c.number + c.duration ≤ d.number ∨ d.number + d.duration ≤ c.number

/-- A name in small letters, without quotes and parentheses. -/
structure Plain (s : String) : Prop where
  small : Text.lower s = s
  unquoted : Unquoted s
  open_free : '(' ∉ s.toList

theorem plain_of_letters {s : String} (hsmall : Text.lower s = s)
    (h : ∀ c ∈ s.toList, c.isAlphanum ∨ c = '_' ∨ c = '-') : Plain s := by
  refine ⟨hsmall, fun hmem => ?_, fun hmem => ?_⟩
  · exact absurd (h _ hmem) (by decide)
  · exact absurd (h _ hmem) (by decide)

/-- A symbol: its name, and its frames, of which each two take different numbers. -/
structure Strip where
  name : String
  cels : List Cel
  plain : Plain name
  apart : cels.Pairwise Cel.Apart

def inOrder (cs : List Cel) : List Cel := cs.mergeSort fun c d => c.number ≤ d.number

def IsStrip (portraits : Portraits) (s : Datum × Datum) (t : Strip) : Prop :=
  ∃ fs, s = (.str t.name, .list fs) ∧ Forall₂ IsCel fs t.cels ∧
    ∀ c ∈ t.cels, (portraits.lookup (pictureName t.name c.number)).isSome

def celsOf (ts : List Strip) (name : String) : List Cel :=
  ((ts.find? (·.name == name)).map Strip.cels).getD []

def Known (ts : List Strip) (name : String) (n : Int) : Prop :=
  ∃ c ∈ celsOf ts name, (c.number : Int) = n

/-- A width that is below one or has a whole part: it is neither infinite nor not a number. -/
def HasSide (f : Datum) : Prop :=
  ∃ v n, named f "w" = .ok v ∧ numberOf? v = some n ∧
    (n.less (.int 1) = true ∨ ∃ k, n.truncate = .ok k)

def Draws (e : Datum) (name : String) (n : Int) : Prop :=
  named e "name" = .ok (.str name) ∧ named e "frame" = .ok (.int n)

/-- Data of a frame of an animation. What is drawn in it is listed, and it has a width if this is
not of the strips. -/
def IsScreen (ts : List Strip) (drawn : List (String × Int)) (f : Datum) : Prop :=
  ∃ v es, named f "elements" = .ok v ∧ itemsOf v = .ok es ∧
    ∀ e ∈ es, ∃ name n, Draws e name n ∧ (name, n) ∈ drawn ∧ (Known ts name n ∨ HasSide f)

def IsShow (ts : List Strip) (drawn : List (String × Int)) (data : Members) : Prop :=
  ∃ v bs, named (.dict data) "banks" = .ok v ∧ entriesOf v = .ok bs ∧ ∀ b ∈ bs,
    ∃ as, entriesOf b.2 = .ok as ∧ ∀ a ∈ as,
      ∃ v fs, named a.2 "frames" = .ok v ∧ itemsOf v = .ok fs ∧ ∀ f ∈ fs, IsScreen ts drawn f

/-- Up to the last frame of a symbol, and to the last that is drawn of it, there are pictures for
numbers that its frames take and for no other ones. -/
def NoStray (portraits : Portraits) (ts : List Strip) (drawn : List (String × Int)) : Prop :=
  ∀ (name : String) (last n : Nat), Known ts name last ∨ (name, (last : Int)) ∈ drawn → n ≤ last →
    (portraits.lookup (pictureName name n)).isSome → ∃ c ∈ celsOf ts name, c.Takes n

/-! ### Albums -/

abbrev Album := List (String × List (Int × Datum))

def sheetMember (fs : List (Int × Datum)) : Datum := .dict (keyed .int fs)

def Album.toMembers (c : Album) : Members := keyed .str (c.map fun f => (f.1, sheetMember f.2))

def IsFiller (p : Int × Datum) : Prop :=
  ∃ side : Int, 0 < side ∧ p.2 = unknownFrame (.int p.1) (.int side) (.int side)

/-- The frames of a strip, and fillers under the numbers that are drawn. -/
structure Sheet (drawn : List (String × Int)) (name : String) (cs : List Cel)
    (fs : List (Int × Datum)) : Prop where
  own : ∀ c ∈ cs, ∃ d, fs.lookup (c.number : Int) = some d ∧ IsCel d c
  other : ∀ p ∈ fs, (∃ c ∈ cs, p.1 = c.number ∧ IsCel p.2 c) ∨ IsFiller p ∧ (name, p.1) ∈ drawn

variable {drawn : List (String × Int)} {name : String} {cs : List Cel} {fs : List (Int × Datum)}

theorem sheet_nil : Sheet drawn name [] [] := ⟨by simp, by simp⟩

variable {n : Int}

theorem Sheet.fill (h : Sheet drawn name cs fs) {side : Int} (hn : fs.lookup n = none)
    (hdrawn : (name, n) ∈ drawn) (hside : 0 < side) :
    Sheet drawn name cs (put fs n (unknownFrame (.int n) (.int side) (.int side))) where
  own c hc := by
    obtain ⟨d, hlookup, hd⟩ := h.own c hc
    have hne : (c.number : Int) ≠ n := by
      rintro rfl
      rw [hlookup] at hn
      cases hn
    exact ⟨d, by rw [lookup_put_of_ne hne, hlookup], hd⟩
  other p hp := by
    rcases mem_put hp with rfl | hp
    · exact .inr ⟨⟨side, hside, rfl⟩, hdrawn⟩
    · exact h.other p hp

/-! ### Folders of the build -/

theorem Strip.numbers_nodup (t : Strip) : (t.cels.map Cel.number).Nodup := by
  refine pairwise_map.mpr (t.apart.imp ?_)
  intro c d h heq
  unfold Cel.Apart at h
  have := c.lasting
  have := d.lasting
  omega

/-- Frames under the numbers of the cels that they are. -/
def Numbers (p : Int × Datum) (c : Cel) : Prop := p.1 = c.number ∧ IsCel p.2 c

theorem exists_numbers : ∀ {ds : List Datum} {cs : List Cel}, Forall₂ IsCel ds cs →
    ∃ fs : List (Int × Datum), Forall₂ Numbers fs cs ∧ fs.map (·.2) = ds
  | [], [], .nil => ⟨[], .nil, rfl⟩
  | d :: _, c :: _, .cons hd hds => by
    obtain ⟨fs, hfs, hmap⟩ := exists_numbers hds
    exact ⟨(c.number, d) :: fs, .cons ⟨rfl, hd⟩ hfs, congrArg (d :: ·) hmap⟩

theorem exists_framesByNumber {ds : List Datum} {t : Strip} (h : Forall₂ IsCel ds t.cels) :
    ∃ fs, framesByNumber (.list ds) = .ok (keyed .int fs) ∧ Sheet drawn t.name t.cels fs := by
  obtain ⟨fs, hfs, rfl⟩ := exists_numbers h
  have hkeys : fs.map (·.1) = t.cels.map (Int.ofNat ∘ Cel.number) :=
    Rows.map_eq_of_forall₂ (fun _ _ h => h.1) hfs
  have hnodup : (fs.map (·.1)).Nodup := by
    rw [hkeys, ← map_map]
    exact t.numbers_nodup.map fun _ _ => Int.ofNat.inj
  refine ⟨fs, foldlM_put_keyed keying_int hnodup ?_, fun c hc => ?_, fun p hp => ?_⟩
  · rw [forall₂_map_left_iff, forall₂_same]
    intro p hp ms
    obtain ⟨c, -, hnumber, hcel⟩ := Rows.exists_of_mem_right hfs.flip hp
    rw [hcel.number, hnumber]
    rfl
  · obtain ⟨p, hp, hnumber, hcel⟩ := Rows.exists_of_mem_right hfs hc
    exact ⟨p.2, hnumber ▸ lookup_of_mem hnodup hp, hcel⟩
  · obtain ⟨c, hc, hnumbers⟩ := Rows.exists_of_mem_right hfs.flip hp
    exact .inl ⟨c, hc, hnumbers⟩

variable {portraits : Portraits}

theorem exists_sheets : ∀ {symbols : Members} {ts : List Strip},
    Forall₂ (IsStrip portraits) symbols ts → ∃ c : Album,
      Forall₂ (fun s f => ∃ ds, s = (.str f.1, ds) ∧ framesByNumber ds = .ok (keyed .int f.2))
        symbols c ∧
      Forall₂ (fun t f => f.1 = t.name ∧ Sheet drawn t.name t.cels f.2) ts c
  | [], [], .nil => ⟨[], .nil, .nil⟩
  | _ :: _, t :: _, .cons ⟨ds, hs, hds, _⟩ hsymbols => by
    obtain ⟨fs, hfs, hsheet⟩ := exists_framesByNumber hds
    obtain ⟨c, hsteps, hsheets⟩ := exists_sheets hsymbols
    exact ⟨(t.name, fs) :: c, .cons ⟨_, hs, hfs⟩ hsteps, .cons ⟨rfl, hsheet⟩ hsheets⟩

variable {ts : List Strip}

theorem celsOf_of_mem (hnodup : (ts.map Strip.name).Nodup) {t : Strip} (h : t ∈ ts) :
    celsOf ts t.name = t.cels := by
  have hfind : ts.find? (·.name == t.name) = some t := by
    rw [← head?_filter, Rows.filter_key hnodup h]
    rfl
  rw [celsOf, hfind]
  rfl

theorem celsOf_of_not_mem {name : String} (h : name ∉ ts.map Strip.name) : celsOf ts name = [] := by
  have hfind : ts.find? (·.name == name) = none := by
    refine find?_eq_none.mpr fun t ht heq => h ?_
    rw [← beq_iff_eq.mp heq]
    exact mem_map_of_mem ht
  rw [celsOf, hfind]
  rfl

theorem exists_of_mem_celsOf {name : String} {c : Cel} (h : c ∈ celsOf ts name) :
    ∃ t ∈ ts, t.name = name ∧ c ∈ t.cels := by
  unfold celsOf at h
  cases hfind : ts.find? (·.name == name) with
  | none =>
    rw [hfind] at h
    exact absurd h not_mem_nil
  | some t =>
    rw [hfind] at h
    have hname := find?_some hfind
    exact ⟨t, mem_of_find?_eq_some hfind, by simpa using hname, h⟩

/-- An album with a sheet for each strip, and behind these with sheets for other names. -/
structure Album.Holds (ts : List Strip) (drawn : List (String × Int)) (c : Album) : Prop where
  names : ∃ more, c.map (·.1) = ts.map Strip.name ++ more
  nodup : (c.map (·.1)).Nodup
  sheets : ∀ f ∈ c, Sheet drawn f.1 (celsOf ts f.1) f.2

theorem exists_symbolFolders {symbols : Members} (h : Forall₂ (IsStrip portraits) symbols ts)
    (hnodup : (ts.map Strip.name).Nodup) :
    ∃ c : Album, symbolFolders false symbols = .ok c.toMembers ∧ c.Holds ts drawn := by
  obtain ⟨c, hsteps, hsheets⟩ := exists_sheets h
  have hnames : ts.map Strip.name = c.map (·.1) :=
    Rows.map_eq_of_forall₂ (fun _ _ h => h.1.symm) hsheets
  refine ⟨c, foldlM_put_keyed keying_str ?_ ?_, ⟨[], by rw [← hnames, append_nil]⟩,
    hnames ▸ hnodup, fun f hf => ?_⟩
  · rw [map_map]
    exact hnames ▸ hnodup
  · rw [forall₂_map_right_iff]
    refine hsteps.imp fun s f hstep ms => ?_
    obtain ⟨ds, rfl, hds⟩ := hstep
    rw [hds]
    rfl
  obtain ⟨t, ht, hname, hsheet⟩ := Rows.exists_of_mem_right hsheets hf
  rw [hname, celsOf_of_mem hnodup ht]
  exact hsheet

/-! ### Folders of what is drawn -/

variable {f : Datum}

theorem exists_side (h : HasSide f) : ∃ (w : Datum) (side : Int),
    named f "w" = .ok w ∧
    (do calculated (← numberOf (← greatest [w, .int 1])).truncate : Result Int) = .ok side ∧
    0 < side := by
  obtain ⟨w, n, hw, hn, hwhole⟩ := h
  have hgreatest := greatest_atLeastOne hn
  cases hless : n.less (.int 1) with
  | true => exact ⟨w, 1, hw, by rw [hgreatest, hless]; rfl, Int.one_pos⟩
  | false =>
    obtain ⟨side, hside⟩ := hwhole.resolve_left (by rw [hless]; decide)
    refine ⟨w, side, hw, ?_, Number.one_le_truncate hless hside⟩
    have hnumber : numberOf w = .ok n := by rw [numberOf, hn]
    rw [hgreatest, hless, ok_bind]
    simp only [Bool.false_eq_true, if_false, hnumber, ok_bind, hside]
    rfl

def Album.sheet (c : Album) (name : String) : List (Int × Datum) := (c.lookup name).getD []

variable {c : Album}

theorem Album.Holds.sheet (h : c.Holds ts drawn) (name : String) :
    Sheet drawn name (celsOf ts name) (c.sheet name) := by
  unfold Album.sheet
  cases hlookup : c.lookup name with
  | none =>
    have hname : name ∉ ts.map Strip.name := by
      obtain ⟨more, hmore⟩ := h.names
      intro hmem
      have hsome : (c.lookup name).isSome :=
        (lookup_isSome_iff c name).mpr (hmore ▸ mem_append_left more hmem)
      rw [hlookup] at hsome
      cases hsome
    rw [celsOf_of_not_mem hname]
    exact sheet_nil
  | some fs => exact h.sheets _ (mem_of_lookup_eq_some hlookup)

theorem Album.Holds.put (h : c.Holds ts drawn) (hfs : Sheet drawn name (celsOf ts name) fs) :
    Album.Holds ts drawn (put c name fs) where
  names := by
    obtain ⟨more, hmore⟩ := h.names
    rw [keys_put, hmore]
    unfold withKey
    split_ifs
    · exact ⟨more, rfl⟩
    · exact ⟨more ++ [name], append_assoc _ _ _⟩
  nodup := by
    rw [keys_put]
    exact nodup_withKey h.nodup name
  sheets f hf := by
    rcases mem_put hf with rfl | hf
    · exact hfs
    · exact h.sheets f hf

theorem exists_addDrawn {e : Datum} (he : Draws e name n) (hdrawn : (name, n) ∈ drawn)
    (hf : Known ts name n ∨ HasSide f) (hc : c.Holds ts drawn) :
    ∃ c' : Album, addDrawn f c.toMembers e = .ok c'.toMembers ∧ c'.Holds ts drawn := by
  rw [show addDrawn f c.toMembers e = _ from addDrawn_keyed keying_int he.1 he.2 c]
  split_ifs with hknown
  · exact ⟨_, rfl, hc.put (hc.sheet name)⟩
  · have hunknown : ¬ Known ts name n := by
      rintro ⟨c', hc', rfl⟩
      obtain ⟨d, hd, -⟩ := (hc.sheet name).own c' hc'
      exact hknown (Option.isSome_iff_exists.mpr ⟨d, hd⟩)
    obtain ⟨w, side, hw, hside, hpos⟩ := exists_side (hf.resolve_left hunknown)
    obtain ⟨g, hg, hside⟩ := Outcome.exists_of_bind_eq_ok hside
    obtain ⟨k, hk, hside⟩ := Outcome.exists_of_bind_eq_ok hside
    have hnone := Option.not_isSome_iff_eq_none.mp hknown
    refine ⟨_, ?_, hc.put ((hc.sheet name).fill hnone hdrawn hpos)⟩
    rw [hw, ok_bind, hg, ok_bind, hk, ok_bind, hside]
    rfl

def IsAlbum (ts : List Strip) (drawn : List (String × Int)) (ms : Members) : Prop :=
  ∃ c : Album, ms = c.toMembers ∧ c.Holds ts drawn

/-- **The frames of all folders**: those of the strips, and a filler for whatever else is drawn. -/
theorem exists_album {symbols data : Members} (hsymbols : Forall₂ (IsStrip portraits) symbols ts)
    (hnodup : (ts.map Strip.name).Nodup) (hdata : IsShow ts drawn data) : ∃ ms,
      (symbolFolders false symbols >>= fun fs => addAllDrawn fs data) = .ok ms ∧
        IsAlbum ts drawn ms := by
  obtain ⟨c, hc, hholds⟩ := exists_symbolFolders hsymbols hnodup
  obtain ⟨v, bs, hv, hbs, hbanks⟩ := hdata
  rw [hc, ok_bind]
  unfold addAllDrawn
  rw [hv, ok_bind, hbs, ok_bind]
  refine exists_foldlM_eq_ok (fun b hb ms hms => ?_) ⟨c, rfl, hholds⟩
  obtain ⟨as, has, hmotions⟩ := hbanks b hb
  rw [has, ok_bind]
  refine exists_foldlM_eq_ok (fun a ha ms hms => ?_) hms
  obtain ⟨v, fs, hv, hfs, hscreens⟩ := hmotions a ha
  rw [hv, ok_bind, hfs, ok_bind]
  refine exists_foldlM_eq_ok (fun f hf ms hms => ?_) hms
  obtain ⟨v, es, hv, hes, hdrawn⟩ := hscreens f hf
  rw [hv, ok_bind, hes, ok_bind]
  refine exists_foldlM_eq_ok (fun e he ms hms => ?_) hms
  obtain ⟨name, n, hdraws, hlisted, hside⟩ := hdrawn e he
  obtain ⟨c, rfl, hc⟩ := hms
  obtain ⟨c', hc', hholds⟩ := exists_addDrawn hdraws hlisted hside hc
  exact ⟨_, hc', c', rfl, hholds⟩

end WikiFeed.Scene

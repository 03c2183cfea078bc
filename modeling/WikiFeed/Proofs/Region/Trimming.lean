import WikiFeed.Proofs.Picture.Borders
import WikiFeed.Proofs.Region.Coverage

/-! # What trimming leaves of a picture

The window of a picture that is kept is the one that its mixed regions span (`Window.Spans`); where
there are none, the picture is kept whole. So no faint point is lost, and a mixed region lies inside
of what is left. Solid regions do not count for the window: nothing that can be seen is lost just
when none of them reaches beyond the mixed ones (`Regions.Enclosed`), and just then all regions lie
inside of what is left. Main statement: `trim_shows`. -/

namespace WikiFeed

open Outcome List

/-! ### The window that boxes span -/

/-- A box inside of what others span: none of its edges lies beyond all of theirs. -/
structure Box.Spanned (b : Box) (boxes : List Box) : Prop where
  left : ∃ m ∈ boxes, m.x ≤ b.x
  top : ∃ m ∈ boxes, m.y ≤ b.y
  right : ∃ m ∈ boxes, b.x + b.w ≤ m.x + m.w
  bottom : ∃ m ∈ boxes, b.y + b.h ≤ m.y + m.h

variable {p : Picture} {boxes : List Box} {b : Box} {s : Window}

namespace Window

def stretch (width height : Int) (s : Window) (b : Box) : Window :=
  ⟨min s.left (min b.x width), min s.top (min b.y height),
    max s.right (min (b.x + b.w) width), max s.bottom (min (b.y + b.h) height)⟩

structure Holds (s : Window) (b : Box) : Prop where
  left : s.left ≤ b.x
  top : s.top ≤ b.y
  right : b.x + b.w ≤ s.right
  bottom : b.y + b.h ≤ s.bottom

/-- A window holds boxes, and each of its edges is that of a box or still where it was for none. -/
structure Spans (s : Window) (p : Picture) (boxes : List Box) : Prop where
  holds : ∀ b ∈ boxes, s.Holds b
  left : s.left = p.width ∨ ∃ b ∈ boxes, b.x = s.left
  top : s.top = p.height ∨ ∃ b ∈ boxes, b.y = s.top
  right : s.right = 0 ∨ ∃ b ∈ boxes, b.x + b.w = s.right
  bottom : s.bottom = 0 ∨ ∃ b ∈ boxes, b.y + b.h = s.bottom

theorem attained_append (edge : Box → Int) {start e r : Int}
    (h : e = start ∨ ∃ c ∈ boxes, edge c = e) (hr : r = e ∨ r = edge b) :
    r = start ∨ ∃ c ∈ boxes ++ [b], edge c = r := by
  rcases hr with rfl | rfl
  · exact h.imp_right fun ⟨c, hc, heq⟩ => ⟨c, mem_append_left _ hc, heq⟩
  · exact .inr ⟨b, by simp, rfl⟩

theorem spans_stretch (h : s.Spans p boxes) (hb : b.Within p) :
    (s.stretch p.width p.height b).Spans p (boxes ++ [b]) := by
  obtain ⟨-, -, ⟨hw, hh⟩, hr, hbo⟩ := hb
  have hx : min b.x p.width = b.x := by omega
  have hy : min b.y p.height = b.y := by omega
  have hxw : min (b.x + b.w) p.width = b.x + b.w := by omega
  have hyh : min (b.y + b.h) p.height = b.y + b.h := by omega
  unfold stretch
  rw [hx, hy, hxw, hyh]
  refine ⟨fun c hc => ?_, attained_append Box.x h.left (by simp only; omega),
    attained_append Box.y h.top (by simp only; omega),
    attained_append (fun c => c.x + c.w) h.right (by simp only; omega),
    attained_append (fun c => c.y + c.h) h.bottom (by simp only; omega)⟩
  rcases mem_append.mp hc with hc | hc
  · obtain ⟨h1, h2, h3, h4⟩ := h.holds c hc
    exact ⟨by simp only; omega, by simp only; omega, by simp only; omega, by simp only; omega⟩
  · cases mem_singleton.mp hc
    exact ⟨by simp only; omega, by simp only; omega, by simp only; omega, by simp only; omega⟩

theorem spans_foldl (hboxes : ∀ b ∈ boxes, b.Within p) (seen : List Box) (h : s.Spans p seen) :
    (boxes.foldl (stretch p.width p.height) s).Spans p (seen ++ boxes) := by
  induction boxes generalizing s seen with
  | nil => rwa [append_nil]
  | cons b boxes ih =>
    have hrest := ih (fun c hc => hboxes c (mem_cons_of_mem b hc)) _
      (spans_stretch h (hboxes b mem_cons_self))
    rwa [append_assoc] at hrest

/-- A window of a picture with an inside whose edges are those of boxes. -/
structure Frames (s : Window) (p : Picture) (boxes : List Box) : Prop where
  left : 0 ≤ s.left
  top : 0 ≤ s.top
  wide : s.left < s.right
  high : s.top < s.bottom
  right : s.right ≤ p.width
  bottom : s.bottom ≤ p.height
  holds_iff : ∀ b : Box, s.Holds b ↔ b.Spanned boxes

theorem Spans.frames (h : s.Spans p boxes) (hboxes : ∀ b ∈ boxes, b.Within p) (hne : boxes ≠ []) :
    s.Frames p boxes := by
  obtain ⟨a, ha⟩ := exists_mem_of_ne_nil boxes hne
  obtain ⟨h1, h2, h3, h4⟩ := h.holds a ha
  obtain ⟨hl, ht, ⟨hw, hh⟩, hr, hb⟩ := hboxes a ha
  -- no edge is where it was for no boxes
  obtain ⟨bl, hbl, heql⟩ := h.left.resolve_left (by omega)
  obtain ⟨bt, hbt, heqt⟩ := h.top.resolve_left (by omega)
  obtain ⟨br, hbr, heqr⟩ := h.right.resolve_left (by omega)
  obtain ⟨bb, hbb, heqb⟩ := h.bottom.resolve_left (by omega)
  refine ⟨heql ▸ (hboxes bl hbl).left, heqt ▸ (hboxes bt hbt).top, by omega, by omega,
    heqr ▸ (hboxes br hbr).right, heqb ▸ (hboxes bb hbb).bottom,
    fun b => ⟨fun hholds => ?_, fun hspanned => ?_⟩⟩
  · obtain ⟨b1, b2, b3, b4⟩ := hholds
    exact ⟨⟨bl, hbl, by omega⟩, ⟨bt, hbt, by omega⟩, ⟨br, hbr, by omega⟩, ⟨bb, hbb, by omega⟩⟩
  · obtain ⟨⟨m1, hm1, b1⟩, ⟨m2, hm2, b2⟩, ⟨m3, hm3, b3⟩, ⟨m4, hm4, b4⟩⟩ := hspanned
    have := (h.holds m1 hm1).left
    have := (h.holds m2 hm2).top
    have := (h.holds m3 hm3).right
    have := (h.holds m4 hm4).bottom
    exact ⟨by omega, by omega, by omega, by omega⟩

end Window

theorem exists_window?_eq (hboxes : ∀ b ∈ boxes, b.Within p) (hne : boxes ≠ []) :
    ∃ s, window? p.width p.height boxes = some s ∧ s.Frames p boxes := by
  have hspans : (boxes.foldl (Window.stretch p.width p.height) ⟨p.width, p.height, 0, 0⟩).Spans p
      boxes :=
    Window.spans_foldl hboxes []
      ⟨fun b hb => absurd hb not_mem_nil, .inl rfl, .inl rfl, .inl rfl, .inl rfl⟩
  have hframes := hspans.frames hboxes hne
  refine ⟨_, if_pos ?_, hframes⟩
  rw [Bool.and_eq_true, decide_eq_true_eq, decide_eq_true_eq]
  exact ⟨Int.sub_pos.mpr hframes.wide, Int.sub_pos.mpr hframes.high⟩

theorem window?_nil (p : Picture) : window? p.width p.height [] = none := by
  refine if_neg fun h => ?_
  rw [Bool.and_eq_true, decide_eq_true_eq, decide_eq_true_eq] at h
  simp only [foldl_nil] at h
  omega

/-! ### What is left of a picture -/

def Regions.Enclosed (r : Regions) : Prop := r.mixed = [] ∨ ∀ b ∈ r.solid, b.Spanned r.mixed

variable {x y : Int}

theorem Picture.colourAt_of_lt {x y : Nat} (hx : x < p.width) (hy : y < p.height) :
    p.colourAt x y = p.pixel x y := by
  have hcontains : p.contains x y = true :=
    contains_iff.mpr ⟨by omega, by omega, by omega, by omega⟩
  rw [colourAt, if_pos hcontains, Int.toNat_natCast, Int.toNat_natCast]

theorem Picture.colourAt_crop (hl : s.left ≤ x) (ht : s.top ≤ y) (hr : x < s.right)
    (hb : y < s.bottom) :
    (p.crop s.left s.top s.right s.bottom).colourAt (x - s.left) (y - s.top) = p.colourAt x y := by
  have hcontains : (p.crop s.left s.top s.right s.bottom).contains (x - s.left) (y - s.top) =
      true :=
    contains_iff.mpr ⟨by omega, by simp only [crop]; omega, by omega, by simp only [crop]; omega⟩
  have hx : s.left + ((x - s.left).toNat : Int) = x := by omega
  have hy : s.top + ((y - s.top).toNat : Int) = y := by omega
  rw [colourAt, if_pos hcontains, crop]
  simp only [hx, hy]

theorem RegionTree.exists_ofPicture_eq (p : Picture) {blockSize : Int} (hw : 1 ≤ p.width)
    (hh : 1 ≤ p.height) (hs : 1 ≤ blockSize) :
    ∃ t, ofPicture p blockSize = .ok t ∧ t.regions.Covers p := by
  have hwhole : Box.Within ⟨0, 0, p.width, p.height⟩ p :=
    ⟨by simp, by simp, ⟨by simp only; omega, by simp only; omega⟩, by simp, by simp⟩
  obtain ⟨t, ht, hparts⟩ := build_parts hs p.width hwhole
  exact ⟨t, ht, regions_covers hparts⟩

variable {t : Trimmed}

namespace Trimmed

def kept (t : Trimmed) : Box :=
  ⟨(t.offset.getD (0, 0)).1, (t.offset.getD (0, 0)).2, t.picture.width, t.picture.height⟩

def moved (t : Trimmed) (b : Box) : Box := { b with x := b.x - t.kept.x, y := b.y - t.kept.y }

/-- What is left has the colours of the picture, and it holds all boxes, or those that the mixed
regions span. -/
structure IsCut (t : Trimmed) (p : Picture) : Prop where
  moved_iff : ∀ b : Box, b.Within p →
    ((t.moved b).Within t.picture ↔ t.regions.mixed = [] ∨ b.Spanned t.regions.mixed)
  colours : ∀ x y : Nat, t.kept.contains x y = true →
    t.picture.colourAt (x - t.kept.x) (y - t.kept.y) = p.pixel x y

theorem isCut_whole {r : Regions} (hr : r.mixed = []) :
    IsCut ⟨p, r, p.width, p.height, none⟩ p where
  moved_iff b hb := by
    have hmoved : (⟨p, r, p.width, p.height, none⟩ : Trimmed).moved b = b := by
      simp [moved, kept]
    rw [hmoved]
    exact ⟨fun _ => .inl hr, fun _ => hb⟩
  colours x y h := by
    obtain ⟨-, hx, -, hy⟩ := Box.contains_iff.mp h
    simp only [kept, Option.getD_none, Int.zero_add] at hx hy
    simp only [kept, Option.getD_none, Int.sub_zero]
    exact Picture.colourAt_of_lt (by omega) (by omega)

theorem isCut_crop {r : Regions} (h : s.Frames p r.mixed) (hr : r.mixed ≠ []) :
    IsCut ⟨p.crop s.left s.top s.right s.bottom, r, p.width, p.height, some (s.left, s.top)⟩ p where
  moved_iff b hb := by
    obtain ⟨hl, ht, hwide, hhigh, hr', hbo, hholds⟩ := h
    have hiff : ((⟨p.crop s.left s.top s.right s.bottom, r, p.width, p.height,
        some (s.left, s.top)⟩ : Trimmed).moved b).Within (p.crop s.left s.top s.right s.bottom) ↔
        s.Holds b := by
      simp only [moved, kept, Option.getD_some, Picture.crop]
      constructor
      · rintro ⟨h1, h2, -, h4, h5⟩
        simp only at h1 h2 h4 h5
        exact ⟨by omega, by omega, by omega, by omega⟩
      · rintro ⟨h1, h2, h3, h4⟩
        exact ⟨by simp only; omega, by simp only; omega, hb.proper, by simp only; omega,
          by simp only; omega⟩
    rw [hiff, hholds b]
    exact ⟨.inr, fun hor => hor.resolve_left hr⟩
  colours x y hxy := by
    obtain ⟨h1, h2, h3, h4⟩ := Box.contains_iff.mp hxy
    simp only [kept, Option.getD_some, Picture.crop] at h1 h2 h3 h4
    have := h.right
    have := h.bottom
    simp only [kept, Option.getD_some]
    rw [Picture.colourAt_crop h1 h3 (by omega) (by omega)]
    exact Picture.colourAt_of_lt (by omega) (by omega)

theorem contains_kept (h : (t.moved b).Within t.picture) (hx : b.contains x y = true) :
    t.kept.contains x y = true := by
  obtain ⟨h1, h2, h3, h4⟩ := Box.contains_iff.mp hx
  obtain ⟨hl, ht, -, hr, hb⟩ := h
  simp only [moved] at hl ht hr hb
  have hw : t.kept.w = t.picture.width := rfl
  have hh : t.kept.h = t.picture.height := rfl
  exact Box.contains_iff.mpr ⟨by omega, by omega, by omega, by omega⟩

theorem contains_kept_of_solid (hb : b.Within p) (hsolid : b.HasAlpha p 255)
    (hall : ∀ x y : Nat, x < p.width → y < p.height → (p.pixel x y).alpha ≠ 0 →
      t.kept.contains x y = true) (x y : Int) (hxy : b.contains x y = true) :
    t.kept.contains x y = true := by
  obtain ⟨h1, h2, h3, h4⟩ := Box.contains_iff.mp hxy
  obtain ⟨hl, ht, -, hr, hbo⟩ := hb
  have hx : ((x.toNat : Nat) : Int) = x := by omega
  have hy : ((y.toNat : Nat) : Int) = y := by omega
  have halpha : (p.pixel x.toNat y.toNat).alpha ≠ 0 := by
    rw [hsolid x.toNat y.toNat (by rwa [hx, hy])]
    decide
  have hkept := hall x.toNat y.toNat (by omega) (by omega) halpha
  rwa [hx, hy] at hkept

theorem within_of_corners (hb : b.Proper) (hfirst : t.kept.contains b.x b.y = true)
    (hlast : t.kept.contains (b.x + b.w - 1) (b.y + b.h - 1) = true) :
    (t.moved b).Within t.picture := by
  obtain ⟨h1, h2, h3, h4⟩ := Box.contains_iff.mp hfirst
  obtain ⟨h5, h6, h7, h8⟩ := Box.contains_iff.mp hlast
  have hw : t.kept.w = t.picture.width := rfl
  have hh : t.kept.h = t.picture.height := rfl
  exact ⟨by simp only [moved]; omega, by simp only [moved]; omega, hb, by simp only [moved]; omega,
    by simp only [moved]; omega⟩

/-- **What is left of a picture.** Its regions cover the whole picture; the mixed ones lie in what
is left, so that no faint point is lost, and what is left has its colours. All regions lie in what
is left, and all points that can be seen, just when the mixed regions enclose the solid ones. -/
structure Shows (t : Trimmed) (p : Picture) : Prop where
  covers : t.regions.Covers p
  mixed : ∀ b ∈ t.regions.mixed, (t.moved b).Within t.picture
  faint : ∀ x y : Nat, x < p.width → y < p.height → (p.pixel x y).alpha ≠ 0 →
    (p.pixel x y).alpha ≠ 255 → t.kept.contains x y = true
  colours : ∀ x y : Nat, t.kept.contains x y = true →
    t.picture.colourAt (x - t.kept.x) (y - t.kept.y) = p.pixel x y
  regions_iff : (∀ b ∈ t.regions.mixed ++ t.regions.solid, (t.moved b).Within t.picture) ↔
    t.regions.Enclosed
  visible_iff : (∀ x y : Nat, x < p.width → y < p.height → (p.pixel x y).alpha ≠ 0 →
    t.kept.contains x y = true) ↔ t.regions.Enclosed

theorem spanned_of_mem (hb : b ∈ boxes) : b.Spanned boxes :=
  ⟨⟨b, hb, Int.le_refl _⟩, ⟨b, hb, Int.le_refl _⟩, ⟨b, hb, Int.le_refl _⟩, ⟨b, hb, Int.le_refl _⟩⟩

theorem IsCut.shows (h : t.IsCut p) (hcovers : t.regions.Covers p) : t.Shows p := by
  have hmixed : ∀ b ∈ t.regions.mixed, (t.moved b).Within t.picture := fun b hb =>
    (h.moved_iff b (hcovers.within b (mem_append_left _ hb))).mpr (.inr (spanned_of_mem hb))
  have hregions : (∀ b ∈ t.regions.mixed ++ t.regions.solid, (t.moved b).Within t.picture) ↔
      t.regions.Enclosed := by
    constructor
    · intro hall
      by_cases hnone : t.regions.mixed = []
      · exact .inl hnone
      · refine .inr fun b hb => ?_
        have hin := mem_append_right t.regions.mixed hb
        exact ((h.moved_iff b (hcovers.within b hin)).mp (hall b hin)).resolve_left hnone
    · intro henclosed b hb
      rcases mem_append.mp hb with hb' | hb'
      · exact hmixed b hb'
      · exact (h.moved_iff b (hcovers.within b hb)).mpr (henclosed.imp_right fun hall => hall b hb')
  -- a point that can be seen lies in a region
  have hregion : ∀ x y : Nat, x < p.width → y < p.height → (p.pixel x y).alpha ≠ 0 →
      ∃ b ∈ t.regions.mixed ++ t.regions.solid, b.contains x y = true := fun x y hx hy ha =>
    Box.hits_pos_iff.mp (by rw [hcovers.once x y hx hy ha]; exact Nat.one_pos)
  refine ⟨hcovers, hmixed, fun x y hx hy ha ha' => ?_, h.colours, hregions, ?_⟩
  · obtain ⟨b, hb, hxy⟩ := hregion x y hx hy ha
    rcases mem_append.mp hb with hb | hb
    · exact contains_kept (hmixed b hb) hxy
    · exact absurd (hcovers.solid b hb x y hxy) ha'
  · rw [← hregions]
    constructor
    · intro hall b hb
      rcases mem_append.mp hb with hb' | hb'
      · exact hmixed b hb'
      · -- both corners of a solid region can be seen
        have hwithin := hcovers.within b hb
        have hcorner : ∀ x y : Int, b.contains x y = true → t.kept.contains x y = true :=
          contains_kept_of_solid hwithin (hcovers.solid b hb') hall
        obtain ⟨hw, hh⟩ := hwithin.proper
        exact within_of_corners hwithin.proper
          (hcorner _ _ (Box.contains_iff.mpr ⟨by omega, by omega, by omega, by omega⟩))
          (hcorner _ _ (Box.contains_iff.mpr ⟨by omega, by omega, by omega, by omega⟩))
    · intro hall x y hx hy ha
      obtain ⟨b, hb, hxy⟩ := hregion x y hx hy ha
      exact contains_kept (hall b hb) hxy

end Trimmed

/-- **Trimming loses nothing but solid points.** For every picture and block size there is something
left of the picture. No point of mixed opacity is lost and all mixed regions lie in what is left;
the solid regions and their points lie there as well just when none of them reaches beyond the
mixed ones. -/
theorem trim_shows (p : Picture) (blockSize : Int) (hw : 1 ≤ p.width) (hh : 1 ≤ p.height)
    (hs : 1 ≤ blockSize) : ∃ t, p.trim blockSize = .ok t ∧ t.Shows p := by
  obtain ⟨tree, htree, hcovers⟩ := RegionTree.exists_ofPicture_eq p hw hh hs
  have hwithin : ∀ b ∈ tree.regions.mixed, b.Within p := fun b hb =>
    hcovers.within b (List.mem_append_left _ hb)
  rw [Picture.trim, htree, ok_bind]
  by_cases hnone : tree.regions.mixed = []
  · simp only [hnone, window?_nil]
    exact ⟨_, rfl, (Trimmed.isCut_whole hnone).shows hcovers⟩
  · obtain ⟨s, hwindow, hframes⟩ := exists_window?_eq hwithin hnone
    simp only [hwindow]
    exact ⟨_, rfl, (Trimmed.isCut_crop hframes hnone).shows hcovers⟩

theorem trim_shows_faintCorner : ∃ t, faintCorner.trim 1 = .ok t ∧ t.Shows faintCorner :=
  trim_shows faintCorner 1 (by decide) (by decide) (by decide)

theorem ofPicture_faintCorner : RegionTree.ofPicture faintCorner 1 = .ok (.node ⟨0, 0, 3, 2⟩
    [.leaf .solid ⟨0, 0, 1, 1⟩, .leaf .clear ⟨1, 0, 2, 1⟩, .leaf .solid ⟨0, 1, 1, 1⟩,
      .leaf .mixed ⟨1, 1, 2, 1⟩]) := rfl

theorem trim_faintCorner : faintCorner.trim 1 =
    .ok ⟨faintCorner.crop 1 1 3 2, ⟨[⟨1, 1, 2, 1⟩], [⟨0, 0, 1, 2⟩]⟩, 3, 2, some (1, 1)⟩ := by
  have hsorted : Box.largestFirst [⟨0, 0, 1, 1⟩, ⟨0, 1, 1, 1⟩] = [⟨0, 0, 1, 1⟩, ⟨0, 1, 1, 1⟩] :=
    mergeSort_of_pairwise (by decide)
  have hsorted' : Box.largestFirst [⟨1, 1, 2, 1⟩] = [⟨1, 1, 2, 1⟩] :=
    mergeSort_of_pairwise (by decide)
  have hsolid : Box.joinAll [⟨0, 0, 1, 1⟩, ⟨0, 1, 1, 1⟩] = [⟨0, 0, 1, 2⟩] := by
    rw [Box.joinAll, if_neg (by decide), Box.joinAll, if_pos (by decide)]
    decide
  have hmixed : Box.joinAll [⟨1, 1, 2, 1⟩] = [⟨1, 1, 2, 1⟩] := by
    rw [Box.joinAll, if_pos (by decide)]
    decide
  rw [Picture.trim, ofPicture_faintCorner, ok_bind, RegionTree.regions, RegionTree.boxes_node,
    RegionTree.boxes_node]
  simp only [flatMap_cons, flatMap_nil, RegionTree.boxes_leaf, reduceCtorEq, ↓reduceIte,
    nil_append, append_nil, singleton_append, hsorted, hsorted', hsolid, hmixed]
  rfl

/-- The opaque column of the picture with a faint corner is lost. -/
theorem trim_loses_column : ∃ t, faintCorner.trim 1 = .ok t ∧
    (faintCorner.pixel 0 0).alpha = 255 ∧ t.kept.contains 0 0 = false ∧
    ∃ b ∈ t.regions.mixed ++ t.regions.solid, ¬ (t.moved b).Within t.picture := by
  refine ⟨_, trim_faintCorner, rfl, rfl, ⟨0, 0, 1, 2⟩, by decide, fun h => ?_⟩
  exact absurd h.left (by decide)

end WikiFeed

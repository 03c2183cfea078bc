import WikiFeed.Proofs.Outcome
import WikiFeed.Proofs.Region.Joining
import WikiFeed.Region.Tree

/-! # The regions of a picture cover what can be seen

A box inside of a picture can be analyzed, and what the analysis calls solid or clear is so at every
point (`analyze_covers`). Quarters tile their box (`hits_quarters`), so the leaves of the tree that
is built over a box tile the box, whatever the reasons are for which division stops (`build_parts`).
Joining keeps the hits of all points, hence the regions lie apart inside of the picture, a point
that can be seen lies in exactly one of them, and a point outside of all of them is clear
(`trim_regions_cover`). -/

namespace WikiFeed

open Sprite (Result Fault)
open Outcome List

/-- A box with an inside that lies in a picture. -/
structure Box.Within (b : Box) (p : Picture) : Prop where
  left : 0 ≤ b.x
  top : 0 ≤ b.y
  proper : b.Proper
  right : b.x + b.w ≤ p.width
  bottom : b.y + b.h ≤ p.height

def Box.HasAlpha (b : Box) (p : Picture) (a : UInt8) : Prop :=
  ∀ x y : Nat, b.contains x y = true → (p.pixel x y).alpha = a

/-- A kind of part says the truth about a box. -/
structure Box.Covered (p : Picture) (b : Box) (k : Cover) : Prop where
  solid : k = .solid → b.HasAlpha p 255
  clear : k = .clear → b.HasAlpha p 0
  settled : k ≠ .divided

/-! ### Analysis of a box -/

variable {p : Picture} {b : Box}

namespace Picture

theorem mem_pointsOf {x y : Int} : (x, y) ∈ pointsOf b ↔ b.contains x y = true := by
  simp only [pointsOf, mem_flatMap, mem_map, mem_range, Prod.mk.injEq, Box.contains_iff]
  constructor
  · rintro ⟨j, hj, i, hi, rfl, rfl⟩
    omega
  · rintro ⟨h1, h2, h3, h4⟩
    exact ⟨(y - b.y).toNat, by omega, (x - b.x).toNat, by omega, by omega, by omega⟩

theorem around?_eq {x y : Int} (hx : 0 ≤ x) (hxw : x < p.width) (hy : 0 ≤ y) (hyh : y < p.height) :
    p.around? x y = some (p.pixel x.toNat y.toNat) := by
  have hc : p.contains x y = true := by simp [contains, hx, hxw, hy, hyh]
  simp only [around?, if_neg (Int.not_lt.mpr hx), if_neg (Int.not_lt.mpr hy), hc, if_true]

def coloursOf (p : Picture) (b : Box) : List Pixel :=
  (pointsOf b).map fun q => p.pixel q.1.toNat q.2.toNat

theorem analyze_eq (hb : b.Within p) : p.analyze b = .ok (coverOf (p.coloursOf b)) := by
  rw [analyze, mapM_eq_ok (g := fun q => p.pixel q.1.toNat q.2.toNat), ok_bind]
  · rfl
  · intro q hq
    obtain ⟨h1, h2, h3, h4⟩ := Box.contains_iff.mp (mem_pointsOf.mp hq)
    have := hb.left; have := hb.top; have := hb.right; have := hb.bottom
    rw [around?_eq (by omega) (by omega) (by omega) (by omega)]

theorem mem_coloursOf {x y : Nat} (h : b.contains x y = true) : p.pixel x y ∈ p.coloursOf b :=
  mem_map.mpr ⟨((x : Int), (y : Int)), mem_pointsOf.mpr h, rfl⟩

theorem analyze_covers (hb : b.Within p) : ∃ k, p.analyze b = .ok k ∧ b.Covered p k := by
  refine ⟨_, analyze_eq hb, ?_⟩
  unfold coverOf
  split_ifs with hs hc
  · refine ⟨fun _ x y h => ?_, by simp, by decide⟩
    simpa using all_eq_true.mp hs _ (mem_coloursOf h)
  · refine ⟨by simp, fun _ x y h => ?_, by decide⟩
    simpa using all_eq_true.mp hc _ (mem_coloursOf h)
  · exact ⟨by simp, by simp, by decide⟩

end Picture

/-! ### Quarters -/

theorem Box.hits_quarters (hb : b.Proper) (x y : Int) : hits b.quarters x y = hits [b] x y := by
  obtain ⟨hw, hh⟩ := hb
  simp only [quarters, hits_cons, hits_nil, contains_iff]
  split_ifs <;> omega

theorem Box.within_quarters {c : Box} (hb : b.Within p) (hw : 2 ≤ b.w) (hh : 2 ≤ b.h)
    (hc : c ∈ b.quarters) : c.Within p := by
  obtain ⟨hl, ht, -, hr, hbo⟩ := hb
  simp only [quarters, mem_cons, not_mem_nil, or_false] at hc
  rcases hc with rfl | rfl | rfl | rfl
  all_goals
    refine ⟨?_, ?_, ⟨?_, ?_⟩, ?_, ?_⟩ <;> simp only <;> omega

theorem Box.covered_of_quarters {k : Cover} (hb : b.Proper) (hq : ∀ c ∈ b.quarters, c.Covered p k) :
    b.Covered p k := by
  have hpoint : ∀ x y, b.contains x y = true → ∃ c ∈ b.quarters, c.contains x y = true := by
    intro x y h
    have h1 : hits [b] x y = 1 := by rw [hits_cons, if_pos h, hits_nil]
    rw [← hits_quarters hb] at h1
    exact hits_pos_iff.mp (by omega)
  refine ⟨fun hk x y h => ?_, fun hk x y h => ?_, (hq _ mem_cons_self).settled⟩
  · obtain ⟨c, hc, hcx⟩ := hpoint x y h
    exact (hq c hc).solid hk x y hcx
  · obtain ⟨c, hc, hcx⟩ := hpoint x y h
    exact (hq c hc).clear hk x y hcx

/-! ### The tree of parts -/

variable {t : RegionTree} {bs : List Box} {ts : List RegionTree}

namespace RegionTree

open Box (hits hits_nil hits_cons hits_append)

theorem boxes_leaf (kind k : Cover) (b : Box) :
    boxes kind (.leaf k b) = if k = kind then [b] else [] := by rw [boxes]

theorem boxes_node (kind : Cover) (b : Box) (ts : List RegionTree) :
    boxes kind (.node b ts) = ts.flatMap (boxes kind) := by
  rw [boxes, flatMap_subtype (g := boxes kind) (fun _ _ => rfl), unattach_attach]

/-- The leaves of a tree tile a box, lie in the picture, and say the truth. -/
structure Parts (p : Picture) (b : Box) (t : RegionTree) : Prop where
  within : ∀ kind, ∀ c ∈ t.boxes kind, c.Within p
  tiles : ∀ x y, hits (t.boxes .solid) x y + hits (t.boxes .mixed) x y + hits (t.boxes .clear) x y =
    hits [b] x y
  solid : ∀ c ∈ t.boxes .solid, c.HasAlpha p 255
  clear : ∀ c ∈ t.boxes .clear, c.HasAlpha p 0

theorem parts_leaf {k : Cover} (hb : b.Within p) (hk : b.Covered p k) : Parts p b (.leaf k b) := by
  refine ⟨fun kind c hc => ?_, fun x y => ?_, fun c hc => ?_, fun c hc => ?_⟩
  · rw [boxes_leaf] at hc
    split_ifs at hc
    · rw [mem_singleton.mp hc]; exact hb
    · simp at hc
  · have := hk.settled
    cases k <;> simp_all [boxes_leaf, hits_nil]
  · rw [boxes_leaf] at hc
    split_ifs at hc with h
    · rw [mem_singleton.mp hc]; exact hk.solid h
    · simp at hc
  · rw [boxes_leaf] at hc
    split_ifs at hc with h
    · rw [mem_singleton.mp hc]; exact hk.clear h
    · simp at hc

theorem tiles_flatMap (h : Forall₂ (Parts p) bs ts) (x y : Int) :
    hits (ts.flatMap (boxes .solid)) x y + hits (ts.flatMap (boxes .mixed)) x y +
      hits (ts.flatMap (boxes .clear)) x y = hits bs x y := by
  induction h with
  | nil => rfl
  | @cons b t bs ts ht _ ih =>
    have hbs : hits (b :: bs) x y = hits [b] x y + hits bs x y := hits_append [b] bs x y
    have := ht.tiles x y
    simp only [flatMap_cons, hits_append, hbs]
    omega

theorem exists_parts_of_mem (h : Forall₂ (Parts p) bs ts) (ht : t ∈ ts) : ∃ b, Parts p b t := by
  induction h with
  | nil => simp at ht
  | cons hp _ ih =>
    rcases mem_cons.mp ht with rfl | ht
    · exact ⟨_, hp⟩
    · exact ih ht

theorem parts_node (hb : b.Proper) (h : Forall₂ (Parts p) b.quarters ts) :
    Parts p b (.node b ts) := by
  have hmem : ∀ {kind c}, c ∈ boxes kind (.node b ts) →
      ∃ b' t, Parts p b' t ∧ c ∈ t.boxes kind := by
    intro kind c hc
    rw [boxes_node] at hc
    obtain ⟨t, ht, hc⟩ := mem_flatMap.mp hc
    obtain ⟨b', hp⟩ := exists_parts_of_mem h ht
    exact ⟨b', t, hp, hc⟩
  refine ⟨fun kind c hc => ?_, fun x y => ?_, fun c hc => ?_, fun c hc => ?_⟩
  · obtain ⟨b', t, hp, hc⟩ := hmem hc
    exact hp.within kind c hc
  · rw [boxes_node, boxes_node, boxes_node, tiles_flatMap h, Box.hits_quarters hb]
  · obtain ⟨b', t, hp, hc⟩ := hmem hc
    exact hp.solid c hc
  · obtain ⟨b', t, hp, hc⟩ := hmem hc
    exact hp.clear c hc

theorem covered_of_kinds {kinds : List Cover} {kind : Cover} (h : Forall₂ (Box.Covered p) bs kinds)
    (hall : ∀ k ∈ kinds, k = kind) : ∀ c ∈ bs, c.Covered p kind := by
  induction h with
  | nil => simp
  | cons hk _ ih =>
    intro c hc
    rcases mem_cons.mp hc with rfl | hc
    · rw [← hall _ mem_cons_self]; exact hk
    · exact ih (fun k hk => hall k (mem_cons_of_mem _ hk)) c hc

/-- **The parts of a box**: division never fails inside of a picture, and the leaves tile the box.
The induction is on the number of divisions that are left. -/
theorem build_parts {blockSize : Int} (hs : 1 ≤ blockSize) :
    ∀ (depth : Nat) {b : Box}, b.Within p → ∃ t, build p blockSize depth b = .ok t ∧ Parts p b t
  | 0, b, hb => by
    obtain ⟨k, hk, hcov⟩ := Picture.analyze_covers hb
    refine ⟨.leaf k b, ?_, parts_leaf hb hcov⟩
    rw [build, hk, ok_bind]
    rfl
  | depth + 1, b, hb => by
    rw [build]
    split_ifs with hsize
    · have hlarge : blockSize < b.w ∧ blockSize < b.h := by simpa using hsize
      have hquarters : ∀ c ∈ b.quarters, c.Within p := fun c hc =>
        Box.within_quarters hb (by omega) (by omega) hc
      obtain ⟨kinds, hkinds, hcov⟩ := exists_mapM_eq_ok fun c hc =>
        Picture.analyze_covers (hquarters c hc)
      obtain ⟨ts, hts, hparts⟩ := exists_mapM_eq_ok fun c hc =>
        build_parts hs depth (hquarters c hc)
      rw [hkinds, ok_bind]
      simp only
      split_ifs with hsame
      · -- all quarters are of one kind, and division stops
        have hall : ∀ k ∈ kinds, k = kinds.headD .mixed := by
          intro k hk
          simpa using all_eq_true.mp (Bool.and_eq_true_iff.mp hsame).1 k hk
        refine ⟨_, rfl, parts_leaf hb ?_⟩
        exact Box.covered_of_quarters hb.proper (covered_of_kinds hcov hall)
      · rw [hts, ok_bind]
        split_ifs with hmixed
        · exact ⟨_, rfl, parts_leaf hb ⟨by simp, by simp, by decide⟩⟩
        · exact ⟨_, rfl, parts_node hb.proper hparts⟩
    · obtain ⟨k, hk, hcov⟩ := Picture.analyze_covers hb
      refine ⟨.leaf k b, ?_, parts_leaf hb hcov⟩
      rw [hk, ok_bind]
      rfl

end RegionTree

/-! ### Regions -/

theorem Box.within_join {n o j : Box} (h : join? n o = some j) (hn : n.Within p) (ho : o.Within p) :
    j.Within p := by
  have hj := (join?_eq_some h hn.proper ho.proper).1
  obtain ⟨hnl, hnt, ⟨hnw, hnh⟩, hnr, hnb⟩ := hn
  obtain ⟨hol, hot, ⟨how, hoh⟩, hor, hob⟩ := ho
  unfold join? at h
  split_ifs at h with h1 h2
  · cases h
    exact ⟨hnl, by simp only; omega, hj, hnr, by simp only; omega⟩
  · cases h
    exact ⟨by simp only; omega, hnt, hj, by simp only; omega, by simp only; omega⟩

theorem Box.hasAlpha_join {a : UInt8} {n o j : Box} (h : join? n o = some j)
    (hn : n.Proper ∧ n.HasAlpha p a) (ho : o.Proper ∧ o.HasAlpha p a) :
    j.Proper ∧ j.HasAlpha p a := by
  obtain ⟨hj, hhits⟩ := join?_eq_some h hn.1 ho.1
  refine ⟨hj, fun x y hx => ?_⟩
  have hxy := hhits x y
  rw [hits_cons, if_pos hx, hits_nil, hits_cons, hits_cons, hits_nil] at hxy
  by_cases hnx : n.contains x y = true
  · exact hn.2 x y hnx
  · by_cases hox : o.contains x y = true
    · exact ho.2 x y hox
    · rw [if_neg hnx, if_neg hox] at hxy
      omega

/-- **Regions cover a picture**: they lie apart inside of it, every point that can be seen lies in
exactly one of them, all points of a solid one are opaque, and a point in none of them is clear. -/
structure Regions.Covers (r : Regions) (p : Picture) : Prop where
  within : ∀ b ∈ r.mixed ++ r.solid, b.Within p
  apart : (r.mixed ++ r.solid).Pairwise Box.Apart
  once : ∀ x y : Nat, x < p.width → y < p.height → (p.pixel x y).alpha ≠ 0 →
    Box.hits (r.mixed ++ r.solid) x y = 1
  solid : ∀ b ∈ r.solid, b.HasAlpha p 255
  clear : ∀ x y : Nat, x < p.width → y < p.height → Box.hits (r.mixed ++ r.solid) x y = 0 →
    (p.pixel x y).alpha = 0

namespace RegionTree

open Box (hits hits_append)

theorem mem_largestFirst : b ∈ Box.largestFirst bs ↔ b ∈ bs :=
  (Box.largestFirst_perm bs).mem_iff

theorem hits_joined (h : Parts p b t) (kind : Cover) (x y : Int) :
    hits (Box.joinAll (Box.largestFirst (t.boxes kind))) x y = hits (t.boxes kind) x y := by
  rw [Box.hits_joinAll fun c hc => (h.within kind c (mem_largestFirst.mp hc)).proper]
  exact Box.hits_perm (Box.largestFirst_perm _) x y

theorem hits_regions (h : Parts p b t) (x y : Int) :
    hits (t.regions.mixed ++ t.regions.solid) x y + hits (t.boxes .clear) x y = hits [b] x y := by
  rw [hits_append, regions, hits_joined h, hits_joined h, ← h.tiles x y]
  omega

theorem regions_within (h : Parts p b t) :
    ∀ c ∈ t.regions.mixed ++ t.regions.solid, c.Within p := by
  have hkind : ∀ kind, ∀ c ∈ Box.joinAll (Box.largestFirst (t.boxes kind)), c.Within p :=
    fun kind => Box.forall_joinAll (fun _ _ _ => Box.within_join) fun c hc =>
      h.within kind c (mem_largestFirst.mp hc)
  intro c hc
  rcases mem_append.mp hc with hc | hc
  · exact hkind .mixed c hc
  · exact hkind .solid c hc

theorem regions_solid (h : Parts p b t) : ∀ c ∈ t.regions.solid, c.HasAlpha p 255 := by
  have hall : ∀ c ∈ t.regions.solid, c.Proper ∧ c.HasAlpha p 255 :=
    Box.forall_joinAll (fun _ _ _ => Box.hasAlpha_join) fun c hc =>
      ⟨(h.within .solid c (mem_largestFirst.mp hc)).proper, h.solid c (mem_largestFirst.mp hc)⟩
  exact fun c hc => (hall c hc).2

theorem regions_covers (h : Parts p ⟨0, 0, p.width, p.height⟩ t) : t.regions.Covers p := by
  have hwithin := regions_within h
  have hpicture : ∀ x y : Nat, x < p.width → y < p.height →
      hits [⟨0, 0, p.width, p.height⟩] (x : Int) y = 1 := by
    intro x y hx hy
    rw [Box.hits_cons, if_pos (Box.contains_iff.mpr ⟨by simp, by simp [hx], by simp, by simp [hy]⟩),
      Box.hits_nil]
  refine ⟨hwithin, ?_, fun x y hx hy ha => ?_, regions_solid h, fun x y hx hy hno => ?_⟩
  · refine Box.pairwise_apart_of_hits_le (fun b hb => (hwithin b hb).proper) fun x y => ?_
    have hsum := hits_regions h x y
    have hone : hits [⟨0, 0, p.width, p.height⟩] x y ≤ 1 := countP_le_length
    omega
  · have hsum := hits_regions h x y
    rw [hpicture x y hx hy] at hsum
    have hclear : hits (t.boxes .clear) x y = 0 := by
      refine Nat.eq_zero_of_not_pos fun hpos => ?_
      obtain ⟨c, hc, hcx⟩ := Box.hits_pos_iff.mp hpos
      exact ha (h.clear c hc x y hcx)
    omega
  · have hsum := hits_regions h x y
    rw [hpicture x y hx hy, hno] at hsum
    obtain ⟨c, hc, hcx⟩ := Box.hits_pos_iff.mp (show 0 < hits (t.boxes .clear) x y by omega)
    exact h.clear c hc x y hcx

end RegionTree

/-- **Trimming finds regions that cover the picture**, for every block size. -/
theorem trim_regions_cover (p : Picture) (blockSize : Int) (hw : 1 ≤ p.width) (hh : 1 ≤ p.height)
    (hs : 1 ≤ blockSize) : ∃ t, p.trim blockSize = .ok t ∧ t.regions.Covers p := by
  have hwhole : Box.Within ⟨0, 0, p.width, p.height⟩ p :=
    ⟨by simp, by simp, ⟨by simp only; omega, by simp only; omega⟩, by simp, by simp⟩
  obtain ⟨tree, htree, hparts⟩ := RegionTree.build_parts hs p.width hwhole
  have hcovers := RegionTree.regions_covers hparts
  unfold Picture.trim
  rw [RegionTree.ofPicture, htree, ok_bind]
  simp only
  split
  · exact ⟨_, rfl, hcovers⟩
  · exact ⟨_, rfl, hcovers⟩

def faintCorner : Picture :=
  ⟨3, 2, fun x y => if x = 0 then 255 else if x = 2 ∧ y = 1 then 7 else 0⟩

theorem trim_regions_cover_faintCorner :
    ∃ t, faintCorner.trim 1 = .ok t ∧ t.regions.Covers faintCorner :=
  trim_regions_cover faintCorner 1 (by decide) (by decide) (by decide)

end WikiFeed

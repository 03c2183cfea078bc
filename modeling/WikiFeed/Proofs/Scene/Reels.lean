import WikiFeed.Proofs.Decimal.Monotone
import WikiFeed.Proofs.Scene.Files
import WikiFeed.Proofs.Scene.Strips

/-! # The files of strips

The files of a folder are a `Reel` of the frames of its strip: each frame has a file under its
number and one for each further number that it takes, and all other files are marked as missing
(`exists_reel`, `reel_drawerOf`). What is drawn under a further number of a frame gets no file. -/

namespace WikiFeed.Scene

open Sprite List
open Outcome (ok_bind)

variable {portraits : Portraits} {folder : String}

/-! ### Single files -/

def File.IsMissing (folder : String) (f : File) : Prop :=
  ∃ n : Int, f.stem = folder ++ "-" ++ Decimal.intText n ++ "(missing)"

structure File.IsFirst (folder : String) (c : Cel) (f : File) : Prop where
  number : f.number = c.number
  stem : f.stem = pictureName folder c.number
  width : f.width = .int c.width
  height : f.height = .int c.height
  pivotX : ∃ x, f.pivotX = .float x
  pivotY : ∃ y, f.pivotY = .float y

def laterOf (folder : String) (first : File) (c : Cel) : List File :=
  (List.range' 1 (c.duration - 1)).map (laterFile folder first)

/-- Files of frames in order, and among them files that are marked as missing. -/
inductive Reel (folder : String) : List Cel → List File → Prop
  | nil : Reel folder [] []
  | missing {cs : List Cel} {files : List File} {f : File} (hf : f.IsMissing folder)
      (rest : Reel folder cs files) : Reel folder cs (f :: files)
  | cel {cs : List Cel} {files : List File} {c : Cel} {first : File}
      (hfirst : first.IsFirst folder c) (rest : Reel folder cs files) :
      Reel folder (c :: cs) (first :: laterOf folder first c ++ files)

def File.Ready (portraits : Portraits) (f : File) : Prop :=
  (∀ picture, f.source = .portrait picture → (portraits.lookup picture).isSome) ∧
    (f.source = .blank → ∃ p, Building.blankPicture f.width f.height = .ok p)

theorem File.ready_of_portrait {f : File} {picture : String} (hf : f.source = .portrait picture)
    (hpicture : (portraits.lookup picture).isSome) : f.Ready portraits := by
  refine ⟨fun picture' h => ?_, fun h => ?_⟩
  · rw [hf] at h
    cases h
    exact hpicture
  · rw [hf] at h
    cases h

theorem dividedBy_of_quotient {v : Datum} {a : Number} {n : Int} {q : Float}
    (hv : numberOf? v = some a) (hq : a.quotient (.int n) = .ok q) :
    dividedBy v (.int n) = .ok (.float q) := by
  have hnumber : numberOf v = .ok a := by rw [numberOf, hv]
  unfold dividedBy onNumbers
  rw [hnumber, ok_bind]
  change (do return ofNumber (← calculated (a.div (.int n))) : Result Datum) = _
  rw [Number.div, hq]
  rfl

variable {d : Datum} {w h : Int}

theorem exists_firstFile (hd : IsSized d w h) (n : Nat) :
    ∃ px py : Float, firstFile portraits folder n d = .ok
      (if (portraits.lookup (pictureName folder n)).isSome then
        ⟨n, pictureName folder n, .int w, .int h, .float px, .float py,
          .portrait (pictureName folder n)⟩
      else
        ⟨n, pictureName folder n ++ "(missing)", .int w, .int h, .float px, .float py,
          .blank⟩) := by
  obtain ⟨x, nx, qx, hx, hnx, hqx⟩ := hd.x
  obtain ⟨y, ny, qy, hy, hny, hqy⟩ := hd.y
  refine ⟨0.5 - qx, 0.5 + qy, ?_⟩
  unfold firstFile
  rw [hx, ok_bind, hy, ok_bind, hd.w, ok_bind, hd.h, ok_bind, dividedBy_of_quotient hnx hqx,
    ok_bind, dividedBy_of_quotient hny hqy]
  change (if (portraits.lookup (pictureName folder n)).isSome then _ else _) = _
  split_ifs <;> rfl

variable {c : Cel}

theorem exists_first (hd : IsCel d c)
    (hpicture : (portraits.lookup (pictureName folder c.number)).isSome) :
    ∃ f, firstFile portraits folder c.number d = .ok f ∧ f.IsFirst folder c ∧
      f.Ready portraits := by
  obtain ⟨px, py, hfirst⟩ := exists_firstFile hd.toIsSized c.number
  rw [if_pos hpicture] at hfirst
  exact ⟨_, hfirst, ⟨rfl, rfl, rfl, rfl, ⟨px, rfl⟩, py, rfl⟩, File.ready_of_portrait rfl hpicture⟩

theorem hasShare_zero {name : String} (h : named d name = .ok (.int 0)) {side : Int}
    (hside : 0 < side) : HasShare d name side := by
  obtain ⟨q, hq⟩ : ∃ q, (Number.int 0).quotient (.int side) = .ok q :=
    Number.quotient_int hside (Decimal.not_isInf_nearestSigned_zero _ _)
  exact ⟨.int 0, .int 0, q, h, rfl, hq⟩

theorem isSized_unknownFrame (number : Datum) (hw : 0 < w) (hh : 0 < h) :
    IsSized (unknownFrame number (.int w) (.int h)) w h :=
  ⟨hasShare_zero rfl hw, hasShare_zero rfl hh, rfl, rfl⟩

theorem exists_blankPicture (hw : 0 < w) (hh : 0 < h) :
    ∃ p, Building.blankPicture (.int w) (.int h) = .ok p := by
  have hbelow {n : Int} (hn : 0 < n) : below (.int n) (.int 0) = .ok false := by
    rw [below_eq rfl rfl, less_int, decide_eq_false (by omega)]
  unfold Building.blankPicture
  rw [hbelow hw, ok_bind, hbelow hh, ok_bind]
  exact ⟨_, rfl⟩

theorem exists_missing {n : Nat} (hw : 0 < w) (hh : 0 < h)
    (hpicture : portraits.lookup (pictureName folder n) = none) :
    ∃ f, firstFile portraits folder n (unknownFrame (.int n) (.int w) (.int h)) = .ok f ∧
      f.IsMissing folder ∧ f.Ready portraits := by
  obtain ⟨px, py, hfirst⟩ := exists_firstFile (isSized_unknownFrame (.int n) hw hh) n
  rw [if_neg (by rw [hpicture]; simp)] at hfirst
  refine ⟨_, hfirst, ⟨n, rfl⟩, ?_, fun _ => exists_blankPicture hw hh⟩
  intro picture hsource
  cases hsource

theorem laterFiles_of_cel (hd : IsCel d c) (first : File) :
    laterFiles folder first d = .ok (laterOf folder first c) := by
  rw [laterFiles, hd.duration, ok_bind]
  rfl

theorem laterFiles_unknownFrame (first : File) (number w h : Datum) :
    laterFiles folder first (unknownFrame number w h) = .ok [] := by
  rw [laterFiles, duration_unknownFrame, ok_bind]
  rfl

theorem ready_laterOf {first : File} (hfirst : first.IsFirst folder c)
    (hpicture : (portraits.lookup (pictureName folder c.number)).isSome) :
    ∀ f ∈ laterOf folder first c, f.Ready portraits := by
  intro f hf
  obtain ⟨d, -, rfl⟩ := mem_map.mp hf
  refine File.ready_of_portrait rfl ?_
  rw [hfirst.number]
  exact hpicture

theorem mem_numbers_laterOf {first : File} (hfirst : first.IsFirst folder c) {m : Nat} :
    (m : Int) ∈ (laterOf folder first c).map (·.number) ↔
      c.number < m ∧ m < c.number + c.duration := by
  have hnumbers : (laterOf folder first c).map (·.number) = laterNumbers c.number c.duration := by
    rw [laterOf, laterNumbers, map_map, Int.toNat_natCast]
    refine map_congr_left fun d _ => ?_
    simp only [Function.comp_apply, laterFile, hfirst.number]
  rw [hnumbers, mem_laterNumbers]
  omega

/-! ### Files for all numbers -/

variable {drawn : List (String × Int)} {cels : List Cel} {fs : List (Int × Datum)}

theorem Sheet.frameAt_cel (h : Sheet drawn folder cels fs) (hc : c ∈ cels) :
    ∃ d, frameAt (keyed .int fs) c.number = .ok d ∧ IsCel d c := by
  obtain ⟨d, hlookup, hd⟩ := h.own c hc
  refine ⟨d, ?_, hd⟩
  unfold frameAt
  rw [lookup_keyed keying_int, hlookup]

theorem Sheet.frameAt_filler (h : Sheet drawn folder cels fs) (hfs : fs ≠ []) {n : Nat}
    (hn : ∀ c ∈ cels, c.number ≠ n) : ∃ w k : Int, 0 < w ∧ 0 < k ∧
      frameAt (keyed .int fs) n = .ok (unknownFrame (.int n) (.int w) (.int k)) := by
  unfold frameAt
  rw [lookup_keyed keying_int]
  cases hlookup : fs.lookup (n : Int) with
  | some d =>
    rcases h.other _ (Places.mem_of_lookup_eq_some hlookup) with ⟨c, hc, heq, -⟩ | ⟨hfiller, -⟩
    · exact absurd (Int.ofNat_inj.mp heq).symm (hn c hc)
    · obtain ⟨side, hside, hd⟩ := hfiller
      exact ⟨side, side, hside, hside, congrArg Except.ok hd⟩
  | none =>
    obtain ⟨p, ps, rfl⟩ := exists_cons_of_ne_nil hfs
    obtain ⟨w, k, hw, hk, hsized⟩ : ∃ w k : Int, 0 < w ∧ 0 < k ∧ IsSized p.2 w k := by
      rcases h.other p mem_cons_self with ⟨c, -, -, hc⟩ | ⟨⟨side, hside, hp⟩, -⟩
      · exact ⟨c.width, c.height, c.width_pos, c.height_pos, hc.toIsSized⟩
      · exact ⟨side, side, hside, hside, hp ▸ isSized_unknownFrame _ hside hside⟩
    refine ⟨w, k, hw, hk, ?_⟩
    simp only [keyed, map_cons, headD_cons, hsized.w, hsized.h, ok_bind]
    rfl

/-- The frames from a number on: in order, without an overlap, and all that there are of the numbers
that are not yet taken. -/
structure Ahead (portraits : Portraits) (folder : String) (cels : List Cel) (n next last : Nat)
    (cs : List Cel) : Prop where
  ordered : cs.Pairwise fun c d => c.number + c.duration ≤ d.number
  sub : ∀ c ∈ cs, c ∈ cels
  range : ∀ c ∈ cs, n ≤ c.number ∧ next ≤ c.number ∧ c.number < last
  all : ∀ c ∈ cels, n ≤ c.number → next ≤ c.number → c ∈ cs
  pictured : ∀ c ∈ cs, (portraits.lookup (pictureName folder c.number)).isSome
  stray : ∀ m, n ≤ m → next ≤ m → m < last →
    (portraits.lookup (pictureName folder m)).isSome → ∃ c ∈ cs, c.Takes m

section Ahead

variable {n next last : Nat} {cs : List Cel}

theorem Ahead.pass (h : Ahead portraits folder cels n next last cs) (hne : ∀ c ∈ cs, c.number ≠ n) :
    Ahead portraits folder cels (n + 1) next last cs where
  ordered := h.ordered
  sub := h.sub
  range c hc := by
    have := h.range c hc
    have := hne c hc
    omega
  all c hc hfirst hnext := h.all c hc (by omega) hnext
  pictured := h.pictured
  stray m hm := h.stray m (by omega)

theorem Ahead.tail (h : Ahead portraits folder cels n next last (c :: cs)) (hn : c.number = n) :
    Ahead portraits folder cels (n + 1) (n + c.duration) last cs where
  ordered := h.ordered.tail
  sub d hd := h.sub d (mem_cons_of_mem _ hd)
  range d hd := by
    have := h.range d (mem_cons_of_mem _ hd)
    have := (pairwise_cons.mp h.ordered).1 d hd
    have := c.lasting
    omega
  all d hd hfirst hnext := by
    have := h.range c mem_cons_self
    rcases mem_cons.mp (h.all d hd (by omega) (by omega)) with rfl | hmem
    · omega
    · exact hmem
  pictured d hd := h.pictured d (mem_cons_of_mem _ hd)
  stray m hm hnext hlast hpicture := by
    have := h.range c mem_cons_self
    obtain ⟨d, hd, htakes⟩ := h.stray m (by omega) (by omega) hlast hpicture
    rcases mem_cons.mp hd with rfl | hd
    · have := htakes.2
      omega
    · exact ⟨d, hd, htakes⟩

theorem Ahead.head (h : Ahead portraits folder cels n next last cs) (hc : c ∈ cs)
    (htakes : c.Takes n) : ∃ rest, cs = c :: rest ∧ c.number = n := by
  have hnumber : c.number = n := le_antisymm htakes.1 (h.range c hc).1
  obtain ⟨d, rest, rfl⟩ := exists_cons_of_ne_nil (ne_nil_of_mem hc)
  rcases mem_cons.mp hc with rfl | hmem
  · exact ⟨rest, rfl, hnumber⟩
  · have := (pairwise_cons.mp h.ordered).1 c hmem
    have := h.range d mem_cons_self
    have := d.lasting
    omega

end Ahead

section Steps

variable {rest taken : List Int}

theorem Sheet.filesUpTo_cel (hsheet : Sheet drawn folder cels fs) (hc : c ∈ cels)
    (hfree : (c.number : Int) ∉ taken)
    (hpicture : (portraits.lookup (pictureName folder c.number)).isSome) :
    ∃ first, first.IsFirst folder c ∧ (∀ f ∈ first :: laterOf folder first c, f.Ready portraits) ∧
      filesUpTo portraits folder (keyed .int fs) (c.number :: rest) taken =
        (first :: laterOf folder first c ++ (filesUpTo portraits folder (keyed .int fs) rest
            (taken ++ (laterOf folder first c).map (·.number))).1,
          (filesUpTo portraits folder (keyed .int fs) rest
            (taken ++ (laterOf folder first c).map (·.number))).2) := by
  obtain ⟨d, hframe, hd⟩ := hsheet.frameAt_cel hc
  obtain ⟨first, hfirst, hisFirst, hready⟩ := exists_first hd hpicture
  refine ⟨first, hisFirst, forall_mem_cons.mpr ⟨hready, ready_laterOf hisFirst hpicture⟩, ?_⟩
  exact filesUpTo_of_files hfree hframe hfirst (laterFiles_of_cel hd first)

theorem Sheet.filesUpTo_missing (hsheet : Sheet drawn folder cels fs) (hfs : fs ≠ []) {n : Nat}
    (hn : ∀ c ∈ cels, c.number ≠ n) (hfree : (n : Int) ∉ taken)
    (hpicture : portraits.lookup (pictureName folder n) = none) :
    ∃ f : File, f.IsMissing folder ∧ f.Ready portraits ∧
      filesUpTo portraits folder (keyed .int fs) (n :: rest) taken =
        (f :: (filesUpTo portraits folder (keyed .int fs) rest taken).1,
          (filesUpTo portraits folder (keyed .int fs) rest taken).2) := by
  obtain ⟨w, h, hw, hh, hframe⟩ := hsheet.frameAt_filler hfs hn
  obtain ⟨f, hf, hmissing, hready⟩ := exists_missing hw hh hpicture
  refine ⟨f, hmissing, hready, ?_⟩
  rw [filesUpTo_of_files hfree hframe hf (laterFiles_unknownFrame _ _ _ _), map_nil,
    append_nil, singleton_append]

end Steps

/-- **The files of a folder are a reel.** The numbers from `n` on that earlier frames have taken are
those below `next`. -/
theorem exists_reel (hsheet : Sheet drawn folder cels fs) (hfs : fs ≠ []) (k n next : Nat)
    (taken : List Int) (cs : List Cel) (htaken : ∀ m : Nat, n ≤ m → ((m : Int) ∈ taken ↔ m < next))
    (hahead : Ahead portraits folder cels n next (n + k) cs) :
    ∃ files, filesUpTo portraits folder (keyed .int fs) ((range' n k).map Int.ofNat) taken =
      (files, none) ∧ Reel folder cs files ∧ ∀ f ∈ files, f.Ready portraits := by
  -- on how many numbers are left; `cs` are the frames that start with one of them
  induction k generalizing n next taken cs with
  | zero =>
    have hcs : cs = [] := eq_nil_iff_forall_not_mem.mpr fun c hc => by
      have := hahead.range c hc
      omega
    exact ⟨[], rfl, hcs ▸ .nil, by simp⟩
  | succ k ih =>
    rw [show n + (k + 1) = n + 1 + k by omega] at hahead
    rw [range'_succ, map_cons, Int.ofNat_eq_natCast]
    have htaken' : ∀ m : Nat, n + 1 ≤ m → ((m : Int) ∈ taken ↔ m < next) :=
      fun m hm => htaken m (by omega)
    by_cases hmem : (n : Int) ∈ taken
    · have hlt := (htaken n le_rfl).mp hmem
      have hne : ∀ c ∈ cs, c.number ≠ n := fun c hc => by
        have := hahead.range c hc
        omega
      rw [filesUpTo_of_mem hmem]
      exact ih (n + 1) next taken cs htaken' (hahead.pass hne)
    have hge := mt (htaken n le_rfl).mpr hmem
    -- a number that is free has a picture just when a frame starts with it
    by_cases hpicture : (portraits.lookup (pictureName folder n)).isSome
    · obtain ⟨c, hc, htakes⟩ := hahead.stray n le_rfl (by omega) (by omega) hpicture
      obtain ⟨rest, rfl, rfl⟩ := hahead.head hc htakes
      obtain ⟨first, hfirst, hready, hstep⟩ := hsheet.filesUpTo_cel (hahead.sub c hc) hmem hpicture
      have hlater : ∀ m : Nat, c.number + 1 ≤ m →
          ((m : Int) ∈ taken ++ (laterOf folder first c).map (·.number) ↔
            m < c.number + c.duration) := fun m hm => by
        rw [mem_append, mem_numbers_laterOf hfirst, htaken m (by omega)]
        omega
      obtain ⟨files, hfiles, hreel, hreadies⟩ := ih _ _ _ rest hlater (hahead.tail rfl)
      rw [hstep, hfiles]
      exact ⟨_, rfl, .cel hfirst hreel, forall_mem_append.mpr ⟨hready, hreadies⟩⟩
    · have hne : ∀ c ∈ cs, c.number ≠ n := fun c hc heq => hpicture (heq ▸ hahead.pictured c hc)
      obtain ⟨f, hmissing, hready, hstep⟩ := hsheet.filesUpTo_missing hfs
        (fun c hc heq => hne c (hahead.all c hc (by omega) (by omega)) heq) hmem
        (Option.not_isSome_iff_eq_none.mp hpicture)
      obtain ⟨files, hfiles, hreel, hreadies⟩ := ih (n + 1) next taken cs htaken' (hahead.pass hne)
      rw [hstep, hfiles]
      exact ⟨_, rfl, .missing hmissing hreel, forall_mem_cons.mpr ⟨hready, hreadies⟩⟩

/-! ### Folders -/

theorem apart_celsOf (ts : List Strip) (name : String) : (celsOf ts name).Pairwise Cel.Apart := by
  unfold celsOf
  cases ts.find? (·.name == name) with
  | none => exact .nil
  | some t => exact t.apart

theorem mem_inOrder {cs : List Cel} : c ∈ inOrder cs ↔ c ∈ cs := mem_mergeSort

theorem ordered_inOrder {cs : List Cel} (h : cs.Pairwise Cel.Apart) :
    (inOrder cs).Pairwise fun c d => c.number + c.duration ≤ d.number := by
  have hsorted : (inOrder cs).Pairwise fun c d => decide (c.number ≤ d.number) = true :=
    pairwise_mergeSort (by grind) (by grind) cs
  have hapart : (inOrder cs).Pairwise Cel.Apart :=
    (mergeSort_perm cs _).symm.pairwise h fun hab => hab.symm
  refine hsorted.imp₂ (fun c d hle hcd => ?_) hapart
  have := of_decide_eq_true hle
  have := d.lasting
  unfold Cel.Apart at hcd
  omega

structure Drawer.Shows (portraits : Portraits) (ts : List Strip) (title : String) (d : Drawer) :
    Prop where
  name : d.name = .str title
  fault : d.fault = none
  reel : Reel title (inOrder (celsOf ts title)) d.files
  ready : ∀ f ∈ d.files, f.Ready portraits

variable {ts : List Strip} {name : String}

theorem Sheet.mem_keys (h : Sheet drawn name cels fs) (hc : c ∈ cels) :
    (c.number : Int) ∈ fs.map (·.1) := by
  obtain ⟨d, hlookup, -⟩ := h.own c hc
  exact (Places.lookup_isSome_iff fs _).mp (by rw [hlookup]; rfl)

theorem Sheet.known_or_drawn (h : Sheet drawn name (celsOf ts name) fs) {n : Nat}
    (hn : (n : Int) ∈ fs.map (·.1)) : Known ts name n ∨ (name, (n : Int)) ∈ drawn := by
  obtain ⟨p, hp, hkey⟩ := mem_map.mp hn
  rcases h.other p hp with ⟨c, hc, hnumber, -⟩ | ⟨-, hdrawn⟩
  · exact .inl ⟨c, hc, hnumber.symm.trans hkey⟩
  · exact .inr (hkey ▸ hdrawn)

theorem Sheet.ahead (h : Sheet drawn name (celsOf ts name) fs)
    (hpictured : ∀ c ∈ celsOf ts name, (portraits.lookup (pictureName name c.number)).isSome)
    (hstray : NoStray portraits ts drawn) {m : Int} (hm : m ∈ fs.map (·.1))
    (hle : ∀ n ∈ fs.map (·.1), n ≤ m) :
    Ahead portraits name (celsOf ts name) 0 0 (m + 1).toNat (inOrder (celsOf ts name)) where
  ordered := ordered_inOrder (apart_celsOf ts name)
  sub _ hc := mem_inOrder.mp hc
  range c hc := by
    have := hle _ (h.mem_keys (mem_inOrder.mp hc))
    omega
  all _ hc _ _ := mem_inOrder.mpr hc
  pictured c hc := hpictured c (mem_inOrder.mp hc)
  stray n _ _ hn hpicture := by
    obtain ⟨last, rfl⟩ := Int.eq_ofNat_of_zero_le (by omega : 0 ≤ m)
    obtain ⟨c, hc, htakes⟩ := hstray name last n (h.known_or_drawn hm) (by omega) hpicture
    exact ⟨c, mem_inOrder.mpr hc, htakes⟩

theorem shows_drawerOf (hsheet : Sheet drawn name (celsOf ts name) fs)
    (hpictured : ∀ c ∈ celsOf ts name, (portraits.lookup (pictureName name c.number)).isSome)
    (hstray : NoStray portraits ts drawn) :
    Drawer.Shows portraits ts name (drawerOf portraits (.str name, sheetMember fs)) := by
  by_cases hfs : fs = []
  · subst hfs
    have hnone : celsOf ts name = [] :=
      eq_nil_iff_forall_not_mem.mpr fun c hc => absurd (hsheet.mem_keys hc) not_mem_nil
    have hdrawer : drawerOf portraits (.str name, sheetMember []) = ⟨.str name, [], none⟩ := rfl
    rw [hdrawer]
    exact ⟨rfl, rfl, by rw [hnone, inOrder, mergeSort_nil]; exact .nil, by simp⟩
  have hne : fs.map (·.1) ≠ [] := mt map_eq_nil_iff.mp hfs
  obtain ⟨m, hm, hgreatest, hle⟩ := exists_greatest_int hne
  have hahead := hsheet.ahead hpictured hstray hm hle
  rw [← Nat.zero_add (m + 1).toNat] at hahead
  obtain ⟨files, hfiles, hreel, hready⟩ :=
    exists_reel hsheet hfs (m + 1).toNat 0 0 [] _ (by simp) hahead
  have hkeys : (keyed Datum.int fs).map (·.1) = (fs.map (·.1)).map .int := by
    rw [keyed, map_map, map_map]
    rfl
  have hes : keyed Datum.int fs ≠ [] := mt map_eq_nil_iff.mp hfs
  rw [sheetMember, drawerOf_of_greatest hes (hkeys ▸ hgreatest), range_eq_range', hfiles]
  exact ⟨rfl, rfl, hreel, hready⟩

theorem shows_drawers {album : Album} (halbum : album.Holds ts drawn)
    (hpictured : ∀ name, ∀ c ∈ celsOf ts name,
      (portraits.lookup (pictureName name c.number)).isSome) (hstray : NoStray portraits ts drawn) :
    Forall₂ (Drawer.Shows portraits ts) (album.map (·.1))
      (album.toMembers.map (drawerOf portraits)) := by
  rw [Album.toMembers, keyed, map_map, map_map, forall₂_map_left_iff,
    forall₂_map_right_iff, forall₂_same]
  exact fun f hf => shows_drawerOf (halbum.sheets f hf) (hpictured f.1) hstray

end WikiFeed.Scene

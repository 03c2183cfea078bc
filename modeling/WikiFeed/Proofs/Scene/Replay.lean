import WikiFeed.Proofs.Decimal.Numerals
import WikiFeed.Proofs.Scene.Reels
import WikiFeed.Proofs.Scene.References
import WikiFeed.Proofs.Text.Lines

/-! # Reading reels

The reader of scenes leaves out the files that are marked as missing (`File.IsMissing.isKept`), and
lets a frame last longer for each file that is marked with its number. So from a reel it makes the
frames from which the reel was made (`Reel.exists_shelf`). -/

namespace WikiFeed.Scene

open Sprite List Decimal
open Outcome (ok_bind)

/-! ### Marks of missing files -/

def File.path (folder : String) (f : File) : String := folder ++ "/" ++ f.stem ++ ".png"

def File.isKept (folder : String) (f : File) : Bool := !Text.occurs "(missing)" (f.path folder)

variable {folder : String} {c : Cel} {first f : File}

theorem File.isKept_iff : f.isKept folder ↔ ¬ "(missing)".toList <:+: (f.path folder).toList := by
  rw [isKept, Text.occurs, Bool.not_eq_true', ← Text.find?_isSome_iff, Bool.not_eq_true]

theorem File.IsMissing.isKept (h : f.IsMissing folder) : f.isKept folder = false := by
  obtain ⟨n, hstem⟩ := h
  rw [← Bool.not_eq_true, File.isKept_iff, not_not]
  refine ⟨(folder ++ "/" ++ (folder ++ "-" ++ intText n)).toList, ".png".toList, ?_⟩
  simp only [File.path, hstem, String.toList_append, append_assoc]

theorem open_not_mem_natDigits (n : Nat) : '(' ∉ natDigits n := fun hmem =>
  absurd (isDigit_of_mem_natDigits hmem) (by decide)

theorem Plain.not_mem_pictureName (h : Plain folder) (n : Nat) :
    '(' ∉ (folder ++ "/" ++ pictureName folder n).toList := by
  simp [pictureName, toList_intText_natCast, h.open_free, open_not_mem_natDigits]

theorem File.IsFirst.isKept (h : first.IsFirst folder c) (hfolder : Plain folder) :
    first.isKept folder = true := by
  rw [File.isKept_iff]
  intro hinfix
  have hmem : '(' ∈ (first.path folder).toList := hinfix.subset (by decide)
  rw [File.path, h.stem, String.toList_append, mem_append] at hmem
  rcases hmem with hmem | hmem
  · exact hfolder.not_mem_pictureName _ hmem
  · exact absurd hmem (by decide)

theorem File.IsFirst.isKept_later (h : first.IsFirst folder c) (hfolder : Plain folder) (d : Nat) :
    (laterFile folder first d).isKept folder = true := by
  rw [File.isKept_iff]
  rintro ⟨before, after, heq⟩
  have hpath : ((laterFile folder first d).path folder).toList =
      (folder ++ "/" ++ pictureName folder (c.number + d)).toList ++
        '(' :: ("duration'".toList ++ (natDigits c.number ++ "').png".toList)) := by
    have hopen : "(duration'".toList = '(' :: "duration'".toList := rfl
    have hclose : "').png".toList = "')".toList ++ ".png".toList := rfl
    simp only [File.path, laterFile, h.number, pictureName, String.toList_append, hopen, hclose,
      toList_intText_natCast, append_assoc, cons_append, Nat.cast_add]
  have hmissing : "(missing)".toList = '(' :: "missing)".toList := rfl
  rw [hpath, hmissing, append_assoc, cons_append, eq_comm,
    append_cons_inj_of_notMem (hfolder.not_mem_pictureName _)
      (by simp [open_not_mem_natDigits])] at heq
  have hletter : some 'd' = some 'm' := congrArg head? heq.2.2
  exact absurd hletter (by decide)

/-! ### Frames from files -/

def Cel.frame (c : Cel) (duration : Nat) (x y : Float) : SymbolFrame :=
  ⟨c.number, duration, .float x, .float y, c.width, c.height⟩

variable {n : Int} {z : Float}

theorem times_float (x : Float) (hz : ofInt? n = some z) :
    times (.float x) (.int n) = .ok (.float (x * z)) := by
  change (do return ofNumber (← calculated (do
    return .float (x * (← (Number.int n).toFloat)))) : Result Datum) = _
  rw [Number.toFloat_int hz]
  rfl

theorem minus_float (hz : ofInt? n = some z) (x : Float) :
    minus (.int n) (.float x) = .ok (.float (z - x)) := by
  change (do return ofNumber (← calculated (do
    return .float ((← (Number.int n).toFloat) - x))) : Result Datum) = _
  rw [Number.toFloat_int hz]
  rfl

theorem exists_fromMiddle {side : Int} (h : (ofInt? side).isSome) (pivot : Float) :
    ∃ a x : Float, times (.float pivot) (.int side) = .ok (.float a) ∧
      minus (.int (side.fdiv 2)) (.float a) = .ok (.float x) := by
  have hhalf : (side.fdiv 2).natAbs ≤ side.natAbs := by
    rw [Int.fdiv_eq_ediv_of_nonneg _ (by decide)]
    omega
  obtain ⟨z, hz⟩ := Option.isSome_iff_exists.mp h
  obtain ⟨u, hu⟩ := Option.isSome_iff_exists.mp (isSome_ofInt?_of_le hhalf h)
  exact ⟨_, _, times_float pivot hz, minus_float hu _⟩

theorem exists_doubleAttribute {m : Markup} {name : String} {x : Float}
    (h : m.get? name = some (display (.float x))) (default : Option Float) :
    ∃ y, doubleAttribute m name default = .ok y := by
  obtain ⟨y, hy⟩ := Option.isSome_iff_exists.mp (isSome_readFloat?_text x)
  have htext : display (.float x) = text x := rfl
  exact ⟨y, by simp only [doubleAttribute, h, htext, hy]⟩

theorem File.IsFirst.exists_frameOf (h : first.IsFirst folder c) :
    ∃ x y, frameOf (first.toMarkup folder) c.number 1 = .ok (c.frame 1 x y) := by
  obtain ⟨px, hpx⟩ := h.pivotX
  obtain ⟨py, hpy⟩ := h.pivotY
  have hw : (first.toMarkup folder).get? "width" = some (intText c.width) := by
    rw [File.toMarkup, h.width]
    rfl
  have hh : (first.toMarkup folder).get? "height" = some (intText c.height) := by
    rw [File.toMarkup, h.height]
    rfl
  have hx : (first.toMarkup folder).get? "pivot_x" = some (display (.float px)) := by
    rw [File.toMarkup, hpx]
    rfl
  have hy : (first.toMarkup folder).get? "pivot_y" = some (display (.float py)) := by
    rw [File.toMarkup, hpy]
    rfl
  obtain ⟨u, hu⟩ := exists_doubleAttribute hx (some 0.0)
  obtain ⟨v, hv⟩ := exists_doubleAttribute hy (some 0.0)
  obtain ⟨a, x, ha, hx⟩ := exists_fromMiddle c.width_double u
  obtain ⟨b, y, hb, hy⟩ := exists_fromMiddle c.height_double v
  refine ⟨x, -y, ?_⟩
  rw [frameOf, wholeAttribute_eq hw, ok_bind, wholeAttribute_eq hh, ok_bind, hu, ok_bind, ha,
    ok_bind, hx, ok_bind, hv, ok_bind, hb, ok_bind, hy]
  rfl

/-! ### Shelves -/

def shelfOf (frames : List SymbolFrame) (paths : List (String × String)) : Shelf :=
  ⟨frames, paths, []⟩

variable {root symbol : String} {frames : List SymbolFrame} {paths : List (String × String)}

theorem addFile_eq (root symbol : String) (frames : List SymbolFrame)
    (paths : List (String × String)) (folder : String) (f : File) :
    addFile root symbol (shelfOf frames paths) (f.toMarkup folder) =
      (durationMark? (f.path folder).toList).elim
        (do return shelfOf (frames ++ [← frameOf (f.toMarkup folder) f.number 1]) (paths ++
          [(symbol ++ "-" ++ intText f.number, Path.join root (f.path folder))]))
        fun mark => do return shelfOf (prolong (← firstNumber mark) frames) paths := by
  have hid : (f.toMarkup folder).get? "id" = some (intText f.number) := rfl
  have hduration : wholeAttribute (f.toMarkup folder) "duration" (some 1) = .ok 1 := rfl
  have hname : attributeOf (f.toMarkup folder) "name" = .ok (f.path folder) := rfl
  rw [addFile, wholeAttribute_eq hid, ok_bind, if_neg (by simp [shelfOf]), hduration, ok_bind,
    hname, ok_bind]
  cases durationMark? (f.path folder).toList <;> rfl

theorem File.IsFirst.exists_addFile (h : first.IsFirst folder c) (hfolder : Plain folder)
    (root symbol : String) (frames : List SymbolFrame) (paths : List (String × String)) :
    ∃ x y paths', addFile root symbol (shelfOf frames paths) (first.toMarkup folder) =
      .ok (shelfOf (frames ++ [c.frame 1 x y]) paths') := by
  obtain ⟨x, y, hframe⟩ := h.exists_frameOf
  have hmark : durationMark? (first.path folder).toList = none := by
    refine durationMark?_eq_none ?_
    rw [File.path, h.stem]
    exact ((hfolder.unquoted.append (by decide)).append
      (unquoted_pictureName hfolder.unquoted _)).append (by decide)
  rw [← h.number] at hframe
  rw [addFile_eq, hmark, Option.elim_none, hframe]
  exact ⟨x, y, _, rfl⟩

theorem prolong_append {frame : SymbolFrame} (hframe : frame.number = n)
    (hnew : ∀ f ∈ frames, f.number ≠ n) :
    prolong n (frames ++ [frame]) = frames ++ [{ frame with duration := frame.duration + 1 }] := by
  induction frames with
  | nil => simp [prolong, hframe]
  | cons f frames ih =>
    have hne : (f.number == n) = false := by simpa using hnew f mem_cons_self
    rw [cons_append, prolong, hne, ih fun g hg => hnew g (mem_cons_of_mem _ hg)]
    rfl

theorem File.IsFirst.foldlM_later (h : first.IsFirst folder c) (hfolder : Plain folder)
    (hnew : ∀ f ∈ frames, f.number ≠ c.number) (x y : Float) (ds : List Nat) (k : Nat) :
    ((ds.map (laterFile folder first)).map (File.toMarkup folder)).foldlM (addFile root symbol)
        (shelfOf (frames ++ [c.frame k x y]) paths) =
      .ok (shelfOf (frames ++ [c.frame (k + ds.length) x y]) paths) := by
  induction ds generalizing k with
  | nil => rfl
  | cons d ds ih =>
    have hmark : durationMark? ((laterFile folder first d).path folder).toList =
        some (natDigits c.number) := by
      have hpath := durationMark?_path hfolder.unquoted (c.number + d) c.number
      simpa only [File.path, laterFile, h.number] using hpath
    have hlonger : prolong c.number (frames ++ [c.frame k x y]) =
        frames ++ [c.frame (k + 1) x y] := prolong_append rfl hnew
    rw [map_cons, map_cons, foldlM_cons, addFile_eq, hmark, Option.elim_some,
      firstNumber_natDigits, ok_bind, hlonger]
    change foldlM _ (shelfOf (frames ++ [c.frame (k + 1) x y]) paths) _ = _
    rw [ih, length_cons, Nat.add_right_comm, Nat.add_assoc]

def Cel.Becomes (c : Cel) (frame : SymbolFrame) : Prop := ∃ x y, frame = c.frame c.duration x y

variable {files : List File} {cs : List Cel}

theorem Reel.filter_eq_nil (h : Reel folder cs files)
    (hcs : cs = []) : files.filter (File.isKept folder) = [] := by
  induction h with
  | nil => rfl
  | missing hf _ ih =>
    rw [filter_cons_of_neg (by rw [hf.isKept]; decide)]
    exact ih hcs
  | cel => cases hcs

theorem Reel.exists_shelf (h : Reel folder cs files) (hfolder : Plain folder)
    (hnodup : (cs.map Cel.number).Nodup) (root symbol : String) (frames : List SymbolFrame)
    (paths : List (String × String)) (hnew : ∀ c ∈ cs, ∀ f ∈ frames, f.number ≠ c.number) :
    ∃ more paths', Forall₂ Cel.Becomes cs more ∧
      ((files.filter (File.isKept folder)).map (File.toMarkup folder)).foldlM (addFile root symbol)
        (shelfOf frames paths) = .ok (shelfOf (frames ++ more) paths') := by
  induction h generalizing frames paths with
  | nil => exact ⟨[], paths, .nil, by rw [append_nil]; rfl⟩
  | missing hf _ ih =>
    rw [filter_cons_of_neg (by rw [hf.isKept]; decide)]
    exact ih hnodup frames paths hnew
  | @cel cs files c first hfirst _ ih =>
    rw [map_cons, nodup_cons] at hnodup
    have hnew' : ∀ d ∈ cs, ∀ x y, ∀ f ∈ frames ++ [c.frame c.duration x y],
        f.number ≠ d.number := by
      intro d hd x y f hf
      rcases mem_append.mp hf with hf | hf
      · exact hnew d (mem_cons_of_mem _ hd) f hf
      · rw [mem_singleton.mp hf]
        exact fun heq => hnodup.1 (Int.ofNat_inj.mp heq ▸ mem_map_of_mem hd)
    have hlater :
        (laterOf folder first c).filter (File.isKept folder) = laterOf folder first c := by
      refine filter_eq_self.mpr fun f hf => ?_
      obtain ⟨d, -, rfl⟩ := mem_map.mp hf
      exact hfirst.isKept_later hfolder d
    obtain ⟨x, y, paths₁, hadd⟩ := hfirst.exists_addFile hfolder root symbol frames paths
    obtain ⟨more, paths₂, hmore, hrest⟩ :=
      ih hnodup.2 _ paths₁ fun d hd => hnew' d hd x y
    refine ⟨c.frame c.duration x y :: more, paths₂, .cons ⟨x, y, rfl⟩ hmore, ?_⟩
    rw [cons_append, filter_cons_of_pos (hfirst.isKept hfolder), filter_append,
      hlater, map_cons, foldlM_cons, hadd, ok_bind, map_append, foldlM_append,
      laterOf, hfirst.foldlM_later hfolder (hnew c mem_cons_self), ok_bind, length_range',
      Nat.add_sub_cancel' c.lasting, hrest, append_assoc, singleton_append]

end WikiFeed.Scene

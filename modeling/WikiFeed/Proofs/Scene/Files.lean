import WikiFeed.Proofs.Scene.Folders

/-! # The files of a folder

The frames of a folder take up numbers: a frame that lasts longer takes the numbers behind its own,
and a number that no frame takes gets a blank picture. Each number from zero to that of the last
frame gets one file, and no number gets two (`filed_filesUpTo`, `made_drawers`). -/

namespace WikiFeed.Scene

open Sprite List
open Outcome (ok_bind)

/-! ### Names of files -/

theorem Unquoted.append {s t : String} (hs : Unquoted s) (ht : Unquoted t) : Unquoted (s ++ t) := by
  unfold Unquoted
  rw [String.toList_append, mem_append]
  exact fun h => h.elim hs ht

theorem unquoted_intText (n : Int) : Unquoted (Decimal.intText n) := by
  have hdigits : '\'' ∉ Decimal.natDigits n.natAbs := fun h =>
    absurd (Decimal.isDigit_of_mem_natDigits h) (by decide)
  unfold Unquoted Decimal.intText
  rw [String.toList_ofList]
  split_ifs
  · simp [hdigits]
  · exact hdigits

theorem unquoted_pictureName {name : String} (h : Unquoted name) (n : Int) :
    Unquoted (name ++ "-" ++ Decimal.intText n) :=
  (h.append (by decide)).append (unquoted_intText n)

/-- A file whose name has no quotes or is marked with the number of a frame, whose sizes are whole,
and whose picture is there. -/
structure File.Fine (portraits : Portraits) (folder : String) (f : File) : Prop where
  width : ∃ n : Int, f.width = .int n
  height : ∃ n : Int, f.height = .int n
  stem : Unquoted f.stem ∨ ∃ (m : Int) (n : Nat), f.stem =
    folder ++ "-" ++ Decimal.intText m ++ "(duration'" ++ Decimal.intText n ++ "')"
  source : ∀ picture, f.source = .portrait picture → (portraits.lookup picture).isSome

variable {portraits : Portraits} {folder : String}

variable {frame : Datum}

theorem completes_firstFile (hframe : IsFrame frame) (hfolder : Unquoted folder) (n : Int) :
    Completes (fun f => f.number = n ∧ File.Fine portraits folder f)
      (firstFile portraits folder n frame) := by
  obtain ⟨x, hx, hxn⟩ := hframe.x
  obtain ⟨y, hy, hyn⟩ := hframe.y
  obtain ⟨w, hw0, hw⟩ := hframe.w
  obtain ⟨h, hh0, hh⟩ := hframe.h
  unfold firstFile
  rw [hx, ok_bind, hy, ok_bind, hw, ok_bind, hh, ok_bind]
  refine (completes_dividedBy hxn hw0.ne').bind fun qx hqx => ?_
  refine (completes_minus (isNumber_float 0.5) hqx).bind fun px _ => ?_
  refine (completes_dividedBy hyn hh0.ne').bind fun qy hqy => ?_
  refine (completes_plus (isNumber_float 0.5) hqy).bind fun py _ => ?_
  have hname := unquoted_pictureName hfolder n
  split_ifs with hportrait
  · exact ⟨rfl, ⟨w, rfl⟩, ⟨h, rfl⟩, .inl hname, fun picture hpicture => by
      cases hpicture
      exact hportrait⟩
  · exact ⟨rfl, ⟨w, rfl⟩, ⟨h, rfl⟩, .inl (hname.append (by decide)),
      fun picture hpicture => by cases hpicture⟩

def laterNumbers (n : Nat) (duration : Int) : List Int :=
  (List.range' 1 (duration.toNat - 1)).map fun d => (n : Int) + (d : Nat)

variable {duration k : Int} {n : Nat}

theorem mem_laterNumbers : k ∈ laterNumbers n duration ↔ (n : Int) < k ∧ k < n + duration := by
  unfold laterNumbers
  simp only [mem_map, mem_range'_1]
  constructor
  · rintro ⟨d, hd, rfl⟩
    omega
  · intro h
    exact ⟨(k - n).toNat, by omega, by omega⟩

theorem laterNumbers_pairwise (n : Nat) (duration : Int) :
    (laterNumbers n duration).Pairwise (· < ·) := by
  have hrange : (range' 1 (duration.toNat - 1)).Pairwise (· < ·) :=
    pairwise_lt_range'
  refine pairwise_map.mpr (hrange.imp ?_)
  intro a b hab
  omega

theorem exists_laterFiles_eq {first : File}
    (hduration : named frame "duration" = .ok (.int duration)) (hfirst : first.number = n)
    (hfine : File.Fine portraits folder first)
    (hpicture : 1 < duration → (portraits.lookup (pictureName folder n)).isSome) :
    ∃ fs, laterFiles folder first frame = .ok fs ∧ fs.map (·.number) = laterNumbers n duration ∧
      ∀ f ∈ fs, File.Fine portraits folder f := by
  refine ⟨_, by rw [laterFiles, hduration, ok_bind]; rfl, ?_, fun f hf => ?_⟩
  · rw [map_map, laterNumbers]
    refine map_congr_left fun d _ => ?_
    simp only [Function.comp_apply, laterFile, hfirst]
  · obtain ⟨d, hd, rfl⟩ := mem_map.mp hf
    rw [mem_range'_1] at hd
    refine ⟨hfine.width, hfine.height, .inr ⟨n + d, n, by simp only [laterFile, hfirst]⟩,
      fun picture heq => ?_⟩
    simp only [laterFile, Source.portrait.injEq, hfirst] at heq
    rw [← heq]
    exact hpicture (by omega)

/-- Frames that can be written, of which there is at least one. -/
structure FramesFine (portraits : Portraits) (folder : String) (fs : List (Nat × Datum)) :
    Prop where
  unquoted : Unquoted folder
  some : fs ≠ []
  frames : ∀ p ∈ fs, IsFrame p.2 ∧ Cabinet.Pictured portraits folder p

variable {fs : List (Nat × Datum)}

theorem FramesFine.frameAt (h : FramesFine portraits folder fs) (n : Nat) :
    ∃ frame, frameAt (keyed (fun n : Nat => .int n) fs) n = .ok frame ∧ IsFrame frame ∧
      Cabinet.Pictured portraits folder (n, frame) := by
  unfold Scene.frameAt
  rw [lookup_keyed keying_nat]
  cases hlookup : fs.lookup n with
  | some frame => exact ⟨frame, rfl, h.frames _ (Places.mem_of_lookup_eq_some hlookup)⟩
  | none =>
    obtain ⟨p, ps, rfl⟩ := exists_cons_of_ne_nil h.some
    obtain ⟨w, hw0, hw⟩ := (h.frames p mem_cons_self).1.w
    obtain ⟨k, hk0, hk⟩ := (h.frames p mem_cons_self).1.h
    refine ⟨unknownFrame (.int n) (.int w) (.int k), ?_, isFrame_unknownFrame _ hw0 hk0, ?_⟩
    · simp only [keyed, map_cons, headD_cons, hw, hk, ok_bind]
      rfl
    · intro m hm hlong
      rw [duration_unknownFrame] at hm
      simp only [Except.ok.injEq, Datum.int.injEq] at hm
      omega

/-! ### Files for all numbers -/

/-- Numbers of files: in order, from a first one on, and without a gap up to a last one. -/
structure Stacked (first last : Nat) (ns : List Int) : Prop where
  increasing : ns.Pairwise (· < ·)
  above : ∀ n ∈ ns, (first : Int) ≤ n
  full : ∀ n : Nat, first ≤ n → n < last → (n : Int) ∈ ns

/-- Files in good order, or the beginning of such files and the fault of a calculation. -/
structure Filed (portraits : Portraits) (folder : String) (first last : Nat)
    (r : List File × Option Fault) : Prop where
  fine : ∀ f ∈ r.1, File.Fine portraits folder f
  stops : ∀ e, r.2 = some e → e.OfCalculation
  stacked : r.2 = none → Stacked first last (r.1.map (·.number))

theorem Stacked.append {last : Nat} {ns : List Int}
    (h : Stacked (max (n + 1) (n + duration.toNat)) last ns) :
    Stacked n last ((n : Int) :: laterNumbers n duration ++ ns) where
  increasing := by
    rw [cons_append, pairwise_cons, pairwise_append]
    refine ⟨fun k hk => ?_, laterNumbers_pairwise n duration, h.increasing, fun j hj k hk => ?_⟩
    · rcases mem_append.mp hk with hk | hk
      · exact (mem_laterNumbers.mp hk).1
      · have := h.above k hk
        omega
    · have := (mem_laterNumbers.mp hj).2
      have := h.above k hk
      omega
  above k hk := by
    rw [cons_append, mem_cons, mem_append] at hk
    rcases hk with rfl | hk | hk
    · exact le_rfl
    · have := (mem_laterNumbers.mp hk).1
      omega
    · have := h.above k hk
      omega
  full k hk hlast := by
    rw [cons_append, mem_cons, mem_append, mem_laterNumbers]
    by_cases hn : k = n
    · exact .inl (by rw [hn])
    · by_cases hlater : (k : Int) < n + duration
      · exact .inr (.inl (by omega))
      · exact .inr (.inr (h.full k (by omega) hlast))

section Steps

variable {frames : Members} {n : Int} {rest taken : List Int}

theorem filesUpTo_of_mem (h : n ∈ taken) :
    filesUpTo portraits folder frames (n :: rest) taken =
      filesUpTo portraits folder frames rest taken := by
  rw [filesUpTo, if_pos (contains_iff_mem.mpr h)]

theorem filesUpTo_of_fault (h : n ∉ taken) {e : Fault} (hframe : frameAt frames n = .ok frame)
    (hfirst : firstFile portraits folder n frame = .error e) :
    filesUpTo portraits folder frames (n :: rest) taken = ([], some e) := by
  rw [filesUpTo, if_neg (mt contains_iff_mem.mp h), hframe, ok_bind, hfirst]
  rfl

theorem filesUpTo_of_files (h : n ∉ taken) {first : File} {later : List File}
    (hframe : frameAt frames n = .ok frame)
    (hfirst : firstFile portraits folder n frame = .ok first)
    (hlater : laterFiles folder first frame = .ok later) :
    filesUpTo portraits folder frames (n :: rest) taken =
      ((first :: later) ++
          (filesUpTo portraits folder frames rest (taken ++ later.map (·.number))).1,
        (filesUpTo portraits folder frames rest (taken ++ later.map (·.number))).2) := by
  rw [filesUpTo, if_neg (mt contains_iff_mem.mp h), hframe, ok_bind, hfirst, ok_bind]
  simp only [pure, Except.pure, hlater]

end Steps

/-- The numbers from `n` on that earlier frames have taken are those below `next`. -/
theorem filed_filesUpTo (h : FramesFine portraits folder fs) (k n next : Nat) (taken : List Int)
    (htaken : ∀ m : Nat, n ≤ m → ((m : Int) ∈ taken ↔ m < next)) :
    Filed portraits folder (max n next) (n + k)
      (filesUpTo portraits folder (keyed (fun n : Nat => .int n) fs)
        ((range' n k).map Int.ofNat) taken) := by
  induction k generalizing n next taken with
  | zero =>
    refine ⟨by simp [filesUpTo], by simp [filesUpTo], fun _ => ⟨.nil, by simp [filesUpTo], ?_⟩⟩
    intro m hm hlast
    omega
  | succ k ih =>
    rw [range'_succ, map_cons, Int.ofNat_eq_natCast]
    by_cases hmem : (n : Int) ∈ taken
    · have hlt := (htaken n le_rfl).mp hmem
      have hrest := ih (n + 1) next taken fun m hm => htaken m (by omega)
      rw [filesUpTo_of_mem hmem]
      rwa [show max (n + 1) next = max n next by omega,
        show n + 1 + k = n + (k + 1) by omega] at hrest
    · have hge := mt (htaken n le_rfl).mpr hmem
      obtain ⟨frame, hframe, hisFrame, hpictured⟩ := h.frameAt n
      obtain ⟨duration, hduration⟩ := hisFrame.duration
      have hcompletes : Completes _ (firstFile portraits folder n frame) :=
        completes_firstFile hisFrame h.unquoted n
      cases hfirst : firstFile portraits folder n frame with
      | error e =>
        rw [hfirst] at hcompletes
        rw [filesUpTo_of_fault hmem hframe hfirst]
        exact ⟨by simp, fun e' he' => by cases he'; exact hcompletes, fun hnone => by cases hnone⟩
      | ok first =>
        rw [hfirst] at hcompletes
        obtain ⟨hnumber, hfine⟩ := hcompletes
        obtain ⟨later, hlater, hnumbers, hfines⟩ :=
          exists_laterFiles_eq hduration hnumber hfine (hpictured duration hduration)
        have hrest := ih (n + 1) (n + duration.toNat) (taken ++ later.map (·.number)) fun m hm => by
          rw [mem_append, hnumbers, mem_laterNumbers, htaken m (by omega)]
          omega
        rw [filesUpTo_of_files hmem hframe hfirst hlater]
        refine ⟨?_, hrest.stops, fun hnone => ?_⟩
        · simp only [forall_mem_append, forall_mem_cons]
          exact ⟨⟨hfine, hfines⟩, hrest.fine⟩
        · have hstacked := hrest.stacked hnone
          rw [show n + 1 + k = n + (k + 1) by omega] at hstacked
          rw [map_append, map_cons, hnumber, show max n next = n by omega]
          rw [hnumbers] at hstacked ⊢
          exact hstacked.append

/-! ### Folders -/

/-- A folder of the scene for a folder of the cabinet: its name, and one file for each of its
frames, or the fault of a calculation. -/
structure Drawer.Made (portraits : Portraits) (f : String × List (Nat × Datum)) (d : Drawer) :
    Prop where
  name : d.name = .str f.1
  unquoted : Unquoted f.1
  fine : ∀ file ∈ d.files, File.Fine portraits f.1 file
  stops : ∀ e, d.fault = some e → e.OfCalculation
  increasing : d.fault = none → (d.files.map (·.number)).Pairwise (· < ·)
  full : d.fault = none → ∀ n : Nat, n ∈ f.2.map (·.1) → (n : Int) ∈ d.files.map (·.number)

theorem drawerOf_of_greatest {es : Members} {m : Int} (hes : es ≠ [])
    (hlast : greatest (es.map (·.1)) = .ok (.int m)) (name : String) :
    drawerOf portraits (.str name, .dict es) =
      ⟨.str name,
        (filesUpTo portraits name es ((range (m + 1).toNat).map Int.ofNat) []).1,
        (filesUpTo portraits name es ((range (m + 1).toNat).map Int.ofNat) []).2⟩ := by
  have hsome : es.isEmpty = false := isEmpty_eq_false_iff.mpr hes
  simp only [drawerOf, textOf, entriesOf, ok_bind, hsome, Bool.false_eq_true, if_false, hlast,
    Building.wholeOf]
  rfl

theorem drawerOf_eq {m : Int} (hfs : fs ≠ [])
    (hlast : greatest (fs.map fun p => .int p.1) = .ok (.int m)) (name : String) :
    drawerOf portraits (.str name, framesMember fs) =
      ⟨.str name,
        (filesUpTo portraits name (keyed (fun n : Nat => .int n) fs)
          ((range (m + 1).toNat).map Int.ofNat) []).1,
        (filesUpTo portraits name (keyed (fun n : Nat => .int n) fs)
          ((range (m + 1).toNat).map Int.ofNat) []).2⟩ := by
  have hkeys : (keyed (fun n : Nat => Datum.int n) fs).map (·.1) = fs.map fun p => .int p.1 := by
    rw [keyed, map_map]
    rfl
  exact drawerOf_of_greatest (by simpa [keyed] using hfs) (hkeys ▸ hlast) name

theorem made_drawerOf {name : String} (hname : Unquoted name)
    (hframes : ∀ p ∈ fs, IsFrame p.2 ∧ Cabinet.Pictured portraits name p) :
    Drawer.Made portraits (name, fs) (drawerOf portraits (.str name, framesMember fs)) := by
  by_cases hfs : fs = []
  · subst hfs
    have hnone : drawerOf portraits (.str name, framesMember []) = ⟨.str name, [], none⟩ := rfl
    rw [hnone]
    exact ⟨rfl, hname, by simp, by simp, by simp, by simp⟩
  · have hne : fs.map (fun p => (p.1 : Int)) ≠ [] := by simpa using hfs
    obtain ⟨m, hm, hgreatest, hle⟩ := exists_greatest_int hne
    rw [map_map] at hgreatest
    have hfiled := filed_filesUpTo ⟨hname, hfs, hframes⟩ (m + 1).toNat 0 0 [] (by simp)
    rw [← range_eq_range'] at hfiled
    rw [drawerOf_eq hfs hgreatest]
    refine ⟨rfl, hname, hfiled.fine, hfiled.stops, fun h => (hfiled.stacked h).increasing, ?_⟩
    intro h n hn
    obtain ⟨p, hp, rfl⟩ := mem_map.mp hn
    have := hle p.1 (mem_map.mpr ⟨p, hp, rfl⟩)
    exact (hfiled.stacked h).full p.1 (Nat.zero_le _) (by omega)

theorem made_drawers {c : Cabinet} (hc : c.Sound portraits) :
    Forall₂ (Drawer.Made portraits) c (c.toMembers.map (drawerOf portraits)) := by
  rw [Cabinet.toMembers, keyed, map_map, map_map, forall₂_map_right_iff, forall₂_same]
  exact fun f hf => made_drawerOf (hc.unquoted f hf) (hc.frames f hf)

end WikiFeed.Scene

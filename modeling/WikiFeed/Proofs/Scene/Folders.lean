import WikiFeed.Proofs.Decimal.Digits
import WikiFeed.Proofs.Scene.Data

/-! # The folders of a scene

A scene gets a folder for each symbol of the build and for each symbol that is drawn. A `Cabinet`
holds the frames of these folders by their numbers; it is `Sound` all along, and once the banks are
gone through it holds every frame that is drawn (`completes_cabinet`). -/

namespace WikiFeed.Scene

open Sprite Places
open Outcome (ok_bind)

/-! ### Cabinets -/

abbrev Cabinet := List (String × List (Nat × Datum))

def framesMember (fs : List (Nat × Datum)) : Datum := .dict (keyed (fun n : Nat => .int n) fs)

variable {name : String} {fs : List (Nat × Datum)}

namespace Cabinet

def toMembers (c : Cabinet) : Members := keyed .str (c.map fun f => (f.1, framesMember f.2))

def Pictured (portraits : Portraits) (name : String) (p : Nat × Datum) : Prop :=
  ∀ n, named p.2 "duration" = .ok (.int n) → 1 < n →
    (portraits.lookup (pictureName name p.1)).isSome

/-- Folders with different names, and with frames that can be written. -/
structure Sound (portraits : Portraits) (c : Cabinet) : Prop where
  names : (c.map (·.1)).Nodup
  unquoted : ∀ f ∈ c, Unquoted f.1
  frames : ∀ f ∈ c, ∀ p ∈ f.2, IsFrame p.2 ∧ Pictured portraits f.1 p

variable {portraits : Portraits} {c : Cabinet}

theorem lookup_toMembers (c : Cabinet) (name : String) :
    Datum.lookup c.toMembers (.str name) = (c.lookup name).map framesMember :=
  lookup_keyed_map keying_str framesMember c name

theorem Sound.put (h : c.Sound portraits) (hname : Unquoted name)
    (hfs : ∀ p ∈ fs, IsFrame p.2 ∧ Pictured portraits name p) :
    Sound portraits (put c name fs) where
  names := by
    rw [keys_put]
    exact nodup_withKey h.names name
  unquoted f hf := by
    rcases mem_put hf with rfl | hf
    · exact hname
    · exact h.unquoted f hf
  frames f hf := by
    rcases mem_put hf with rfl | hf
    · exact hfs
    · exact h.frames f hf

end Cabinet

def IsCabinet (portraits : Portraits) (ms : Members) : Prop :=
  ∃ c : Cabinet, ms = c.toMembers ∧ c.Sound portraits

def Holds (ms : Members) (name : String) (number : Nat) : Prop :=
  ∃ es, Datum.lookup ms (.str name) = some (.dict es) ∧ (Datum.lookup es (.int number)).isSome

variable {number : Nat}

theorem holds_toMembers {c : Cabinet} :
    Holds c.toMembers name number ↔ ∃ fs, c.lookup name = some fs ∧ number ∈ fs.map (·.1) := by
  unfold Holds
  rw [Cabinet.lookup_toMembers]
  constructor
  · rintro ⟨es, hes, hnumber⟩
    obtain ⟨fs, hlookup, heq⟩ := Option.map_eq_some_iff.mp hes
    cases heq
    rw [lookup_keyed keying_nat, lookup_isSome_iff] at hnumber
    exact ⟨fs, hlookup, hnumber⟩
  · rintro ⟨fs, hfs, hnumber⟩
    refine ⟨keyed (fun n : Nat => .int n) fs, by rw [hfs]; rfl, ?_⟩
    rw [lookup_keyed keying_nat, lookup_isSome_iff]
    exact hnumber

def Within (ms ms' : Members) : Prop := ∀ name number, Holds ms name number → Holds ms' name number

theorem Within.refl (ms : Members) : Within ms ms := fun _ _ h => h

variable {ms : Members}

theorem Within.trans {ms' ms'' : Members} (h : Within ms ms') (h' : Within ms' ms'') :
    Within ms ms'' := fun name number hn => h' name number (h name number hn)

variable {portraits : Portraits}

theorem completes_framesByNumber {fs : List Datum}
    (h : ∀ f ∈ fs, ∃ n : Nat, named f "framenum" = .ok (.int n)) :
    Completes (fun es => ∃ ps : List (Nat × Datum), es = keyed (fun n : Nat => .int n) ps ∧
      ∀ p ∈ ps, p.2 ∈ fs ∧ named p.2 "framenum" = .ok (.int p.1)) (framesByNumber (.list fs)) := by
  refine completes_foldlM (fun f hf es hes => ?_) ⟨[], rfl, by simp⟩
  obtain ⟨ps, rfl, hps⟩ := hes
  obtain ⟨n, hn⟩ := h f hf
  rw [hn, ok_bind]
  refine ⟨put ps n f, put_keyed keying_nat ps n f, fun p hp => ?_⟩
  rcases mem_put hp with rfl | hp
  · exact ⟨hf, hn⟩
  · exact hps p hp

theorem completes_symbolFolders {symbols : Members} (h : ∀ s ∈ symbols, IsSymbol portraits s) :
    Completes (IsCabinet portraits) (symbolFolders false symbols) := by
  refine completes_foldlM (fun s hs ms hms => ?_) ⟨[], rfl, ⟨List.nodup_nil, by simp, by simp⟩⟩
  obtain ⟨c, rfl, hc⟩ := hms
  obtain ⟨name, fs, rfl, hname, hfs⟩ := h s hs
  have hnumbers : ∀ f ∈ fs, ∃ n : Nat, named f "framenum" = .ok (.int n) := fun f hf =>
    (hfs f hf).2.imp fun _ hn => hn.1
  refine (completes_framesByNumber hnumbers).bind fun es ⟨ps, hes, hps⟩ => ?_
  have hframes : ∀ p ∈ ps, IsFrame p.2 ∧ Cabinet.Pictured portraits name p := by
    intro p hp
    obtain ⟨hmem, hnumber⟩ := hps p hp
    obtain ⟨hframe, n, hn, hpicture⟩ := hfs p.2 hmem
    rw [hnumber] at hn
    simp only [Except.ok.injEq, Datum.int.injEq, Int.ofNat_inj] at hn
    rw [← hn] at hpicture
    exact ⟨hframe, fun _ _ _ => hpicture⟩
  subst hes
  exact ⟨_, put_keyed_map keying_str framesMember c name ps, hc.put hname hframes⟩

/-! ### Folders of what is drawn -/

theorem isFrame_unknownFrame (number : Datum) {w h : Int} (hw : 0 < w) (hh : 0 < h) :
    IsFrame (unknownFrame number (.int w) (.int h)) where
  duration := ⟨1, rfl⟩
  x := ⟨.int 0, rfl, isNumber_int 0⟩
  y := ⟨.int 0, rfl, isNumber_int 0⟩
  w := ⟨w, hw, rfl⟩
  h := ⟨h, hh, rfl⟩

theorem duration_unknownFrame (number w h : Datum) :
    named (unknownFrame number w h) "duration" = .ok (.int 1) :=
  rfl

def Cabinet.folder (c : Cabinet) (name : String) : List (Nat × Datum) := (c.lookup name).getD []

theorem holds_put {c : Cabinet} (h : ∀ n ∈ (c.folder name).map (·.1), n ∈ fs.map (·.1)) :
    Within c.toMembers (Cabinet.toMembers (put c name fs)) := by
  intro other number hholds
  obtain ⟨gs, hgs, hnumber⟩ := holds_toMembers.mp hholds
  refine holds_toMembers.mpr ?_
  by_cases hname : other = name
  · subst hname
    refine ⟨fs, lookup_put_self c other fs, h number ?_⟩
    rw [Cabinet.folder, hgs]
    exact hnumber
  · exact ⟨gs, by rw [lookup_put_of_ne hname, hgs], hnumber⟩

variable {f : Datum}

theorem Cabinet.Sound.folder {c : Cabinet} (hc : c.Sound portraits) (name : String) :
    ∀ p ∈ c.folder name, IsFrame p.2 ∧ Cabinet.Pictured portraits name p := by
  intro p hp
  unfold Cabinet.folder at hp
  cases hlookup : c.lookup name with
  | none => rw [hlookup] at hp; exact absurd hp List.not_mem_nil
  | some fs =>
    rw [hlookup] at hp
    exact hc.frames _ (mem_of_lookup_eq_some hlookup) p hp

theorem Cabinet.Sound.write {c : Cabinet} (hc : c.Sound portraits) (hname : Unquoted name)
    (hfs : ∀ p ∈ fs, IsFrame p.2 ∧ Cabinet.Pictured portraits name p)
    (hkeys : fs.map (·.1) = withKey ((c.folder name).map (·.1)) number) :
    let ms := Cabinet.toMembers (Places.put c name fs)
    IsCabinet portraits ms ∧ Within c.toMembers ms ∧ Holds ms name number := by
  have hkept : ∀ n ∈ (c.folder name).map (·.1), n ∈ fs.map (·.1) := by
    intro n hn
    rw [hkeys]
    exact mem_withKey.mpr (.inl hn)
  have hnew : number ∈ fs.map (·.1) := by
    rw [hkeys]
    exact mem_withKey.mpr (.inr rfl)
  exact ⟨⟨_, rfl, hc.put hname hfs⟩, holds_put hkept,
    holds_toMembers.mpr ⟨fs, lookup_put_self c name fs, hnew⟩⟩

theorem completes_addDrawn {e : Datum} (hf : HasNumber f "w") (he : IsDrawn e name number)
    (hms : IsCabinet portraits ms) :
    Completes (fun ms' => IsCabinet portraits ms' ∧ Within ms ms' ∧ Holds ms' name number)
      (addDrawn f ms e) := by
  obtain ⟨c, rfl, hc⟩ := hms
  rw [show addDrawn f c.toMembers e = _ from addDrawn_keyed keying_nat he.name he.frame c]
  split_ifs with hknown
  · rw [lookup_isSome_iff] at hknown
    exact hc.write he.unquoted (hc.folder name) (if_pos (List.contains_iff_mem.mpr hknown)).symm
  · obtain ⟨w, hw, hnumber⟩ := hf
    rw [hw, ok_bind]
    refine (completes_atLeastOne hnumber).bind fun g ⟨n, hg, hless⟩ => ?_
    rw [hg, ok_bind]
    refine (completes_calculated (undivided_truncate n)).bind fun side hside => ?_
    have hpositive : 0 < side := Number.one_le_truncate hless hside
    refine hc.write he.unquoted (fun p hp => ?_) (keys_put _ _ _)
    rcases mem_put hp with rfl | hp
    · refine ⟨isFrame_unknownFrame _ hpositive hpositive, fun n hn hlong => ?_⟩
      rw [duration_unknownFrame] at hn
      simp only [Except.ok.injEq, Datum.int.injEq] at hn
      omega
    · exact hc.folder name p hp

theorem completes_still {es : List Datum} (hf : IsStill f es) (hms : IsCabinet portraits ms) :
    Completes (fun ms' => IsCabinet portraits ms' ∧ Within ms ms' ∧ AllInStill (Holds ms') f)
      (do (← itemsOf (← named f "elements")).foldlM (addDrawn f) ms) := by
  rw [hf.elements, ok_bind]
  have hstep : ∀ e ∈ es, ∀ ms, IsCabinet portraits ms → Completes (fun ms' =>
      IsCabinet portraits ms' ∧ Within ms ms' ∧
        ∀ name number, IsDrawn e name number → Holds ms' name number) (addDrawn f ms e) := by
    intro e he ms hms
    obtain ⟨name, number, hdrawn⟩ := hf.drawn e he
    refine (completes_addDrawn hf.w hdrawn hms).mono fun ms' ⟨hms', hwithin, hholds⟩ => ?_
    refine ⟨hms', hwithin, fun name' number' hdrawn' => ?_⟩
    obtain ⟨rfl, rfl⟩ := hdrawn.unique hdrawn'
    exact hholds
  refine (completes_gathering Within.refl Within.trans ?_ hstep hms).mono
    fun ms' ⟨hms', hwithin, hall⟩ => ⟨hms', hwithin, fun es' hes' => ?_⟩
  · exact fun e ms ms' h he name number hdrawn => h name number (he name number hdrawn)
  · have heq := hf.elements.symm.trans hes'.elements
    cases heq
    exact hall

theorem completes_motion {a : Datum} {fs : List Datum} (ha : IsMotion a fs)
    (hms : IsCabinet portraits ms) :
    Completes (fun ms' => IsCabinet portraits ms' ∧ Within ms ms' ∧ AllInMotion (Holds ms') a)
      (do (← itemsOf (← named a "frames")).foldlM (fun ms f => do
        (← itemsOf (← named f "elements")).foldlM (addDrawn f) ms) ms) := by
  rw [ha.frames, ok_bind]
  refine (completes_gathering Within.refl Within.trans (C := fun f ms => AllInStill (Holds ms) f)
    (fun _ _ _ h => AllInStill.imp h) (fun f hf ms hms => ?_) hms).mono
    fun ms' ⟨hms', hwithin, hall⟩ => ⟨hms', hwithin, fun fs' hfs' => ?_⟩
  · obtain ⟨es, hes⟩ := ha.stills f hf
    exact completes_still hes hms
  · have heq := ha.frames.symm.trans hfs'.frames
    cases heq
    exact hall

theorem completes_bank {b : Datum × Datum} {as : List (Datum × Datum)} (hb : IsBank b as)
    (hms : IsCabinet portraits ms) :
    Completes (fun ms' => IsCabinet portraits ms' ∧ Within ms ms' ∧ AllInBank (Holds ms') b)
      (do (← entriesOf b.2).foldlM (fun ms a => do
        (← itemsOf (← named a.2 "frames")).foldlM (fun ms f => do
          (← itemsOf (← named f "elements")).foldlM (addDrawn f) ms) ms) ms) := by
  obtain ⟨name, rfl, has⟩ := hb
  change Completes _ (as.foldlM _ ms)
  refine (completes_gathering Within.refl Within.trans
    (C := fun a ms => AllInMotion (Holds ms) a.2) (fun _ _ _ h => AllInMotion.imp h)
    (fun a ha ms hms => ?_) hms).mono fun ms' ⟨hms', hwithin, hall⟩ => ⟨hms', hwithin, ?_⟩
  · obtain ⟨title, fs, -, hfs⟩ := has a ha
    exact completes_motion hfs hms
  · rintro as' ⟨name', heq, -⟩
    cases heq
    exact hall

/-- **The frames of all folders**: those of the build, and one for whatever is drawn. -/
theorem completes_cabinet {symbols data : Members} {bs : List (Datum × Datum)}
    (hsymbols : ∀ s ∈ symbols, IsSymbol portraits s) (hbanks : HasBanks data bs) :
    Completes (fun ms => IsCabinet portraits ms ∧ ∀ b ∈ bs, AllInBank (Holds ms) b)
      (symbolFolders false symbols >>= fun fs => addAllDrawn fs data) := by
  refine (completes_symbolFolders hsymbols).bind fun ms hms => ?_
  unfold addAllDrawn
  rw [hbanks.1, ok_bind]
  refine (completes_gathering Within.refl Within.trans
    (C := fun b ms => AllInBank (Holds ms) b) (fun _ _ _ h => AllInBank.imp h)
    (fun b hb ms hms => ?_) hms).mono fun ms' ⟨hms', _, hall⟩ => ⟨hms', hall⟩
  obtain ⟨as, has⟩ := hbanks.2 b hb
  exact completes_bank has hms

end WikiFeed.Scene

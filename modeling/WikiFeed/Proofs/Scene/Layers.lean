import WikiFeed.Proofs.Scene.References

/-! # Layers

A timeline has one layer in its name, that of the first use of its label. So whatever is drawn in an
animation comes back with the layer of the first use of its label, and all layers come back as they
were exactly if each label has one layer throughout the animation. Main statement: `layers_read`. -/

namespace WikiFeed.Scene

open Sprite List Rows
open Outcome (ok_bind exists_of_bind_eq_ok)

theorem isDigit_of_mem_threeDigits {k : Nat} {c : Char} (h : c ∈ (threeDigits k).toList) :
    c.isDigit := by
  rw [toList_threeDigits, mem_append] at h
  rcases h with h | h
  · rw [eq_of_mem_replicate h]
    rfl
  · exact Decimal.isDigit_of_mem_natDigits h

/-- The number is taken from a label again. -/
theorem withoutNumber_label (s : String) (k : Nat) : withoutNumber (label s k) = s := by
  have hne : (threeDigits k).toList.reverse ≠ [] := by
    simp [toList_threeDigits, Decimal.natDigits_ne_nil]
  obtain ⟨d, ds, hds⟩ := exists_cons_of_ne_nil hne
  have hdigits : ∀ c ∈ d :: ds, Text.isDecimalDigit c := fun c hc =>
    isDecimalDigit_of_isDigit (isDigit_of_mem_threeDigits (mem_reverse.mp (hds ▸ hc)))
  have hreverse : (label s k).toList.reverse = d :: (ds ++ '_' :: s.toList.reverse) := by
    rw [label, String.toList_append, String.toList_append, reverse_append, hds, reverse_append]
    rfl
  have hfeed : d ≠ '\n' := by
    rintro rfl
    exact absurd (hdigits _ mem_cons_self) (by decide +kernel)
  have hmark : Text.isDecimalDigit '_' = false := by decide +kernel
  have htake : (d :: (ds ++ '_' :: s.toList.reverse)).takeWhile Text.isDecimalDigit = d :: ds := by
    rw [← cons_append, takeWhile_append_of_pos hdigits, takeWhile_cons, hmark]
    simp
  unfold withoutNumber
  rw [hreverse]
  simp [htake, hfeed]

/-! ### Layers that are written -/

variable {scene animation : Markup} {us : List (String × Datum)}

def layersOf (f : Datum) : Result (List Datum) := do
  (← itemsOf (← named f "elements")).mapM (named · "layername")

theorem layersOf_eq {f : Datum} {es : List Datum} {ns : List (String × Datum)} (hes : IsStill f es)
    (hns : drawnNames f = .ok ns) : layersOf f = .ok (ns.map (·.2)) := by
  rw [drawnNames, hes.elements, ok_bind, itemsOf, ok_bind] at hns
  obtain ⟨ps, hps, hns⟩ := exists_of_bind_eq_ok hns
  cases hns
  rw [layersOf, hes.elements, ok_bind, itemsOf, ok_bind, map_snd_zip]
  · refine Outcome.mapM_eq_ok_of_forall₂ (forall₂_map_right_iff.mpr ?_)
    refine (Outcome.forall₂_of_mapM_eq_ok hps).imp fun e p hp => ?_
    obtain ⟨_, -, hp⟩ := exists_of_bind_eq_ok hp
    obtain ⟨_, -, hp⟩ := exists_of_bind_eq_ok hp
    obtain ⟨_, -, hp⟩ := exists_of_bind_eq_ok hp
    obtain ⟨layer, hlayer, hp⟩ := exists_of_bind_eq_ok hp
    cases hp
    exact hlayer
  · rw [← (forall₂_numbered _).length_eq, length_map, length_map]

def firstLayer (us : List (String × Datum)) (l : String) : String :=
  display ((us.lookup l).getD .null)

/-- The timeline of a reference has a layer in its name. -/
def NamesLayer (animation : Markup) (layer : String) (reference : Markup) : Prop :=
  ∃ id line, reference.get? "timeline" = some id ∧
    animation.findAllWith "timeline" "id" id = [line] ∧
    withoutNumber ((line.get? "name").getD "") = layer

/-- The references of a key have the first layers of what is drawn in a frame. -/
def StillNames (animation : Markup) (us : List (String × Datum)) (f : Datum) (key : Markup) :
    Prop :=
  ∃ ns, drawnNames f = .ok ns ∧
    Forall₂ (NamesLayer animation) (ns.map fun n => firstLayer us n.1) (key.findAll "object_ref")

theorem stillNames_of_time {folders : List String} {timelines : List (String × Datum)}
    {fs : List Datum} {f : Datum × Nat} {r : Markup × List Drawn} (hus : usesOf fs = .ok us)
    (htimelines : Extends [] us timelines) (hf : f.1 ∈ fs) (h : TimeWritten folders timelines f r)
    (attributes : List (String × String)) (keys : List (Markup × List Drawn)) :
    StillNames (animationWith attributes timelines keys) us f.1 r.1 := by
  obtain ⟨ns, hns, hlabels, -⟩ := labels_of_time h
  have hlayers : ns.map (fun n => firstLayer us n.1) =
      r.2.map fun d => firstLayer us d.timeline := by
    have hmap := congrArg (map (firstLayer us)) hlabels
    rw [map_map, map_map] at hmap
    exact hmap.symm
  refine ⟨ns, hns, ?_⟩
  rw [hlayers, findAll_reference h, forall₂_map_left_iff, forall₂_map_right_iff, forall₂_same]
  intro d hd
  have hlabel := isSome_lookup_uses hus hf hns (hlabels ▸ mem_map_of_mem hd)
  obtain ⟨t, layer, k, hlayer, -, htitle, hline⟩ := exists_line htimelines hlabel attributes keys
  obtain ⟨es, ns, -, -, -, hdrawn⟩ := h
  obtain ⟨e, -, hwritten⟩ := exists_of_mem_right hdrawn hd
  have hid := hwritten.line
  rw [← hwritten.label] at hid
  refine ⟨_, _, hid, hline, ?_⟩
  change withoutNumber t.1.2 = _
  rw [htitle, withoutNumber_label, firstLayer, hlayer]
  rfl

/-! ### Layers that are read -/

theorem layer_of_placedOf {reference line : Markup} {id : String} {total : Nat} {p : Placed}
    (hid : reference.get? "timeline" = some id)
    (hline : animation.findAllWith "timeline" "id" id = [line])
    (h : placedOf scene animation total reference = .ok p) :
    named p.element "layername" = .ok (.str (withoutNumber ((line.get? "name").getD ""))) := by
  obtain ⟨r, hr, h⟩ := exists_of_bind_eq_ok h
  have htimeline : r.timeline = line := by
    rw [follow, hid, childWith?, Option.getD_some, hline] at hr
    obtain ⟨_, hfound, hr⟩ := exists_of_bind_eq_ok hr
    cases hfound
    iterate 3 obtain ⟨_, -, hr⟩ := exists_of_bind_eq_ok hr
    cases hr
    rfl
  rw [← htimeline]
  -- What follows the timeline reads other attributes and calculates.
  iterate 17 obtain ⟨_, -, h⟩ := exists_of_bind_eq_ok h
  cases h
  rfl

theorem forall₂_layers {total : Nat} {ls : List String} {references : List Markup}
    {placed : List Placed} (hls : Forall₂ (NamesLayer animation) ls references)
    (h : Forall₂ (fun r p => placedOf scene animation total r = .ok p) references placed) :
    Forall₂ (fun p l => named p.element "layername" = .ok (.str l)) placed ls := by
  induction hls generalizing placed with
  | nil =>
    cases h
    exact .nil
  | cons hl _ ih =>
    cases h with
    | cons hp hrest =>
      obtain ⟨id, line, hid, hline, rfl⟩ := hl
      exact .cons (layer_of_placedOf hid hline hp) (ih hrest)

theorem layersOf_frameData {ls : List String} {key : Markup} {g : Datum}
    (hls : Forall₂ (NamesLayer animation) ls (key.findAll "object_ref"))
    (h : frameData scene animation key = .ok g) : layersOf g = .ok (ls.map .str) := by
  obtain ⟨placed, hplaced, h⟩ := exists_of_bind_eq_ok h
  iterate 3 obtain ⟨_, -, h⟩ := exists_of_bind_eq_ok h
  cases h
  rw [layersOf, named_of_lookup (Sprite.lookup_cons_self _ _ _), ok_bind, itemsOf, ok_bind]
  refine Outcome.mapM_eq_ok_of_forall₂ (forall₂_map_left_iff.mpr (forall₂_map_right_iff.mpr ?_))
  exact forall₂_layers hls (Outcome.forall₂_of_mapM_eq_ok hplaced)

def StillLayers (us : List (String × Datum)) (f g : Datum) : Prop :=
  ∃ ns, drawnNames f = .ok ns ∧ layersOf g = .ok (ns.map fun n => .str (firstLayer us n.1))

theorem layers_framesOf {title : String} {fs : List Datum} {keys : List Markup} {gs : List Datum}
    {last : Int} (h : Forall₂ (StillNames animation us) fs keys)
    (hgs : framesOf scene animation title last keys = .ok gs) : Forall₂ (StillLayers us) fs gs := by
  induction h generalizing gs last with
  | nil =>
    cases hgs
    exact .nil
  | cons hkey _ ih =>
    rw [framesOf] at hgs
    obtain ⟨time, -, hgs⟩ := exists_of_bind_eq_ok hgs
    split at hgs
    · cases hgs
    · obtain ⟨g, hg, hgs⟩ := exists_of_bind_eq_ok hgs
      obtain ⟨rest, hrest, hgs⟩ := exists_of_bind_eq_ok hgs
      cases hgs
      obtain ⟨ns, hns, hls⟩ := hkey
      refine .cons ⟨ns, hns, ?_⟩ (ih hrest)
      rw [layersOf_frameData hls hg, map_map]
      rfl

/-- **Layers come back** as they were exactly if each label has one. -/
theorem same_layers_iff {fs gs : List Datum} (hstills : ∀ f ∈ fs, ∃ es, IsStill f es)
    (hus : usesOf fs = .ok us) (h : Forall₂ (StillLayers us) fs gs) :
    Forall₂ (fun f g => layersOf g = layersOf f) fs gs ↔
      ∃ layer : String → String, ∀ u ∈ us, u.2 = .str (layer u.1) := by
  constructor
  · refine fun hsame => ⟨firstLayer us, fun u hu => ?_⟩
    obtain ⟨f, hf, ns, hns, hmem⟩ := (mem_uses hus).mp hu
    obtain ⟨es, hes⟩ := hstills f hf
    obtain ⟨i, hi, rfl⟩ := getElem_of_mem hf
    obtain ⟨ns', hns', hread⟩ := h.get hi (h.length_eq ▸ hi)
    cases hns.symm.trans hns'
    rw [hsame.get hi (h.length_eq ▸ hi), get_eq_getElem, layersOf_eq hes hns] at hread
    exact map_inj_left.mp (Except.ok.inj hread) u hmem
  · rintro ⟨layer, hlayer⟩
    refine forall₂_imp_of_mem h fun f hf g _ ⟨ns, hns, hread⟩ => ?_
    obtain ⟨es, hes⟩ := hstills f hf
    rw [hread, layersOf_eq hes hns]
    refine congrArg _ (map_congr_left fun n hn => ?_)
    have hlookup := isSome_lookup_uses hus hf hns (mem_map_of_mem hn)
    obtain ⟨v, hv⟩ := Option.isSome_iff_exists.mp hlookup
    have hfirst : v = .str (layer n.1) := hlayer _ (Places.mem_of_lookup_eq_some hv)
    rw [firstLayer, hv, hfirst, hlayer n ((mem_uses hus).mpr ⟨f, hf, ns, hns, hn⟩)]
    rfl

/-! ### Banks -/

/-- An animation and what is read for it. Each thing that is drawn has the layer of the first use of
its label; that is its own layer everywhere exactly if each label has one layer. -/
def MotionLayers (a d : Datum) : Prop :=
  ∃ fs gs us, IsMotion a fs ∧ named d "frames" = .ok (.list gs) ∧ usesOf fs = .ok us ∧
    Forall₂ (StillLayers us) fs gs ∧
    (Forall₂ (fun f g => layersOf g = layersOf f) fs gs ↔
      ∃ layer : String → String, ∀ u ∈ us, u.2 = .str (layer u.1))

def NamedLayers (R : Datum × Datum → Datum → Prop) (as : List (Datum × Datum)) (d : Datum) : Prop :=
  ∃ vs : List (String × Datum), d = .dict (keyed .str vs) ∧
    Forall₂ (fun a v => v.1 = display a.1 ∧ R a v.2) as vs

def BankLayers (b : Datum × Datum) (d : Datum) : Prop :=
  ∃ as, IsBank b as ∧ NamedLayers (fun a => MotionLayers a.2) as d

theorem Reads.mono {α : Type} {P Q : α → Prop} {x : Reading α} (hx : Reads P x)
    (h : ∀ a, P a → Q a) : Reads Q x := by
  intro notes
  have hnotes := hx notes
  revert hnotes
  cases x notes with
  | ok a _ => exact h a
  | error e _ => exact id

section Puts

variable {R : Datum × Datum → Datum → Prop} {step : Members → Markup → Reading Members}
  {as : List (Datum × Datum)} {ms : List Markup}
  (h : Forall₂ (fun a m => ∀ done, Reads
    (fun r => ∃ v, r = Datum.put done (.str (display a.1)) v ∧ R a v) (step done m)) as ms)

include h

theorem reads_puts : (as.map fun a => display a.1).Nodup → ∀ done : List (String × Datum),
    (∀ a ∈ as, display a.1 ∉ done.map (·.1)) →
    Reads (fun r => ∃ vs, r = keyed .str (done ++ vs) ∧
        Forall₂ (fun a v => v.1 = display a.1 ∧ R a v.2) as vs)
      (ms.foldlM step (keyed .str done)) := by
  induction h with
  | nil => exact fun _ done _ => reads_pure ⟨[], by rw [append_nil], .nil⟩
  | @cons a m as ms hm _ ih =>
    intro hnodup done hdone
    rw [map_cons, nodup_cons] at hnodup
    obtain ⟨hnew, hdone⟩ := forall_mem_cons.mp hdone
    rw [foldlM_cons]
    refine (hm _).bind ?_
    rintro _ ⟨v, rfl, hv⟩
    rw [put_keyed keying_str, Places.put_of_not_mem hnew]
    refine (ih hnodup.2 _ fun b hb => ?_).mono ?_
    · rw [map_append, mem_append, not_or]
      exact ⟨hdone b hb, fun heq => hnodup.1 (mem_map.mpr ⟨b, hb, mem_singleton.mp heq⟩)⟩
    · rintro _ ⟨vs, rfl, hvs⟩
      exact ⟨_, by rw [append_assoc]; rfl, .cons ⟨rfl, hv⟩ hvs⟩

theorem reads_namedLayers (hnodup : (as.map fun a => display a.1).Nodup) :
    Reads (fun r => NamedLayers R as (.dict r)) (ms.foldlM step []) :=
  (reads_puts h hnodup [] fun _ _ => not_mem_nil).mono fun _ ⟨vs, hr, hvs⟩ =>
    ⟨vs, congrArg _ hr, hvs⟩

end Puts

section Written

variable {drawers : List Drawer} {attributes : List (String × String)} {entities : List Markup}
  (hentities : ∀ m ∈ entities, m.tag = "entity")

include hentities

theorem reads_motionLayers {a : Datum × Datum} {m : Markup}
    (h : AnimationWritten (drawers.map fun d => display d.name) a m)
    (hstock : AllInMotion (Stocked drawers) a.2) (done : Members) :
    Reads (fun r => ∃ v, r = Datum.put done (.str (display a.1)) v ∧ MotionLayers a.2 v)
      (animationOf (ofParts attributes drawers entities) done m) := by
  obtain ⟨_, mainline, -, hname, hmainline, hresolves⟩ := resolves_motion hentities h hstock
  obtain ⟨fs, us, timelines, keys, id, length, hfs, hus, htimelines, hkeys, rfl⟩ := h
  cases (findAll_mainline _ _).symm.trans hmainline
  have hnames : Forall₂ (StillNames (animationWith
      [("id", id), ("name", display a.1), ("length", length)] timelines keys) us) fs
      ((Markup.element "mainline" [] (keys.map (·.1))).findAll "key") := by
    rw [findAll_key hkeys, forall₂_map_right_iff]
    refine forall₂_of_zipIdx (forall₂_imp_of_mem hkeys fun f hf r _ hr => ?_)
    exact stillNames_of_time hus htimelines (fst_mem_of_mem_zipIdx hf) hr _ keys
  simp only [animationOf, hname, pure_bind, Markup.find?, hmainline, head?_cons, found]
  have hfound : Completes (· = Markup.element "mainline" [] (keys.map (·.1)))
    (Except.ok (Markup.element "mainline" [] (keys.map (·.1))) : Result Markup) := rfl
  refine (reads_note _).bind fun _ _ => (reads_lift hfound).bind ?_
  rintro _ rfl
  refine (reads_lift (completes_framesOf hresolves rfl).eq_ok).bind fun gs hgs =>
    reads_pure ⟨_, rfl, fs, gs, us, hfs, rfl, hus, ?_⟩
  have hlayers := layers_framesOf hnames hgs
  exact ⟨hlayers, same_layers_iff hfs.stills hus hlayers⟩

theorem reads_bankLayers {b : Datum × Datum} {m : Markup}
    (h : EntityWritten (drawers.map fun d => display d.name) b m)
    (hstock : AllInBank (Stocked drawers) b)
    (htitles : ∀ as, IsBank b as → (as.map fun a => display a.1).Nodup) (done : Members) :
    Reads (fun r => ∃ v, r = Datum.put done (.str (display b.1)) v ∧ BankLayers b v)
      (bankOf (ofParts attributes drawers entities) done m) := by
  obtain ⟨as, animations, id, has, hall, rfl⟩ := h
  unfold bankOf
  rw [findAll_animation hall]
  refine Reads.bind (reads_namedLayers (R := fun a => MotionLayers a.2)
    (forall₂_imp_of_mem hall fun a ha m _ hm done => ?_) (htitles as has)) fun r hr =>
      reads_pure ⟨_, rfl, as, has, hr⟩
  exact reads_motionLayers hentities hm (hstock as has a ha) done

end Written

section Scenes

variable {portraits : Portraits} {symbols data : Members} {bs : List (Datum × Datum)}

theorem reads_sceneLayers {drawers : List Drawer} {scene : Markup}
    (h : SceneWritten drawers bs scene)
    (hstock : ∀ b ∈ bs, AllInBank (Stocked drawers) b)
    (hnames : (bs.map fun b => display b.1).Nodup)
    (htitles : ∀ b ∈ bs, ∀ as, IsBank b as → (as.map fun a => display a.1).Nodup) :
    Reads (fun r => ∃ d, named (.dict r) "banks" = .ok d ∧ NamedLayers BankLayers bs d)
      (banksOf scene) := by
  obtain ⟨attributes, entities, hall, rfl⟩ := h
  have hentities := tag_of_entities hall
  unfold banksOf
  rw [findAll_entity hentities]
  refine Reads.bind (reads_namedLayers (forall₂_imp_of_mem hall fun b hb m _ hm done => ?_) hnames)
    fun r hr => reads_pure ⟨_, rfl, hr⟩
  exact reads_bankLayers hentities hm (hstock b hb) (htitles b hb) done

/-- **What is read of the layers** in a scene that was written. Work on the scene stops for
calculations alone. Each thing that is drawn comes back with the layer of the first use of its label
in its animation, so the layers of an animation come back as they were exactly if each label has one
layer throughout it. -/
theorem layers_read (hsymbols : ∀ s ∈ symbols, IsSymbol portraits s) (hbanks : HasBanks data bs)
    (hnames : (bs.map fun b => display b.1).Nodup)
    (htitles : ∀ b ∈ bs, ∀ as, IsBank b as → (as.map fun a => display a.1).Nodup) :
    Completes (fun folders => (∀ d ∈ folders.map (drawerOf portraits), d.fault = none) →
        Completes (fun scene => Reads (fun r => ∃ d, named (.dict r) "banks" = .ok d ∧
            NamedLayers BankLayers bs d) (banksOf scene))
          (markupOf (folders.map (drawerOf portraits)) data))
      (symbolFolders false symbols >>= fun folders => addAllDrawn folders data) :=
  (completes_scene hsymbols hbanks).mono fun _ ⟨_, _, hscene⟩ hfault =>
    (hscene hfault).mono fun _ h => reads_sceneLayers h.1 h.2 hnames htitles

end Scenes

/-! ### A change of layers -/

namespace Turn

open Walk (layered still)

def stills : List Datum := [still [layered "arm" 0 "front"], still [layered "arm" 0 "back"]]

def banks : List (Datum × Datum) := [Walk.bank "turn" stills]

theorem isStill_of_mem : ∀ f ∈ stills, ∃ es, IsStill f es := by
  have hstill (layer : String) : IsStill (still [layered "arm" 0 layer]) [layered "arm" 0 layer] :=
    Walk.isStill (by simpa using ⟨"arm", 0, Walk.isDrawn (by decide) 0 layer⟩)
  simp only [stills, forall_mem_cons]
  exact ⟨⟨_, hstill _⟩, ⟨_, hstill _⟩, by simp⟩

theorem titles : ∀ b ∈ banks, ∀ as, IsBank b as → (as.map fun a => display a.1).Nodup := by
  intro b hb as ⟨name, heq, _⟩
  rw [mem_singleton.mp hb] at heq
  cases heq
  exact nodup_singleton _

/-- The folders and the scene that are written for the turn. -/
def Written (folders : Members) (scene : Markup) : Prop :=
  Walk.Written (Walk.content "turn" stills) folders scene

theorem exists_written : ∃ folders scene, Written folders scene :=
  Walk.exists_written (by decide +kernel)

end Turn

theorem layers_read_turn : ∃ folders scene, Turn.Written folders scene ∧
    Reads (fun r => ∃ d, named (.dict r) "banks" = .ok d ∧ NamedLayers BankLayers Turn.banks d)
      (banksOf scene) := by
  obtain ⟨folders, scene, hfolders, hfault, hscene⟩ := Turn.exists_written
  have hread := layers_read Walk.isSymbol (Walk.hasBanks "turn" Turn.isStill_of_mem) (by decide)
    Turn.titles
  rw [hfolders] at hread
  have hread := hread hfault
  rw [hscene] at hread
  exact ⟨folders, scene, ⟨hfolders, hfault, hscene⟩, hread⟩

/-- The arm that is drawn behind comes back in front. -/
theorem later_layer_lost : ∃ folders scene, Turn.Written folders scene ∧
    Turn.stills.map layersOf = [.ok [.str "front"], .ok [.str "back"]] ∧
    ∀ notes r notes', banksOf scene notes = .ok r notes' → ∃ gs : List Datum,
      (do named (← named (← named (← named (.dict r) "banks") "walker") "turn") "frames") =
        .ok (.list gs) ∧ gs.map layersOf = [.ok [.str "front"], .ok [.str "front"]] := by
  obtain ⟨folders, scene, hfolders, hfault, hscene⟩ := Turn.exists_written
  have hwritten := completes_scene Walk.isSymbol (Walk.hasBanks "turn" Turn.isStill_of_mem)
  rw [hfolders] at hwritten
  obtain ⟨-, -, hwritten⟩ := hwritten
  have hwritten := hwritten hfault
  rw [hscene] at hwritten
  have hread := reads_sceneLayers hwritten.1 hwritten.2 (by decide) Turn.titles
  have hlayers : Turn.stills.map layersOf = [.ok [.str "front"], .ok [.str "back"]] := rfl
  refine ⟨folders, scene, ⟨hfolders, hfault, hscene⟩, hlayers, fun notes r notes' hr => ?_⟩
  have hnotes := hread notes
  rw [hr] at hnotes
  obtain ⟨d, hd, vs, rfl, hbanks⟩ := hnotes
  obtain ⟨⟨_, _⟩, _, ⟨rfl, as, ⟨name, heq, -⟩, vs, rfl, hanimations⟩, hnil, rfl⟩ :=
    forall₂_cons_left_iff.mp hbanks
  cases hnil
  cases heq
  obtain ⟨⟨_, v⟩, _, ⟨rfl, fs, gs, us, hfs, hgs, hus, hstills, -⟩, hnil, rfl⟩ :=
    forall₂_cons_left_iff.mp hanimations
  cases hnil
  cases hfs.frames.symm.trans (Walk.isMotion Turn.isStill_of_mem).frames
  have huses : usesOf Turn.stills =
      .ok [("arm0_000", .str "front"), ("arm0_000", .str "back")] := rfl
  cases hus.symm.trans huses
  obtain ⟨f, _, ⟨ns, hns, hf⟩, hrest, rfl⟩ := forall₂_cons_left_iff.mp hstills
  obtain ⟨g, _, ⟨ns', hns', hg⟩, hnil, rfl⟩ := forall₂_cons_left_iff.mp hrest
  cases hnil
  cases hns
  cases hns'
  have hbank (s : String) (x : Datum) : named (.dict (keyed .str [(s, x)])) s = .ok x :=
    named_of_lookup (Sprite.lookup_cons_self _ _ _)
  refine ⟨[f, g], ?_, ?_⟩
  · rw [hd, ok_bind]
    change (do named (← named (← named (.dict (keyed .str [("walker",
      .dict (keyed .str [("turn", v)]))])) "walker") "turn") "frames") = _
    rw [hbank, ok_bind, hbank, ok_bind, hgs]
  · rw [map_cons, map_singleton, hf, hg]
    rfl

end WikiFeed.Scene

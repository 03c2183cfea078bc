import WikiFeed.Proofs.Scene.Files
import WikiFeed.Proofs.Scene.Keys
import WikiFeed.Proofs.Scene.Shelves

/-! # References between the parts of a scene

In a scene that was written each id is there once among its kind: those of timelines and folders
count them, the keys of a timeline belong to different frames, and the files of a folder have
different numbers. So each reference leads to one trail alone, which ends at the symbol that the
reference was written for (`resolves_scene`), and the scene is read to its end
(`references_resolve`). -/

namespace WikiFeed.Scene

open Sprite List Decimal
open Rows

/-! ### Ids -/

theorem filter_id {α : Type} {xs : List α} {f : α × Nat → Markup}
    (hid : ∀ p, (f p).get? "id" = some (toString p.2)) {i : Nat} {x : α} (hx : xs[i]? = some x) :
    (xs.zipIdx.map f).filter (fun c => c.get? "id" == some (toString i)) = [f (x, i)] := by
  have hids : (xs.zipIdx.map f).map (·.get? "id") =
      (range' 0 xs.length).map (some <| toString ·) := by
    rw [← zipIdx_map_snd, map_map, map_map]
    exact map_congr_left fun p _ => hid p
  have hnodup : ((xs.zipIdx.map f).map (·.get? "id")).Nodup := by
    rw [hids]
    refine List.Nodup.map (fun m n h => ?_) nodup_range'
    exact toString_inj (Option.some.inj h)
  have hmem : f (x, i) ∈ xs.zipIdx.map f :=
    mem_map_of_mem (mk_mem_zipIdx_iff_getElem?.mpr hx)
  have hfilter := filter_key hnodup hmem
  rwa [hid] at hfilter

variable {ms : List Markup} {tag : String}

theorem filter_tag (h : ∀ m ∈ ms, m.tag = tag) : ms.filter (fun c => c.tag == tag) = ms :=
  filter_eq_self.mpr fun m hm => beq_iff_eq.mpr (h m hm)

theorem filter_tag_ne (h : ∀ m ∈ ms, m.tag ≠ tag) : ms.filter (fun c => c.tag == tag) = [] :=
  filter_eq_nil_iff.mpr fun m hm => by simpa using h m hm

/-! ### Folders and files -/

/-- Folders among which the first with a name has one file of a number. -/
def Stocked (drawers : List Drawer) (name : String) (number : Nat) : Prop :=
  ∃ place d, (drawers.map fun d => display d.name).findIdx? (· == name) = some place ∧
    drawers[place]? = some d ∧ display d.name = name ∧ (d.files.map (·.number)).Nodup ∧
    (number : Int) ∈ d.files.map (·.number)

variable {portraits : Portraits} {drawers : List Drawer} {name : String} {number : Nat}

theorem mem_of_stocked (h : Stocked drawers name number) :
    name ∈ drawers.map fun d => display d.name := by
  obtain ⟨place, d, -, hd, hname, -, -⟩ := h
  rw [← hname]
  exact mem_map_of_mem (mem_of_getElem? hd)

theorem names_of_made {c : Cabinet} (h : Forall₂ (Drawer.Made portraits) c drawers) :
    (drawers.map fun d => display d.name) = c.map (·.1) := by
  rw [← forall₂_eq_eq_eq, forall₂_map_left_iff, forall₂_map_right_iff]
  refine h.flip.imp fun d f hd => ?_
  rw [hd.name]
  rfl

theorem stocked_of_holds {cabinet : Cabinet} (hc : cabinet.Sound portraits)
    (hmade : Forall₂ (Drawer.Made portraits) cabinet drawers)
    (hfault : ∀ d ∈ drawers, d.fault = none)
    (h : Holds cabinet.toMembers name number) : Stocked drawers name number := by
  obtain ⟨fs, hlookup, hnumber⟩ := holds_toMembers.mp h
  have hname : name ∈ cabinet.map (·.1) :=
    mem_map_of_mem (Places.mem_of_lookup_eq_some hlookup)
  rw [← names_of_made hmade] at hname
  obtain ⟨place, hplace, -⟩ := exists_folderId_eq hname
  obtain ⟨hlt, heq, -⟩ := findIdx?_eq_some_iff_getElem.mp hplace
  rw [length_map] at hlt
  rw [getElem_map, beq_iff_eq] at heq
  have hdrawer : drawers[place]? = some drawers[place] := getElem?_eq_getElem hlt
  have hnone := hfault _ (getElem_mem hlt)
  have hplaced : place < cabinet.length := hmade.length_eq ▸ hlt
  have hd : Drawer.Made portraits cabinet[place] drawers[place] := hmade.get hplaced hlt
  have hfs : cabinet[place].2 = fs := by
    have hfolder := Places.lookup_of_mem hc.names (getElem_mem hplaced)
    have hsame : cabinet[place].1 = name := by
      rw [← heq, hd.name]
      rfl
    rw [hsame, hlookup] at hfolder
    exact (Option.some.inj hfolder).symm
  refine ⟨place, _, hplace, hdrawer, heq, (hd.increasing hnone).imp fun h => ne_of_lt h, ?_⟩
  exact hd.full hnone number (hfs ▸ hnumber)

/-! ### Timelines and keys -/

variable {folders : List String} {timelines : List (String × Datum)}

def Drawn.mark (d : Drawn) : String × Option String := (d.timeline, d.key.get? "id")

variable {f : Datum × Nat} {r : Markup × List Drawn}

theorem labels_of_time (h : TimeWritten folders timelines f r) :
    ∃ ns, drawnNames f.1 = .ok ns ∧ r.2.map (·.timeline) = ns.map (·.1) ∧ (ns.map (·.1)).Nodup := by
  obtain ⟨es, ns, hes, hns, -, hdrawn⟩ := h
  obtain ⟨ns', hns', hlength, hnodup⟩ := exists_drawnNames_eq hes
  cases hns.symm.trans hns'
  refine ⟨ns, hns, ?_, hnodup⟩
  have hlabels : r.2.map (·.timeline) = (es.zip (ns.map (·.1))).zipIdx.map (·.1.2) := by
    rw [← forall₂_eq_eq_eq, forall₂_map_left_iff, forall₂_map_right_iff]
    exact hdrawn.flip.imp fun _ _ hd => hd.label
  have hzip : (es.zip (ns.map (·.1))).zipIdx.map (·.1.2) = ns.map (·.1) := by
    change (es.zip (ns.map (·.1))).zipIdx.map (Prod.snd ∘ Prod.fst) = _
    rw [← map_map, zipIdx_map_fst, map_snd_zip]
    rw [length_map, hlength]
  rw [hlabels, hzip]

variable {d : Drawn}

theorem id_of_time (h : TimeWritten folders timelines f r) (hd : d ∈ r.2) :
    d.key.tag = "key" ∧ d.key.get? "id" = some (toString f.2) := by
  obtain ⟨es, ns, -, -, -, hdrawn⟩ := h
  obtain ⟨e, -, hwritten⟩ := exists_of_mem_right hdrawn hd
  exact ⟨hwritten.isKey, hwritten.id⟩

theorem nodup_marks : ∀ {fs : List Datum} {n : Nat} {keys : List (Markup × List Drawn)},
    Forall₂ (TimeWritten folders timelines) (fs.zipIdx n) keys →
    ((keys.flatMap (·.2)).map Drawn.mark).Nodup
  | [], _, [], .nil => nodup_nil
  | f :: fs, n, r :: keys, .cons hr hrest => by
    rw [flatMap_cons, map_append, nodup_append]
    refine ⟨?_, nodup_marks hrest, fun a ha b hb heq => ?_⟩
    · obtain ⟨ns, -, hlabels, hnodup⟩ := labels_of_time hr
      rw [← hlabels] at hnodup
      exact List.Nodup.of_map Prod.fst (by rwa [map_map])
    · obtain ⟨d, hd, rfl⟩ := mem_map.mp ha
      obtain ⟨d', hd', rfl⟩ := mem_map.mp hb
      obtain ⟨r', hr', hmem⟩ := mem_flatMap.mp hd'
      obtain ⟨f', hf', htime⟩ := exists_of_mem_right hrest hr'
      have hid := congrArg Prod.snd heq
      simp only [Drawn.mark, (id_of_time hr hd).2, (id_of_time htime hmem).2] at hid
      have hlater := (mem_zipIdx hf').1
      have := toString_inj (Option.some.inj hid)
      omega

theorem findAllWith_key {drawn : List Drawn} (hnodup : (drawn.map Drawn.mark).Nodup)
    (htags : ∀ d ∈ drawn, d.key.tag = "key") (hd : d ∈ drawn) {id : String}
    (hid : d.key.get? "id" = some id) {t : ((String × Datum) × String) × Nat}
    (ht : t.1.1.1 = d.timeline) : (lineMarkup drawn t).findAllWith "key" "id" id = [d.key] := by
  have hkeys : ∀ m ∈ (drawn.filter (·.timeline == t.1.1.1)).map (·.key), m.tag = "key" := by
    intro m hm
    obtain ⟨d', hd', rfl⟩ := mem_map.mp hm
    exact htags d' (mem_of_mem_filter hd')
  have hmark :
      drawn.filter (fun y => y.key.get? "id" == some id && y.timeline == t.1.1.1) = [d] := by
    rw [← filter_key hnodup hd]
    refine filter_congr fun y _ => ?_
    rw [Bool.and_comm, ht, ← hid]
    rfl
  have hfind : (lineMarkup drawn t).findAll "key" =
      (drawn.filter (·.timeline == t.1.1.1)).map (·.key) := filter_tag hkeys
  rw [Markup.findAllWith, hfind, filter_map, filter_filter]
  exact congrArg (map (·.key)) hmark

/-- The timeline of a label: it has the layer of the first use of the label in its name. -/
theorem exists_line {us : List (String × Datum)} (htimelines : Extends [] us timelines) {l : String}
    (hl : (us.lookup l).isSome) (attributes : List (String × String))
    (keys : List (Markup × List Drawn)) :
    ∃ t layer k, us.lookup l = some layer ∧ t.1.1.1 = l ∧ t.1.2 = label (display layer) k ∧
      (animationWith attributes timelines keys).findAllWith "timeline" "id"
        (toString ((placeOf? timelines l).getD 0)) = [lineMarkup (keys.flatMap (·.2)) t] := by
  have hlookup : timelines.lookup l = us.lookup l := htimelines.lookup_eq l
  rw [← hlookup, Places.lookup_isSome_iff] at hl
  obtain ⟨place, t, hplace, ht, rfl⟩ := exists_placeOf?_eq hl
  rw [hplace]
  obtain ⟨hlt, heq⟩ := List.getElem?_eq_some_iff.mp ht
  have htitles := forall₂_numbered (timelines.map fun t => display t.2)
  have hname : place < (timelines.map fun t => display t.2).length := by rwa [length_map]
  have htitle := htitles.length_eq ▸ hname
  obtain ⟨k, hk⟩ := htitles.get hname htitle
  rw [get_eq_getElem, get_eq_getElem, getElem_map, heq] at hk
  have hzip : (timelines.zip (numbered (timelines.map fun t => display t.2)))[place]? =
      some (t, _) := getElem?_zip_eq_some.mpr ⟨ht, getElem?_eq_getElem htitle⟩
  refine ⟨((t, _), place), t.2, k, ?_, rfl, hk, ?_⟩
  · rw [← hlookup]
    exact Places.lookup_of_mem htimelines.distinct (mem_of_getElem? ht)
  have hlines : (animationWith attributes timelines keys).findAll "timeline" =
      (timelines.zip (numbered (timelines.map fun t => display t.2))).zipIdx.map
        (lineMarkup (keys.flatMap (·.2))) := by
    refine (filter_cons_of_neg ?_).trans (filter_tag fun m hm => ?_)
    · change ¬ ("mainline" == "timeline") = true
      decide
    · obtain ⟨t, -, rfl⟩ := mem_map.mp hm
      rfl
  rw [Markup.findAllWith, hlines]
  exact filter_id (fun _ => rfl) hzip

/-! ### The main line -/

theorem findAll_mainline (attributes : List (String × String)) (keys : List (Markup × List Drawn)) :
    (animationWith attributes timelines keys).findAll "mainline" =
      [.element "mainline" [] (keys.map (·.1))] := by
  refine congrArg (cons _) (filter_tag_ne fun m hm => ?_)
  obtain ⟨t, -, rfl⟩ := mem_map.mp hm
  change "timeline" ≠ "mainline"
  decide

theorem findAll_key {fs : List Datum} {keys : List (Markup × List Drawn)}
    (h : Forall₂ (TimeWritten folders timelines) fs.zipIdx keys) :
    (Markup.element "mainline" [] (keys.map (·.1))).findAll "key" = keys.map (·.1) := by
  refine filter_tag fun m hm => ?_
  obtain ⟨r, hr, rfl⟩ := mem_map.mp hm
  obtain ⟨f, -, es, ns, -, -, hkey, -⟩ := exists_of_mem_right h hr
  rw [hkey]
  rfl

theorem findAll_reference (h : TimeWritten folders timelines f r) :
    r.1.findAll "object_ref" = r.2.map (·.reference) := by
  obtain ⟨es, ns, -, -, hkey, hdrawn⟩ := h
  rw [hkey]
  refine filter_tag fun m hm => ?_
  obtain ⟨d, hd, rfl⟩ := mem_map.mp hm
  obtain ⟨e, -, hwritten⟩ := exists_of_mem_right hdrawn hd
  exact hwritten.isReference

theorem findAll_animation {as : List (Datum × Datum)} {animations : List Markup}
    (h : Forall₂ (AnimationWritten folders) as animations) {attributes : List (String × String)} :
    (Markup.element "entity" attributes animations).findAll "animation" = animations := by
  refine filter_tag fun m hm => ?_
  obtain ⟨a, -, fs, us, timelines, keys, id, length, -, -, -, -, rfl⟩ := exists_of_mem_right h hm
  rfl

/-! ### Scenes -/

section Parts

variable {attributes : List (String × String)} {entities : List Markup}
  (hentities : ∀ m ∈ entities, m.tag = "entity")

include hentities

theorem findAll_folder :
    (ofParts attributes drawers entities).findAll "folder" =
      drawers.zipIdx.map Drawer.toMarkup := by
  have hfolders : ∀ m ∈ drawers.zipIdx.map Drawer.toMarkup, m.tag = "folder" := by
    intro m hm
    obtain ⟨d, -, rfl⟩ := mem_map.mp hm
    rfl
  have hothers : ∀ m ∈ entities, m.tag ≠ "folder" := fun m hm => by
    rw [hentities m hm]
    decide
  rw [Markup.findAll, ofParts, Markup.children, filter_append, filter_tag hfolders,
    filter_tag_ne hothers, append_nil]

theorem findAll_entity : (ofParts attributes drawers entities).findAll "entity" = entities := by
  have hothers : ∀ m ∈ drawers.zipIdx.map Drawer.toMarkup, m.tag ≠ "entity" := by
    intro m hm
    obtain ⟨d, -, rfl⟩ := mem_map.mp hm
    change "folder" ≠ "entity"
    decide
  rw [Markup.findAll, ofParts, Markup.children, filter_append, filter_tag hentities,
    filter_tag_ne hothers, nil_append]

theorem findAllWith_folder {place : Nat} {d : Drawer} (hd : drawers[place]? = some d) :
    (ofParts attributes drawers entities).findAllWith "folder" "id" (toString place) =
      [Drawer.toMarkup (d, place)] := by
  rw [Markup.findAllWith, findAll_folder hentities]
  exact filter_id (fun _ => rfl) hd

end Parts

theorem findAllWith_file {d : Drawer} (hnodup : (d.files.map (·.number)).Nodup) {file : File}
    (hfile : file ∈ d.files) (place : Nat) :
    (Drawer.toMarkup (d, place)).findAllWith "file" "id" (intText file.number) =
      [file.toMarkup (display d.name)] := by
  have hfiles : ∀ m ∈ d.files.map (File.toMarkup (display d.name)), m.tag = "file" := by
    intro m hm
    obtain ⟨f, -, rfl⟩ := mem_map.mp hm
    rfl
  have hfind : (Drawer.toMarkup (d, place)).findAll "file" =
      d.files.map (File.toMarkup (display d.name)) := filter_tag hfiles
  have hids : (d.files.map fun f => some (intText f.number)).Nodup := by
    have := hnodup.map (f := fun n => some (intText n)) fun m n h =>
      intText_inj (Option.some.inj h)
    rwa [map_map] at this
  rw [Markup.findAllWith, hfind, filter_map]
  exact congrArg (map (File.toMarkup (display d.name))) (filter_key hids hfile)

/-! ### What is written resolves -/

section Written

variable {attributes : List (String × String)} {entities : List Markup}
  (hentities : ∀ m ∈ entities, m.tag = "entity") {animation : Markup}

include hentities

theorem resolves_drawn {e : (Datum × String) × Nat} {index total : Nat}
    (hd : Drawn.Written (drawers.map fun d => display d.name) timelines index total e d)
    (hstock : ∀ name number, IsDrawn e.1.1 name number → Stocked drawers name number)
    {line : Markup} (hline : animation.findAllWith "timeline" "id"
      (toString ((placeOf? timelines e.1.2).getD 0)) = [line])
    (hkey : line.findAllWith "key" "id" (toString index) = [d.key]) :
    Resolves (ofParts attributes drawers entities) animation total (e.1.1, e.2) d.reference := by
  obtain ⟨object, place, name, number, hobject, hdrawn, hplace, hfolder, hfile⟩ := hd.object
  obtain ⟨place', drawer, hplace', hdrawer, hname, hnodup, hnumber⟩ := hstock name number hdrawn
  cases hplace.symm.trans hplace'
  obtain ⟨file, hmem, heq⟩ := mem_map.mp hnumber
  have hfound := findAllWith_file hnodup hmem place
  rw [heq] at hfound
  have hfileId :
      (file.toMarkup (display drawer.name)).get? "id" = some (intText number) := by
    rw [← heq]
    rfl
  have hleads : Trail.Leads (ofParts attributes drawers entities) animation d.reference
      ⟨line, d.key, object, Drawer.toMarkup (drawer, place), file.toMarkup (display drawer.name)⟩ :=
    ⟨⟨_, hd.line, hline⟩, ⟨_, hd.key, hkey⟩, hobject,
      ⟨_, hfolder, findAllWith_folder hentities hdrawer⟩, ⟨_, hfile, hfound⟩⟩
  have hfolderName : (Drawer.toMarkup (drawer, place)).get? "name" = some name := by
    rw [← hname]
    rfl
  have hread := completes_placedOf hleads hfolderName hfile (by
    simp [File.toMarkup, Markup.get?, Markup.attributes, lookup]) hd.depth total
  have hplace : (total : Int) - (total - 1 - e.2) - 1 = e.2 := by omega
  rw [hplace] at hread
  exact ⟨_, name, number, _, hleads, hdrawn, hfolderName, hfileId, wholeAttribute_eq hd.depth none,
    hplace, hread⟩

theorem resolves_still (h : TimeWritten (drawers.map fun d => display d.name) timelines f r)
    (hstock : AllInStill (Stocked drawers) f.1)
    (hlines : ∀ d ∈ r.2, ∃ line, animation.findAllWith "timeline" "id"
      (toString ((placeOf? timelines d.timeline).getD 0)) = [line] ∧
        line.findAllWith "key" "id" (toString f.2) = [d.key]) :
    StillResolves (ofParts attributes drawers entities) animation f r.1 := by
  have hreferences := findAll_reference h
  obtain ⟨es, ns, hes, hns, hkey, hdrawn⟩ := h
  obtain ⟨ns', hns', hlength, -⟩ := exists_drawnNames_eq hes
  cases hns.symm.trans hns'
  have hzip : es.zipIdx = (es.zip (ns.map (·.1))).zipIdx.map (Prod.map Prod.fst id) := by
    rw [← zipIdx_map, map_fst_zip]
    rw [length_map, hlength]
  refine ⟨es, hes, by rw [hkey]; rfl, ?_⟩
  rw [hreferences, hzip, forall₂_map_left_iff, forall₂_map_right_iff]
  refine forall₂_imp_of_mem hdrawn fun e he d hd hwritten => ?_
  obtain ⟨line, hline, hmark⟩ := hlines d hd
  rw [hwritten.label] at hline
  have hmem : e.1.1 ∈ es := (of_mem_zip (fst_mem_of_mem_zipIdx he)).1
  exact resolves_drawn hentities hwritten (hstock es hes e.1.1 hmem) hline hmark

theorem resolves_motion {a : Datum × Datum} {m : Markup}
    (h : AnimationWritten (drawers.map fun d => display d.name) a m)
    (hstock : AllInMotion (Stocked drawers) a.2) :
    MotionResolves (ofParts attributes drawers entities) a m := by
  obtain ⟨fs, us, timelines, keys, id, length, hfs, hus, hextends, hkeys, rfl⟩ := h
  have hmarks := nodup_marks hkeys
  have htags : ∀ d ∈ keys.flatMap (·.2), d.key.tag = "key" := by
    intro d hd
    obtain ⟨r, hr, hmem⟩ := mem_flatMap.mp hd
    obtain ⟨f, -, htime⟩ := exists_of_mem_right hkeys hr
    exact (id_of_time htime hmem).1
  refine ⟨fs, _, hfs, rfl, findAll_mainline _ _, ?_⟩
  rw [findAll_key hkeys, forall₂_map_right_iff]
  refine forall₂_imp_of_mem hkeys fun f hf r hr htime => ?_
  have hmem : f.1 ∈ fs := fst_mem_of_mem_zipIdx hf
  refine resolves_still hentities htime (hstock fs hfs f.1 hmem) fun d hd => ?_
  obtain ⟨ns, hns, hlabels, -⟩ := labels_of_time htime
  have hlabel := isSome_lookup_uses hus hmem hns (hlabels ▸ mem_map_of_mem hd)
  obtain ⟨t, layer, k, -, ht, -, hline⟩ := exists_line hextends hlabel _ keys
  exact ⟨_, hline, findAllWith_key hmarks htags (mem_flatMap.mpr ⟨r, hr, hd⟩)
    (id_of_time htime hd).2 ht⟩

end Written

variable {bs : List (Datum × Datum)}

theorem tag_of_entities {entities : List Markup}
    (h : Forall₂ (EntityWritten folders) bs entities) : ∀ m ∈ entities, m.tag = "entity" := by
  intro m hm
  obtain ⟨b, -, as, animations, id, -, -, rfl⟩ := exists_of_mem_right h hm
  rfl

variable {scene : Markup}

theorem durationMark?_path {folder : String} (hfolder : Unquoted folder) (m : Int) (n : Nat) :
    durationMark? (folder ++ "/" ++ (folder ++ "-" ++ intText m ++ "(duration'" ++
      intText n ++ "')") ++ ".png").toList = some (natDigits n) := by
  have hbefore : Unquoted (folder ++ "/" ++ (folder ++ "-" ++ intText m ++ "(")) :=
    (hfolder.append (by decide)).append ((unquoted_pictureName hfolder m).append (by decide))
  have hdigits : ∀ c ∈ natDigits n, c ≠ '\'' ∧ c ≠ '\n' := by
    intro c hc
    have hdigit := isDigit_of_mem_natDigits hc
    exact ⟨fun h => absurd (h ▸ hdigit) (by decide), fun h => absurd (h ▸ hdigit) (by decide)⟩
  have hlist : (folder ++ "/" ++ (folder ++ "-" ++ intText m ++ "(duration'" ++
        intText n ++ "')") ++ ".png").toList =
      (folder ++ "/" ++ (folder ++ "-" ++ intText m ++ "(")).toList ++
        ("duration'".toList ++ (natDigits n ++ '\'' :: ").png".toList)) := by
    have hopen : "(duration'".toList = "(".toList ++ "duration'".toList := rfl
    have hclose : "')".toList ++ ".png".toList = '\'' :: ").png".toList := rfl
    simp only [String.toList_append, hopen, ← hclose, toList_intText_natCast, append_assoc]
  rw [hlist, durationMark?_append hbefore (natDigits_ne_nil n) hdigits]

variable {symbols data : Members} {bs : List (Datum × Datum)}

theorem completes_scene (hsymbols : ∀ s ∈ symbols, IsSymbol portraits s)
    (hbanks : HasBanks data bs) :
    Completes (fun folders =>
        ∃ c : Cabinet, Forall₂ (Drawer.Made portraits) c (folders.map (drawerOf portraits)) ∧
        ((∀ d ∈ folders.map (drawerOf portraits), d.fault = none) →
          Completes (fun scene => SceneWritten (folders.map (drawerOf portraits)) bs scene ∧
              ∀ b ∈ bs, AllInBank (Stocked (folders.map (drawerOf portraits))) b)
            (markupOf (folders.map (drawerOf portraits)) data)))
      (symbolFolders false symbols >>= fun folders => addAllDrawn folders data) := by
  refine (completes_cabinet hsymbols hbanks).mono ?_
  rintro _ ⟨⟨c, rfl, hc⟩, hheld⟩
  have hmade := made_drawers hc
  refine ⟨c, hmade, fun hfault => ?_⟩
  have hstock : ∀ b ∈ bs, AllInBank (Stocked (c.toMembers.map (drawerOf portraits))) b :=
    fun b hb => (hheld b hb).imp fun _ _ => stocked_of_holds hc hmade hfault
  refine (completes_markupOf hbanks fun b hb => ?_).mono fun scene hscene => ⟨hscene, hstock⟩
  exact (hstock b hb).imp fun _ _ => mem_of_stocked

namespace Walk

def frame (number duration : Nat) : Datum :=
  .dict [(.str "framenum", .int number), (.str "duration", .int duration), (.str "x", .int 0),
    (.str "y", .int 0), (.str "w", .int 8), (.str "h", .int 4)]

def layered (symbol : String) (number : Nat) (layer : String) : Datum :=
  .dict [(.str "name", .str symbol), (.str "frame", .int number), (.str "layername", .str layer),
    (.str "m_a", .int 1), (.str "m_b", .int 0), (.str "m_c", .int 0), (.str "m_d", .int 1),
    (.str "m_tx", .int 3), (.str "m_ty", .int 4)]

def drawn (symbol : String) (number : Nat) : Datum := layered symbol number "body"

def still (es : List Datum) : Datum := .dict [(.str "elements", .list es), (.str "w", .int 20)]

def arms : Members := [(.str "arm", .list [frame 0 2, frame 3 1])]

def pictures : Portraits :=
  [("arm-0", .ofPicture ⟨8, 4, fun _ _ => .clear⟩), ("arm-3", .ofPicture ⟨8, 4, fun _ _ => .clear⟩)]

def stills : List Datum :=
  [still [drawn "arm" 0, drawn "arm" 0, drawn "leg" 1], still [drawn "arm" 3, drawn "arm" 0]]

/-- The motion of the given frames. -/
def motion (stills : List Datum) : Datum :=
  .dict [(.str "framerate", .int 30), (.str "numframes", .int stills.length),
    (.str "frames", .list stills)]

/-- The bank of one motion. -/
def bank (title : String) (stills : List Datum) : Datum × Datum :=
  (.str "walker", .dict [(.str title, motion stills)])

/-- The data of one bank of one motion. -/
def content (title : String) (stills : List Datum) : Members :=
  [(.str "banks", .dict [bank title stills])]

/-- The folders and the scene that are written for the arms and the given data. -/
def Written (data folders : Members) (scene : Markup) : Prop :=
  (symbolFolders false arms >>= fun folders => addAllDrawn folders data) = .ok folders ∧
    (∀ d ∈ folders.map (drawerOf pictures), d.fault = none) ∧
    markupOf (folders.map (drawerOf pictures)) data = .ok scene

/-- Whether a scene is written for the arms and the given data. -/
def calculates (data : Members) : Bool :=
  match symbolFolders false arms >>= fun folders => addAllDrawn folders data with
  | .ok folders => (folders.map (drawerOf pictures)).all (·.fault.isNone) &&
      (markupOf (folders.map (drawerOf pictures)) data).toBool
  | .error _ => false

theorem exists_written {data : Members} (h : calculates data = true) :
    ∃ folders scene, Written data folders scene := by
  unfold calculates at h
  split at h
  · rename_i folders hfolders
    obtain ⟨hdrawers, hmarkup⟩ := Bool.and_eq_true_iff.mp h
    have hfault : ∀ d ∈ folders.map (drawerOf pictures), d.fault = none := fun d hd =>
      Option.isNone_iff_eq_none.mp (List.all_eq_true.mp hdrawers d hd)
    cases hscene : markupOf (folders.map (drawerOf pictures)) data with
    | ok scene => exact ⟨folders, scene, hfolders, hfault, hscene⟩
    | error e =>
      rw [hscene] at hmarkup
      cases hmarkup
  · cases h

theorem isFrame (number duration : Nat) : IsFrame (frame number duration) where
  duration := ⟨duration, rfl⟩
  x := ⟨.int 0, rfl, isNumber_int 0⟩
  y := ⟨.int 0, rfl, isNumber_int 0⟩
  w := ⟨8, by decide, rfl⟩
  h := ⟨4, by decide, rfl⟩

theorem isDrawn {symbol : String} (h : Unquoted symbol) (number : Nat) (layer : String) :
    IsDrawn (layered symbol number layer) symbol number where
  unquoted := h
  name := rfl
  frame := rfl
  layer := ⟨.str layer, rfl⟩
  transform := by
    have hnumber {t : String} (n : Int) (ht : named (layered symbol number layer) t =
        .ok (.int n)) :
        HasNumber (layered symbol number layer) t := ⟨.int n, ht, isNumber_int n⟩
    simp only [transformNames, forall_mem_cons]
    exact ⟨hnumber 1 rfl, hnumber 0 rfl, hnumber 0 rfl, hnumber 1 rfl, hnumber 3 rfl, hnumber 4 rfl,
      by simp⟩

theorem isSymbol : ∀ s ∈ arms, IsSymbol pictures s := by
  intro s hs
  rw [mem_singleton.mp hs]
  refine ⟨"arm", _, rfl, by decide, ?_⟩
  simp only [forall_mem_cons]
  exact ⟨⟨isFrame 0 2, 0, rfl, by decide +kernel⟩, ⟨isFrame 3 1, 3, rfl, by decide +kernel⟩,
    by simp⟩

theorem isStill {es : List Datum} (h : ∀ e ∈ es, ∃ symbol number, IsDrawn e symbol number) :
    IsStill (still es) es where
  elements := rfl
  drawn := h
  w := ⟨.int 20, rfl, isNumber_int 20⟩

theorem isMotion {stills : List Datum} (h : ∀ f ∈ stills, ∃ es, IsStill f es) :
    IsMotion (motion stills) stills :=
  ⟨rfl, ⟨stills.length, rfl⟩, rfl, h⟩

theorem hasBanks (title : String) {stills : List Datum}
    (h : ∀ f ∈ stills, ∃ es, IsStill f es) :
    HasBanks (content title stills) [bank title stills] := by
  refine ⟨rfl, fun b hb => ?_⟩
  rw [mem_singleton.mp hb]
  exact ⟨_, "walker", rfl, by simpa using ⟨stills, isMotion h⟩⟩

theorem isStill_of_mem : ∀ f ∈ stills, ∃ es, IsStill f es := by
  have harm (number : Nat) : ∃ symbol number', IsDrawn (drawn "arm" number) symbol number' :=
    ⟨"arm", number, isDrawn (by decide) number "body"⟩
  have hleg : ∃ symbol number, IsDrawn (drawn "leg" 1) symbol number :=
    ⟨"leg", 1, isDrawn (by decide) 1 "body"⟩
  simp only [stills, forall_mem_cons]
  exact ⟨⟨_, isStill (by simp [harm, hleg])⟩, ⟨_, isStill (by simp [harm])⟩, by simp⟩

end Walk

end WikiFeed.Scene

import WikiFeed.Proofs.Scene.Replay

/-! # Strips survive scenes

Reading that succeeds `Yields` a value. From the folders of a scene it yields the strips whose reels
the folders hold (`yields_symbols`), so that a build comes back from the scene that was written for
it (`strips_survive`). -/

namespace WikiFeed.Scene

open Sprite List

/-! ### Reading that succeeds -/

/-- Reading that gives a value, and one that is as `P` says. -/
def Yields {α : Type} (P : α → Prop) (x : Reading α) : Prop :=
  ∀ notes, ∃ a notes', x notes = .ok a notes' ∧ P a

section Rules

variable {α β : Type} {P : α → Prop} {Q : β → Prop}

theorem Yields.bind {x : Reading α} {f : α → Reading β} (hx : Yields P x)
    (hf : ∀ a, P a → Yields Q (f a)) : Yields Q (x >>= f) := by
  intro notes
  obtain ⟨a, notes₁, ha, hpa⟩ := hx notes
  obtain ⟨b, notes₂, hb, hqb⟩ := hf a hpa notes₁
  exact ⟨b, notes₂, Outcome.bind_eq_ok.mpr ⟨a, notes₁, ha, hb⟩, hqb⟩

theorem yields_pure {a : α} (h : P a) : Yields P (pure a : Reading α) :=
  fun notes => ⟨a, notes, rfl, h⟩

theorem yields_lift {r : Result α} {a : α} (hr : r = .ok a) : Yields (· = a) (lift r) := by
  subst hr
  exact yields_pure rfl

theorem yields_note (line : String) : Yields (fun _ => True) (note line) :=
  fun notes => ⟨(), notes ++ [line], rfl, trivial⟩

end Rules

/-! ### Folders -/

variable {portraits : Portraits} {ts : List Strip} {title : String} {d : Drawer}

theorem Drawer.Shows.attributeOf_name (h : d.Shows portraits ts title) (i : Nat) :
    attributeOf (Drawer.toMarkup (d, i)) "name" = .ok title := by
  refine attributeOf_eq ?_
  rw [Drawer.toMarkup, h.name]
  rfl

theorem Drawer.Shows.filterM_eq (h : d.Shows portraits ts title) (i : Nat) :
    (((Drawer.toMarkup (d, i)).findAll "file").filterM fun f => do
      return !Text.occurs "(missing)" (← attributeOf f "name") : Result (List Markup)) =
      .ok ((d.files.filter (File.isKept title)).map (File.toMarkup title)) := by
  have hfiles : (Drawer.toMarkup (d, i)).findAll "file" = d.files.map (File.toMarkup title) := by
    rw [Drawer.toMarkup, h.name]
    refine filter_tag fun m hm => ?_
    obtain ⟨f, -, rfl⟩ := mem_map.mp hm
    rfl
  have hname (m : Markup) (hm : m ∈ d.files.map (File.toMarkup title)) :
      (do return !Text.occurs "(missing)" (← attributeOf m "name") : Result Bool) =
        .ok (!Text.occurs "(missing)" ((m.get? "name").getD "")) := by
    obtain ⟨f, -, rfl⟩ := mem_map.mp hm
    rfl
  rw [hfiles, Outcome.filterM_eq_ok hname, filter_map]
  rfl

theorem Drawer.Shows.yields_same (h : d.Shows portraits ts title) (hcels : celsOf ts title = [])
    (root : String) (s : Symbols) (i : Nat) :
    Yields (· = s) (addFolder root s (Drawer.toMarkup (d, i))) := by
  have hnone : inOrder (celsOf ts title) = [] := by rw [hcels, inOrder, mergeSort_nil]
  refine (yields_lift (h.attributeOf_name i)).bind fun _ _ => (yields_note _).bind fun _ _ => ?_
  refine (yields_lift (h.filterM_eq i)).bind fun files hfiles => ?_
  rw [hfiles, h.reel.filter_eq_nil hnone]
  exact yields_pure rfl

theorem nodup_inOrder (ts : List Strip) (title : String) :
    ((inOrder (celsOf ts title)).map Cel.number).Nodup := by
  refine pairwise_map.mpr ((ordered_inOrder (apart_celsOf ts title)).imp ?_)
  intro c d hcd heq
  have := c.lasting
  omega

theorem Drawer.Shows.yields_put (h : d.Shows portraits ts title) (hcels : celsOf ts title ≠ [])
    (htitle : Plain title) (root : String) (s : Symbols) (i : Nat) :
    Yields (fun s' => ∃ frames, Forall₂ Cel.Becomes (inOrder (celsOf ts title)) frames ∧
        s'.frames = Places.put s.frames title frames)
      (addFolder root s (Drawer.toMarkup (d, i))) := by
  obtain ⟨frames, paths, hframes, hshelf⟩ :=
    h.reel.exists_shelf htitle (nodup_inOrder ts title) root title [] [] (by simp)
  have hsome :
      ((d.files.filter (File.isKept title)).map (File.toMarkup title)).isEmpty = false := by
    rw [isEmpty_eq_false_iff]
    intro hnone
    rw [hnone] at hshelf
    cases hshelf
    have hlength := hframes.length_eq
    rw [inOrder, length_mergeSort] at hlength
    exact hcels (eq_nil_of_length_eq_zero hlength)
  refine (yields_lift (h.attributeOf_name i)).bind fun name hname => ?_
  refine (yields_note _).bind fun _ _ => (yields_lift (h.filterM_eq i)).bind fun files hfiles => ?_
  rw [hname, hfiles, htitle.small, hsome]
  refine (yields_lift hshelf).bind fun shelf hread => yields_pure ⟨frames, hframes, ?_⟩
  rw [hread]
  rfl

def Restored (ts : List Strip) (title : String) (e : String × List SymbolFrame) : Prop :=
  e.1 = title ∧ Forall₂ Cel.Becomes (inOrder (celsOf ts title)) e.2

def titled (ts : List Strip) (titles : List String) : List String :=
  titles.filter fun title => !(celsOf ts title).isEmpty

theorem yields_symbols (hplain : ∀ title, celsOf ts title ≠ [] → Plain title) (root : String) :
    ∀ {titles : List String} {drawers : List Drawer} (s : Symbols) (i : Nat),
      Forall₂ (Drawer.Shows portraits ts) titles drawers → titles.Nodup →
      (∀ title ∈ titles, title ∉ s.frames.map (·.1)) →
      Yields (fun s' => ∃ more, s'.frames = s.frames ++ more ∧
          Forall₂ (Restored ts) (titled ts titles) more)
        (((drawers.zipIdx i).map Drawer.toMarkup).foldlM (addFolder root) s)
  | [], [], s, _, .nil, _, _ => yields_pure ⟨[], (append_nil _).symm, .nil⟩
  | title :: titles, d :: drawers, s, i, .cons hd hds, hnodup, hnew => by
    rw [nodup_cons] at hnodup
    rw [zipIdx_cons, map_cons, foldlM_cons]
    -- a name without frames may have capitals or equal another one; it leaves nothing
    by_cases hcels : celsOf ts title = []
    · refine (hd.yields_same hcels root s i).bind fun s' hs' => ?_
      rw [hs', titled, filter_cons_of_neg (by simp [hcels])]
      exact yields_symbols hplain root s (i + 1) hds hnodup.2 fun t ht =>
        hnew t (mem_cons_of_mem _ ht)
    · refine (hd.yields_put hcels (hplain title hcels) root s i).bind fun s' hs' => ?_
      obtain ⟨frames, hframes, hput⟩ := hs'
      rw [Places.put_of_not_mem (hnew title mem_cons_self)] at hput
      have hnew' : ∀ t ∈ titles, t ∉ s'.frames.map (·.1) := by
        intro t ht hmem
        rw [hput, map_append, mem_append, map_singleton, mem_singleton] at hmem
        rcases hmem with hmem | rfl
        · exact hnew t (mem_cons_of_mem _ ht) hmem
        · exact hnodup.1 ht
      intro notes
      obtain ⟨s'', notes', hread, more, hmore, hrestored⟩ :=
        yields_symbols hplain root s' (i + 1) hds hnodup.2 hnew' notes
      refine ⟨s'', notes', hread, (title, frames) :: more, ?_, ?_⟩
      · rw [hmore, hput, append_assoc, singleton_append]
      · rw [titled, filter_cons_of_pos (by simpa using hcels)]
        exact .cons ⟨rfl, hframes⟩ hrestored

/-! ### Builds -/

theorem Cel.Becomes.isCel {c : Cel} {frame : SymbolFrame} (h : c.Becomes frame) :
    IsCel frame.toDatum c := by
  obtain ⟨x, y, rfl⟩ := h
  obtain ⟨qx, hqx⟩ := Number.exists_quotient (a := .float x) rfl c.width_pos c.width_double
  obtain ⟨qy, hqy⟩ := Number.exists_quotient (a := .float y) rfl c.height_pos c.height_double
  exact ⟨⟨⟨.float x, .float x, qx, rfl, rfl, hqx⟩, ⟨.float y, .float y, qy, rfl, rfl, hqy⟩,
    rfl, rfl⟩,
    rfl, rfl⟩

def IsInOrder (t : Strip) (s : Datum × Datum) : Prop :=
  ∃ fs, s = (.str t.name, .list fs) ∧ Forall₂ IsCel fs (inOrder t.cels)

def Restores (ts : List Strip) (data : Members) : Prop :=
  ∃ ss, named (.dict data) "Symbol" = .ok (.dict ss) ∧
    Forall₂ IsInOrder (ts.filter fun t => !t.cels.isEmpty) ss

theorem titled_eq {more : List String} (hnodup : (ts.map Strip.name ++ more).Nodup) :
    titled ts (ts.map Strip.name ++ more) =
      (ts.filter fun t => !t.cels.isEmpty).map Strip.name := by
  have hmore : more.filter (fun title => !(celsOf ts title).isEmpty) = [] := by
    refine filter_eq_nil_iff.mpr fun title htitle => ?_
    rw [celsOf_of_not_mem fun hmem => disjoint_of_nodup_append hnodup hmem htitle]
    decide
  rw [titled, filter_append, hmore, append_nil, filter_map]
  congr 1
  refine filter_congr fun t ht => ?_
  rw [Function.comp_apply, celsOf_of_mem hnodup.of_append_left ht]

theorem Restored.isInOrder {t : Strip} {e : String × List SymbolFrame}
    (h : Restored ts t.name e) (ht : celsOf ts t.name = t.cels) :
    IsInOrder t (.str e.1, .list (e.2.map SymbolFrame.toDatum)) := by
  refine ⟨_, by rw [h.1], ?_⟩
  rw [forall₂_map_left_iff, ← ht]
  exact h.2.flip.imp fun _ _ hc => Cel.Becomes.isCel hc

theorem yields_buildOf {titles more : List String} {drawers : List Drawer}
    (hshows : Forall₂ (Drawer.Shows portraits ts) titles drawers) (hnodup : titles.Nodup)
    (htitles : titles = ts.map Strip.name ++ more) {scene : Markup}
    (hscene : scene.findAll "folder" = drawers.zipIdx.map Drawer.toMarkup) (path : String)
    (scale : Datum) : Yields (fun r => Restores ts r.1) (buildOf path scene scale) := by
  have hplain : ∀ title, celsOf ts title ≠ [] → Plain title := by
    intro title hcels
    obtain ⟨c, hc⟩ := exists_mem_of_ne_nil _ hcels
    obtain ⟨t, -, rfl, -⟩ := exists_of_mem_celsOf hc
    exact t.plain
  have hread := yields_symbols hplain (Path.folder path) ⟨[], []⟩ 0 hshows hnodup
    fun _ _ => not_mem_nil
  rw [← hscene] at hread
  refine Yields.bind (x := symbolsOf path scene) hread fun s hs => yields_pure ?_
  refine ⟨_, rfl, ?_⟩
  obtain ⟨frames, hframes, hrestored⟩ := hs
  subst htitles
  rw [titled_eq hnodup, forall₂_map_left_iff] at hrestored
  rw [hframes, nil_append, forall₂_map_right_iff]
  refine Rows.forall₂_imp_of_mem hrestored fun t ht e _ he => he.isInOrder ?_
  exact celsOf_of_mem hnodup.of_append_left (mem_of_mem_filter ht)

/-- **Strips survive scenes.** Strips with their pictures, and whatever is drawn, become folders
with all their files, if no picture is under a number that no frame takes. From a scene with these
folders a build is read that has the strips with frames, each with its frames in order: what fills
a gap or is drawn without being in the build leaves no frame. -/
theorem strips_survive {symbols data : Members} {drawn : List (String × Int)}
    (hsymbols : Forall₂ (IsStrip portraits) symbols ts) (hnodup : (ts.map Strip.name).Nodup)
    (hdata : IsShow ts drawn data) (hstray : NoStray portraits ts drawn) :
    ∃ folders, (symbolFolders false symbols >>= fun fs => addAllDrawn fs data) = .ok folders ∧
      (∀ d ∈ folders.map (drawerOf portraits), d.fault = none ∧ ∀ f ∈ d.files, f.Ready portraits) ∧
      ∀ scene : Markup, scene.findAll "folder" =
          (folders.map (drawerOf portraits)).zipIdx.map Drawer.toMarkup →
        ∀ path scale, Yields (fun r => Restores ts r.1) (buildOf path scene scale) := by
  obtain ⟨_, hfolders, album, rfl, hholds⟩ := exists_album hsymbols hnodup hdata
  have hpictured : ∀ name, ∀ c ∈ celsOf ts name,
      (portraits.lookup (pictureName name c.number)).isSome := by
    intro name c hc
    obtain ⟨t, ht, rfl, hmem⟩ := exists_of_mem_celsOf hc
    obtain ⟨s, -, fs, -, -, hpictures⟩ := Rows.exists_of_mem_right hsymbols ht
    exact hpictures c hmem
  have hshows := shows_drawers hholds hpictured hstray
  obtain ⟨more, hmore⟩ := hholds.names
  refine ⟨_, hfolders, fun d hd => ?_, fun scene hscene path scale => ?_⟩
  · obtain ⟨title, -, hd⟩ := Rows.exists_of_mem_right hshows hd
    exact ⟨hd.fault, hd.ready⟩
  · exact yields_buildOf hshows hholds.nodup hmore hscene path scale

namespace Walk

def cel (number duration : Nat) (h : 1 ≤ duration) : Cel :=
  ⟨number, duration, 8, 4, h, by decide, by decide, by decide +kernel, by decide +kernel⟩

theorem isCel (number duration : Nat) (h : 1 ≤ duration) :
    IsCel (frame number duration) (cel number duration h) :=
  ⟨⟨hasShare_zero rfl (Cel.width_pos _), hasShare_zero rfl (Cel.height_pos _), rfl, rfl⟩, rfl, rfl⟩

def arm : Strip where
  name := "arm"
  cels := [cel 0 2 (by decide), cel 3 1 (by decide)]
  plain := plain_of_letters (by decide +kernel) (by simp)
  apart := by simp [Cel.Apart, cel]

theorem isStrip : Forall₂ (IsStrip pictures) arms [arm] :=
  .cons ⟨_, rfl, .cons (isCel 0 2 _) (.cons (isCel 3 1 _) .nil), by decide +kernel⟩ .nil

def strides : Members :=
  [(.str "banks", .dict [(.str "walker", .dict [(.str "walk", .dict [(.str "frames",
    .list [still [drawn "arm" 1, drawn "arm" 5, drawn "leg" 1]])])])])]

def inStrides : List (String × Int) := [("arm", 1), ("arm", 5), ("leg", 1)]

theorem isShow : IsShow [arm] inStrides strides := by
  have hdraws (symbol : String) (number : Nat) : Draws (drawn symbol number) symbol number :=
    ⟨rfl, rfl⟩
  have hside (es : List Datum) : HasSide (still es) :=
    ⟨.int 20, .int 20, rfl, rfl, .inr ⟨20, rfl⟩⟩
  refine ⟨_, _, rfl, rfl, fun b hb => ?_⟩
  rw [mem_singleton.mp hb]
  refine ⟨_, rfl, fun a ha => ?_⟩
  rw [mem_singleton.mp ha]
  refine ⟨_, _, rfl, rfl, fun f hf => ?_⟩
  rw [mem_singleton.mp hf]
  refine ⟨_, _, rfl, rfl, ?_⟩
  simp only [forall_mem_cons]
  exact ⟨⟨"arm", 1, hdraws _ _, by decide, .inr (hside _)⟩,
    ⟨"arm", 5, hdraws _ _, by decide, .inr (hside _)⟩,
    ⟨"leg", 1, hdraws _ _, by decide, .inr (hside _)⟩, by simp⟩

theorem noStray : NoStray pictures [arm] inStrides := by
  intro name last n hlast hn hpicture
  have harm : ∀ k : Fin 6, (pictures.lookup (pictureName "arm" k)).isSome → k = 0 ∨ k = 3 := by
    decide +kernel
  have hleg : ∀ k : Fin 2, (pictures.lookup (pictureName "leg" k)).isSome = false := by
    decide +kernel
  have hname : name = "arm" ∧ last ≤ 5 ∨ name = "leg" ∧ last ≤ 1 := by
    rcases hlast with ⟨c, hc, hnumber⟩ | hmem
    · obtain ⟨t, ht, rfl, hmem⟩ := exists_of_mem_celsOf hc
      rw [mem_singleton.mp ht] at hmem ⊢
      simp only [arm, mem_cons, not_mem_nil, or_false] at hmem
      rcases hmem with rfl | rfl <;> simp only [cel] at hnumber <;> exact .inl ⟨rfl, by omega⟩
    · simp only [inStrides, mem_cons, Prod.mk.injEq, not_mem_nil, or_false] at hmem
      rcases hmem with ⟨rfl, h⟩ | ⟨rfl, h⟩ | ⟨rfl, h⟩
      · exact .inl ⟨rfl, by omega⟩
      · exact .inl ⟨rfl, by omega⟩
      · exact .inr ⟨rfl, by omega⟩
  rcases hname with ⟨rfl, hle⟩ | ⟨rfl, hle⟩
  · have hcels : celsOf [arm] "arm" = arm.cels := rfl
    rw [hcels]
    rcases harm ⟨n, by omega⟩ hpicture with h | h
    · have hzero : n = 0 := congrArg Fin.val h
      exact ⟨cel 0 2 (by decide), by simp [arm], by simp [Cel.Takes, cel, hzero]⟩
    · have hthree : n = 3 := congrArg Fin.val h
      exact ⟨cel 3 1 (by decide), by simp [arm], by simp [Cel.Takes, cel, hthree]⟩
  · rw [hleg ⟨n, by omega⟩] at hpicture
    cases hpicture

end Walk

theorem strips_survive_walk : Forall₂ (IsStrip Walk.pictures) Walk.arms [Walk.arm] ∧
    IsShow [Walk.arm] Walk.inStrides Walk.strides ∧
    NoStray Walk.pictures [Walk.arm] Walk.inStrides ∧
    ∃ folders, (symbolFolders false Walk.arms >>= fun fs => addAllDrawn fs Walk.strides) =
        .ok folders ∧
      Yields (fun r => Restores [Walk.arm] r.1)
        (buildOf "walk.scml" (ofParts [] (folders.map (drawerOf Walk.pictures)) []) (.int 1)) := by
  obtain ⟨folders, hfolders, -, hread⟩ :=
    strips_survive Walk.isStrip (by decide) Walk.isShow Walk.noStray
  exact ⟨Walk.isStrip, Walk.isShow, Walk.noStray, folders, hfolders,
    hread _ (findAll_folder (by simp)) _ _⟩

/-! ### Pictures of no frame -/

def framesIn (s : Datum × Datum) : Nat :=
  match s.2 with
  | .list fs => fs.length
  | _ => 0

def frameCounts (data : Members) : List Nat :=
  match named (.dict data) "Symbol" with
  | .ok (.dict ss) => ss.map framesIn
  | _ => []

theorem IsInOrder.framesIn_eq {t : Strip} {s : Datum × Datum} (h : IsInOrder t s) :
    t.cels.length = framesIn s := by
  obtain ⟨fs, rfl, hfs⟩ := h
  have hlength := hfs.length_eq
  rw [inOrder, length_mergeSort] at hlength
  exact hlength.symm

theorem Restores.frameCounts_eq {data : Members} (h : Restores ts data) :
    (ts.filter fun t => !t.cels.isEmpty).map (·.cels.length) = frameCounts data := by
  obtain ⟨ss, hss, hall⟩ := h
  simp only [frameCounts, hss]
  exact Rows.map_eq_of_forall₂ (fun _ _ h => IsInOrder.framesIn_eq h) hall

namespace Walk

def strayPictures : Portraits := ("arm-2", .ofPicture ⟨8, 4, fun _ _ => .clear⟩) :: pictures

def silence : Members := [(.str "banks", .dict [])]

def strayCounts : List Nat :=
  match symbolFolders false arms >>= fun fs => addAllDrawn fs silence with
  | .ok folders =>
    let scene := ofParts [] (folders.map (drawerOf strayPictures)) []
    match buildOf "walk.scml" scene (.int 1) [] with
    | .ok r _ => frameCounts r.1
    | .error _ _ => []
  | .error _ => []

end Walk

/-- A picture under a number of the gap is read as a frame. -/
theorem stray_picture_is_read :
    Forall₂ (IsStrip Walk.strayPictures) Walk.arms [Walk.arm] ∧
    IsShow [Walk.arm] [] Walk.silence ∧
    ∃ folders r notes,
      (symbolFolders false Walk.arms >>= fun fs => addAllDrawn fs Walk.silence) = .ok folders ∧
      buildOf "walk.scml" (ofParts [] (folders.map (drawerOf Walk.strayPictures)) []) (.int 1) [] =
        .ok r notes ∧
      ¬ Restores [Walk.arm] r.1 := by
  have hstrip : Forall₂ (IsStrip Walk.strayPictures) Walk.arms [Walk.arm] :=
    .cons ⟨_, rfl, .cons (Walk.isCel 0 2 _) (.cons (Walk.isCel 3 1 _) .nil), by decide +kernel⟩ .nil
  have hshow : IsShow [Walk.arm] [] Walk.silence :=
    ⟨_, [], rfl, rfl, by simp⟩
  have hcounts : Walk.strayCounts = [3] := by decide +kernel
  unfold Walk.strayCounts at hcounts
  refine ⟨hstrip, hshow, ?_⟩
  cases hfolders : symbolFolders false Walk.arms >>= fun fs => addAllDrawn fs Walk.silence with
  | error e => simp [hfolders] at hcounts
  | ok folders =>
    simp only [hfolders] at hcounts
    cases hread : buildOf "walk.scml" (ofParts [] (folders.map (drawerOf Walk.strayPictures)) [])
        (.int 1) [] with
    | error e notes => simp [hread] at hcounts
    | ok r notes =>
      simp only [hread] at hcounts
      refine ⟨folders, r, notes, rfl, hread, fun hrestores => ?_⟩
      rw [← hrestores.frameCounts_eq] at hcounts
      exact absurd hcounts (by decide +kernel)

end WikiFeed.Scene

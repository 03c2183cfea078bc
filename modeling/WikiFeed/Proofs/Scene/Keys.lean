import WikiFeed.Proofs.Scene.Timelines
import WikiFeed.Proofs.Sprite.Matrix

/-! # Keys and references

What is written for an animation: a reference in its main line and a key in a timeline for each
thing that is drawn, with the places of its timeline and of its folder. The writer goes through the
frames with the last poses in hand; what it leaves for each is said by `Drawn.Written`,
`TimeWritten` and `AnimationWritten`. -/

namespace WikiFeed.Scene

open Sprite
open Outcome (ok_bind)
open Rows

variable {folders : List String} {timelines : List (String × Datum)}

/-! ### One symbol -/

/-- What is left for the `e.2`th symbol of the frame `index`, with its label: a reference to the key
of this frame on the timeline of the label, and that key with an object, which has the place of the
symbol's folder and the number of its frame. -/
structure Drawn.Written (folders : List String) (timelines : List (String × Datum))
    (index total : Nat) (e : (Datum × String) × Nat) (d : Drawn) : Prop where
  label : d.timeline = e.1.2
  isReference : d.reference.tag = "object_ref"
  line : d.reference.get? "timeline" = some (toString ((placeOf? timelines e.1.2).getD 0))
  key : d.reference.get? "key" = some (toString index)
  depth : d.reference.get? "z_index" = some (depthOf total e.2)
  isKey : d.key.tag = "key"
  id : d.key.get? "id" = some (toString index)
  object : ∃ object place name number, d.key.findAll "object" = [object] ∧
    IsDrawn e.1.1 name number ∧ folders.findIdx? (· == name) = some place ∧
    object.get? "folder" = some (toString place) ∧
    object.get? "file" = some (Decimal.intText number)

theorem completes_matrixOf {e : Datum} (h : ∀ t ∈ transformNames, HasNumber e t) :
    Completes Matrix.Numeric (matrixOf e) := by
  have hentry : ∀ t ∈ transformNames, Completes IsNumber (named e t) := by
    intro t ht
    obtain ⟨v, hv, hnumber⟩ := h t ht
    rw [hv]
    exact hnumber
  refine ((completes_mapM hentry).and (completes_mapM_all hentry)).bind fun ms hms => ?_
  have hnumber (i : Nat) (hi : i < 6) : IsNumber (ms[i]?.getD .null) := by
    have hlength : i < ms.length := hms.1.length_eq ▸ hi
    rw [List.getElem?_eq_getElem hlength]
    exact hms.2 _ (List.getElem_mem hlength)
  refine Matrix.numeric_of_rows rfl ?_
  simp [hnumber, isNumber_int]

theorem completes_degrees (angle : Number) : Completes (fun _ => True) (degrees angle) :=
  (completes_calculated (undivided_toFloat angle)).bind fun _ _ => trivial

theorem exists_folderId_eq {name : String} (h : name ∈ folders) :
    ∃ place, folders.findIdx? (· == name) = some place ∧
      folderId folders name = .ok (toString place) := by
  cases hplace : folders.findIdx? (· == name) with
  | none =>
    have hne := List.findIdx?_eq_none_iff.mp hplace name h
    rw [beq_self_eq_true] at hne
    cases hne
  | some place => exact ⟨place, rfl, by rw [folderId, hplace]⟩

theorem completes_drawnOf {e : (Datum × String) × Nat} {name : String} {number : Nat}
    (he : IsDrawn e.1.1 name number) (hname : name ∈ folders) (index total : Nat) (time : Datum)
    (poses : Poses) :
    Completes (fun r => Drawn.Written folders timelines index total e r.2)
      (drawnOf folders timelines index time total poses e) := by
  obtain ⟨place, hplace, hfolder⟩ := exists_folderId_eq hname
  refine (completes_matrixOf he.transform).bind fun m hm => ?_
  refine (completes_ofMatrix hm _ _).bind fun pose _ => (completes_degrees _).bind fun angle _ => ?_
  simp only [he.frame, he.name, textOf, ok_bind, hfolder]
  refine (completes_negative (hm 1 2 (by decide) (by decide))).bind fun y _ => ?_
  exact ⟨rfl, rfl, rfl, rfl, rfl, rfl, rfl, _, place, name, number, rfl, he, hplace, rfl, rfl⟩

/-! ### One frame -/

theorem completes_through {σ α β : Type} {step : σ → α → Result (σ × β)} {R : α → β → Prop} :
    ∀ {as : List α} {s : σ}, (∀ a ∈ as, ∀ s, Completes (fun r => R a r.2) (step s a)) →
      Completes (fun r => List.Forall₂ R as r.2) (through step s as)
  | [], _, _ => .nil
  | a :: as, s, h => by
    refine (h a List.mem_cons_self s).bind fun r hr => ?_
    refine (completes_through fun b hb => h b (List.mem_cons_of_mem _ hb)).bind fun rs hrs => ?_
    exact .cons hr hrs

/-- What is left for a frame with its number: a key of the main line with its references, in the
order in which symbols are drawn. -/
def TimeWritten (folders : List String) (timelines : List (String × Datum)) (f : Datum × Nat)
    (r : Markup × List Drawn) : Prop :=
  ∃ es ns, IsStill f.1 es ∧ drawnNames f.1 = .ok ns ∧
    r.1 = .element "key" [("id", toString f.2), ("time", Decimal.intText (f.2 * stillTime))]
      (r.2.map (·.reference)) ∧
    List.Forall₂ (Drawn.Written folders timelines f.2 es.length) (es.zip (ns.map (·.1))).zipIdx r.2

theorem completes_timeOf {f : Datum × Nat} {es : List Datum} (hf : IsStill f.1 es)
    (hfolders : AllInStill (fun name _ => name ∈ folders) f.1) (poses : Poses) :
    Completes (fun r => TimeWritten folders timelines f r.2)
      (timeOf folders timelines (.int stillTime) poses f) := by
  obtain ⟨ns, hns, -, -⟩ := exists_drawnNames_eq hf
  have htime : times (.int f.2) (.int stillTime) = .ok (.int (f.2 * stillTime)) := rfl
  simp only [timeOf, hf.elements, hns, htime, itemsOf, ok_bind]
  refine Completes.bind (completes_through fun e he poses => ?_) fun r hr =>
    ⟨es, ns, hf, hns, rfl, hr⟩
  have hmem : e.1.1 ∈ es := (List.of_mem_zip (List.fst_mem_of_mem_zipIdx he)).1
  obtain ⟨name, number, hdrawn⟩ := hf.drawn _ hmem
  exact completes_drawnOf hdrawn (hfolders es hf _ hmem name number hdrawn) _ _ _ _

/-! ### One animation -/

def lineMarkup (drawn : List Drawn) (t : ((String × Datum) × String) × Nat) : Markup :=
  .element "timeline" [("id", toString t.2), ("name", t.1.2)]
    ((drawn.filter (·.timeline == t.1.1.1)).map (·.key))

def animationWith (attributes : List (String × String)) (timelines : List (String × Datum))
    (keys : List (Markup × List Drawn)) : Markup :=
  .element "animation" attributes (.element "mainline" [] (keys.map (·.1)) ::
    (timelines.zip (numbered (timelines.map fun t => display t.2))).zipIdx.map
      (lineMarkup (keys.flatMap (·.2))))

/-- What is left for an animation: its main line, with a key for each frame, and its timelines, each
with the keys of the symbols with its label. -/
def AnimationWritten (folders : List String) (a : Datum × Datum) (m : Markup) : Prop :=
  ∃ fs us timelines keys id length, IsMotion a.2 fs ∧ usesOf fs = .ok us ∧
    Extends [] us timelines ∧ List.Forall₂ (TimeWritten folders timelines) fs.zipIdx keys ∧
    m = animationWith [("id", id), ("name", display a.1), ("length", length)] timelines keys

theorem completes_animationMarkup {a : (Datum × Datum) × Nat} {fs : List Datum}
    (ha : IsMotion a.1.2 fs) (hfolders : AllInMotion (fun name _ => name ∈ folders) a.1.2) :
    Completes (AnimationWritten folders a.1) (animationMarkup folders a) := by
  obtain ⟨count, hcount⟩ := ha.count
  have hduration : floorOver (.int 1000) (.int 30) = .ok (.int stillTime) := rfl
  simp only [animationMarkup, ha.rate, hcount, ha.frames, hduration, itemsOf, ok_bind]
  refine (completes_minus (isNumber_int count) (isNumber_int 1)).bind fun more hmore => ?_
  have hboth : ∀ d ∈ [.int 1, more], IsNumber d := by
    simpa using ⟨isNumber_int 1, hmore⟩
  refine (completes_greatest (List.cons_ne_nil _ _) hboth).bind fun most hmost => ?_
  refine (completes_times (isNumber_int stillTime) hmost).bind fun length _ => ?_
  obtain ⟨us, timelines, hus, htimelines, hextends⟩ := exists_timelinesOf_eq ha.stills
  rw [htimelines, ok_bind]
  have htimes : ∀ f ∈ fs.zipIdx, ∀ poses, Completes (fun r => TimeWritten folders timelines f r.2)
      (timeOf folders timelines (.int stillTime) poses f) := by
    intro f hf poses
    have hmem : f.1 ∈ fs := List.fst_mem_of_mem_zipIdx hf
    obtain ⟨es, hes⟩ := ha.stills f.1 hmem
    exact completes_timeOf hes (hfolders fs ha f.1 hmem) poses
  refine (completes_through htimes).bind fun r hr => ?_
  exact ⟨fs, us, timelines, r.2, toString a.2, display length, ha, hus, hextends, hr, rfl⟩

/-! ### Banks and scenes -/

def EntityWritten (folders : List String) (b : Datum × Datum) (m : Markup) : Prop :=
  ∃ as animations id, IsBank b as ∧ List.Forall₂ (AnimationWritten folders) as animations ∧
    m = .element "entity" [("id", id), ("name", display b.1)] animations

theorem completes_entityMarkup {b : (Datum × Datum) × Nat} {as : List (Datum × Datum)}
    (hb : IsBank b.1 as) (hfolders : AllInBank (fun name _ => name ∈ folders) b.1) :
    Completes (EntityWritten folders b.1) (entityMarkup folders b) := by
  have hanimations : ∀ a ∈ as.zipIdx, Completes (AnimationWritten folders a.1)
      (animationMarkup folders a) := by
    intro a ha
    have hmem : a.1 ∈ as := List.fst_mem_of_mem_zipIdx ha
    obtain ⟨title, fs, -, hfs⟩ := hb.motions a.1 hmem
    exact completes_animationMarkup hfs (hfolders as hb a.1 hmem)
  simp only [entityMarkup, hb.entriesOf, ok_bind]
  refine (completes_mapM hanimations).bind fun animations hall => ?_
  exact ⟨as, animations, toString b.2, hb, forall₂_of_zipIdx hall, rfl⟩

def ofParts (attributes : List (String × String)) (drawers : List Drawer) (entities : List Markup) :
    Markup :=
  .element "spriter_data" attributes (drawers.zipIdx.map Drawer.toMarkup ++ entities)

def SceneWritten (drawers : List Drawer) (bs : List (Datum × Datum)) (m : Markup) : Prop :=
  ∃ attributes entities,
    List.Forall₂ (EntityWritten (drawers.map fun d => display d.name)) bs entities ∧
    m = ofParts attributes drawers entities

theorem completes_markupOf {drawers : List Drawer} {data : Members} {bs : List (Datum × Datum)}
    (hbanks : HasBanks data bs)
    (hfolders : ∀ b ∈ bs, AllInBank (fun name _ => name ∈ drawers.map fun d => display d.name) b) :
    Completes (SceneWritten drawers bs) (markupOf drawers data) := by
  have hentities : ∀ b ∈ bs.zipIdx,
      Completes (EntityWritten (drawers.map fun d => display d.name) b.1)
        (entityMarkup (drawers.map fun d => display d.name) b) := by
    intro b hb
    have hmem : b.1 ∈ bs := List.fst_mem_of_mem_zipIdx hb
    obtain ⟨as, has⟩ := hbanks.2 b.1 hmem
    exact completes_entityMarkup has (hfolders b.1 hmem)
  simp only [markupOf, hbanks.1, entriesOf, ok_bind]
  refine (completes_mapM hentities).bind fun entities hall => ?_
  exact ⟨_, entities, forall₂_of_zipIdx hall, rfl⟩

end WikiFeed.Scene

import WikiFeed.Proofs.Decimal.Digits
import WikiFeed.Proofs.Rows
import WikiFeed.Proofs.Scene.Data
import WikiFeed.Proofs.Sprite.Matrix
import WikiFeed.Proofs.Sprite.Members
import WikiFeed.Scene.Read

/-! # Reading the banks of scenes

From a reference of the main line the way goes by ids to a timeline, a key, an object, a folder and
a file. A reference that leads to one `Trail` alone is read (`completes_placedOf`), and the banks of
a scene all of whose references do so are read to their end (`reads_banksOf`). Reading may stop for
a calculation, and for nothing else. -/

namespace WikiFeed.Scene

open Sprite List
open Outcome (ok_bind)
open Rows (exists_of_mem_right)

/-! ### Reading with notes -/

/-- Reading whose value is as `P` says and which stops for calculations alone. -/
def Reads {α : Type} (P : α → Prop) (x : Reading α) : Prop :=
  ∀ notes, match x notes with
    | .ok a _ => P a
    | .error e _ => e.OfCalculation

section Rules

variable {α β σ : Type} {P : α → Prop} {Q : β → Prop}

theorem Reads.bind {x : Reading α} {f : α → Reading β} (hx : Reads P x)
    (hf : ∀ a, P a → Reads Q (f a)) : Reads Q (x >>= f) := by
  intro notes
  have hnotes := hx notes
  change match EStateM.bind x f notes with
    | .ok b _ => Q b
    | .error e _ => e.OfCalculation
  unfold EStateM.bind
  cases hresult : x notes with
  | ok a notes' =>
    rw [hresult] at hnotes
    exact hf a hnotes notes'
  | error e notes' =>
    rw [hresult] at hnotes
    exact hnotes

theorem reads_pure {a : α} (h : P a) : Reads P (pure a : Reading α) := fun _ => h

theorem reads_lift {r : Result α} (h : Completes P r) : Reads P (lift r) := by
  intro notes
  cases r with
  | ok a => exact h
  | error e => exact h

theorem reads_note (line : String) : Reads (fun _ => True) (note line) := fun _ => trivial

end Rules

/-! ### Attributes -/

variable {m : Markup} {name : String}

theorem completes_doubleAttribute {default : Option Float}
    (h : (m.get? name).isSome ∨ default.isSome) :
    Completes (fun _ => True) (doubleAttribute m name default) := by
  unfold doubleAttribute
  split
  · split
    · trivial
    · exact completes_value
  · trivial
  · next hvalue => simp [hvalue] at h

theorem wholeAttribute_eq {n : Int} (h : m.get? name = some (Decimal.intText n))
    (default : Option Int) : wholeAttribute m name default = .ok n := by
  simp only [wholeAttribute, h, Decimal.readInt?_intText]

theorem attributeOf_eq {s : String} (h : m.get? name = some s) : attributeOf m name = .ok s := by
  rw [attributeOf, h]

/-! ### Trails -/

structure Trail where
  timeline : Markup
  key : Markup
  object : Markup
  folder : Markup
  file : Markup

structure Trail.Leads (scene animation reference : Markup) (t : Trail) : Prop where
  timeline : ∃ id, reference.get? "timeline" = some id ∧
    animation.findAllWith "timeline" "id" id = [t.timeline]
  key : ∃ id, reference.get? "key" = some id ∧ t.timeline.findAllWith "key" "id" id = [t.key]
  object : t.key.findAll "object" = [t.object]
  folder : ∃ id, t.object.get? "folder" = some id ∧ scene.findAllWith "folder" "id" id = [t.folder]
  file : ∃ id, t.object.get? "file" = some id ∧ t.folder.findAllWith "file" "id" id = [t.file]

variable {scene animation reference : Markup} {t : Trail}

theorem Trail.Leads.follow_eq (h : t.Leads scene animation reference) :
    follow scene animation reference = .ok ⟨t.timeline, t.object, t.file⟩ := by
  obtain ⟨timeline, htimeline, hfound⟩ := h.timeline
  obtain ⟨key, hkey, hfoundKey⟩ := h.key
  obtain ⟨folder, hfolder, hfoundFolder⟩ := h.folder
  obtain ⟨file, hfile, hfoundFile⟩ := h.file
  simp only [follow, childWith?, htimeline, hkey, hfolder, hfile, Option.getD_some, hfound,
    hfoundKey, hfoundFolder, hfoundFile, h.object, Markup.find?, head?_cons,
    findSome?_cons, found, ok_bind]
  rfl

theorem Trail.Leads.folder_eq (h : t.Leads scene animation reference) :
    found (childWith? scene "folder" "id" (some ((t.object.get? "folder").getD "0"))) =
      .ok t.folder := by
  obtain ⟨folder, hfolder, hfoundFolder⟩ := h.folder
  simp only [hfolder, childWith?, Option.getD_some, hfoundFolder, head?_cons, found]

/-! ### What is drawn -/

def IsPoint (p : Datum × Datum) : Prop := IsNumber p.1 ∧ IsNumber p.2

theorem completes_turned {x y cx cy angle : Datum} (hx : IsNumber x) (hy : IsNumber y)
    (hcx : IsNumber cx) (hcy : IsNumber cy) (hangle : IsNumber angle) :
    Completes IsPoint (turned x y cx cy angle) := by
  refine (completes_minus hx hcx).bind fun dx hdx => (completes_minus hy hcy).bind fun dy hdy => ?_
  refine (completes_ofAngle Float.cos hangle).bind fun c hc => ?_
  refine (completes_ofAngle Float.sin hangle).bind fun s hs => ?_
  refine (completes_times hdx hc).bind fun xc hxc => (completes_times hdy hs).bind fun ys hys => ?_
  refine (completes_minus hxc hys).bind fun px hpx => (completes_plus hpx hcx).bind fun px hpx => ?_
  refine (completes_times hdx hs).bind fun xs hxs => (completes_times hdy hc).bind fun yc hyc => ?_
  refine (completes_plus hxs hyc).bind fun py hpy => (completes_plus hpy hcy).bind fun py hpy => ?_
  exact ⟨hpx, hpy⟩

theorem completes_stretched {x y cx cy fx fy : Datum} (hx : IsNumber x) (hy : IsNumber y)
    (hcx : IsNumber cx) (hcy : IsNumber cy) (hfx : IsNumber fx) (hfy : IsNumber fy) :
    Completes IsPoint (stretched x y cx cy fx fy) := by
  refine (completes_minus hx hcx).bind fun dx hdx => (completes_times hdx hfx).bind fun dx hdx => ?_
  refine (completes_plus hcx hdx).bind fun px hpx => ?_
  refine (completes_minus hy hcy).bind fun dy hdy => (completes_times hdy hfy).bind fun dy hdy => ?_
  exact (completes_plus hcy hdy).bind fun py hpy => ⟨hpx, hpy⟩

theorem completes_cornersAt {x y px py w h : Datum} (hx : IsNumber x) (hy : IsNumber y)
    (hpx : IsNumber px) (hpy : IsNumber py) (hw : IsNumber w) (hh : IsNumber h) :
    Completes (fun cs => ∀ c ∈ cs, IsPoint c) (cornersAt x y px py w h) := by
  have hone := isNumber_int 1
  refine (completes_times hpx hw).bind fun a ha => (completes_minus hx ha).bind fun left hleft => ?_
  refine (completes_minus hone hpx).bind fun a ha => (completes_times ha hw).bind fun a ha => ?_
  refine (completes_plus hx ha).bind fun right hright => ?_
  refine (completes_minus hone hpy).bind fun a ha => (completes_times ha hh).bind fun a ha => ?_
  refine (completes_minus hy ha).bind fun low hlow => ?_
  refine (completes_times hpy hh).bind fun a ha => (completes_plus hy ha).bind fun high hhigh => ?_
  simp [Completes, pure, Except.pure, IsPoint, hleft, hright, hlow, hhigh]

/-- What is read for a reference: the symbol, the number of its frame, its place among what is
drawn, and points. -/
structure Placed.Shows (name : String) (number place : Int) (p : Placed) : Prop where
  name : named p.element "name" = .ok (.str name)
  frame : named p.element "frame" = .ok (.int number)
  depth : named p.element "z_index" = .ok (.int place)
  place : IsPoint p.place
  corners : ∀ c ∈ p.corners, IsPoint c

theorem completes_placedOf (h : t.Leads scene animation reference)
    (hname : t.folder.get? "name" = some name) {number : Int}
    (hnumber : t.object.get? "file" = some (Decimal.intText number))
    (hfile : ∀ a ∈ ["pivot_x", "pivot_y", "width", "height"], (t.file.get? a).isSome) {depth : Int}
    (hdepth : reference.get? "z_index" = some (Decimal.intText depth)) (total : Nat) :
    Completes (Placed.Shows name number (total - depth - 1))
      (placedOf scene animation total reference) := by
  simp only [forall_mem_cons] at hfile
  unfold placedOf
  rw [h.follow_eq, ok_bind]
  refine (completes_doubleAttribute (.inl hfile.1)).bind fun px _ => ?_
  refine (completes_doubleAttribute (.inl hfile.2.1)).bind fun py _ => ?_
  refine (completes_doubleAttribute (.inl hfile.2.2.1)).bind fun w _ => ?_
  refine (completes_doubleAttribute (.inl hfile.2.2.2.1)).bind fun h' _ => ?_
  rw [h.folder_eq, ok_bind, wholeAttribute_eq hnumber, ok_bind]
  refine (completes_doubleAttribute (.inr rfl)).bind fun px _ => ?_
  refine (completes_doubleAttribute (.inr rfl)).bind fun py _ => ?_
  refine (completes_doubleAttribute (.inr rfl)).bind fun x _ => ?_
  refine (completes_doubleAttribute (.inr rfl)).bind fun y _ => ?_
  refine (completes_doubleAttribute (.inr rfl)).bind fun sx _ => ?_
  refine (completes_doubleAttribute (.inr rfl)).bind fun sy _ => ?_
  refine (completes_doubleAttribute (.inr rfl)).bind fun angle _ => ?_
  rw [wholeAttribute_eq hdepth, ok_bind]
  have hcorners := completes_cornersAt (isNumber_float x) (isNumber_float y) (isNumber_float px)
    (isNumber_float py) (isNumber_float w) (isNumber_float h')
  refine hcorners.bind fun cs hcs => ?_
  refine (completes_mapM_all (Q := IsPoint) fun c hc => ?_).bind fun corners hpoints => ?_
  · refine (completes_turned (hcs c hc).1 (hcs c hc).2 (isNumber_float x) (isNumber_float y)
      (isNumber_float _)).bind fun p hp => ?_
    exact completes_stretched hp.1 hp.2 (isNumber_float x) (isNumber_float y) (isNumber_float sx)
      (isNumber_float sy)
  refine (completes_transformation (isNumber_float x) (isNumber_float _) (isNumber_float _)
    (isNumber_float sx) (isNumber_float sy) (isNumber_int 0) (isNumber_int 0)).bind fun m _ => ?_
  rw [hname]
  exact ⟨rfl, rfl, rfl, ⟨isNumber_float x, isNumber_float y⟩, hpoints⟩

/-! ### Frames -/

theorem completes_orZero {f : List Datum → Result Datum} {ds : List Datum}
    (h : ds ≠ [] → Completes IsNumber (f ds)) : Completes IsNumber (orZero f ds) := by
  unfold orZero
  split_ifs with hnone
  · exact isNumber_int 0
  · exact h fun hds => hnone (isEmpty_iff.mpr hds)

theorem completes_mean {ds : List Datum} (hne : ds ≠ []) (h : ∀ d ∈ ds, IsNumber d) :
    Completes IsNumber (mean ds) := by
  have hlength : (ds.length : Int) ≠ 0 := by simpa using hne
  exact (Matrix.completes_total h).bind fun _ hsum => completes_dividedBy hsum hlength

theorem completes_span {corners places : List Datum} (hcorners : ∀ d ∈ corners, IsNumber d)
    (hplaces : ∀ d ∈ places, IsNumber d) : Completes IsPoint (span corners places) := by
  refine (completes_orZero fun hne => completes_least hne hcorners).bind fun low hlow => ?_
  refine (completes_orZero fun hne => completes_greatest hne hcorners).bind fun high hhigh => ?_
  refine (completes_orZero fun hne => completes_mean hne hplaces).bind fun middle hmiddle => ?_
  refine (completes_minus hhigh hlow).bind fun size hsize => ?_
  refine (completes_dividedBy hsize two_ne_zero).bind fun half hhalf => ?_
  refine (completes_minus hmiddle hlow).bind fun offset hoffset => ?_
  exact (completes_minus hhalf hoffset).bind fun start hstart => ⟨hstart, hsize⟩

/-- The reference for the `e.2`th of all symbols that are drawn in a frame. It leads to one trail,
which ends at the folder of the symbol and at the file of the symbol's frame, and its depth tells
its place. -/
def Resolves (scene animation : Markup) (total : Nat) (e : Datum × Nat) (reference : Markup) :
    Prop :=
  ∃ (t : Trail) (name : String) (number : Nat) (depth : Int),
    t.Leads scene animation reference ∧ IsDrawn e.1 name number ∧
    t.folder.get? "name" = some name ∧ t.file.get? "id" = some (Decimal.intText number) ∧
    wholeAttribute reference "z_index" none = .ok depth ∧ total - depth - 1 = e.2 ∧
    Completes (Placed.Shows name number e.2) (placedOf scene animation total reference)

def StillResolves (scene animation : Markup) (f : Datum × Nat) (key : Markup) : Prop :=
  ∃ es, IsStill f.1 es ∧ key.get? "time" = some (Decimal.intText (f.2 * stillTime)) ∧
    Forall₂ (Resolves scene animation es.length) es.zipIdx (key.findAll "object_ref")

def MotionResolves (scene : Markup) (a : Datum × Datum) (animation : Markup) : Prop :=
  ∃ fs mainline, IsMotion a.2 fs ∧ animation.get? "name" = some (display a.1) ∧
    animation.findAll "mainline" = [mainline] ∧
    Forall₂ (StillResolves scene animation) fs.zipIdx (mainline.findAll "key")

theorem completes_frameData {f : Datum × Nat} {key : Markup}
    (h : StillResolves scene animation f key) :
    Completes (fun _ => True) (frameData scene animation key) := by
  obtain ⟨es, -, -, hall⟩ := h
  have hlength : (key.findAll "object_ref").length = es.length := by
    rw [← hall.length_eq, length_zipIdx]
  have hreferences : ∀ r ∈ key.findAll "object_ref",
      Completes (fun p => IsPoint p.place ∧ ∀ c ∈ p.corners, IsPoint c)
        (placedOf scene animation (key.findAll "object_ref").length r) := by
    intro r hr
    obtain ⟨e, -, t, name, number, depth, -, -, -, -, -, -, hread⟩ := exists_of_mem_right hall hr
    rw [hlength]
    exact hread.mono fun p hp => ⟨hp.place, hp.corners⟩
  unfold frameData
  extract_lets references
  refine (completes_mapM_all hreferences).bind fun placed hplaced => ?_
  have hcorners : ∀ c ∈ placed.flatMap (·.corners), IsPoint c := by
    intro c hc
    obtain ⟨p, hp, hmem⟩ := mem_flatMap.mp hc
    exact (hplaced p hp).2 c hmem
  refine (completes_span ?_ ?_).bind fun xw hxw => ?_
  · exact forall_mem_map.mpr fun c hc => (hcorners c hc).1
  · exact forall_mem_map.mpr fun p hp => (hplaced p hp).1.1
  refine (completes_span ?_ ?_).bind fun yh hyh => ?_
  · exact forall_mem_map.mpr fun c hc => (hcorners c hc).2
  · exact forall_mem_map.mpr fun p hp => (hplaced p hp).1.2
  exact (completes_negative hyh.1).bind fun _ _ => trivial

theorem completes_framesOf {title : String} :
    ∀ {fs : List Datum} {n : Nat} {keys : List Markup} {last : Int},
    Forall₂ (StillResolves scene animation) (fs.zipIdx n) keys → last % frameTime = 0 →
    Completes (fun _ => True) (framesOf scene animation title last keys)
  | [], _, [], _, .nil, _ => trivial
  | f :: fs, n, key :: keys, last, .cons hkey hrest, hlast => by
    obtain ⟨es, hes, htime, hall⟩ := hkey
    have hstill : stillTime = frameTime := rfl
    have hnext : (n * stillTime) % frameTime = 0 := by
      rw [hstill]
      exact Int.mul_emod_left _ _
    have hcheck : ((n * stillTime - last) % frameTime != 0) = false := by
      rw [Int.sub_emod, hnext, hlast]
      rfl
    rw [framesOf, wholeAttribute_eq htime, ok_bind, hcheck]
    refine (completes_frameData ⟨es, hes, htime, hall⟩).bind fun _ _ => ?_
    exact (completes_framesOf hrest hnext).bind fun _ _ => trivial

/-! ### Banks -/

end WikiFeed.Scene

import WikiFeed.Proofs.Decimal.Rounding
import WikiFeed.Proofs.Sprite.Sorting
import WikiFeed.Proofs.Sprite.Wire
import WikiFeed.Sprite.Bank

/-! # Bank files and their data

A `BankContent` is what a bank file holds: banks, their animations, frames (`Still`) and the symbols
that are drawn in them. Data `Describe` it if they have the members that are written. The writer
turns such data into `BankContent.bytes` if everything fits its field, and stops at a field
otherwise (`BankContent.bankFile_eq`). The reader finds the drawn symbols in the order of their
numbers, in which they were written, gives animations their facings back, puts animations together
by the codes of their banks (`BankContent.groupBanks_eq`), and gives banks their names by the table,
in the order of that table (`BankContent.foldl_relabel_perm`). Main statement: `bank_round_trip`. -/

namespace WikiFeed.Sprite

open List Writing
open Decimal (Single HasBits Under)
open Outcome (ok_bind)
open Places (lookup_of_mem)

/-- The bits of the depth of a drawn symbol, by its number among all symbols of its frame. -/
@[irreducible]
def depthOf (total index : Nat) : Single :=
  (Single.ofFloat? (Decimal.nearest index total * frameDepth - frameDepth * 0.5)).getD 0

theorem narrowed_depth {total index : Nat} (h : index ≤ total) :
    narrowed (Decimal.nearest index total * frameDepth - frameDepth * 0.5) =
      .ok (depthOf total index) := by
  have hdepth : Under 4 frameDepth :=
    ⟨false, 1026 * 2 ^ 52 + 2 ^ 50, ⟨by decide +kernel, by decide +kernel⟩, by decide⟩
  have hhalf : Under 7 (frameDepth * 0.5) :=
    ⟨false, 1025 * 2 ^ 52 + 2 ^ 50, ⟨by decide +kernel, by decide +kernel⟩, by decide⟩
  have hplace := (Decimal.under_nearest h).mul hdepth (by omega)
  obtain ⟨s, hs⟩ := (hplace.sub hhalf (by omega)).exists_single (by omega)
  unfold narrowed depthOf
  rw [hs]
  rfl

/-! ### Drawn symbols -/

/-- A symbol that is drawn in a frame: its name, the number of its frame, its layer, its
transformation, and the number by which drawn symbols are sorted. -/
structure Drawn where
  name : String
  frame : UInt32
  layer : String
  a : Single
  b : Single
  c : Single
  d : Single
  tx : Single
  ty : Single
  z : Number
  name_ascii : IsAscii name
  layer_ascii : IsAscii layer
  z_ordered : z.Ordered

namespace Drawn

def transform (e : Drawn) : List Single := [e.a, e.b, e.c, e.d, e.tx, e.ty]

structure Describes (v : Datum) (e : Drawn) : Prop where
  name : named v "name" = .ok (.str e.name)
  frame : named v "frame" = .ok (.int e.frame.toNat)
  layer : named v "layername" = .ok (.str e.layer)
  transform : HasSingles v transformNames e.transform
  z : ∃ n, named v "z_index" = .ok n ∧ numberOf? n = some e.z

def names (e : Drawn) : List String := [e.name, e.layer]

def bytes (total : Nat) (e : Drawn × Nat) : Bytes :=
  wordBytes (codeOf e.1.name) ++ (wordBytes e.1.frame ++ (wordBytes (codeOf e.1.layer) ++
    (singlesBytes e.1.transform ++ wordBytes (depthOf total e.2))))

theorem writes {v : Datum} {e : Drawn} (h : Describes v e) {total index : Nat} (hi : index ≤ total)
    (d : Draft) : Writes d (element total (v, index)) True ()
      ⟨bytes total (e, index), e.names, ⟨0, 0, 0⟩⟩ := by
  have hnumbers : (e.transform.map Single.toFloat ++ [Decimal.nearest index total * frameDepth -
      frameDepth * 0.5]).mapM narrowed =
        .ok (e.transform.map packed ++ [depthOf total index]) := by
    rw [mapM_append, mapM_narrowed, ok_bind, mapM_cons, narrowed_depth hi]
    rfl
  have hfields := (writes_name (d := d) e.name_ascii).seq fun _ _ => (writes_whole e.frame).seq
    fun _ _ => (writes_name e.layer_ascii).seq fun _ _ => writes_put ((e.transform.map packed ++
      [depthOf total index]).flatMap wordBytes)
  unfold element singles
  simp only [h.name, h.frame, h.layer, doublesOf_eq h.transform, hnumbers, lift_ok_bind]
  refine hfields.congr (by simp) ?_
  simp [Output.append_eq, Output.ofBytes, bytes, names, singlesBytes, flatMap_map]

def raw (e : Drawn × Nat) : Element :=
  ⟨.code (codeOf e.1.name), e.1.frame, .code (codeOf e.1.layer),
    e.1.transform.map Single.toFloat, e.2⟩

theorem reads (total : Nat) (e : Drawn × Nat) :
    Reads (Reading.element e.2) (bytes total e) (raw e) :=
  (reads_word _).bind <| (reads_word _).bind <| (reads_word _).bind <|
    (reads_singles e.1.transform).bind <| (exact_single _).reads.map fun _ => raw e

theorem reads_elements (total : Nat) : ∀ (es : List Drawn) (index : Nat),
    Reads (Reading.elements es.length index) ((es.zipIdx index).flatMap (bytes total))
      ((es.zipIdx index).map raw)
  | [], _ => reads_pure []
  | e :: es, index =>
    (reads total (e, index)).bind
      ((reads_elements total es (index + 1)).map fun rs => raw (e, index) :: rs)

end Drawn

/-! ### Frames -/

variable {α : Type}

theorem forall₂_zipIdx {β : Type} {R : α → β → Prop} : ∀ {as : List α} {bs : List β} (k : Nat),
    Forall₂ R as bs → Forall₂ (fun a b => R a.1 b.1 ∧ a.2 = b.2 ∧ a.2 < k + as.length)
      (as.zipIdx k) (bs.zipIdx k)
  | [], [], _, .nil => .nil
  | a :: as, b :: bs, k, .cons hab hrest => by
    rw [zipIdx_cons, zipIdx_cons]
    refine .cons ⟨hab, rfl, by simp⟩ ((forall₂_zipIdx (k + 1) hrest).imp ?_)
    rintro a' b' ⟨hr, hi, hlt⟩
    exact ⟨hr, hi, by rw [length_cons]; omega⟩

/-- A frame of an animation: its place and size, and the symbols that are drawn. -/
structure Still where
  x : Single
  y : Single
  w : Single
  h : Single
  elements : List Drawn

variable {p : Still}

namespace Still

def bounds (p : Still) : List Single := [p.x, p.y, p.w, p.h]

/-- The drawn symbols by their numbers; those with equal numbers stay in their order. -/
def inOrder (p : Still) : List Drawn := p.elements.insertionSort fun d e => d.z.value ≤ e.z.value

theorem length_inOrder (p : Still) : p.inOrder.length = p.elements.length :=
  length_insertionSort _ _

structure Describes (v : Datum) (p : Still) : Prop where
  bounds : HasSingles v ["x", "y", "w", "h"] p.bounds
  elements : ∃ es, named v "elements" = .ok (.list es) ∧ Forall₂ Drawn.Describes es p.elements

def names (p : Still) : List String := p.inOrder.flatMap Drawn.names

def bytes (p : Still) : Bytes :=
  singlesBytes p.bounds ++ (wordBytes 0 ++ (wordBytes p.elements.length.toUInt32 ++
    p.inOrder.zipIdx.flatMap (Drawn.bytes p.elements.length)))

def output (p : Still) : Output := ⟨p.bytes, p.names, ⟨0, 0, p.elements.length⟩⟩

theorem writes {v : Datum} (h : Describes v p) (d : Draft) :
    Writes d (frame v) (p.elements.length < 2 ^ 32) () p.output := by
  obtain ⟨es, hes, helements⟩ := h.elements
  obtain ⟨es', hsort, hsorted⟩ := exists_sortByKey_eq (z := Drawn.z) Drawn.z_ordered
    (fun v e hv => Drawn.Describes.z hv) helements
  have hitems : (do itemsOf (← named v "elements")) = (.ok es : Result (List Datum)) := by
    rw [hes]
    rfl
  have hlength : es.length = p.elements.length := helements.length_eq
  have hlength' : es'.length = p.elements.length := hsorted.length_eq.trans p.length_inOrder
  have hrow : ∀ d', Writes d' (es'.zipIdx.forM (element p.elements.length))
      (∀ e ∈ p.inOrder.zipIdx, True) () (.join (p.inOrder.zipIdx.map fun e =>
        ⟨Drawn.bytes p.elements.length e, e.1.names, ⟨0, 0, 0⟩⟩)) := by
    intro d'
    refine writes_forM_any ?_ (forall₂_zipIdx 0 hsorted)
    rintro ⟨v, i⟩ ⟨e, j⟩ ⟨hv, rfl, hi⟩ d''
    rw [Nat.zero_add, hlength'] at hi
    exact Drawn.writes hv hi.le d''
  have hsteps := (writes_tally (d := d)
    (fun t => { t with symbols := t.symbols + p.elements.length }) ⟨0, 0, p.elements.length⟩
    fun _ => rfl).seq fun _ _ => (writes_singles p.bounds).seq fun _ _ => (writes_count 0).seq
    fun _ _ => (writes_count p.elements.length).seq fun d' _ => hrow d'
  unfold frame
  simp only [hitems, hsort, lift_ok_bind, doublesOf_eq h.bounds, hlength, hlength']
  have hnames : p.inOrder.zipIdx.flatMap (fun e => e.1.names) = p.names := by
    rw [names, ← flatMap_map, zipIdx_map_fst]
  refine hsteps.congr (by simp) ?_
  rw [Output.join_map, hnames]
  simp [Output.append_eq, Output.ofBytes, output, bytes]

def toFrame (element : Drawn × Nat → Element) (p : Still) : Frame :=
  ⟨p.bounds.map Single.toFloat, p.inOrder.zipIdx.map element⟩

theorem reads (h : p.elements.length < 2 ^ 32) :
    Reads Reading.frame p.bytes (p.toFrame Drawn.raw) := by
  have hevents : Reads (Reading.bytes (4 * (0 : UInt32).toNat)) [] [] := (exact_bytes []).reads
  have helements : Reads (Reading.elements p.elements.length.toUInt32.toNat 0)
      (p.inOrder.zipIdx.flatMap (Drawn.bytes p.elements.length))
      (p.inOrder.zipIdx.map Drawn.raw) := by
    rw [toNat_toUInt32 h]
    have := Drawn.reads_elements p.elements.length p.inOrder 0
    rwa [length_inOrder] at this
  exact (reads_singles p.bounds).bind <| (reads_word 0).bind <| hevents.bind <|
    (reads_word _).bind <| helements.map (Frame.mk (p.bounds.map Single.toFloat))

end Still

/-! ### Animations -/

/-- An animation: its name, its rate, a whole number that 32 bits can hold, and its frames. -/
structure Motion where
  name : String
  rate : Int
  frames : List Still
  name_ascii : IsAscii name
  name_line : '\n' ∉ name.toList
  rate_whole : Single.IsWhole rate

variable {m : Motion}

def animationRecord : Reading Animation :=
  nested Reading.animationHead Reading.frame Animation.count fun a frames => { a with frames }

namespace Motion

def Describes (e : Datum × Datum) (m : Motion) : Prop :=
  ∃ v fs, e = (.str m.name, v) ∧ named v "framerate" = .ok (.int m.rate) ∧
    named v "frames" = .ok (.list fs) ∧ Forall₂ Still.Describes fs m.frames

def stem (m : Motion) : String := (splitFacing m.name).2

def drawn (m : Motion) : Nat := (m.frames.map fun p => p.elements.length).sum

def names (bank : String) (m : Motion) : List String := bank :: m.frames.flatMap Still.names

def bytes (bank : String) (m : Motion) : Bytes :=
  textBytes m.stem ++ ([(splitFacing m.name).1] ++ (wordBytes (codeOf bank) ++
    (wordBytes (packedWhole m.rate) ++ (wordBytes m.frames.length.toUInt32 ++
      m.frames.flatMap Still.bytes))))

def output (bank : String) (m : Motion) : Output :=
  ⟨m.bytes bank, m.names bank, ⟨0, m.frames.length, m.drawn⟩⟩

def Fits (m : Motion) : Prop :=
  m.stem.length < 2 ^ 31 ∧ m.frames.length < 2 ^ 32 ∧ ∀ p ∈ m.frames, p.elements.length < 2 ^ 32

theorem writes {bank : String} (hbank : IsAscii bank) {e : Datum × Datum} (h : Describes e m)
    (d : Draft) : Writes d (animation (.str bank) e) m.Fits () (m.output bank) := by
  obtain ⟨v, fs, rfl, hrate, hframes, hfs⟩ := h
  obtain ⟨x, hx, hnarrowed, -⟩ := packedWhole_spec m.rate_whole
  have hsize : (do sizeOfItems (← named v "frames")) = (.ok m.frames.length : Result Nat) := by
    rw [hframes, ← hfs.length_eq]
    rfl
  have hdouble : (do doubleOf (← named v "framerate")) = (.ok x : Result Float) := by
    rw [hrate]
    change calculated (Number.toFloat (.int m.rate)) = _
    rw [Number.toFloat, hx]
    rfl
  have hitems : (do itemsOf (← named v "frames")) = (.ok fs : Result (List Datum)) := by
    rw [hframes]
    rfl
  have hsingles : ∀ d', Writes d' (singles [x]) True ()
      (.ofBytes (wordBytes (packedWhole m.rate))) := by
    intro d'
    have hmap : [x].mapM narrowed = .ok [packedWhole m.rate] := by
      rw [mapM_cons, hnarrowed]
      rfl
    unfold singles
    rw [hmap, lift_ok_bind]
    exact writes_put _
  have hsteps := (writes_tally (d := d) (fun t => { t with frames := t.frames + m.frames.length })
    ⟨0, m.frames.length, 0⟩ fun _ => rfl).seq fun _ _ =>
    (writes_text (isAscii_stem m.name_ascii m.name_line)).seq fun _ _ =>
    (writes_put [(splitFacing m.name).1]).seq fun _ _ => (writes_name hbank).seq fun _ _ =>
    (hsingles _).seq fun _ _ => (writes_count m.frames.length).seq fun _ _ =>
    writes_forM_any (R := Still.Describes) (fun _ _ hv d => Still.writes hv d) hfs
  unfold animation
  simp only [hsize, hdouble, hitems, lift_ok_bind, textOf]
  refine hsteps.congr (by simp [Fits, stem]) ?_
  rw [Output.join_map]
  simp [Output.append_eq, Output.ofBytes, output, bytes, names, Still.output, drawn, stem]

def toAnimation (element : Drawn × Nat → Element) (bank : String) (m : Motion) : Animation :=
  ⟨m.name, codeOf bank, m.rate, m.frames.length.toUInt32, m.frames.map (Still.toFrame element)⟩

theorem reads_head (h : m.Fits) (bank : String) :
    Reads Reading.animationHead (textBytes m.stem ++ ([(splitFacing m.name).1] ++
      (wordBytes (codeOf bank) ++ (wordBytes (packedWhole m.rate) ++
        wordBytes m.frames.length.toUInt32))))
      ⟨m.name, codeOf bank, m.rate, m.frames.length.toUInt32, []⟩ := by
  have hname : m.stem ++ facingEnding (splitFacing m.name).1.toNat = m.name :=
    splitFacing_append m.name_line
  have hsteps : Reads Reading.animationHead _ (Animation.mk
      (m.stem ++ facingEnding (splitFacing m.name).1.toNat) (codeOf bank) m.rate
      m.frames.length.toUInt32 []) :=
    (exact_text (isAscii_stem m.name_ascii m.name_line) h.1).reads.bind <|
    (exact_byte _).reads.bind <| (reads_word _).bind <| (exact_single _).reads.bind <|
    (reads_whole m.rate_whole).bind <|
    (reads_word _).map fun n => Animation.mk _ _ _ n []
  rwa [hname] at hsteps

theorem animations_eq {ms : List (String × Motion)} (h : ∀ m ∈ ms, m.2.Fits) (rest : Bytes) :
    Reading.animations ms.length (ms.flatMap (fun m => m.2.bytes m.1) ++ rest) =
      (ms.map fun m => m.2.toAnimation Drawn.raw m.1, .ok rest) := by
  refine severalNested_eq (fun m hm => ?_) rest
  obtain ⟨-, hcount, hfits⟩ := h m hm
  have hframes := reads_several fun p hp => Still.reads (hfits p hp)
  rw [← toNat_toUInt32 hcount] at hframes
  have hrecord : Reads animationRecord _ (m.2.toAnimation Drawn.raw m.1) :=
    (reads_head (h m hm) m.1).bind (hframes.map _)
  simp only [append_assoc] at hrecord
  exact hrecord

end Motion

/-! ### Names for codes -/

theorem resolveAll_eq {β : Type} {resolve : α → α × Option Fault} {f g : β → α} :
    ∀ {bs : List β}, (∀ b ∈ bs, resolve (f b) = (g b, none)) →
      resolveAll resolve (bs.map f) = (bs.map g, none)
  | [], _ => rfl
  | b :: bs, h => by
    rw [map_cons, resolveAll, h b mem_cons_self]
    simp only [resolveAll_eq fun b' hb' => h b' (mem_cons_of_mem _ hb')]
    rfl

def Drawn.resolved (e : Drawn × Nat) : Element :=
  ⟨.name (Text.lower e.1.name), e.1.frame, .name e.1.layer, e.1.transform.map Single.toFloat, e.2⟩

variable {t : NameTable}

theorem Drawn.resolve_raw {e : Drawn × Nat} (h : t.Knows e.1.names) :
    (raw e).resolve t = (resolved e, none) := by
  have hname := h e.1.name (by simp [names])
  have hlayer := h e.1.layer (by simp [names])
  unfold Element.resolve raw
  simp only [hname, hlayer]
  rfl

theorem Still.resolve_raw (h : t.Knows p.names) :
    (p.toFrame Drawn.raw).resolve t = (p.toFrame Drawn.resolved, none) := by
  have helements : ∀ e ∈ p.inOrder.zipIdx, (Drawn.raw e).resolve t = (Drawn.resolved e, none) := by
    intro e he
    refine Drawn.resolve_raw fun s hs => h s (mem_flatMap.mpr ⟨e.1, ?_, hs⟩)
    exact (mem_zipIdx' he).2 ▸ getElem_mem _
  unfold Frame.resolve toFrame
  simp only [resolveAll_eq helements]

theorem Motion.resolve_raw {bank : String} (h : t.Knows (m.names bank)) :
    (m.toAnimation Drawn.raw bank).resolve t = (m.toAnimation Drawn.resolved bank, none) := by
  have hframes : ∀ p ∈ m.frames,
      (p.toFrame Drawn.raw).resolve t = (p.toFrame Drawn.resolved, none) := fun p hp =>
    Still.resolve_raw fun s hs =>
      h s (mem_cons_of_mem _ (mem_flatMap.mpr ⟨p, hp, hs⟩))
  unfold Animation.resolve toAnimation
  simp only [resolveAll_eq hframes]

/-! ### Data -/

def Drawn.toDatum (e : Drawn × Nat) : Datum :=
  .dict ([(.str "name", .str (Text.lower e.1.name)), (.str "frame", .int e.1.frame.toNat),
    (.str "layername", .str e.1.layer)] ++
    doubleMembers transformNames (e.1.transform.map Single.toFloat) ++ [(.str "z_index", .int e.2)])

def Still.toDatum (p : Still) : Datum :=
  .dict (doubleMembers ["x", "y", "w", "h"] (p.bounds.map Single.toFloat) ++
    [(.str "elements", .list (p.inOrder.zipIdx.map Drawn.toDatum))])

def Motion.toDatum (m : Motion) : Datum :=
  .dict [(.str "framerate", .int m.rate), (.str "numframes", .int m.frames.length),
    (.str "frames", .list (m.frames.map Still.toDatum))]

theorem Still.toDatum_toFrame (p : Still) : (p.toFrame Drawn.resolved).toDatum = p.toDatum := by
  unfold Frame.toDatum Still.toDatum toFrame
  rw [map_map]
  rfl

theorem Motion.toDatum_toAnimation (h : m.frames.length < 2 ^ 32) (bank : String) :
    (m.toAnimation Drawn.resolved bank).toDatum = m.toDatum := by
  have hframes : (m.frames.map (Still.toFrame Drawn.resolved)).map Frame.toDatum =
      m.frames.map Still.toDatum := by
    rw [map_map]
    exact map_congr_left fun p _ => p.toDatum_toFrame
  unfold Animation.toDatum Motion.toDatum toAnimation
  simp only [toNat_toUInt32 h, hframes]

/-! ### Banks -/

/-- A bank: its name, and at least one animation. -/
structure MotionBank where
  name : String
  motions : List Motion
  name_ascii : IsAscii name
  motions_ne : motions ≠ []
  names_nodup : (motions.map Motion.name).Nodup

variable {k : MotionBank}

namespace MotionBank

def Describes (e : Datum × Datum) (k : MotionBank) : Prop :=
  ∃ es, e = (.str k.name, .dict es) ∧ Forall₂ Motion.Describes es k.motions

def toEntry (k : MotionBank) : Datum × Datum :=
  (.str k.name, .dict (k.motions.map fun m => (.str m.name, m.toDatum)))

def names (k : MotionBank) : List String := k.motions.flatMap (Motion.names k.name)

def output (k : MotionBank) : Output :=
  ⟨k.motions.flatMap (Motion.bytes k.name), k.names,
    ⟨k.motions.length, (k.motions.map fun m => m.frames.length).sum,
      (k.motions.map Motion.drawn).sum⟩⟩

theorem writes {e : Datum × Datum} (h : Describes e k) (d : Draft) :
    Writes d (bank e) (∀ m ∈ k.motions, m.Fits) () k.output := by
  obtain ⟨es, rfl, hes⟩ := h
  have hsize : sizeOfItems (.dict es) = .ok k.motions.length := by
    rw [← hes.length_eq, ← length_map (f := fun e : Datum × Datum => e.1)]
    rfl
  have hentries : entriesOf (.dict es) = .ok es := rfl
  have hsteps := (writes_tally (d := d)
    (fun t => { t with animations := t.animations + k.motions.length }) ⟨k.motions.length, 0, 0⟩
    fun _ => rfl).seq fun _ _ => writes_forM_any (R := Motion.Describes)
      (fun _ _ hm d => Motion.writes k.name_ascii hm d) hes
  unfold bank
  simp only [hsize, hentries, lift_ok_bind]
  refine hsteps.congr (by simp) ?_
  rw [Output.join_map]
  simp [Output.append_eq, output, names, Motion.output]

def animations (k : MotionBank) : List Animation :=
  k.motions.map (Motion.toAnimation Drawn.resolved k.name)

def group (k : MotionBank) : List (Label × Datum) :=
  titled (k.animations.map fun a => (a.name, a.toDatum))

theorem foldl_group {done : List (Label × List (Label × Datum))}
    (h : .code (codeOf k.name) ∉ done.map (·.1)) :
    k.animations.foldl (fun banks a => Places.put banks (.code a.bank)
        (Places.put ((banks.lookup (.code a.bank)).getD []) (.name a.name) a.toDatum)) done =
      done ++ [(.code (codeOf k.name), k.group)] := by
  have hne : k.group ≠ [] := by simp [group, animations, titled, k.motions_ne]
  have hnames : k.group.foldl (fun t e => Places.put t e.1 e.2) [] = k.group := by
    rw [group, titled, foldl_map]
    refine foldl_put_label (f := Label.name) (fun _ _ h => Label.name.inj h) ?_
    rw [animations, map_map, map_map]
    exact k.names_nodup
  have hfold := foldl_put_under (.code (codeOf k.name)) hne done
  rw [Places.lookup_eq_none_of_not_mem h, Option.getD_none, hnames, 
    Places.put_of_not_mem h] at hfold
  rw [← hfold, group, titled, animations, foldl_map, foldl_map, foldl_map, foldl_map]
  rfl

theorem groupBanks_eq {ks : List MotionBank} (h : (ks.map fun k => codeOf k.name).Nodup) :
    groupBanks (ks.flatMap animations) = coded (ks.map fun k => (codeOf k.name, k.group)) := by
  induction ks using reverseRecOn with
  | nil => rfl
  | append_singleton ks k ih =>
    rw [map_append, nodup_append] at h
    have hgroups := ih h.1
    have hnew : .code (codeOf k.name) ∉
        (coded (ks.map fun k => (codeOf k.name, k.group))).map (·.1) := by
      simp only [coded, map_map, mem_map, Function.comp_apply, Label.code.injEq]
      exact fun ⟨k', hk', heq⟩ => h.2.2 _ (mem_map.mpr ⟨k', hk', heq⟩) _ mem_cons_self rfl
    unfold groupBanks at hgroups ⊢
    rw [flatMap_append, foldl_append, hgroups, flatMap_cons, flatMap_nil,
      append_nil, foldl_group hnew, map_append, coded, coded, map_append]
    rfl

end MotionBank

/-! ### Bank files -/

/-- What a bank file holds. Different names of banks, drawn symbols and layers have different
codes. -/
structure BankContent where
  banks : List MotionBank
  banks_nodup : (banks.map MotionBank.name).Nodup
  codes_differ : CodesDiffer (banks.flatMap MotionBank.names)

namespace BankContent

def Describes (data : Datum) (b : BankContent) : Prop :=
  ∃ es, named data "banks" = .ok (.dict es) ∧ Forall₂ MotionBank.Describes es b.banks

def names (b : BankContent) : List String := b.banks.flatMap MotionBank.names

def table (b : BankContent) : NameTable := NameTable.ofNames b.names

def motions (b : BankContent) : List (String × Motion) :=
  b.banks.flatMap fun k => k.motions.map fun m => (k.name, m)

def tally (b : BankContent) : Tally :=
  ⟨b.motions.length, (b.motions.map fun m => m.2.frames.length).sum,
    (b.motions.map fun m => m.2.drawn).sum⟩

def body (b : BankContent) : Bytes :=
  b.motions.flatMap (fun m => m.2.bytes m.1) ++ tableBytes b.table

/-- What is counted fits a word, and texts have lengths that fit 31 bits. -/
structure Fits (b : BankContent) : Prop where
  animations : b.tally.animations < 2 ^ 32
  frames : b.tally.frames < 2 ^ 32
  symbols : b.tally.symbols < 2 ^ 32
  names : b.names.eraseDups.length < 2 ^ 32
  name : ∀ s ∈ b.names, s.length < 2 ^ 31
  stem : ∀ m ∈ b.motions, m.2.stem.length < 2 ^ 31

variable {b : BankContent}

theorem forall_motions {P : Motion → Prop} :
    (∀ m ∈ b.motions, P m.2) ↔ ∀ k ∈ b.banks, ∀ m ∈ k.motions, P m := by
  constructor
  · intro h k hk m hm
    exact h (k.name, m) (mem_flatMap.mpr ⟨k, hk, mem_map.mpr ⟨m, hm, rfl⟩⟩)
  · intro h x hx
    obtain ⟨k, hk, hx⟩ := mem_flatMap.mp hx
    obtain ⟨m, hm, rfl⟩ := mem_map.mp hx
    exact h k hk m hm

theorem names_subset {m : String × Motion} (h : m ∈ b.motions) : m.2.names m.1 ⊆ b.names := by
  obtain ⟨k, hk, h⟩ := mem_flatMap.mp h
  obtain ⟨m, hm, rfl⟩ := mem_map.mp h
  exact fun s hs => mem_flatMap.mpr ⟨k, hk, mem_flatMap.mpr ⟨m, hm, hs⟩⟩

theorem name_mem (h : k ∈ b.banks) : k.name ∈ b.names := by
  obtain ⟨m, hm⟩ := exists_mem_of_ne_nil _ k.motions_ne
  exact mem_flatMap.mpr ⟨k, h, mem_flatMap.mpr ⟨m, hm, mem_cons_self⟩⟩

theorem codes_nodup (b : BankContent) : (b.banks.map fun k => codeOf k.name).Nodup := by
  have hinj : ∀ s ∈ b.banks.map MotionBank.name, ∀ s' ∈ b.banks.map MotionBank.name,
      codeOf s = codeOf s' → s = s' := by
    refine b.codes_differ.mono fun s hs => ?_
    obtain ⟨k, hk, rfl⟩ := mem_map.mp hs
    exact name_mem hk
  have hcodes := b.banks_nodup.map_on hinj
  rwa [map_map] at hcodes

theorem sum_motions (b : BankContent) (f : Motion → Nat) :
    (b.motions.map fun m => f m.2).sum = (b.banks.map fun k => (k.motions.map f).sum).sum := by
  unfold motions
  rw [map_flatMap]
  simp [flatMap, sum_flatten, Function.comp_def]

theorem names_ascii (b : BankContent) : ∀ s ∈ b.names, IsAscii s := by
  intro s hs
  obtain ⟨k, -, hs⟩ := mem_flatMap.mp hs
  obtain ⟨m, -, hs⟩ := mem_flatMap.mp hs
  rcases mem_cons.mp hs with rfl | hs
  · exact k.name_ascii
  · obtain ⟨p, -, hs⟩ := mem_flatMap.mp hs
    obtain ⟨e, -, hs⟩ := mem_flatMap.mp hs
    rcases mem_pair.mp hs with rfl | rfl
    · exact e.name_ascii
    · exact e.layer_ascii

theorem table_ascii (b : BankContent) : ∀ e ∈ b.table, IsAscii e.2 := by
  intro e he
  obtain ⟨s, hs, rfl⟩ := mem_map.mp he
  exact b.names_ascii s (mem_eraseDups.mp hs)

theorem mem_table {s : String} (h : s ∈ b.names) : (codeOf s, s) ∈ b.table :=
  mem_map.mpr ⟨s, mem_eraseDups.mpr h, rfl⟩

theorem knows_table (b : BankContent) : b.table.Knows b.names := fun _ hs =>
  name?_ofNames b.codes_differ hs

theorem writes_body {es : List (Datum × Datum)} (h : Forall₂ MotionBank.Describes es b.banks) :
    Writes .empty (do es.forM bank; nameTable) ((∀ m ∈ b.motions, m.2.Fits) ∧
      b.table.length < 2 ^ 32 ∧ ∀ e ∈ b.table, e.2.length < 2 ^ 31) ()
      ⟨b.body, b.names, b.tally⟩ := by
  have hrows : Writes .empty (es.forM bank) (∀ k ∈ b.banks, ∀ m ∈ k.motions, m.Fits) ()
      (.join (b.banks.map MotionBank.output)) :=
    writes_forM_any (R := MotionBank.Describes) (fun _ _ hk d => MotionBank.writes hk d) h
  have hsteps := hrows.seq fun d hd => by
    have hnames : d.names = b.table := by
      rw [hd, Output.join_map]
      exact learn_eq b.codes_differ
    have htable := writes_nameTable (d := d) (hnames ▸ b.table_ascii)
    rwa [hnames] at htable
  refine hsteps.congr (and_congr forall_motions.symm Iff.rfl) ?_
  rw [Output.join_map, tally, b.sum_motions fun m => m.frames.length, b.sum_motions Motion.drawn]
  simp [Output.append_eq, Output.ofBytes, MotionBank.output, body, motions, names,
    flatMap_assoc, flatMap_map]

theorem fits_iff : b.Fits ↔ ((∀ m ∈ b.motions, m.2.Fits) ∧
    b.table.length < 2 ^ 32 ∧ ∀ e ∈ b.table, e.2.length < 2 ^ 31) ∧ b.tally.animations < 2 ^ 32 ∧
      b.tally.frames < 2 ^ 32 ∧ b.tally.symbols < 2 ^ 32 := by
  have hlines : b.table.length = b.names.eraseDups.length := length_map _
  constructor
  · intro h
    refine ⟨⟨fun m hm => ⟨h.stem m hm, ?_, fun p hp => ?_⟩, hlines ▸ h.names, ?_⟩, h.animations,
      h.frames, h.symbols⟩
    · have hframes : m.2.frames.length ≤ b.tally.frames :=
        le_sum_of_mem (mem_map.mpr ⟨m, hm, rfl⟩)
      exact hframes.trans_lt h.frames
    · have hdrawn : p.elements.length ≤ m.2.drawn :=
        le_sum_of_mem (mem_map.mpr ⟨p, hp, rfl⟩)
      have hsymbols : m.2.drawn ≤ b.tally.symbols :=
        le_sum_of_mem (mem_map.mpr ⟨m, hm, rfl⟩)
      exact (hdrawn.trans hsymbols).trans_lt h.symbols
    · intro e he
      obtain ⟨s, hs, rfl⟩ := mem_map.mp he
      exact h.name s (mem_eraseDups.mp hs)
  · rintro ⟨⟨hm, ht, he⟩, ha, hf, hs⟩
    exact ⟨ha, hf, hs, hlines ▸ ht, fun s hs => he (codeOf s, s) (mem_table hs),
      fun m hm' => (hm m hm').1⟩

def bytes (b : BankContent) : Bytes := Writing.bankHead b.tally ++ b.body

theorem bankFile_eq {data : Datum} (h : b.Describes data) :
    (b.Fits → ∃ d, bankFile data .empty = .ok () d ∧ d.bytes = b.bytes) ∧
      (¬ b.Fits → ∃ d, bankFile data .empty = .error .field d) := by
  obtain ⟨es, hes, hbanks⟩ := h
  have hentries : (do entriesOf (← named data "banks")) = (.ok es : Result Members) := by
    rw [hes]
    rfl
  have hbody := writes_body hbanks
  unfold bankFile
  rw [hentries, lift_ok_bind, ← bind_assoc, fits_iff]
  by_cases hrows : (∀ m ∈ b.motions, m.2.Fits) ∧ b.table.length < 2 ^ 32 ∧
      ∀ e ∈ b.table, e.2.length < 2 ^ 31
  · obtain ⟨d, hd, hext⟩ := hbody.done hrows
    have htally : d.tally = b.tally := by
      rw [hext.tally]
      simp [Draft.empty]
    have hbytes : d.bytes = b.body := hext.bytes
    rw [bind_of_ok hd]
    by_cases htotals : b.tally.animations < 2 ^ 32 ∧ b.tally.frames < 2 ^ 32 ∧
        b.tally.symbols < 2 ^ 32
    · refine ⟨fun _ => ⟨{ d with pieces := d.pieces ++ [bankHead d.tally] }, ?_, ?_⟩,
        fun hno => absurd ⟨hrows, htotals⟩ hno⟩
      · change (ite _ _ _ : Writing Unit) d = _
        rw [if_pos (htally ▸ htotals)]
        rfl
      · change (d.pieces ++ [bankHead d.tally]).reverse.flatten = _
        rw [reverse_append, flatten_append, htally, bytes, ← hbytes]
        simp [Draft.bytes]
    · refine ⟨fun hfits => absurd hfits.2 htotals, fun _ => ⟨d, ?_⟩⟩
      change (ite _ _ _ : Writing Unit) d = _
      rw [if_neg (htally ▸ htotals)]
      rfl
  · obtain ⟨d, hd⟩ := hbody.stops hrows
    rw [bind_of_error hd]
    exact ⟨fun hfits => absurd hfits.1 hrows, fun _ => ⟨d, rfl⟩⟩

theorem reads_bankFile (h : b.Fits) :
    readBankFile b.bytes = (banksData (b.table.foldl (fun bs e => relabel bs e.1 e.2)
      (groupBanks (b.motions.map fun m => m.2.toAnimation Drawn.resolved m.1))), none) := by
  obtain ⟨⟨hmotions, hlines, hline⟩, -⟩ := fits_iff.mp h
  have hcount : Reading.word (b.bytes.drop 20) = .ok (b.motions.length.toUInt32, b.body) :=
    reads_word _ _
  have hanimations := Motion.animations_eq hmotions (tableBytes b.table)
  have htable : Reading.word (tableBytes b.table) =
      .ok (b.table.length.toUInt32, b.table.flatMap entryBytes) := reads_word _ _
  have hnames := several_nameEntry b.table_ascii hline []
  rw [append_nil] at hnames
  have hknown : b.table.foldl (fun t e => NameTable.put t e.1 e.2) [] = b.table :=
    foldl_put_eq (nodup_codes b.codes_differ)
  have hresolve : ∀ m ∈ b.motions, (m.2.toAnimation Drawn.raw m.1).resolve b.table =
      (m.2.toAnimation Drawn.resolved m.1, none) := fun m hm =>
    Motion.resolve_raw fun s hs => b.knows_table s (names_subset hm hs)
  have hlength : b.motions.length < 2 ^ 32 := h.animations
  unfold readBankFile
  simp only [hcount, toNat_toUInt32 hlength, body, hanimations, htable, toNat_toUInt32 hlines,
    hnames, hknown, resolveAll_eq hresolve]

theorem groupBanks_eq (b : BankContent) :
    groupBanks (b.motions.map fun m => m.2.toAnimation Drawn.resolved m.1) =
      coded (b.banks.map fun k => (codeOf k.name, k.group)) := by
  have hmotions : (b.motions.map fun m => m.2.toAnimation Drawn.resolved m.1) =
      b.banks.flatMap MotionBank.animations := by
    unfold motions
    rw [map_flatMap]
    exact flatMap_congr fun k _ => map_map
  rw [hmotions, MotionBank.groupBanks_eq b.codes_nodup]

/-- **Banks that are read stand under their names, in the order of the table.** -/
theorem foldl_relabel_perm (b : BankContent) (value : MotionBank → α) :
    ∃ es, b.table.foldl (fun bs e => relabel bs e.1 e.2)
        (coded (b.banks.map fun k => (codeOf k.name, value k))) = titled es ∧
      es.Perm (b.banks.map fun k => (k.name, value k)) := by
  let es := b.banks.map fun k => (codeOf k.name, value k)
  have hkeys : (es.map (·.1)).Nodup := by
    rw [map_map]
    exact b.codes_nodup
  have hcodes : (b.table.map (·.1)).Nodup := nodup_codes b.codes_differ
  have hnames : (b.table.map (·.2)).Nodup := by
    rw [table, NameTable.ofNames, map_map]
    exact (map_id _).symm ▸ nodup_eraseDups b.names
  -- the table has lines for all names, and those of drawn symbols and layers find no bank
  have hmem : ∀ s v, (s, v) ∈ b.table.filterMap (entryOf es) ↔
      ∃ k ∈ b.banks, k.name = s ∧ value k = v := by
    intro s v
    rw [mem_filterMap]
    constructor
    · rintro ⟨e, he, hentry⟩
      obtain ⟨s', hs', rfl⟩ := mem_map.mp he
      obtain ⟨v', hv', heq⟩ := Option.map_eq_some_iff.mp hentry
      obtain ⟨rfl, rfl⟩ := Prod.mk.inj heq
      obtain ⟨k, hk, hk'⟩ := mem_map.mp (Places.mem_of_lookup_eq_some hv')
      obtain ⟨hcode, rfl⟩ := Prod.mk.inj hk'
      exact ⟨k, hk, b.codes_differ _ (name_mem hk) _ (mem_eraseDups.mp hs') hcode, rfl⟩
    · rintro ⟨k, hk, rfl, rfl⟩
      refine ⟨(codeOf k.name, k.name), mem_table (name_mem hk), ?_⟩
      have hlookup : es.lookup (codeOf k.name) = some (value k) :=
        lookup_of_mem (p := (codeOf k.name, value k)) hkeys (mem_map.mpr ⟨k, hk, rfl⟩)
      rw [entryOf, hlookup]
      rfl
  refine ⟨_, foldl_relabel_eq hcodes hnames ?_, ?_⟩
  · intro e he
    obtain ⟨k, hk, rfl⟩ := mem_map.mp he
    exact mem_map.mpr ⟨_, mem_table (name_mem hk), rfl⟩
  · refine (perm_ext_iff_of_nodup ((entryOf_sublist es _).nodup hnames).of_map ?_).mpr ?_
    · refine List.Nodup.of_map (·.1) ?_
      rw [map_map]
      exact b.banks_nodup
    · rintro ⟨s, v⟩
      rw [hmem]
      simp

theorem readBankFile_eq (h : b.Fits) : ∃ es,
    readBankFile b.bytes = ([(.str "banks", .dict es)], none) ∧
      es.Perm (b.banks.map MotionBank.toEntry) := by
  obtain ⟨ns, hns, hperm⟩ := b.foldl_relabel_perm MotionBank.group
  let entry (e : String × List (Label × Datum)) : Datum × Datum :=
    (.str e.1, .dict (labelEntries e.2))
  have hentry : ∀ k ∈ b.banks, entry (k.name, k.group) = k.toEntry := by
    intro k hk
    have hgroup : labelEntries k.group = k.motions.map fun m => (.str m.name, m.toDatum) := by
      unfold labelEntries MotionBank.group titled MotionBank.animations
      rw [map_map, map_map, map_map]
      refine map_congr_left fun m hm => ?_
      have hfits := forall_motions.mp (fits_iff.mp h).1.1 k hk m hm
      simp only [Function.comp_apply, Motion.toDatum_toAnimation hfits.2.1]
      rfl
    simp only [entry, hgroup, MotionBank.toEntry]
  refine ⟨ns.map entry, ?_, ?_⟩
  · rw [reads_bankFile h, groupBanks_eq, hns, banksData, labelEntries, titled, map_map, map_map]
    rfl
  · exact (hperm.map entry).trans (.of_eq (map_map.trans (map_congr_left hentry)))

end BankContent

namespace Bank

variable {b : Bank} {d : Draft}

theorem write_of_ok (hdata : b.data ≠ []) (h : bankFile (.dict b.data) .empty = .ok () d) :
    b.write = ({ b with content := some d.bytes }, none) := by
  unfold write
  rw [if_neg (mt List.isEmpty_iff.mp hdata), h]

theorem write_of_error {e : Fault} (hdata : b.data ≠ [])
    (h : bankFile (.dict b.data) .empty = .error e d) :
    b.write = ({ b with content := some d.bytes }, some e) := by
  unfold write
  rw [if_neg (mt List.isEmpty_iff.mp hdata), h]

theorem read_ofBytes {bs : Bytes} (hbs : bs ≠ []) : (ofBytes bs).read =
    ({ ofBytes bs with data := (readBankFile bs).1 }, (readBankFile bs).2) := by
  obtain ⟨x, xs, rfl⟩ := exists_cons_of_ne_nil hbs
  rfl

end Bank

/-- **A bank that is written and read back.** Data that describe the content of a bank file are
written if and only if counts and texts fit their fields. What is written is read as the same banks,
in some order, with the same animations in them: the same rates and frames, and in each frame the
drawn symbols sorted by their numbers, numbered from zero, with names in small letters. -/
theorem bank_round_trip {b : BankContent} {data : Members} (h : b.Describes (.dict data)) :
    (b.Fits → ∃ bs es,
      (Bank.ofData data).write = ({ Bank.ofData data with content := some bs }, none) ∧
      (Bank.ofBytes bs).read = ({ Bank.ofBytes bs with data := [(.str "banks", .dict es)] }, none) ∧
      es.Perm (b.banks.map MotionBank.toEntry)) ∧
    (¬ b.Fits → ∃ b', (Bank.ofData data).write = (b', some .field)) := by
  have hdata : data ≠ [] := by
    rintro rfl
    obtain ⟨es, hes, -⟩ := h
    exact absurd hes (by simp [named, memberAt, Datum.lookup])
  obtain ⟨hok, herror⟩ := BankContent.bankFile_eq h
  constructor
  · intro hfits
    obtain ⟨d, hd, hbytes⟩ := hok hfits
    obtain ⟨es, hes, hperm⟩ := BankContent.readBankFile_eq hfits
    refine ⟨b.bytes, es, ?_, ?_, hperm⟩
    · rw [Bank.write_of_ok hdata hd, hbytes]
    · have hbs : b.bytes ≠ [] := List.cons_ne_nil _ _
      rw [Bank.read_ofBytes hbs, hes]
  · intro hfits
    obtain ⟨d, hd⟩ := herror hfits
    exact ⟨_, Bank.write_of_error hdata hd⟩

def arm : Drawn where
  name := "Arm"
  frame := 3
  layer := "front"
  a := 0x3F800000
  b := 0
  c := 0x80000000
  d := 0x3F800000
  tx := 0xC0200000
  ty := 0x3F000000
  z := .int 1
  name_ascii := by decide +kernel
  layer_ascii := by decide +kernel
  z_ordered := trivial

def hat : Drawn := { arm with name := "Hat", z := .float 0.5, name_ascii := by decide +kernel,
                              z_ordered := by decide +kernel }

def greeting : Still := ⟨0x3F000000, 0, 0x40400000, 0x3F800000, [arm, hat]⟩

def wardrobe : BankContent where
  banks := [
    ⟨"Wilson", [⟨"wave_upleft", 30, [greeting], by decide +kernel, by decide +kernel,
      Single.isWhole_of_natAbs_le (by decide)⟩], by decide +kernel, by simp, by decide +kernel⟩,
    ⟨"spare", [⟨"idle_side", -16777216, [], by decide +kernel, by decide +kernel,
      Single.isWhole_of_natAbs_le (by decide)⟩], by decide +kernel, by simp, by decide +kernel⟩,
    ⟨"Hat", [⟨"_45s", 0, [], by decide +kernel, by decide +kernel,
      Single.isWhole_of_natAbs_le (by decide)⟩], by decide +kernel, by simp, by decide +kernel⟩]
  banks_nodup := by decide +kernel
  codes_differ := by decide +kernel

def drawnData (name : String) (z : Datum) : Datum :=
  .dict [(.str "z_index", z), (.str "name", .str name), (.str "frame", .int 3),
    (.str "layername", .str "front"), (.str "m_a", .int 1), (.str "m_b", .int 0),
    (.str "m_c", .float (-0.0)), (.str "m_d", .float 1.0), (.str "m_tx", .float (-2.5)),
    (.str "m_ty", .float 0.5)]

def greetingData : Datum :=
  .dict [(.str "elements", .list [drawnData "Arm" (.int 1), drawnData "Hat" (.float 0.5)]),
    (.str "x", .float 0.5), (.str "y", .int 0), (.str "w", .int 3), (.str "h", .float 1.0)]

def motionData (rate : Int) (frames : List Datum) : Datum :=
  .dict [(.str "framerate", .int rate), (.str "frames", .list frames)]

def wardrobeData : Members :=
  [(.str "banks", .dict [
    (.str "Wilson", .dict [(.str "wave_upleft", motionData 30 [greetingData])]),
    (.str "spare", .dict [(.str "idle_side", motionData (-16777216) [])]),
    (.str "Hat", .dict [(.str "_45s", motionData 0 [])])])]

theorem bank_round_trip_wardrobe : wardrobe.Describes (.dict wardrobeData) ∧ wardrobe.Fits ∧
    ∃ bs es,
      (Bank.ofData wardrobeData).write =
        ({ Bank.ofData wardrobeData with content := some bs }, none) ∧
      (Bank.ofBytes bs).read = ({ Bank.ofBytes bs with data := [(.str "banks", .dict es)] }, none) ∧
      es.Perm (wardrobe.banks.map MotionBank.toEntry) := by
  have htransform : ∀ name z, HasSingles (drawnData name z) transformNames arm.transform :=
    fun name z => .cons ⟨_, rfl, isSingle_int (by decide) (by decide +kernel)⟩ <|
      .cons ⟨_, rfl, isSingle_int (by decide) (by decide +kernel)⟩ <|
      .cons ⟨_, rfl, isSingle_float (by decide +kernel)⟩ <|
      .cons ⟨_, rfl, isSingle_float (by decide +kernel)⟩ <|
      .cons ⟨_, rfl, isSingle_float (by decide +kernel)⟩ <|
      .cons ⟨_, rfl, isSingle_float (by decide +kernel)⟩ .nil
  have harm : Drawn.Describes (drawnData "Arm" (.int 1)) arm :=
    ⟨rfl, rfl, rfl, htransform _ _, _, rfl, rfl⟩
  have hhat : Drawn.Describes (drawnData "Hat" (.float 0.5)) hat :=
    ⟨rfl, rfl, rfl, htransform _ _, _, rfl, rfl⟩
  have hgreeting : Still.Describes greetingData greeting :=
    ⟨.cons ⟨_, rfl, isSingle_float (by decide +kernel)⟩ <|
      .cons ⟨_, rfl, isSingle_int (by decide) (by decide +kernel)⟩ <|
      .cons ⟨_, rfl, isSingle_int (by decide) (by decide +kernel)⟩ <|
      .cons ⟨_, rfl, isSingle_float (by decide +kernel)⟩ .nil, _, rfl, .cons harm (.cons hhat .nil)⟩
  have hdescribes : wardrobe.Describes (.dict wardrobeData) :=
    ⟨_, rfl, .cons ⟨_, rfl, .cons ⟨_, _, rfl, rfl, rfl, .cons hgreeting .nil⟩ .nil⟩ <|
      .cons ⟨_, rfl, .cons ⟨_, _, rfl, rfl, rfl, .nil⟩ .nil⟩ <|
      .cons ⟨_, rfl, .cons ⟨_, _, rfl, rfl, rfl, .nil⟩ .nil⟩ .nil⟩
  have hfits : wardrobe.Fits := by
    constructor <;> decide +kernel
  obtain ⟨bs, es, hwrite, hread, hperm⟩ := (bank_round_trip hdescribes).1 hfits
  exact ⟨hdescribes, hfits, bs, es, hwrite, hread, hperm⟩

end WikiFeed.Sprite

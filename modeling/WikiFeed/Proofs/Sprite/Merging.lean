import WikiFeed.Proofs.Overlays
import WikiFeed.Proofs.Rows
import WikiFeed.Proofs.Sprite.Members
import WikiFeed.Proofs.Sprite.Saving
import WikiFeed.Proofs.Sprite.Sorting

/-! # Merging builds and banks

A merge lays the entries of one table over those of another. For the animations of a bank the later
one is taken; for the symbols of a build the frames are merged in turn, by their numbers, and sorted
where both have the symbol. Laying over is associative, keys in the order of their first entry
included, so merging is (`merge_assoc`).

A scale is a number that can be compared; the scale of a merge is the lesser one. -/

namespace WikiFeed.Sprite

open List
open Outcome (ok_bind bind_of_eq_ok)
open Places

/-! ### Frames of a symbol -/

abbrev Frames := List (Int × Datum)

/-- The frames have the numbers under which they stand, all different. -/
structure Frames.Numbered (fs : Frames) : Prop where
  distinct : Distinct fs
  number : ∀ f ∈ fs, named f.2 "framenum" = .ok (.int f.1)

def later {α : Type} (_ y : α) : α := y

theorem lay_later {κ α : Type} [BEq κ] (own : List (κ × α)) (e : κ × α) :
    lay later own e = put own e.1 e.2 := by
  unfold lay
  split <;> rfl

def InOrder (p q : Int × Datum) : Prop := (Number.int p.1).value ≤ (Number.int q.1).value

instance : DecidableRel InOrder := fun _ _ => inferInstanceAs (Decidable (_ ≤ _))

theorem inOrder_iff {p q : Int × Datum} : InOrder p q ↔ p.1 ≤ q.1 := by
  change Decimal.ofRat p.1 ≤ Decimal.ofRat q.1 ↔ _
  rw [Decimal.ofRat_strictMono.le_iff_le, Int.cast_le]

def Frames.merged (own other : Frames) : Frames := (overlay later own other).insertionSort InOrder

theorem lookup_insertionSort {fs : Frames} (h : Distinct fs) (n : Int) :
    (fs.insertionSort InOrder).lookup n = fs.lookup n :=
  (lookup_eq_of_perm h (perm_insertionSort InOrder fs).symm n).symm

theorem distinct_insertionSort {fs : Frames} (h : Distinct fs) :
    Distinct (fs.insertionSort InOrder) :=
  ((perm_insertionSort InOrder fs).map _).nodup_iff.mpr h

theorem insertionSort_eq {fs gs : Frames} (hf : Distinct fs) (hg : Distinct gs)
    (h : ∀ n, fs.lookup n = gs.lookup n) : fs.insertionSort InOrder = gs.insertionSort InOrder := by
  have : Std.Total InOrder := ⟨fun p q => by rw [inOrder_iff, inOrder_iff]; omega⟩
  have : IsTrans _ InOrder := ⟨fun p q r => by rw [inOrder_iff, inOrder_iff, inOrder_iff]; omega⟩
  have hmem (p : Int × Datum) : p ∈ fs ↔ p ∈ gs := by
    rw [mem_iff_lookup hf, mem_iff_lookup hg, h]
  have hperm := (perm_ext_iff_of_nodup (.of_map _ hf) (.of_map _ hg)).mpr hmem
  have hsorted := (perm_insertionSort InOrder fs).trans
    (hperm.trans (perm_insertionSort InOrder gs).symm)
  refine hsorted.eq_of_pairwise (fun p q hp hq hpq hqp => ?_)
    (pairwise_insertionSort InOrder fs) (pairwise_insertionSort InOrder gs)
  rw [inOrder_iff] at hpq hqp
  have hnumber : p.1 = q.1 := Int.le_antisymm hpq hqp
  rw [mem_iff_lookup (distinct_insertionSort hf), lookup_insertionSort hf] at hp
  rw [mem_iff_lookup (distinct_insertionSort hg), lookup_insertionSort hg, ← h, ← hnumber, hp] at hq
  exact Prod.ext hnumber (Option.some.inj hq)

section Merged

variable {own other third : Frames}

theorem Frames.distinct_merged (h : Distinct own) : Distinct (own.merged other) :=
  distinct_insertionSort h.overlay

theorem Frames.lookup_merged (h : Distinct own) (ho : Distinct other) (n : Int) :
    (own.merged other).lookup n = joined later (own.lookup n) (other.lookup n) := by
  rw [merged, lookup_insertionSort h.overlay, lookup_overlay ho]

/-- **Merging frames is associative**: in both orders the latest frame of each number stands in the
order of numbers. -/
theorem Frames.merged_assoc (h : Distinct own) (ho : Distinct other) (ht : Distinct third) :
    (own.merged other).merged third = own.merged (other.merged third) := by
  refine insertionSort_eq (distinct_merged h).overlay h.overlay fun n => ?_
  rw [lookup_overlay ht, lookup_merged h ho, lookup_overlay (distinct_merged ho),
    lookup_merged ho ht]
  exact joined_assoc fun _ _ _ _ _ _ => rfl

theorem Frames.Numbered.overlay (h : own.Numbered) (ho : other.Numbered) :
    Frames.Numbered (overlay later own other) :=
  ⟨h.distinct.overlay, forall_overlay (fun _ _ _ _ hy => hy) h.number ho.number⟩

theorem Frames.Numbered.merged (h : own.Numbered) (ho : other.Numbered) :
    (own.merged other).Numbered :=
  ⟨distinct_merged h.distinct, fun f hf =>
    (h.overlay ho).number f ((perm_insertionSort InOrder _).mem_iff.mp hf)⟩

end Merged

/-! ### How frames are merged -/

namespace Building

def placesFrom : Nat → Frames → List (Int × Datum)
  | _, [] => []
  | i, f :: fs => (f.1, .int i) :: placesFrom (i + 1) fs

theorem keys_placesFrom : ∀ (i : Nat) (fs : Frames),
    (placesFrom i fs).map (·.1) = fs.map (·.1)
  | _, [] => rfl
  | i, f :: fs => congrArg (f.1 :: ·) (keys_placesFrom (i + 1) fs)

theorem lookup_placesFrom (n : Int) : ∀ (i : Nat) (fs : Frames),
    (placesFrom i fs).lookup n = ((fs.map (·.1)).idxOf? n).map fun j => .int (i + j : Nat)
  | _, [] => rfl
  | i, f :: fs => by
    rw [placesFrom, lookup_cons, map_cons, idxOf?_cons]
    by_cases h : n = f.1
    · simp [h]
    · rw [beq_eq_false_iff_ne.mpr h, beq_eq_false_iff_ne.mpr (Ne.symm h), lookup_placesFrom n]
      simp [Function.comp_def, Nat.add_assoc, Nat.add_comm 1]

theorem forall₂_placesFrom : ∀ {fs : Frames} (i : Nat),
    (∀ f ∈ fs, named f.2 "framenum" = .ok (.int f.1)) →
    Forall₂ (fun f p => ∀ ms, (do
        return Datum.put ms (← named f.1 "framenum") (.int f.2) : Result Members) =
      .ok (Datum.put ms (.int p.1) p.2)) ((fs.map (·.2)).zipIdx i) (placesFrom i fs)
  | [], _, _ => .nil
  | f :: fs, i, h => by
    obtain ⟨hf, hfs⟩ := forall_mem_cons.mp h
    exact .cons (fun ms => by rw [hf]; rfl) (forall₂_placesFrom (i + 1) hfs)

theorem framePlaces_eq {fs : Frames} (h : fs.Numbered) :
    framePlaces (fs.map (·.2)) = .ok (keyed .int (placesFrom 0 fs)) :=
  foldlM_put_keyed keying_int (by rw [keys_placesFrom]; exact h.distinct)
    (forall₂_placesFrom 0 h.number)

theorem map_snd_put {n : Int} (x : Datum) : ∀ {fs : Frames} {i : Nat}, Distinct fs →
    (fs.map (·.1)).idxOf? n = some i → (Places.put fs n x).map (·.2) = (fs.map (·.2)).set i x
  | [], i, _, hi => by cases hi
  | f :: fs, i, h, hi => by
    obtain ⟨hnew, hfs⟩ := h.of_cons
    rw [map_cons, idxOf?_cons] at hi
    by_cases hf : f.1 = n
    · rw [beq_iff_eq.mpr hf] at hi
      cases hi
      have hrest : fs.map (fun p => if p.1 == n then (p.1, x) else p) = fs := by
        refine (map_congr_left fun p hp => if_neg fun heq => ?_).trans (map_id fs)
        exact hnew (hf.trans (beq_iff_eq.mp heq).symm ▸ mem_map_of_mem hp)
      rw [Places.put_of_mem (by simp [hf]), map_cons, hrest]
      simp [hf]
    · rw [beq_eq_false_iff_ne.mpr hf] at hi
      obtain ⟨j, hj, rfl⟩ := Option.map_eq_some_iff.mp hi
      rw [Places.put_cons_of_ne hf, map_cons, map_snd_put x hfs hj]
      rfl

theorem mergeFrame_eq (symbol : Datum) {own now : Frames} {more : List Int} (hnow : Distinct now)
    (hkeys : now.map (·.1) = own.map (·.1) ++ more) {f : Int × Datum} (hf : f.1 ∉ more)
    (hnumber : named f.2 "framenum" = .ok (.int f.1)) :
    ∃ notes, mergeFrame symbol (keyed .int (placesFrom 0 own)) (now.map (·.2)) f.2 =
      .ok ((lay later now f).map (·.2), notes) := by
  unfold mergeFrame
  rw [hnumber, ok_bind, lookup_keyed keying_int, lookup_placesFrom, lay_later]
  cases hplace : (own.map (·.1)).idxOf? f.1 with
  | none =>
    have hnew : f.1 ∉ now.map (·.1) := by
      rw [hkeys, mem_append, not_or]
      exact ⟨idxOf?_eq_none_iff.mp hplace, hf⟩
    refine ⟨[], ?_⟩
    rw [Places.put_of_not_mem hnew, map_append]
    rfl
  | some i =>
    have hplace' : (now.map (·.1)).idxOf? f.1 = some i := by
      rw [idxOf?] at hplace ⊢
      rw [hkeys, findIdx?_append, hplace]
      rfl
    refine ⟨["symbol over: " ++ display symbol ++ "-" ++ display (.int f.1) ++ "\n"], ?_⟩
    simp only [Option.map_some, Nat.zero_add, map_snd_put f.2 hnow hplace']
    rfl

theorem mergeEach_eq (symbol : Datum) {own : Frames} : ∀ {other now : Frames} {more : List Int},
    other.Numbered → Distinct now → now.map (·.1) = own.map (·.1) ++ more →
    (∀ f ∈ other, f.1 ∉ more) →
    ∃ notes, mergeEach symbol (keyed .int (placesFrom 0 own)) (now.map (·.2)) (other.map (·.2)) =
      (((overlay later now other).map (·.2), notes), none)
  | [], now, _, _, _, _, _ => ⟨[], rfl⟩
  | f :: other, now, more, hother, hnow, hkeys, hmore => by
    obtain ⟨notes, hstep⟩ := mergeFrame_eq symbol hnow hkeys (hmore f mem_cons_self)
      (hother.number f mem_cons_self)
    obtain ⟨hnew, hrest⟩ := hother.distinct.of_cons
    have hkeys' : ∃ more', (lay later now f).map (·.1) = own.map (·.1) ++ more' ∧
        ∀ g ∈ other, g.1 ∉ more' := by
      have hmore' : ∀ g ∈ other, g.1 ∉ more := fun g hg => hmore g (mem_cons_of_mem _ hg)
      rw [keys_lay, withKey, hkeys]
      split
      · exact ⟨more, rfl, hmore'⟩
      · refine ⟨more ++ [f.1], append_assoc _ _ _, fun g hg hmem => ?_⟩
        rcases mem_append.mp hmem with hmem | hmem
        · exact hmore' g hg hmem
        · exact hnew (mem_singleton.mp hmem ▸ mem_map_of_mem hg)
    obtain ⟨more', hkeys', hmore'⟩ := hkeys'
    obtain ⟨notes', hrun⟩ := mergeEach_eq symbol
      ⟨hrest, fun g hg => hother.number g (mem_cons_of_mem _ hg)⟩ (hnow.lay f) hkeys' hmore'
    refine ⟨notes ++ notes', ?_⟩
    rw [map_cons, mergeEach, hstep]
    dsimp only
    rw [hrun]
    rfl

theorem mergeFrames_eq (symbol : Datum) {own other : Frames} (h : own.Numbered)
    (ho : other.Numbered) :
    ∃ notes, mergeFrames symbol (own.map (·.2)) (other.map (·.2)) =
      (((own.merged other).map (·.2), notes), none) := by
  obtain ⟨notes, hrun⟩ := mergeEach_eq symbol ho h.distinct (append_nil _).symm
    fun _ _ => not_mem_nil
  let R (d : Datum) (f : Int × Datum) : Prop := d = f.2 ∧ named f.2 "framenum" = .ok (.int f.1)
  have hframes : Forall₂ R ((overlay later own other).map (·.2)) (overlay later own other) :=
    forall₂_map_left_iff.mpr
      (forall₂_same.mpr fun f hf => ⟨rfl, (h.overlay ho).number f hf⟩)
  have hkey : ∀ d f, R d f →
      ∃ v, named d "framenum" = .ok v ∧ numberOf? v = some (Number.int f.1) :=
    fun d f hd => ⟨_, hd.1 ▸ hd.2, rfl⟩
  have hnumbers : ∀ f : Int × Datum, (Number.int f.1).Ordered := fun _ => trivial
  obtain ⟨sorted, hsort, hsorted⟩ := exists_sortByKey_eq hnumbers hkey hframes
  refine ⟨notes, ?_⟩
  unfold mergeFrames
  rw [framePlaces_eq h]
  dsimp only
  rw [hrun]
  dsimp only
  rw [hsort]
  rw [show sorted = (own.merged other).map (·.2) from ?_]
  have := Rows.map_eq_of_forall₂ (f := id) (g := (·.2)) (fun d f hd => hd.1) hsorted
  rwa [map_id] at this

end Building

/-! ### Scales -/

def IsScale (d : Datum) : Prop := ∃ z, numberOf? d = some z ∧ z.Ordered

def lesser (s t : Datum) : Datum :=
  match numberOf? s, numberOf? t with
  | some x, some y => if y.less x then t else s
  | _, _ => s

theorem lesser_eq {s t : Datum} {x y : Number} (hs : numberOf? s = some x)
    (ht : numberOf? t = some y) : lesser s t = if y.less x then t else s := by
  rw [lesser, hs, ht]

theorem least_eq_lesser {s t : Datum} (hs : IsScale s) (ht : IsScale t) :
    least [s, t] = .ok (lesser s t) := by
  obtain ⟨x, hx, -⟩ := hs
  obtain ⟨y, hy, -⟩ := ht
  rw [least, foldlM_cons, below_eq hy hx, ok_bind, lesser_eq hx hy]
  rfl

theorem IsScale.lesser {s t : Datum} (hs : IsScale s) (ht : IsScale t) : IsScale (lesser s t) := by
  obtain ⟨x, hx, -⟩ := id hs
  obtain ⟨y, hy, -⟩ := id ht
  rw [lesser_eq hx hy]
  split <;> assumption

theorem lesser_assoc {s t u : Datum} (hs : IsScale s) (ht : IsScale t) (hu : IsScale u) :
    lesser (lesser s t) u = lesser s (lesser t u) := by
  obtain ⟨x, hx, hxo⟩ := hs
  obtain ⟨y, hy, hyo⟩ := ht
  obtain ⟨z, hz, hzo⟩ := hu
  rw [lesser_eq hx hy, lesser_eq hy hz]
  have hyx := Number.less_iff hyo hxo
  have hzy := Number.less_iff hzo hyo
  have hzx := Number.less_iff hzo hxo
  by_cases h1 : y.less x = true <;> by_cases h2 : z.less y = true
  · rw [if_pos h1, if_pos h2, lesser_eq hy hz, lesser_eq hx hz, if_pos h2,
      if_pos (hzx.mpr ((hzy.mp h2).trans (hyx.mp h1)))]
  · rw [if_pos h1, if_neg h2, lesser_eq hy hz, lesser_eq hx hy, if_neg h2, if_pos h1]
  · rw [if_neg h1, if_pos h2, lesser_eq hx hz]
  · rw [if_neg h1, if_neg h2, lesser_eq hx hz, lesser_eq hx hy, if_neg h1, if_neg]
    rw [hzx]
    rw [hzy] at h2
    rw [hyx] at h1
    exact not_lt.mpr ((not_lt.mp h1).trans (not_lt.mp h2))

/-! ### Builds -/

theorem keying_label : Keying Label.toDatum where
  same j k := by
    cases j with
    | code m => cases k with
      | code n =>
        rw [Label.toDatum, Label.toDatum, same_int, Bool.eq_iff_iff, beq_iff_eq, beq_iff_eq,
          Int.ofNat_inj, UInt32.toNat_inj, Label.code.injEq]
      | name t =>
        rfl
    | name s => cases k with
      | code n =>
        rfl
      | name t =>
        rw [Label.toDatum, Label.toDatum, same_str, Bool.eq_iff_iff, beq_iff_eq, beq_iff_eq,
          Label.name.injEq]

def Frames.toDatum (fs : Frames) : Datum := .list (fs.map (·.2))

abbrev Symbols := List (Label × Frames)

def Symbols.toMembers (ss : Symbols) : Members :=
  keyed Label.toDatum (ss.map fun s => (s.1, s.2.toDatum))

def withSymbols (ms : List (String × Datum)) (scale : Datum) (ss : Symbols) :
    List (String × Datum) :=
  Places.put (Places.put ms "scale" scale) "Symbol" (.dict ss.toMembers)

structure Build.Has (b : Build) (ms : List (String × Datum)) (scale : Datum) (ss : Symbols) :
    Prop where
  data : b.data = keyed .str ms
  members : Distinct ms
  scaled : ms.lookup "scale" = some scale
  symbols : ms.lookup "Symbol" = some (.dict ss.toMembers)
  ordered : IsScale scale
  labels : Distinct ss
  frames : ∀ s ∈ ss, s.2.Numbered

namespace Building

variable {b : Build} {ms : List (String × Datum)}

theorem lift_bind {α β : Type} {r : Result α} {a : α} (h : r = .ok a) (f : α → Building β)
    (s : Build × List String) : (lift r >>= f) s = f a s := by
  rw [h]
  rfl

theorem named_keyed {name : String} {d : Datum} (h : ms.lookup name = some d) :
    named (.dict (keyed .str ms)) name = .ok d :=
  named_of_lookup (by rw [lookup_keyed keying_str, h])

theorem member_bind (hdata : b.data = keyed .str ms) {name : String} {d : Datum}
    (h : ms.lookup name = some d) {β : Type} (f : Datum → Building β) (notes : List String) :
    (member name >>= f) (b, notes) = f d (b, notes) :=
  lift_bind (hdata ▸ named_keyed h) f (b, notes)

theorem put_eq_ok (hdata : b.data = keyed .str ms) (name : String) (d : Datum)
    (notes : List String) : put name d (b, notes) =
      .ok () ({ b with data := keyed .str (Places.put ms name d) }, notes) := by
  rw [← put_keyed keying_str, ← hdata]
  rfl

theorem forM_note (b : Build) : ∀ (more notes : List String),
    more.forM note (b, notes) = .ok () (b, notes ++ more)
  | [], notes => by
    rw [append_nil]
    rfl
  | line :: more, notes => by
    change (do note line; more.forM note : Building Unit) (b, notes) = _
    rw [bind_of_eq_ok (show note line (b, notes) = .ok () (b, notes ++ [line]) from rfl),
      forM_note b more, append_assoc, singleton_append]

theorem mergeSymbol_eq (hdata : b.data = keyed .str ms) {ss : Symbols}
    (hss : ms.lookup "Symbol" = some (.dict ss.toMembers)) (hframes : ∀ s ∈ ss, s.2.Numbered)
    {s : Label × Frames} (hs : s.2.Numbered) (notes : List String) :
    ∃ notes', mergeSymbol (s.1.toDatum, s.2.toDatum) (b, notes) =
      .ok () ({ b with data := keyed .str (Places.put ms "Symbol"
        (.dict (Symbols.toMembers (lay Frames.merged ss s)))) }, notes') := by
  have hput (fs : Frames) (notes : List String) :
      put "Symbol" (.dict (Datum.put ss.toMembers s.1.toDatum fs.toDatum)) (b, notes) =
        .ok () ({ b with data := keyed .str (Places.put ms "Symbol"
          (.dict (Symbols.toMembers (Places.put ss s.1 fs)))) }, notes) := by
    rw [Symbols.toMembers, put_keyed_map keying_label Frames.toDatum, put_eq_ok hdata]
    rfl
  unfold mergeSymbol
  rw [member_bind hdata hss, lift_bind (show entriesOf (.dict ss.toMembers) = .ok _ from rfl)]
  rw [show Datum.lookup ss.toMembers s.1.toDatum = _ from
    lookup_keyed_map keying_label Frames.toDatum ss s.1]
  unfold lay
  cases hown : ss.lookup s.1 with
  | none => exact ⟨notes, hput s.2 notes⟩
  | some own =>
    obtain ⟨more, hmerge⟩ := mergeFrames_eq s.1.toDatum
      (hframes (s.1, own) (Places.mem_of_lookup_eq_some hown)) hs
    refine ⟨notes ++ more, ?_⟩
    dsimp only [Option.map_some]
    rw [lift_bind (show itemsOf own.toDatum = .ok (own.map (·.2)) from rfl),
      lift_bind (show itemsOf s.2.toDatum = .ok (s.2.map (·.2)) from rfl), hmerge]
    rw [bind_of_eq_ok (forM_note b more notes)]
    exact bind_of_eq_ok (hput (own.merged s.2) (notes ++ more))

theorem forM_mergeSymbol : ∀ {others ss : Symbols} {b : Build} {ms : List (String × Datum)},
    b.data = keyed .str ms → Distinct ms → ms.lookup "Symbol" = some (.dict ss.toMembers) →
    (∀ s ∈ ss, s.2.Numbered) → (∀ s ∈ others, s.2.Numbered) → ∀ notes, ∃ notes',
      others.toMembers.forM mergeSymbol (b, notes) =
        .ok () ({ b with data := keyed .str (Places.put ms "Symbol"
          (.dict (Symbols.toMembers (overlay Frames.merged ss others)))) }, notes')
  | [], ss, b, ms, hdata, hms, hss, _, _, notes => by
    refine ⟨notes, ?_⟩
    rw [show overlay Frames.merged ss [] = ss from rfl, Places.put_of_lookup hms hss, ← hdata]
    rfl
  | s :: others, ss, b, ms, hdata, hms, hss, hnumbered, hothers, notes => by
    rw [forall_mem_cons] at hothers
    obtain ⟨notes₁, hstep⟩ := mergeSymbol_eq hdata hss hnumbered hothers.1 notes
    have hlaid : ∀ s' ∈ lay Frames.merged ss s, s'.2.Numbered :=
      Places.forall_lay (fun _ _ _ => .merged) hnumbered hothers.1
    obtain ⟨notes₂, hrun⟩ := forM_mergeSymbol (b := { b with data := _ }) rfl (hms.put _ _)
      (Places.lookup_put_self ms _ _) hlaid hothers.2 notes₁
    refine ⟨notes₂, ?_⟩
    rw [Places.put_put] at hrun
    exact (bind_of_eq_ok hstep).trans hrun

theorem forM_portray (f : String × Cutout → Cutout) : ∀ (ps : Portraits) (b : Build)
    (notes : List String), ∃ portraits, ps.forM (fun p => portray p.1 (f p)) (b, notes) =
      .ok () ({ b with portraits }, notes)
  | [], b, _ => ⟨b.portraits, rfl⟩
  | p :: ps, b, notes => by
    obtain ⟨portraits, h⟩ :=
      forM_portray f ps { b with portraits := b.portraits.put p.1 (f p) } notes
    exact ⟨portraits, h⟩

theorem merge_eq {a b : Build} {ms ms' : List (String × Datum)} {s t : Datum} {ss ts : Symbols}
    (ha : a.Has ms s ss) (hb : b.Has ms' t ts) (itself : Bool) (notes : List String) :
    ∃ portraits notes', merge b itself (a, notes) = .ok () ({ a with
      data := keyed .str (withSymbols ms (lesser s t) (overlay Frames.merged ss ts)),
      portraits }, notes') := by
  obtain ⟨notes', hrun⟩ := forM_mergeSymbol
    (b := { a with data := keyed .str (Places.put ms "scale" (lesser s t)) }) rfl
    (ha.members.put "scale" (lesser s t))
    (by rw [Places.lookup_put_of_ne (by decide), ha.symbols]) ha.frames hb.frames notes
  obtain ⟨portraits, hportray⟩ :=
    forM_portray (fun p => if itself then p.2.close else p.2) b.portraits
    { a with data := keyed .str (withSymbols ms (lesser s t) (overlay Frames.merged ss ts)) } notes'
  refine ⟨portraits, notes', ?_⟩
  unfold merge
  rw [member_bind ha.data ha.scaled, hb.data, lift_bind (named_keyed hb.scaled),
    lift_bind (least_eq_lesser ha.ordered hb.ordered),
    bind_of_eq_ok (put_eq_ok ha.data "scale" (lesser s t) notes), named_keyed hb.symbols, ok_bind,
    lift_bind (show entriesOf (.dict ts.toMembers) = .ok _ from rfl)]
  exact (bind_of_eq_ok hrun).trans hportray

end Building

namespace Build

def ready? (b : Build) : Option Build :=
  match Building.ready (b, []) with
  | .ok _ s => some s.1
  | .error _ _ => none

def plus? (a b : Build) : Option Build := b.ready?.bind fun b => Op.run? a (.merge b false)

def Offers (b : Build) (ms : List (String × Datum)) (scale : Datum) (ss : Symbols) : Prop :=
  ∃ b' notes, Building.ready (b, []) = .ok () (b', notes) ∧ b'.Has ms scale ss

variable {a b : Build} {ms ms' : List (String × Datum)} {s t : Datum} {ss ts : Symbols}

theorem Has.ready_eq (h : b.Has ms s ss) (notes : List String) :
    Building.ready (b, notes) = .ok () (b, notes) := by
  have hdata : b.data.isEmpty = false := by
    rw [h.data]
    cases hms : ms with
    | nil => exact absurd (hms ▸ h.scaled) (by simp)
    | cons m ms => rfl
  change (if b.data.isEmpty then Building.read else pure () : Building Unit) (b, notes) = _
  rw [hdata]
  rfl

theorem Has.offers (h : b.Has ms s ss) : b.Offers ms s ss := ⟨b, [], h.ready_eq [], h⟩

theorem distinct_withSymbols (h : Distinct ms) : Distinct (withSymbols ms s ss) :=
  (h.put _ _).put _ _

theorem exists_plus? (ha : a.Offers ms s ss) (hb : b.Offers ms' t ts) :
    ∃ c, a.plus? b = some c ∧ c.Has (withSymbols ms (lesser s t) (overlay Frames.merged ss ts))
      (lesser s t) (overlay Frames.merged ss ts) := by
  obtain ⟨a', notes, hready, ha⟩ := ha
  obtain ⟨b', notes', hready', hb⟩ := hb
  obtain ⟨portraits, notes'', hmerge⟩ := Building.merge_eq ha hb false notes
  refine ⟨{ a' with
    data := keyed .str (withSymbols ms (lesser s t) (overlay Frames.merged ss ts)), portraits }, ?_,
    ⟨rfl, distinct_withSymbols ha.members, ?_, lookup_put_self _ _ _,
      ha.ordered.lesser hb.ordered, ha.labels.overlay,
      forall_overlay (fun _ _ _ => .merged) ha.frames hb.frames⟩⟩
  · rw [plus?, ready?, hready', Option.bind_some, Op.run?, Op.work, bind_of_eq_ok hready, hmerge]
  · rw [withSymbols, lookup_put_of_ne (by decide), lookup_put_self]

theorem withSymbols_withSymbols (h : Distinct ms) (s' : Datum) (ss' : Symbols) :
    withSymbols (withSymbols ms s ss) s' ss' = withSymbols ms s' ss' := by
  have hkeys : (withSymbols (withSymbols ms s ss) s' ss').map (·.1) =
      (withSymbols ms s' ss').map (·.1) := by
    simp only [withSymbols, keys_put]
    have hscale : ∀ ks, "scale" ∈ withKey (withKey ks "scale") "Symbol" := fun ks =>
      mem_withKey.mpr (.inl (mem_withKey.mpr (.inr rfl)))
    have hsymbol : ∀ ks, "Symbol" ∈ withKey ks "Symbol" := fun ks =>
      mem_withKey.mpr (.inr rfl)
    rw [withKey_of_mem (hscale _), withKey_of_mem (hsymbol _)]
  refine eq_of_lookup_eq (distinct_withSymbols (distinct_withSymbols h)) hkeys fun k => ?_
  simp only [withSymbols, lookup_put]
  split_ifs <;> rfl

end Build

/-! ### Banks -/

abbrev Motions := List (Label × List (Label × Datum))

def motionsDatum (as : List (Label × Datum)) : Datum := .dict (keyed Label.toDatum as)

def Motions.toMembers (bs : Motions) : Members :=
  keyed Label.toDatum (bs.map fun b => (b.1, motionsDatum b.2))

def Motions.merged (own other : Motions) : Motions := overlay (overlay later) own other

namespace Bank

structure Has (b : Bank) (ms : List (String × Datum)) (bs : Motions) : Prop where
  data : b.data = keyed .str ms
  members : Distinct ms
  banks : ms.lookup "banks" = some (.dict bs.toMembers)
  labels : Distinct bs
  animations : ∀ b ∈ bs, Distinct b.2

theorem overlay_keyed (own : List (Label × Datum)) : ∀ other : List (Label × Datum),
    Bank.overlay (keyed Label.toDatum own) (keyed Label.toDatum other) =
      keyed Label.toDatum (Places.overlay later own other) := by
  intro other
  induction other generalizing own with
  | nil => rfl
  | cons e other ih =>
    rw [Places.overlay, foldl_cons, lay_later, ← Places.overlay, ← ih, ← put_keyed keying_label]
    rfl

theorem mergeBank_eq {bs : Motions} (hbs : Distinct bs) (b : Label × List (Label × Datum)) :
    ∃ notes, mergeBank bs.toMembers (b.1.toDatum, motionsDatum b.2) =
      .ok (Motions.toMembers (lay (Places.overlay later) bs b), notes) := by
  have hput (as : List (Label × Datum)) :
      Datum.put bs.toMembers b.1.toDatum (motionsDatum as) =
        Motions.toMembers (put bs b.1 as) :=
    put_keyed_map keying_label motionsDatum bs b.1 as
  unfold mergeBank lay
  rw [show Datum.lookup bs.toMembers b.1.toDatum = _ from
    lookup_keyed_map keying_label motionsDatum bs b.1]
  cases hown : bs.lookup b.1 with
  | none => exact ⟨[], by rw [← hput]; rfl⟩
  | some own =>
    cases hb : b.2 with
    | nil =>
      have hsame : Places.put bs b.1 (Places.overlay later own []) = bs :=
        put_of_lookup hbs hown
      exact ⟨[], by dsimp only; rw [hsame]; rfl⟩
    | cons e es =>
      refine ⟨overlayNotes (keyed Label.toDatum own) (keyed Label.toDatum (e :: es)), ?_⟩
      dsimp only [Option.map_some]
      rw [← hput, show motionsDatum (Places.overlay later own (e :: es)) = .dict _ from
        congrArg Datum.dict (overlay_keyed own (e :: es)).symm]
      rfl

theorem mergeBanks_eq : ∀ {bs : Motions}, Distinct bs → ∀ others : Motions,
    ∃ notes, mergeBanks bs.toMembers others.toMembers =
      ((Motions.toMembers (bs.merged others), notes), none)
  | _, _, [] => ⟨[], rfl⟩
  | bs, hbs, b :: others => by
    obtain ⟨notes, hstep⟩ := mergeBank_eq hbs b
    have hlay : Distinct (lay (Places.overlay later) bs b) := hbs.lay b
    obtain ⟨notes', hrun⟩ := mergeBanks_eq hlay others
    refine ⟨notes ++ notes', ?_⟩
    rw [show Motions.toMembers (b :: others) = (b.1.toDatum, motionsDatum b.2) ::
      Motions.toMembers others from rfl, mergeBanks, hstep]
    dsimp only
    rw [hrun]
    rfl

variable {a b : Bank} {ms ms' : List (String × Datum)} {as bs : Motions}

theorem mergeData_eq (ha : a.Has ms as) (hb : b.Has ms' bs) :
    ∃ notes, mergeData a.data b.data =
      ((keyed .str (put ms "banks" (.dict (Motions.toMembers (as.merged bs)))), notes),
        none) := by
  have hmine : named (.dict a.data) "banks" = .ok (.dict as.toMembers) :=
    ha.data ▸ Building.named_keyed ha.banks
  have htheirs : named (.dict b.data) "banks" = .ok (.dict bs.toMembers) :=
    hb.data ▸ Building.named_keyed hb.banks
  unfold mergeData
  rw [htheirs, ok_bind]
  cases bs with
  | nil =>
    refine ⟨[], ?_⟩
    rw [show as.merged [] = as from rfl, put_of_lookup ha.members ha.banks, ← ha.data]
    rfl
  | cons b bs =>
    obtain ⟨notes, hmerge⟩ := mergeBanks_eq ha.labels (b :: bs)
    refine ⟨notes, ?_⟩
    rw [show entriesOf (.dict (Motions.toMembers (b :: bs))) =
      .ok ((b.1.toDatum, motionsDatum b.2) :: Motions.toMembers bs) from rfl, hmine]
    dsimp only
    rw [show (b.1.toDatum, motionsDatum b.2) :: Motions.toMembers bs =
      Motions.toMembers (b :: bs) from rfl, hmerge]
    rw [ha.data, put_keyed keying_str]

def plus? (a b : Bank) : Option Bank := (sound? b.ready).bind fun b => Op.run? a (.merge b)

def Offers (b : Bank) (ms : List (String × Datum)) (bs : Motions) : Prop :=
  ∃ b', sound? b.ready = some b' ∧ b'.Has ms bs

theorem data_write (b : Bank) : b.write.1.data = b.data := by
  unfold write
  split
  · rfl
  · split <;> rfl

theorem Has.offers (h : b.Has ms bs) : b.Offers ms bs := by
  refine ⟨b, ?_, h⟩
  have hdata : b.data.isEmpty = false := by
    rw [h.data]
    cases hms : ms with
    | nil => exact absurd (hms ▸ h.banks) (by simp)
    | cons m ms => rfl
  rw [ready, hdata]
  rfl

theorem has_of_plus? {c : Bank} (ha : a.Offers ms as) (hb : b.Offers ms' bs)
    (h : a.plus? b = some c) :
    c.Has (put ms "banks" (.dict (Motions.toMembers (as.merged bs)))) (as.merged bs) := by
  obtain ⟨a', hready, ha⟩ := ha
  obtain ⟨b', hready', hb⟩ := hb
  obtain ⟨notes, hmerge⟩ := mergeData_eq ha hb
  rw [plus?, hready', Option.bind_some, Op.run?, hready, Option.bind_some, merge, hmerge] at h
  have hdata : c.data = _ := congrArg data (congrArg Prod.fst (sound?_eq_some.mp h)).symm
  rw [data_write] at hdata
  exact ⟨hdata, ha.members.put _ _, lookup_put_self _ _ _, ha.labels.overlay,
    forall_overlay (fun _ _ _ h _ => h.overlay) ha.animations hb.animations⟩

end Bank

/-! ### What stands in a merge -/

theorem Motions.merged_assoc {as bs cs : Motions} (has : Distinct as) (hbs : Distinct bs)
    (hcs : Distinct cs) (ha : ∀ a ∈ as, Distinct a.2) (hb : ∀ b ∈ bs, Distinct b.2)
    (hc : ∀ c ∈ cs, Distinct c.2) : (as.merged bs).merged cs = as.merged (bs.merged cs) :=
  overlay_assoc has hbs hcs fun _ _ hx _ hy _ hz =>
    overlay_assoc (ha _ (mem_of_lookup_eq_some hx))
      (hb _ (mem_of_lookup_eq_some hy)) (hc _ (mem_of_lookup_eq_some hz))
      fun _ _ _ _ _ _ _ => rfl

def Symbols.frame? (ss : Symbols) (l : Label) (n : Int) : Option Datum :=
  (ss.lookup l).bind (·.lookup n)

def Motions.animation? (bs : Motions) (l name : Label) : Option Datum :=
  (bs.lookup l).bind (·.lookup name)

theorem joined_later {α : Type} (x y : Option α) : joined later x y = y.or x := by
  cases x <;> cases y <;> rfl

theorem lookup_joined {κ α : Type} [BEq κ] {join : List (κ × α) → List (κ × α) → List (κ × α)}
    {x y : Option (List (κ × α))} {k : κ}
    (h : ∀ u ∈ x, ∀ v ∈ y, (join u v).lookup k = (v.lookup k).or (u.lookup k)) :
    (joined join x y).bind (·.lookup k) =
      (y.bind (·.lookup k)).or (x.bind (·.lookup k)) := by
  cases x with
  | none => cases y <;> simp [joined]
  | some u =>
    cases y with
    | none => simp [joined]
    | some v => exact h u rfl v rfl

theorem Symbols.frame?_overlay {as bs : Symbols} (hbs : Distinct bs)
    (ha : ∀ s ∈ as, s.2.Numbered) (hb : ∀ s ∈ bs, s.2.Numbered) (l : Label) (n : Int) :
    Symbols.frame? (overlay Frames.merged as bs) l n = (bs.frame? l n).or (as.frame? l n) := by
  rw [frame?, lookup_overlay hbs]
  refine lookup_joined fun u hu v hv => ?_
  rw [Frames.lookup_merged (ha _ (mem_of_lookup_eq_some hu)).distinct
    (hb _ (mem_of_lookup_eq_some hv)).distinct, joined_later]

theorem Motions.animation?_merged {as bs : Motions} (hbs : Distinct bs)
    (hb : ∀ b ∈ bs, Distinct b.2) (l name : Label) :
    (as.merged bs).animation? l name = (bs.animation? l name).or (as.animation? l name) := by
  rw [animation?, merged, lookup_overlay hbs]
  refine lookup_joined fun u _ v hv => ?_
  rw [lookup_overlay (hb _ (mem_of_lookup_eq_some hv)), joined_later]

section Associative

variable {a b c : Build} {ms ms' ms'' : List (String × Datum)} {s t u : Datum}
  {as bs cs : Symbols}
variable {k l m kl lm klm klm' : Bank} {ns ns' ns'' : List (String × Datum)} {ks ls os : Motions}

/-- **Merging is associative and the later one wins.**

Builds (`a`, `b`, `c`) with a scale whose symbols have frames of different numbers can be merged,
and both ways of merging the three give the same data in the same order. A frame of a merge is that
of the later build if it has one, and no number stands twice in a symbol.

So it is for banks (`k`, `l`, `m`), if the merges can be written. -/
theorem merge_assoc (ha : a.Offers ms s as) (hb : b.Offers ms' t bs) (hc : c.Offers ms'' u cs)
    (hk : k.Offers ns ks) (hl : l.Offers ns' ls) (hm : m.Offers ns'' os)
    (hkl : k.plus? l = some kl) (hlm : l.plus? m = some lm) (hleft : kl.plus? m = some klm)
    (hright : k.plus? lm = some klm') :
    (∃ ab bc abc abc', a.plus? b = some ab ∧ b.plus? c = some bc ∧ ab.plus? c = some abc ∧
      a.plus? bc = some abc' ∧ abc.data = abc'.data ∧
      ∃ ms₁ s₁ ss, ab.Has ms₁ s₁ ss ∧
        ∀ l n, ss.frame? l n = (bs.frame? l n).or (as.frame? l n)) ∧
    klm.data = klm'.data ∧
    ∃ ns₁ ks₁, kl.Has ns₁ ks₁ ∧
      ∀ b name, ks₁.animation? b name = (ls.animation? b name).or (ks.animation? b name) := by
  constructor
  · obtain ⟨ab, hab, habHas⟩ := Build.exists_plus? ha hb
    obtain ⟨bc, hbc, hbcHas⟩ := Build.exists_plus? hb hc
    obtain ⟨abc, habc, habcHas⟩ := Build.exists_plus? habHas.offers hc
    obtain ⟨abc', habc', habcHas'⟩ := Build.exists_plus? ha hbcHas.offers
    obtain ⟨_, _, _, ha⟩ := ha
    obtain ⟨_, _, _, hb⟩ := hb
    obtain ⟨_, _, _, hc⟩ := hc
    refine ⟨ab, bc, abc, abc', hab, hbc, habc, habc', ?_, _, _, _, habHas,
      Symbols.frame?_overlay hb.labels ha.frames hb.frames⟩
    have hassoc : overlay Frames.merged (overlay Frames.merged as bs) cs =
        overlay Frames.merged as (overlay Frames.merged bs cs) :=
      Places.overlay_assoc ha.labels hb.labels hc.labels fun _ _ hx _ hy _ hz =>
        Frames.merged_assoc (ha.frames _ (Places.mem_of_lookup_eq_some hx)).distinct
          (hb.frames _ (Places.mem_of_lookup_eq_some hy)).distinct
          (hc.frames _ (Places.mem_of_lookup_eq_some hz)).distinct
    rw [habcHas.data, habcHas'.data, Build.withSymbols_withSymbols ha.members, hassoc,
      lesser_assoc ha.ordered hb.ordered hc.ordered]
  · have hklHas := Bank.has_of_plus? hk hl hkl
    have hlmHas := Bank.has_of_plus? hl hm hlm
    have hleftHas := Bank.has_of_plus? hklHas.offers hm hleft
    have hrightHas := Bank.has_of_plus? hk hlmHas.offers hright
    obtain ⟨_, _, hk⟩ := hk
    obtain ⟨_, _, hl⟩ := hl
    obtain ⟨_, _, hm⟩ := hm
    refine ⟨?_, _, _, hklHas, Motions.animation?_merged hl.labels hl.animations⟩
    rw [hleftHas.data, hrightHas.data, Places.put_put,
      Motions.merged_assoc hk.labels hl.labels hm.labels hk.animations hl.animations hm.animations]

end Associative

def wideFrame (n w : Int) : Int × Datum :=
  (n, .dict [(.str "framenum", .int n), (.str "w", .int w)])

def symbolMembers (ss : Symbols) : List (String × Datum) :=
  [("scale", .int 1), ("Symbol", .dict ss.toMembers)]

def symbolBuild (name : String) (ns : List Int) (w : Int) : Build :=
  .ofData (keyed .str (symbolMembers [(.name name, ns.map (wideFrame · w))])) ""

theorem offers_symbolBuild (name : String) {ns : List Int} (h : ns.Nodup) (w : Int) :
    (symbolBuild name ns w).Offers (symbolMembers [(.name name, ns.map (wideFrame · w))]) (.int 1)
      [(.name name, ns.map (wideFrame · w))] := by
  have hkeys : (ns.map (wideFrame · w)).map (·.1) = ns := by
    rw [map_map]
    exact map_id ns
  have hnumbered : Frames.Numbered (ns.map (wideFrame · w)) := by
    refine ⟨by rwa [Distinct, hkeys], fun f hf => ?_⟩
    obtain ⟨n, -, rfl⟩ := mem_map.mp hf
    exact named_of_lookup rfl
  have hmembers : ["scale", "Symbol"].Nodup := by decide
  exact Build.Has.offers ⟨rfl, hmembers, rfl, rfl, ⟨.int 1, rfl, trivial⟩, nodup_singleton _,
    forall_mem_singleton.mpr hnumbered⟩

def stillBank (name : String) : Bank :=
  .ofData (keyed .str [("banks", .dict (Motions.toMembers [(.name "m", [(.name name,
    .dict [(.str "framerate", .int 0), (.str "frames", .list [])])])]))])

theorem offers_stillBank (name : String) : ∃ ms bs, (stillBank name).Offers ms bs :=
  ⟨_, _, Bank.Has.offers ⟨rfl, nodup_singleton _, rfl, nodup_singleton _,
    forall_mem_singleton.mpr (nodup_singleton _)⟩⟩

theorem plus?_stillBank :
    (((stillBank "x").plus? (stillBank "y")).bind fun kl => kl.plus? (stillBank "z")).isSome ∧
    (((stillBank "y").plus? (stillBank "z")).bind fun lm => (stillBank "x").plus? lm).isSome := by
  decide +kernel

theorem merge_assoc_stills :
    (∃ ab bc abc abc', (symbolBuild "s" [2, 1] 8).plus? (symbolBuild "s" [1] 9) = some ab ∧
      (symbolBuild "s" [1] 9).plus? (symbolBuild "t" [5, 4] 7) = some bc ∧
      ab.plus? (symbolBuild "t" [5, 4] 7) = some abc ∧
      (symbolBuild "s" [2, 1] 8).plus? bc = some abc' ∧ abc.data = abc'.data) ∧
    ∃ kl lm klm klm', (stillBank "x").plus? (stillBank "y") = some kl ∧
      (stillBank "y").plus? (stillBank "z") = some lm ∧ kl.plus? (stillBank "z") = some klm ∧
      (stillBank "x").plus? lm = some klm' ∧ klm.data = klm'.data := by
  obtain ⟨klm, hleft⟩ := Option.isSome_iff_exists.mp plus?_stillBank.1
  obtain ⟨kl, hkl, hleft⟩ := Option.bind_eq_some_iff.mp hleft
  obtain ⟨klm', hright⟩ := Option.isSome_iff_exists.mp plus?_stillBank.2
  obtain ⟨lm, hlm, hright⟩ := Option.bind_eq_some_iff.mp hright
  obtain ⟨_, _, hx⟩ := offers_stillBank "x"
  obtain ⟨_, _, hy⟩ := offers_stillBank "y"
  obtain ⟨_, _, hz⟩ := offers_stillBank "z"
  obtain ⟨⟨ab, bc, abc, abc', hab, hbc, habc, habc', hdata, -⟩, hbanks, -⟩ :=
    merge_assoc (offers_symbolBuild "s" (show [(2 : Int), 1].Nodup by decide) 8)
      (offers_symbolBuild "s" (List.nodup_singleton (1 : Int)) 9)
      (offers_symbolBuild "t" (show [(5 : Int), 4].Nodup by decide) 7) hx hy hz hkl hlm hleft hright
  exact ⟨⟨ab, bc, abc, abc', hab, hbc, habc, habc', hdata⟩, kl, lm, klm, klm', hkl, hlm, hleft,
    hright, hbanks⟩

end WikiFeed.Sprite

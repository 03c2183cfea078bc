import Mathlib.Data.List.Induction
import WikiFeed.Proofs.Decimal.Digits
import WikiFeed.Proofs.Overlays
import WikiFeed.Proofs.Rows
import WikiFeed.Proofs.Scene.Data

/-! # Timelines

Whatever is drawn in one frame gets a label of its own: a text with the number of equal texts before
it (`nodup_numbered`). The labels of all frames of an animation are merged into one list of
timelines, in which each label stands once, with the layer of its first use
(`exists_timelinesOf_eq`). -/

namespace WikiFeed.Scene

open Sprite List Places
open Outcome (ok_bind)

/-! ### Labels -/

def label (s : String) (n : Nat) : String := s ++ "_" ++ threeDigits n

theorem toList_threeDigits (n : Nat) :
    (threeDigits n).toList = Decimal.zeros (3 - (toString n).length) ++ Decimal.natDigits n := by
  rw [threeDigits, String.toList_append, String.toList_ofList]
  congr 1
  rw [Nat.toString_eq_ofList_toDigits, String.toList_ofList]
  rfl

theorem threeDigits_inj {m n : Nat} (h : threeDigits m = threeDigits n) : m = n := by
  have hvalue := congrArg (fun s => Decimal.ofDigits s.toList) h
  simpa only [toList_threeDigits, Decimal.ofDigits_zeros_append] using hvalue

theorem underscore_not_mem_threeDigits (n : Nat) : '_' ∉ (threeDigits n).toList := by
  rw [toList_threeDigits, mem_append]
  rintro (h | h)
  · exact absurd (eq_of_mem_replicate h) (by decide)
  · exact absurd (Decimal.isDigit_of_mem_natDigits h) (by decide)

theorem append_cons_inj {α : Type} {a : α} {xs ys xs' ys' : List α} (hys : a ∉ ys) (hys' : a ∉ ys')
    (h : xs ++ a :: ys = xs' ++ a :: ys') : xs = xs' ∧ ys = ys' := by
  rcases append_eq_append_iff.mp h with ⟨zs, hxs, hcons⟩ | ⟨zs, hxs, hcons⟩
  · cases zs with
    | nil => exact ⟨by simpa using hxs.symm, (cons.inj hcons).2⟩
    | cons z zs =>
      have hmem : a ∈ ys := by rw [(cons.inj hcons).2]; simp
      exact absurd hmem hys
  · cases zs with
    | nil => exact ⟨by simpa using hxs, ((cons.inj hcons).2).symm⟩
    | cons z zs =>
      have hmem : a ∈ ys' := by rw [(cons.inj hcons).2]; simp
      exact absurd hmem hys'

theorem label_inj {s t : String} {m n : Nat} (h : label s m = label t n) : s = t ∧ m = n := by
  have hlist := congrArg String.toList h
  have hmark : "_".toList = ['_'] := rfl
  simp only [label, String.toList_append, hmark, append_assoc, singleton_append] at hlist
  obtain ⟨htext, hnumber⟩ := append_cons_inj (underscore_not_mem_threeDigits m)
    (underscore_not_mem_threeDigits n) hlist
  exact ⟨String.toList_inj.mp htext, threeDigits_inj (String.toList_inj.mp hnumber)⟩

theorem numbered_concat (names : List String) (n : String) :
    numbered (names ++ [n]) = numbered names ++ [label n (names.count n)] := by
  have hseen : ∀ names : List String, (names.foldl (fun (done : List String × List String) n =>
      (n :: done.1, (n ++ "_" ++ threeDigits (done.1.count n)) :: done.2)) ([], [])).1 =
        names.reverse := by
    intro names
    induction names using reverseRecOn with
    | nil => rfl
    | append_singleton names n ih => rw [foldl_concat, ih, reverse_concat]
  rw [numbered, foldl_concat, hseen, reverse_cons, count_reverse]
  rfl

theorem forall₂_numbered (names : List String) :
    Forall₂ (fun n l => ∃ k, l = label n k) names (numbered names) := by
  induction names using reverseRecOn with
  | nil => exact .nil
  | append_singleton names n ih =>
    rw [numbered_concat]
    exact rel_append ih (.cons ⟨_, rfl⟩ .nil)

theorem mem_numbered {names : List String} {l : String} (h : l ∈ numbered names) :
    ∃ n k, l = label n k ∧ k < names.count n := by
  induction names using reverseRecOn with
  | nil => exact absurd h not_mem_nil
  | append_singleton names n ih =>
    rw [numbered_concat, mem_append, mem_singleton] at h
    rcases h with h | rfl
    · obtain ⟨m, k, rfl, hk⟩ := ih h
      refine ⟨m, k, rfl, ?_⟩
      rw [count_append]
      omega
    · exact ⟨n, names.count n, rfl, by simp⟩

theorem nodup_numbered (names : List String) : (numbered names).Nodup := by
  induction names using reverseRecOn with
  | nil => exact nodup_nil
  | append_singleton names n ih =>
    rw [numbered_concat]
    refine nodup_append.mpr ⟨ih, by simp, fun l hl k hk => ?_⟩
    rw [mem_singleton] at hk
    subst hk
    rintro rfl
    obtain ⟨m, k, heq, hlt⟩ := mem_numbered hl
    obtain ⟨rfl, rfl⟩ := label_inj heq
    omega

theorem exists_drawnNames_eq {f : Datum} {es : List Datum} (h : IsStill f es) :
    ∃ ns, drawnNames f = .ok ns ∧ ns.length = es.length ∧ (ns.map (·.1)).Nodup := by
  have hpairs : ∀ e ∈ es, ∃ p : String × Datum, (do
      let name ← textOf (← named e "name")
      return (name ++ display (← named e "frame"), ← named e "layername")) = (.ok p : Result _) ∧
        True := by
    intro e he
    obtain ⟨name, number, hdrawn⟩ := h.drawn e he
    obtain ⟨layer, hlayer⟩ := hdrawn.layer
    refine ⟨(name ++ display (.int number), layer), ?_, trivial⟩
    rw [hdrawn.name, ok_bind, textOf, ok_bind, hdrawn.frame, ok_bind, hlayer, ok_bind]
    rfl
  obtain ⟨ps, hps, hall⟩ := Outcome.exists_mapM_eq_ok hpairs
  have hlength : (numbered (ps.map (·.1))).length = (ps.map (·.2)).length := by
    rw [← (forall₂_numbered _).length_eq, length_map, length_map]
  refine ⟨(numbered (ps.map (·.1))).zip (ps.map (·.2)), ?_, ?_, ?_⟩
  · rw [drawnNames, h.elements, ok_bind, itemsOf, ok_bind, hps, ok_bind]
    rfl
  · rw [length_zip, hlength, Nat.min_self, length_map, hall.length_eq]
  · rw [map_fst_zip hlength.le]
    exact nodup_numbered _

/-! ### Timelines -/

variable {ts : List (String × Datum)} {name : String} {i : Nat}

theorem placeOf?_eq_some (h : placeOf? ts name = some i) : ∃ t, ts[i]? = some t ∧ t.1 = name := by
  obtain ⟨hi, hname, -⟩ := findIdx?_eq_some_iff_getElem.mp h
  exact ⟨ts[i], getElem?_eq_getElem hi, beq_iff_eq.mp hname⟩

theorem placeOf?_eq_none (h : placeOf? ts name = none) : name ∉ ts.map (·.1) := by
  intro hmem
  obtain ⟨t, ht, rfl⟩ := mem_map.mp hmem
  simpa using findIdx?_eq_none_iff.mp h t ht

theorem exists_placeOf?_eq (h : name ∈ ts.map (·.1)) :
    ∃ i t, placeOf? ts name = some i ∧ ts[i]? = some t ∧ t.1 = name := by
  cases hplace : placeOf? ts name with
  | none => exact absurd h (placeOf?_eq_none hplace)
  | some i =>
    obtain ⟨t, ht, hname⟩ := placeOf?_eq_some hplace
    exact ⟨i, t, rfl, ht, hname⟩

/-- Timelines with labels of their own: others, and behind these what has no label among them. -/
structure Extends (ts es us : List (String × Datum)) : Prop where
  distinct : Distinct us
  lookup_eq (l : String) : us.lookup l = (ts.lookup l).or (es.lookup l)

theorem extends_insertIdx {e : String × Datum} (h : Distinct ts) (hnew : e.1 ∉ ts.map (·.1))
    (hi : i ≤ ts.length) : Extends ts [e] (ts.insertIdx i e) := by
  have hperm := perm_insertIdx e ts hi
  have hkeys : ((ts.insertIdx i e).map (·.1)).Perm (e.1 :: ts.map (·.1)) := hperm.map (·.1)
  have hdistinct : Distinct (ts.insertIdx i e) := hkeys.nodup_iff.mpr (nodup_cons.mpr ⟨hnew, h⟩)
  refine ⟨hdistinct, fun l => ?_⟩
  rw [lookup_eq_of_perm hdistinct hperm, lookup_cons, lookup_cons, lookup_nil]
  split
  · rename_i heq
    rw [beq_iff_eq.mp heq, lookup_eq_none_of_not_mem hnew, Option.none_or]
  · rw [Option.or_none]

theorem lt_of_placeOf? (h : placeOf? ts name = some i) : i < ts.length := by
  obtain ⟨t, ht, -⟩ := placeOf?_eq_some h
  exact (List.getElem?_eq_some_iff.mp ht).1

theorem exists_addTimelines_cons {place : Option Nat} (hts : Distinct ts)
    (hplace : ∀ i, place = some i → i < ts.length) (e : String × Datum)
    (es : List (String × Datum)) :
    ∃ ts' place', addTimelines ts place (e :: es) = addTimelines ts' place' es ∧
      Extends ts [e] ts' ∧ ∀ i, place' = some i → i < ts'.length := by
  cases hknown : placeOf? ts e.1 with
  | some i =>
    obtain ⟨t, ht, hname⟩ := placeOf?_eq_some hknown
    have hsome : (ts.lookup e.1).isSome := by
      rw [Places.lookup_isSome_iff]
      exact mem_map.mpr ⟨t, mem_of_getElem? ht, hname⟩
    refine ⟨ts, some i, by simp only [addTimelines, hknown], ⟨hts, fun l => ?_⟩, ?_⟩
    · rw [lookup_cons, lookup_nil]
      split
      · rename_i heq
        rw [beq_iff_eq.mp heq, Option.or_of_isSome hsome]
      · rw [Option.or_none]
    · rintro _ ⟨⟩
      exact lt_of_placeOf? hknown
  | none =>
    have hnew := placeOf?_eq_none hknown
    cases place with
    | some i =>
      have hi := hplace i rfl
      refine ⟨_, some i, by simp only [addTimelines, hknown],
        extends_insertIdx hts hnew (Nat.succ_le_of_lt hi), ?_⟩
      rintro _ ⟨⟩
      rw [length_insertIdx, if_pos (Nat.succ_le_of_lt hi)]
      omega
    | none =>
      cases hnext : es.findSome? fun r => placeOf? ts r.1 with
      | some i =>
        obtain ⟨r, -, hr⟩ := exists_of_findSome?_eq_some hnext
        have hi := lt_of_placeOf? hr
        refine ⟨_, some i, by simp only [addTimelines, hknown, hnext],
          extends_insertIdx hts hnew hi.le, ?_⟩
        rintro _ ⟨⟩
        rw [length_insertIdx, if_pos hi.le]
        omega
      | none =>
        have hextends := extends_insertIdx hts hnew le_rfl
        rw [insertIdx_length_self] at hextends
        refine ⟨_, none, by simp only [addTimelines, hknown, hnext], hextends, ?_⟩
        rintro _ ⟨⟩

theorem Extends.trans {es es' us us' : List (String × Datum)} (h : Extends ts es us)
    (h' : Extends us es' us') : Extends ts (es ++ es') us' :=
  ⟨h'.distinct, fun l => by rw [h'.lookup_eq, h.lookup_eq, Option.or_assoc, lookup_append]⟩

theorem extends_addTimelines (es ts : List (String × Datum)) (place : Option Nat)
    (hts : Distinct ts) (hplace : ∀ i, place = some i → i < ts.length) :
    Extends ts es (addTimelines ts place es) := by
  induction es generalizing ts place with
  | nil => exact ⟨hts, fun l => Option.or_none.symm⟩
  | cons e es ih =>
    obtain ⟨ts', place', heq, hfirst, hplace'⟩ := exists_addTimelines_cons hts hplace e es
    rw [heq]
    exact hfirst.trans (ih ts' place' hfirst.distinct hplace')

/-- All that is drawn in the frames of an animation: its label in its frame, and its layer. -/
def usesOf (fs : List Datum) : Result (List (String × Datum)) := do
  return (← fs.mapM drawnNames).flatten

theorem extends_foldlM : ∀ {fs : List Datum} {nss : List (List (String × Datum))},
    Forall₂ (fun f ns => drawnNames f = .ok ns) fs nss → ∀ ts, Distinct ts →
    ∃ us, fs.foldlM (fun ts f => do return addTimelines ts none (← drawnNames f)) ts = .ok us ∧
      Extends ts nss.flatten us
  | [], [], .nil, ts, hts => ⟨ts, rfl, hts, fun l => Option.or_none.symm⟩
  | f :: fs, ns :: nss, .cons hf hrest, ts, hts => by
    have hfirst := extends_addTimelines ns ts none hts (fun _ hi => by cases hi)
    obtain ⟨us, hus, hextends⟩ := extends_foldlM hrest _ hfirst.distinct
    refine ⟨us, ?_, hfirst.trans hextends⟩
    rw [foldlM_cons, hf, ok_bind]
    exact hus

/-- **The timelines of an animation**: each label of each of its frames stands once among them, with
the layer of its first use. -/
theorem exists_timelinesOf_eq {fs : List Datum} (h : ∀ f ∈ fs, ∃ es, IsStill f es) :
    ∃ us ts, usesOf fs = .ok us ∧ timelinesOf fs = .ok ts ∧ Extends [] us ts := by
  have hnames : ∀ f ∈ fs, ∃ ns, drawnNames f = .ok ns ∧ drawnNames f = .ok ns := by
    intro f hf
    obtain ⟨es, hes⟩ := h f hf
    obtain ⟨ns, hns, -, -⟩ := exists_drawnNames_eq hes
    exact ⟨ns, hns, hns⟩
  obtain ⟨nss, hnss, hall⟩ := Outcome.exists_mapM_eq_ok hnames
  obtain ⟨ts, hts, hextends⟩ := extends_foldlM hall [] nodup_nil
  exact ⟨nss.flatten, ts, by rw [usesOf, hnss]; rfl, hts, hextends⟩

section Uses

variable {fs : List Datum} {us ns : List (String × Datum)} {f : Datum}

theorem mem_uses (hus : usesOf fs = .ok us) {u : String × Datum} :
    u ∈ us ↔ ∃ f ∈ fs, ∃ ns, drawnNames f = .ok ns ∧ u ∈ ns := by
  obtain ⟨nss, hnss, hus⟩ := Outcome.exists_of_bind_eq_ok hus
  cases hus
  have hall := Outcome.forall₂_of_mapM_eq_ok hnss
  rw [mem_flatten]
  constructor
  · rintro ⟨ns, hns, hu⟩
    obtain ⟨f, hf, heq⟩ := Rows.exists_of_mem_right hall hns
    exact ⟨f, hf, ns, heq, hu⟩
  · rintro ⟨f, hf, ns, hns, hu⟩
    obtain ⟨ns', hmem, heq⟩ := Rows.exists_of_mem_right hall.flip hf
    cases hns.symm.trans heq
    exact ⟨ns, hmem, hu⟩

theorem isSome_lookup_uses {l : String} (hus : usesOf fs = .ok us) (hf : f ∈ fs)
    (hns : drawnNames f = .ok ns) (hl : l ∈ ns.map (·.1)) : (us.lookup l).isSome := by
  obtain ⟨n, hn, rfl⟩ := mem_map.mp hl
  rw [Places.lookup_isSome_iff]
  exact mem_map_of_mem ((mem_uses hus).mpr ⟨f, hf, ns, hns, hn⟩)

end Uses

end WikiFeed.Scene

import WikiFeed.Proofs.Outcome
import WikiFeed.Proofs.Places
import WikiFeed.Sprite.Data

/-! # Members of mappings

Mappings hold data under texts or under whole numbers. As long as all keys of a mapping are of one
of these kinds it is a list of pairs, and reading and writing it is reading and writing that list
(`lookup_keyed`, `put_keyed`). -/

namespace WikiFeed.Sprite

open List Datum

/-! ### Names -/

theorem same_str (s t : String) : (str s).same (.str t) = (s == t) := by
  rw [same]

theorem lookup_cons_self (s : String) (v : Datum) (es : List (Datum × Datum)) :
    lookup ((.str s, v) :: es) (.str s) = some v := by
  unfold Datum.lookup
  rw [find?_cons_of_pos (by rw [same_str]; exact beq_self_eq_true s)]
  rfl

theorem lookup_cons_ne {s t : String} (h : t ≠ s) (v : Datum) (es : List (Datum × Datum)) :
    lookup ((.str t, v) :: es) (.str s) = lookup es (.str s) := by
  unfold Datum.lookup
  rw [find?_cons_of_neg (by rw [same_str]; simpa using h)]

theorem named_of_lookup {es : List (Datum × Datum)} {s : String} {v : Datum}
    (h : lookup es (.str s) = some v) : named (.dict es) s = .ok v := by
  unfold named memberAt
  simp only [h]

/-! ### Keys of one kind -/

theorem same_int (m n : Int) : (int m).same (.int n) = (m == n) := by
  rfl

structure Keying {κ : Type} [BEq κ] (key : κ → Datum) : Prop where
  same : ∀ j k, (key j).same (key k) = (j == k)

theorem keying_str : Keying str := ⟨same_str⟩

theorem keying_int : Keying int := ⟨same_int⟩

theorem keying_nat : Keying fun n : Nat => int n :=
  ⟨fun m n => by rw [same_int, Bool.eq_iff_iff, beq_iff_eq, beq_iff_eq, Int.ofNat_inj]⟩

def keyed {κ : Type} (key : κ → Datum) (ps : List (κ × Datum)) : List (Datum × Datum) :=
  ps.map fun p => (key p.1, p.2)

section Keyed

variable {κ : Type} [BEq κ] [LawfulBEq κ] {key : κ → Datum} (hkey : Keying key)
include hkey

theorem lookup_keyed (ps : List (κ × Datum)) (k : κ) :
    Datum.lookup (keyed key ps) (key k) = ps.lookup k := by
  induction ps with
  | nil => rfl
  | cons p ps ih =>
    have hstep : Datum.lookup (keyed key (p :: ps)) (key k) =
        if p.1 == k then some p.2 else Datum.lookup (keyed key ps) (key k) := by
      simp only [Datum.lookup, keyed, map_cons, find?_cons, hkey.same]
      split <;> rename_i h <;> simp [h]
    rw [hstep, ih, lookup_cons]
    by_cases h : k = p.1
    · simp [h]
    · simp [beq_eq_false_iff_ne.mpr h, beq_eq_false_iff_ne.mpr (Ne.symm h)]

theorem put_keyed (ps : List (κ × Datum)) (k : κ) (v : Datum) :
    put (keyed key ps) (key k) v = keyed key (Places.put ps k v) := by
  unfold put Places.put
  rw [lookup_keyed hkey]
  split
  · simp only [keyed, map_map]
    refine map_congr_left fun p _ => ?_
    simp only [Function.comp_apply, hkey.same]
    split <;> rfl
  · simp [keyed]

/-- A loop that puts values under different keys gives a mapping with all of them. -/
theorem foldlM_put_keyed {β : Type} {ps : List (κ × Datum)} {bs : List β}
    {step : List (Datum × Datum) → β → Result (List (Datum × Datum))} (hkeys : (ps.map (·.1)).Nodup)
    (h : Forall₂ (fun b p => ∀ ms, step ms b = .ok (put ms (key p.1) p.2)) bs ps) :
    bs.foldlM step [] = .ok (keyed key ps) := by
  have hputs : ps.foldl (fun ms p => put ms (key p.1) p.2) (keyed key []) =
      keyed key (ps.foldl (fun done p => Places.put done p.1 p.2) []) :=
    foldl_hom (keyed key) fun done p => put_keyed hkey done p.1 p.2
  rw [Places.foldl_put [] hkeys] at hputs
  rw [Outcome.foldlM_eq_ok h]
  exact congrArg _ hputs

variable {α : Type} (member : α → Datum)

theorem lookup_keyed_map (ps : List (κ × α)) (k : κ) :
    lookup (keyed key (ps.map fun p => (p.1, member p.2))) (key k) =
      (ps.lookup k).map member := by
  rw [lookup_keyed hkey]
  induction ps with
  | nil => rfl
  | cons p ps ih =>
    rw [map_cons, lookup_cons, lookup_cons, ih]
    split <;> rfl

theorem put_keyed_map (ps : List (κ × α)) (k : κ) (a : α) :
    put (keyed key (ps.map fun p => (p.1, member p.2))) (key k) (member a) =
      keyed key ((Places.put ps k a).map fun p => (p.1, member p.2)) := by
  rw [put_keyed hkey]
  congr 1
  have hkeys : ((ps.map fun p => (p.1, member p.2)).lookup k).isSome = (ps.lookup k).isSome := by
    rw [Bool.eq_iff_iff, Places.lookup_isSome_iff, Places.lookup_isSome_iff, map_map]
    rfl
  unfold Places.put
  rw [hkeys]
  split
  · rw [map_map, map_map]
    refine map_congr_left fun p _ => ?_
    simp only [Function.comp_apply]
    split <;> rfl
  · simp

end Keyed

end WikiFeed.Sprite

import Mathlib.Data.List.Sort
import WikiFeed.Proofs.Sprite.Calculation

/-! # Sorting by numbers

Items are taken one by one, from the first to the last, and each is put behind all items whose keys
are not above its own. `foldl_orderedInsert` says that this is insertion sort, which keeps items
with equal keys in their order, and `exists_sortByKey_eq` that data with numbers as keys are sorted
so by the values of these numbers. -/

namespace WikiFeed.Sprite

open List
open Outcome (ok_bind)

/-! ### Insertion from the front and from the back -/

section Insertion

variable {β κ : Type} [LinearOrder κ] (key : β → κ)

/-- It does not matter which of two items is inserted first if one goes in front of its equals and
the other behind them. -/
theorem orderedInsert_comm (a b : β) : ∀ l : List β,
    (l.orderedInsert (key · ≤ key ·) a).orderedInsert (key · < key ·) b =
      (l.orderedInsert (key · < key ·) b).orderedInsert (key · ≤ key ·) a
  | [] => by
    simp only [orderedInsert_nil, orderedInsert_cons]
    split_ifs with hba hab hab
    · exact absurd hab (not_le.mpr hba)
    · rfl
    · rfl
    · exact absurd (not_lt.mp hba) hab
  | c :: l => by
    have ih := orderedInsert_comm a b l
    simp only [orderedInsert_cons]
    rcases le_or_gt (key a) (key c) with hac | hca <;>
      rcases lt_or_ge (key b) (key c) with hbc | hcb
    · -- both items stand in front of `c`, in the order of their keys
      rw [if_pos hac, if_pos hbc, orderedInsert_cons, orderedInsert_cons,
        orderedInsert_cons, orderedInsert_cons, if_pos hac, if_pos hbc]
      rcases le_or_gt (key a) (key b) with hab | hba
      · rw [if_neg (not_lt.mpr hab), if_pos hab]
      · rw [if_pos hba, if_neg (not_le.mpr hba)]
    · rw [if_pos hac, if_neg (not_lt.mpr hcb), orderedInsert_cons, orderedInsert_cons,
        orderedInsert_cons, if_pos hac, if_neg (not_lt.mpr (hac.trans hcb)),
        if_neg (not_lt.mpr hcb)]
    · rw [if_neg (not_le.mpr hca), if_pos hbc, orderedInsert_cons, orderedInsert_cons,
        orderedInsert_cons, if_pos hbc, if_neg (not_le.mpr (hbc.trans hca)),
        if_neg (not_le.mpr hca)]
    · rw [if_neg (not_le.mpr hca), if_neg (not_lt.mpr hcb), orderedInsert_cons,
        orderedInsert_cons, if_neg (not_le.mpr hca), if_neg (not_lt.mpr hcb), ih]

theorem insertionSort_concat (a : β) : ∀ l : List β,
    (l ++ [a]).insertionSort (key · ≤ key ·) =
      (l.insertionSort (key · ≤ key ·)).orderedInsert (key · < key ·) a
  | [] => rfl
  | b :: l => by
    rw [cons_append, insertionSort_cons, insertionSort_concat a l,
      insertionSort_cons, orderedInsert_comm]

theorem foldl_orderedInsert (l : List β) :
    l.foldl (fun done a => done.orderedInsert (key · < key ·) a) [] =
      l.insertionSort (key · ≤ key ·) := by
  induction l using reverseRecOn with
  | nil => rfl
  | append_singleton l a ih => rw [foldl_append, ih, insertionSort_concat]; rfl

end Insertion

/-! ### Data with numbers as keys -/

section Keys

variable {α β : Type} {R : α → β → Prop} {z : β → Number} (hz : ∀ b, (z b).Ordered)

def Keyed (R : α → β → Prop) (z : β → Number) (e : Datum × α) (b : β) : Prop :=
  numberOf? e.1 = some (z b) ∧ R e.2 b

theorem exists_mapM_key {key : α → Result Datum}
    (hkey : ∀ a b, R a b → ∃ v, key a = .ok v ∧ numberOf? v = some (z b)) :
    ∀ {as : List α} {bs : List β}, Forall₂ R as bs →
      ∃ es, (as.mapM fun a => do return (← key a, a)) = .ok es ∧ Forall₂ (Keyed R z) es bs
  | [], [], .nil => ⟨[], rfl, .nil⟩
  | a :: as, b :: bs, .cons hab hrest => by
    obtain ⟨v, hv, hnum⟩ := hkey a b hab
    obtain ⟨es, hes, hall⟩ := exists_mapM_key hkey hrest
    refine ⟨(v, a) :: es, ?_, .cons ⟨hnum, hab⟩ hall⟩
    rw [mapM_cons, hv, hes]
    rfl

include hz

theorem exists_insertByKey_eq {v : Datum} {a : α} {b : β} (h : Keyed R z (v, a) b) :
    ∀ {es : List (Datum × α)} {bs : List β}, Forall₂ (Keyed R z) es bs →
      ∃ es', insertByKey v a es = .ok es' ∧
        Forall₂ (Keyed R z) es' (bs.orderedInsert (fun b c => (z b).value < (z c).value) b)
  | [], [], .nil => ⟨[(v, a)], rfl, .cons h .nil⟩
  | (w, c) :: es, d :: bs, .cons hd hrest => by
    have hless := Number.less_iff (hz b) (hz d)
    rw [insertByKey, below_eq h.1 hd.1, ok_bind, orderedInsert_cons]
    by_cases hlt : (z b).value < (z d).value
    · rw [if_pos (hless.mpr hlt), if_pos hlt]
      exact ⟨_, rfl, .cons h (.cons hd hrest)⟩
    · obtain ⟨es', hes', hall⟩ := exists_insertByKey_eq h hrest
      rw [if_neg (mt hless.mp hlt), if_neg hlt, hes']
      exact ⟨_, rfl, .cons hd hall⟩

/-- **Items are sorted by the values of their keys, and items with equal keys stay in their
order.** -/
theorem exists_sortByKey_eq {key : α → Result Datum}
    (hkey : ∀ a b, R a b → ∃ v, key a = .ok v ∧ numberOf? v = some (z b)) {as : List α}
    {bs : List β} (h : Forall₂ R as bs) :
    ∃ as', sortByKey key as = .ok as' ∧
      Forall₂ R as' (bs.insertionSort fun b c => (z b).value ≤ (z c).value) := by
  obtain ⟨es, hes, hkeyed⟩ := exists_mapM_key hkey h
  have hstep (e : Datum × α) (b : β) (done : List (Datum × α)) (cs : List β) (he : Keyed R z e b)
      (hdone : Forall₂ (Keyed R z) done cs) := exists_insertByKey_eq hz he hdone
  obtain ⟨es', hes', hsorted⟩ := Outcome.exists_foldlM_of_forall₂ hstep hkeyed .nil
  rw [foldl_orderedInsert fun b => (z b).value] at hsorted
  refine ⟨es'.map (·.2), ?_, forall₂_map_left_iff.mpr (hsorted.imp fun _ _ hk => hk.2)⟩
  unfold sortByKey
  rw [hes, ok_bind, hes', ok_bind]
  rfl

end Keys

end WikiFeed.Sprite

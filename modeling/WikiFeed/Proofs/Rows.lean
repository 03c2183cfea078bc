import Mathlib.Data.List.Forall2
import Mathlib.Data.List.Nodup

/-! # Rows

Rows whose items go together one by one, and rows whose items are told apart by keys. -/

namespace WikiFeed.Rows

open List

variable {α β : Type} {R S : α → β → Prop}

theorem forall₂_of_zipIdx {as : List α} {bs : List β}
    (h : Forall₂ (fun a => R a.1) as.zipIdx bs) : Forall₂ R as bs := by
  have hmap := forall₂_map_left_iff.mpr h
  rwa [zipIdx_map_fst] at hmap

theorem forall₂_imp_of_mem : ∀ {as : List α} {bs : List β}, Forall₂ R as bs →
    (∀ a ∈ as, ∀ b ∈ bs, R a b → S a b) → Forall₂ S as bs
  | _, _, .nil, _ => .nil
  | _, _, .cons hab hrest, h =>
    .cons (h _ mem_cons_self _ mem_cons_self hab)
      (forall₂_imp_of_mem hrest fun a ha b hb =>
        h a (mem_cons_of_mem _ ha) b (mem_cons_of_mem _ hb))

theorem exists_of_mem_right {b : β} : ∀ {as : List α} {bs : List β}, Forall₂ R as bs →
    b ∈ bs → ∃ a ∈ as, R a b
  | _, _, .nil, hb => absurd hb not_mem_nil
  | a :: _, _, .cons hab hrest, hb => by
    rcases mem_cons.mp hb with rfl | hb
    · exact ⟨a, mem_cons_self, hab⟩
    · obtain ⟨a', ha', hr⟩ := exists_of_mem_right hrest hb
      exact ⟨a', mem_cons_of_mem _ ha', hr⟩

theorem map_eq_of_forall₂ {γ : Type} {f : α → γ} {g : β → γ} (h : ∀ a b, R a b → f a = g b) :
    ∀ {as : List α} {bs : List β}, Forall₂ R as bs → as.map f = bs.map g
  | _, _, .nil => rfl
  | _, _, .cons hab hrest => congrArg₂ cons (h _ _ hab) (map_eq_of_forall₂ h hrest)

theorem filter_key [BEq β] [LawfulBEq β] {g : α → β} {x : α} :
    ∀ {l : List α}, (l.map g).Nodup → x ∈ l → l.filter (fun y => g y == g x) = [x]
  | [], _, hx => absurd hx not_mem_nil
  | y :: l, hnodup, hx => by
    rw [map_cons, nodup_cons] at hnodup
    rcases mem_cons.mp hx with rfl | hx
    · have hrest : l.filter (fun y => g y == g x) = [] := by
        refine filter_eq_nil_iff.mpr fun z hz hkey => hnodup.1 ?_
        rw [← beq_iff_eq.mp hkey]
        exact mem_map_of_mem hz
      rw [filter_cons, if_pos (beq_self_eq_true _), hrest]
    · have hne : ¬ (g y == g x) = true := fun hkey => hnodup.1 <| by
        rw [beq_iff_eq.mp hkey]
        exact mem_map_of_mem hx
      rw [filter_cons, if_neg hne]
      exact filter_key hnodup.2 hx

end WikiFeed.Rows

import WikiFeed.Places

/-! # Places and keys

What stands at a place of an array after a value was put behind it or one was changed, with a
default for the places beyond its end, and what a list of pairs holds under a key. -/

namespace WikiFeed.Places

open List

variable {α : Type} {d : α}

theorem getD_of_size_le {a : Array α} {i : Nat} (h : a.size ≤ i) : a.getD i d = d := by
  simp [Array.getD, Nat.not_lt.mpr h]

theorem getD_push (a : Array α) (x : α) (i : Nat) :
    (a.push x).getD i d = if i = a.size then x else a.getD i d := by
  rw [Array.getD_eq_getD_getElem?, Array.getD_eq_getD_getElem?, Array.getElem?_push]
  split <;> rfl

theorem getD_modify (a : Array α) (i j : Nat) (f : α → α) :
    (a.modify i f).getD j d = if i = j ∧ j < a.size then f (a.getD j d) else a.getD j d := by
  by_cases hj : j < a.size
  · by_cases hij : i = j
    · simp [Array.getD, hj, Array.getElem_modify, hij]
    · simp [Array.getD, hj, Array.getElem_modify, hij]
  · simp [Array.getD, hj]

/-! ### Keys -/

section Keys

variable {κ : Type} [BEq κ] [LawfulBEq κ] {k : κ} {ps : List (κ × α)}

theorem mem_of_lookup_eq_some {x : α} (h : ps.lookup k = some x) : (k, x) ∈ ps := by
  obtain ⟨before, behind, rfl, -⟩ := lookup_eq_some_iff.mp h
  simp

theorem lookup_of_mem : ∀ {ps : List (κ × α)}, (ps.map (·.1)).Nodup → ∀ {p}, p ∈ ps →
    ps.lookup p.1 = some p.2
  | q :: ps, h, p, hp => by
    rw [map_cons, nodup_cons] at h
    rw [lookup_cons]
    rcases mem_cons.mp hp with rfl | hp
    · rw [beq_self_eq_true]
    · have hne : p.1 ≠ q.1 := fun heq => h.1 (heq ▸ mem_map_of_mem hp)
      rw [beq_eq_false_iff_ne.mpr hne]
      exact lookup_of_mem h.2 hp

theorem lookup_isSome_iff (ps : List (κ × α)) (k : κ) :
    (ps.lookup k).isSome ↔ k ∈ ps.map (·.1) := by
  rw [List.lookup_isSome_iff, mem_map]
  simp only [beq_iff_eq, eq_comm (a := k)]

theorem lookup_eq_none_of_not_mem (h : k ∉ ps.map (·.1)) : ps.lookup k = none := by
  rw [← Option.not_isSome_iff_eq_none, lookup_isSome_iff]
  exact h

theorem lookup_filter_of_ne {l : κ} (h : k ≠ l) (ps : List (κ × α)) :
    (ps.filter fun p => p.1 != l).lookup k = ps.lookup k := by
  induction ps with
  | nil => rfl
  | cons p ps ih =>
    by_cases hp : p.1 = l
    · rw [filter_cons_of_neg (by simp [hp]), ih, lookup_cons, beq_eq_false_iff_ne.mpr (hp ▸ h)]
    · rw [filter_cons_of_pos (by simp [hp]), lookup_cons, lookup_cons, ih]

theorem put_of_mem (h : k ∈ ps.map (·.1)) (x : α) :
    put ps k x = ps.map fun p => if p.1 == k then (p.1, x) else p :=
  if_pos ((lookup_isSome_iff ps k).mpr h)

theorem put_of_not_mem (h : k ∉ ps.map (·.1)) (x : α) : put ps k x = ps ++ [(k, x)] :=
  if_neg (mt (lookup_isSome_iff ps k).mp h)

def withKey (ks : List κ) (k : κ) : List κ := if ks.contains k then ks else ks ++ [k]

theorem nodup_withKey {ks : List κ} (h : ks.Nodup) (k : κ) : (withKey ks k).Nodup := by
  unfold withKey
  split
  · exact h
  · rename_i hk
    rw [contains_iff_mem] at hk
    rw [nodup_append]
    exact ⟨h, by simp, fun i hi j hj => by rintro rfl; exact hk (mem_singleton.mp hj ▸ hi)⟩

theorem mem_withKey {ks : List κ} {j : κ} : j ∈ withKey ks k ↔ j ∈ ks ∨ j = k := by
  unfold withKey
  split
  · rename_i hk
    rw [contains_iff_mem] at hk
    exact ⟨.inl, fun h => h.elim id fun heq => heq ▸ hk⟩
  · rw [mem_append, mem_singleton]

theorem keys_put (ps : List (κ × α)) (k : κ) (x : α) :
    (put ps k x).map (·.1) = withKey (ps.map (·.1)) k := by
  unfold withKey
  by_cases h : k ∈ ps.map (·.1)
  · rw [put_of_mem h, if_pos (contains_iff_mem.mpr h), map_map]
    refine map_congr_left fun p _ => ?_
    simp only [Function.comp_apply]
    split <;> rfl
  · rw [put_of_not_mem h, if_neg (mt contains_iff_mem.mp h), map_append]
    rfl

theorem mem_put {x : α} {p : κ × α} (h : p ∈ put ps k x) : p = (k, x) ∨ p ∈ ps := by
  by_cases hk : k ∈ ps.map (·.1)
  · rw [put_of_mem hk] at h
    obtain ⟨q, hq, rfl⟩ := mem_map.mp h
    split
    · rename_i heq
      exact .inl (by rw [eq_of_beq heq])
    · exact .inr hq
  · rw [put_of_not_mem hk, mem_append, mem_singleton] at h
    exact h.symm

theorem put_cons_of_ne {p : κ × α} (h : p.1 ≠ k) (x : α) : put (p :: ps) k x = p :: put ps k x := by
  unfold put
  rw [lookup_cons, beq_eq_false_iff_ne.mpr (Ne.symm h)]
  dsimp only
  split
  · rw [map_cons, beq_eq_false_iff_ne.mpr h, if_neg Bool.false_ne_true]
  · rfl

theorem lookup_put_self (ps : List (κ × α)) (k : κ) (x : α) : (put ps k x).lookup k = some x := by
  induction ps with
  | nil => simp [put]
  | cons p ps ih =>
    by_cases h : p.1 = k
    · rw [put_of_mem (by simp [h])]
      simp [h]
    · rw [put_cons_of_ne h, lookup_cons, beq_eq_false_iff_ne.mpr (Ne.symm h)]
      exact ih

theorem lookup_put_of_ne {j : κ} (h : j ≠ k) (ps : List (κ × α)) (x : α) :
    (put ps k x).lookup j = ps.lookup j := by
  by_cases hk : k ∈ ps.map (·.1)
  · rw [put_of_mem hk]
    clear hk
    induction ps with
    | nil => rfl
    | cons p ps ih =>
      by_cases hp : p.1 = k
      · rw [map_cons, hp, beq_self_eq_true, if_pos rfl, lookup_cons, lookup_cons, ih,
          hp, beq_eq_false_iff_ne.mpr h]
      · rw [map_cons, beq_eq_false_iff_ne.mpr hp, if_neg Bool.false_ne_true, lookup_cons,
          lookup_cons, ih]
  · rw [put_of_not_mem hk, lookup_append, lookup_cons, beq_eq_false_iff_ne.mpr h,
      lookup_nil, Option.or_none]

theorem lookup_put (ps : List (κ × α)) (k j : κ) (x : α) :
    (put ps k x).lookup j = if j == k then some x else ps.lookup j := by
  split
  case isTrue h => rw [eq_of_beq h, lookup_put_self]
  case isFalse h => rw [lookup_put_of_ne (mt beq_iff_eq.mpr h)]

theorem put_put (ps : List (κ × α)) (k : κ) (x y : α) : put (put ps k x) k y = put ps k y := by
  induction ps with
  | nil => simp [put]
  | cons p ps ih =>
    by_cases h : p.1 = k
    · have hk : k ∈ (p :: ps).map (·.1) := by simp [h]
      have hk' : k ∈ (put (p :: ps) k x).map (·.1) := by
        rw [keys_put, mem_withKey]
        exact .inr rfl
      rw [put_of_mem hk', put_of_mem hk, put_of_mem hk, map_map]
      refine map_congr_left fun q _ => ?_
      by_cases hq : q.1 = k <;> simp [hq]
    · rw [put_cons_of_ne h, put_cons_of_ne h, put_cons_of_ne h, ih]

theorem foldl_put : ∀ {es : List (κ × α)} (done : List (κ × α)), ((done ++ es).map (·.1)).Nodup →
    es.foldl (fun ps e => put ps e.1 e.2) done = done ++ es
  | [], done, _ => (append_nil done).symm
  | e :: es, done, h => by
    have hnew : e.1 ∉ done.map (·.1) := by
      rw [map_append, nodup_append] at h
      exact fun hmem => h.2.2 e.1 hmem e.1 mem_cons_self rfl
    rw [foldl_cons, put_of_not_mem hnew, foldl_put, append_assoc, singleton_append]
    rwa [append_assoc, singleton_append]

theorem lastByKey_of_nodup {es : List (κ × α)} (h : (es.map (·.1)).Nodup) : lastByKey es = es :=
  foldl_put [] h

theorem lookup_foldl_put {β : Type} (key : β → κ) (val : β → α) (bs : List β) (ps : List (κ × α))
    (k : κ) : (bs.foldl (fun ps b => put ps (key b) (val b)) ps).lookup k =
      ((bs.filter (key · == k)).getLast?.map val).or (ps.lookup k) := by
  induction bs generalizing ps with
  | nil => rfl
  | cons b bs ih =>
    rw [foldl_cons, ih]
    by_cases h : key b = k
    · subst h
      rw [filter_cons_of_pos (by simp), getLast?_cons, lookup_put_self]
      cases (bs.filter (key · == key b)).getLast? with
      | none => rfl
      | some last => rfl
    · rw [filter_cons_of_neg (by simpa using h), lookup_put_of_ne (Ne.symm h)]

end Keys

end WikiFeed.Places

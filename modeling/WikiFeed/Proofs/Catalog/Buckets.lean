import Mathlib.Data.List.Chain
import Mathlib.Data.String.Basic
import WikiFeed.Catalog.Buckets
import WikiFeed.Proofs.Places

/-! # Buckets and their index

The entries of a table, sorted by their keys, are cut into at most a hundred buckets, numbered from
zero on without a gap (`buckets_cut`). Where the cuts are depends on the keys alone (`buckets_map`),
so tables with the same keys have the same index (`index_congr`). Since buckets follow the order of
the keys, the last entry of the index whose key is not above a given key leads to the bucket of that
key (`exists_bucket_of_mem`). -/

namespace WikiFeed.Catalog

open List
open Places (lookup_of_mem)

variable {α β : Type}

abbrev Buckets (α : Type) := List (String × List (String × α))

/-! ### Names and numbers of buckets -/

theorem bucketName_pairwise : ((range 100).map bucketName).Pairwise (· < ·) := by
  have hchain : ((range 100).map bucketName).IsChain (· < ·) := by decide +kernel
  exact hchain.pairwise

theorem bucketName_lt {m n : Nat} (hmn : m < n) (hn : n < 100) : bucketName m < bucketName n := by
  have h := pairwise_iff_getElem.mp bucketName_pairwise m n (by simp; omega) (by simpa) hmn
  simpa using h

theorem le_bucketSize (total : Nat) : total ≤ 100 * bucketSize total := by
  unfold bucketSize
  omega

variable {total : Nat}

theorem div_bucketSize_le {place : Nat} (h : place ≤ total) : place / bucketSize total ≤ 100 :=
  Nat.div_le_of_le_mul (by have := le_bucketSize total; lia)

/-- No place of an entry is beyond the hundredth bucket. -/
theorem bucketNumber_eq {place : Nat} (h : place < total) :
    bucketNumber total place = place / bucketSize total ∧ place / bucketSize total < 100 := by
  have hlt : place / bucketSize total < 100 :=
    Nat.div_lt_of_lt_mul (by have := le_bucketSize total; lia)
  exact ⟨Nat.min_eq_left (Nat.le_of_lt_succ hlt), hlt⟩

theorem succ_div_cases (place size : Nat) :
    (place + 1) / size = place / size ∨ (place + 1) / size = place / size + 1 := by
  rw [Nat.succ_div]
  split_ifs
  · exact .inr rfl
  · exact .inl rfl

/-! ### Gathering -/

theorem flatMap_gather (name : String) (e : String × α) (gs : Buckets α) :
    (gather name e gs).flatMap (·.2) = e :: gs.flatMap (·.2) := by
  cases gs with
  | nil => rfl
  | cons g gs =>
    rw [gather]
    split_ifs <;> rfl

theorem gather_map (f : α → β) (name : String) (e : String × α) (gs : Buckets α) :
    gather name (e.map id f) (gs.map (Prod.map id (map (Prod.map id f)))) =
      (gather name e gs).map (Prod.map id (map (Prod.map id f))) := by
  cases gs with
  | nil => rfl
  | cons g gs =>
    simp only [map_cons, Prod.map, gather, id_eq]
    split_ifs <;> rfl

/-- Buckets with the numbers from a first one on, none empty and none beyond the hundredth. -/
structure Numbered (first : Nat) (gs : Buckets α) : Prop where
  names : gs.map (·.1) = (List.range' first gs.length).map bucketName
  filled : ∀ g ∈ gs, g.2 ≠ []
  bounded : first + gs.length ≤ 100

variable {first : Nat}

theorem Numbered.nil (h : first ≤ 100) : Numbered first ([] : Buckets α) :=
  ⟨rfl, fun _ hg => absurd hg not_mem_nil, h⟩

variable {gs : Buckets α}

theorem Numbered.cons (h : Numbered (first + 1) gs) (e : String × α) :
    Numbered first ((bucketName first, [e]) :: gs) where
  names := by rw [map_cons, h.names, length_cons, range'_succ, map_cons]
  filled := forall_mem_cons.mpr ⟨cons_ne_nil _ _, h.filled⟩
  bounded := by
    have := h.bounded
    rw [length_cons]
    omega

theorem Numbered.gather {next : Nat} (h : Numbered next gs)
    (hnext : next = first ∨ next = first + 1) (hfirst : first < 100) (e : String × α) :
    Numbered first (Catalog.gather (bucketName first) e gs) := by
  cases gs with
  | nil => exact (Numbered.nil hfirst).cons e
  | cons g gs =>
    have hname : g.1 = bucketName next := by
      have := h.names
      rw [map_cons, length_cons, range'_succ, map_cons] at this
      exact (cons.inj this).1
    rw [Catalog.gather, hname]
    rcases hnext with rfl | rfl
    · rw [beq_self_eq_true, if_pos rfl, ← hname]
      exact ⟨h.names, forall_mem_cons.mpr
        ⟨cons_ne_nil _ _, fun b hb => h.filled b (mem_cons_of_mem _ hb)⟩, h.bounded⟩
    · have hlt : bucketName first < bucketName (first + 1) := by
        have hbound := h.bounded
        rw [length_cons] at hbound
        exact bucketName_lt (Nat.lt_succ_self _) (by omega)
      rw [if_neg (by simpa using hlt.ne'), ← hname]
      exact h.cons e

/-! ### The buckets of a table -/

def cut (total place : Nat) (entries : List (String × α)) : Buckets α :=
  (entries.zipIdx place).foldr (fun e => gather (bucketName (bucketNumber total e.2)) e.1) []

theorem buckets_cut (entries : List (String × α)) :
    buckets entries = cut entries.length 0 (sorted entries) := rfl

theorem cut_cons (total place : Nat) (e : String × α) (entries : List (String × α)) :
    cut total place (e :: entries) =
      gather (bucketName (bucketNumber total place)) e (cut total (place + 1) entries) := rfl

theorem flatMap_cut (total place : Nat) (entries : List (String × α)) :
    (cut total place entries).flatMap (·.2) = entries := by
  induction entries generalizing place with
  | nil => rfl
  | cons e entries ih => rw [cut_cons, flatMap_gather, ih]

theorem cut_map (f : α → β) (total place : Nat) (entries : List (String × α)) :
    cut total place (entries.map (Prod.map id f)) =
      (cut total place entries).map (Prod.map id (map (Prod.map id f))) := by
  induction entries generalizing place with
  | nil => rfl
  | cons e entries ih => rw [map_cons, cut_cons, cut_cons, ih, gather_map]

theorem numbered_cut (place : Nat) (entries : List (String × α))
    (h : place + entries.length ≤ total) :
    Numbered (place / bucketSize total) (cut total place entries) := by
  induction entries generalizing place with
  | nil => exact .nil (div_bucketSize_le h)
  | cons e entries ih =>
    rw [length_cons] at h
    have hplace : place < total := by omega
    obtain ⟨hnumber, hlt⟩ := bucketNumber_eq hplace
    rw [cut_cons, hnumber]
    exact (ih (place + 1) (by omega)).gather (succ_div_cases _ _) hlt e

theorem sorted_perm (entries : List (String × α)) : (sorted entries).Perm entries :=
  mergeSort_perm _ _

theorem flatMap_buckets (entries : List (String × α)) :
    (buckets entries).flatMap (·.2) = sorted entries :=
  flatMap_cut _ _ _

theorem numbered_buckets (entries : List (String × α)) : Numbered 0 (buckets entries) := by
  have hlength : 0 + (sorted entries).length ≤ entries.length := by
    rw [(sorted_perm entries).length_eq, Nat.zero_add]
  have h := numbered_cut 0 (sorted entries) hlength
  rwa [Nat.zero_div] at h

theorem sorted_map (f : α → β) (entries : List (String × α)) :
    sorted (entries.map (Prod.map id f)) = (sorted entries).map (Prod.map id f) := by
  rw [sorted, sorted, map_mergeSort]
  intros
  rfl

theorem buckets_map (f : α → β) (entries : List (String × α)) :
    buckets (entries.map (Prod.map id f)) =
      (buckets entries).map (Prod.map id (map (Prod.map id f))) := by
  rw [buckets_cut, buckets_cut, sorted_map, cut_map, length_map]

theorem not_lt_iff_le (k l : String) : (!decide (l < k)) = true ↔ k ≤ l := by
  rw [Bool.not_eq_true', decide_eq_false_iff_not, not_lt]

variable {entries : List (String × α)}

theorem sorted_pairwise (h : (entries.map (·.1)).Nodup) :
    (sorted entries).Pairwise fun a b => a.1 < b.1 := by
  have hle : (sorted entries).Pairwise fun a b => a.1 ≤ b.1 := by
    refine (pairwise_mergeSort ?_ ?_ entries).imp fun hab => (not_lt_iff_le _ _).mp hab
    · intro a b c hab hbc
      rw [not_lt_iff_le] at hab hbc ⊢
      exact hab.trans hbc
    · intro a b
      rw [Bool.or_eq_true, not_lt_iff_le, not_lt_iff_le]
      exact le_total a.1 b.1
  have hne : (sorted entries).Pairwise fun a b => a.1 ≠ b.1 := by
    have hkeys : ((sorted entries).map (·.1)).Nodup :=
      ((sorted_perm entries).map (·.1)).nodup_iff.mpr h
    exact pairwise_map.mp hkeys
  exact (hle.and hne).imp fun ⟨hab, hab'⟩ => lt_of_le_of_ne hab hab'

/-! ### The index -/

def firstKeys (gs : Buckets α) : List (String × String) :=
  gs.filterMap fun b => b.2.head?.map fun e => (e.1, b.1)

theorem index_eq_firstKeys (entries : List (String × α)) :
    index entries = firstKeys (buckets entries) := rfl

theorem firstKeys_cons (name : String) (e : String × α) (es : List (String × α)) (gs : Buckets α) :
    firstKeys ((name, e :: es) :: gs) = (e.1, name) :: firstKeys gs := rfl

theorem mem_firstKeys {x : String × String} (h : x ∈ firstKeys gs) :
    ∃ g ∈ gs, ∃ e ∈ g.2, x = (e.1, g.1) := by
  obtain ⟨g, hg, hx⟩ := mem_filterMap.mp h
  obtain ⟨e, he, rfl⟩ := Option.map_eq_some_iff.mp hx
  exact ⟨g, hg, e, mem_of_head? he, rfl⟩

theorem map_snd_firstKeys (h : ∀ g ∈ gs, g.2 ≠ []) : (firstKeys gs).map (·.2) = gs.map (·.1) := by
  induction gs with
  | nil => rfl
  | cons g gs ih =>
    obtain ⟨name, es⟩ := g
    rw [forall_mem_cons] at h
    cases es with
    | nil => exact absurd rfl h.1
    | cons e es => rw [firstKeys_cons, map_cons, map_cons, ih h.2]

theorem index_names (entries : List (String × α)) :
    (index entries).map (·.2) = (range (buckets entries).length).map bucketName := by
  have hnumbered := numbered_buckets entries
  rw [index_eq_firstKeys, map_snd_firstKeys hnumbered.filled, hnumbered.names, range_eq_range']

theorem names_pairwise {n : Nat} (h : n ≤ 100) : ((range n).map bucketName).Pairwise (· < ·) :=
  bucketName_pairwise.sublist ((range_sublist.mpr h).map _)

theorem index_names_pairwise (entries : List (String × α)) :
    (index entries).Pairwise fun a b => a.2 < b.2 := by
  have hbound := (numbered_buckets entries).bounded
  refine pairwise_map.mp ?_
  rw [index_names]
  exact names_pairwise (by omega)

theorem index_congr {s : List (String × α)} {t : List (String × β)}
    (h : s.map (·.1) = t.map (·.1)) : index s = index t := by
  have bare {γ : Type} (u : List (String × γ)) :
      index u = index ((u.map (·.1)).map fun k => (k, ())) := by
    have hkeys : ((u.map (·.1)).map fun k => (k, ())) = u.map (Prod.map id fun _ => ()) := by
      rw [map_map]
      rfl
    rw [hkeys, index, index, buckets_map, filterMap_map]
    refine filterMap_congr fun b _ => ?_
    simp [Function.comp_def]
  rw [bare s, bare t, h]

/-- Buckets that follow the order of the keys, each with its own name. -/
structure Ordered (gs : Buckets α) : Prop where
  names : (gs.map (·.1)).Nodup
  filled : ∀ g ∈ gs, g.2 ≠ []
  keys : (gs.flatMap (·.2)).Pairwise fun a b => a.1 < b.1

theorem ordered_buckets (h : (entries.map (·.1)).Nodup) : Ordered (buckets entries) where
  names := by
    have hnumbered := numbered_buckets entries
    have hbound := hnumbered.bounded
    rw [hnumbered.names, ← range_eq_range']
    exact (names_pairwise (by omega)).imp ne_of_lt
  filled := (numbered_buckets entries).filled
  keys := by
    rw [flatMap_buckets]
    exact sorted_pairwise h

theorem Ordered.firstKeys_pairwise (h : Ordered gs) :
    (firstKeys gs).Pairwise fun a b => a.1 < b.1 := by
  refine pairwise_filterMap.mpr ((pairwise_flatMap.mp h.keys).2.imp ?_)
  rintro a b hab _ ha _ hb
  obtain ⟨x, hx, rfl⟩ := Option.map_eq_some_iff.mp ha
  obtain ⟨y, hy, rfl⟩ := Option.map_eq_some_iff.mp hb
  exact hab x (mem_of_head? hx) y (mem_of_head? hy)

/-- The last of the first keys that are not above the key of an entry is that of its bucket. -/
theorem Ordered.getLast?_firstKeys (h : Ordered gs) {g : String × List (String × α)} (hg : g ∈ gs)
    {e : String × α} (he : e ∈ g.2) :
    ∃ first, ((firstKeys gs).filter (·.1 ≤ e.1)).getLast? = some (first, g.1) := by
  obtain ⟨before, behind, rfl⟩ := append_of_mem hg
  obtain ⟨name, es⟩ := g
  cases es with
  | nil => exact absurd he not_mem_nil
  | cons e₀ es =>
    have hkeys := pairwise_flatMap.mp h.keys
    have hfirst : e₀.1 ≤ e.1 := by
      rcases mem_cons.mp he with rfl | he
      · exact le_rfl
      · exact (rel_of_pairwise_cons (hkeys.1 _ hg) he).le
    have hbehind : (firstKeys behind).filter (·.1 ≤ e.1) = [] := by
      refine filter_eq_nil_iff.mpr fun x hx => ?_
      obtain ⟨b, hb, y, hy, rfl⟩ := mem_firstKeys hx
      have hlater := (pairwise_append.mp hkeys.2).2.1
      simpa using rel_of_pairwise_cons hlater hb e he y hy
    refine ⟨e₀.1, ?_⟩
    rw [firstKeys, filterMap_append]
    change ((firstKeys before ++ firstKeys ((name, e₀ :: es) :: behind)).filter _).getLast? = _
    rw [firstKeys_cons, filter_append, filter_cons_of_pos (by simpa using hfirst), hbehind]
    simp

/-- **The index leads to the bucket of each key**: the last entry of the index whose key is not
above the key of an entry names a bucket that holds the entry. -/
theorem exists_bucket_of_mem (h : (entries.map (·.1)).Nodup) {e : String × α} (he : e ∈ entries) :
    ∃ first name es, ((index entries).filter (·.1 ≤ e.1)).getLast? = some (first, name) ∧
      (buckets entries).lookup name = some es ∧ es.lookup e.1 = some e.2 := by
  have hordered := ordered_buckets h
  have hall : e ∈ (buckets entries).flatMap (·.2) := by
    rw [flatMap_buckets]
    exact (sorted_perm entries).mem_iff.mpr he
  obtain ⟨g, hg, heg⟩ := mem_flatMap.mp hall
  obtain ⟨first, hlast⟩ := hordered.getLast?_firstKeys hg heg
  refine ⟨first, g.1, g.2, hlast, lookup_of_mem hordered.names hg, lookup_of_mem ?_ heg⟩
  have hbucket := (pairwise_flatMap.mp hordered.keys).1 g hg
  exact pairwise_map.mpr (hbucket.imp ne_of_lt)

end WikiFeed.Catalog

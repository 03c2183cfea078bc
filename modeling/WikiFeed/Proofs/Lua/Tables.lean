import Mathlib.Data.List.Find
import Mathlib.Data.List.Nodup
import Mathlib.Data.List.Perm.Subperm
import WikiFeed.Lua.Table

/-! # What is found in tables

Keys are compared as values of scripts are, so that one key can stand for several values, but never
for two names, nor, without fractions, for two whole numbers. A write changes what is found under
one of these and under no other key (`Table.get_put_str`, `Table.get?_put_int`). -/

namespace WikiFeed.Lua

open List Value

theorem Value.eq_of_sameKey_str {k : Value} {a b : String} (ha : k.sameKey (.str a) = true)
    (hb : k.sameKey (.str b) = true) : a = b := by
  cases k <;> simp_all [sameKey, sameNumber?, asInt?, isNil]

namespace Table

variable {t : Table} {k q v : Value}

theorem sameKey_of_entry {e : Entry} (h : t.entry? k = some e) : e.key.sameKey k = true :=
  find?_some (p := fun e : Entry => e.key.sameKey k) h

theorem get?_put (t : Table) (k q v : Value) : (t.put k v).get? q =
    ((t.entry? q).map fun e => if e.key.sameKey k then v else e.value).or
      (if !t.contains k && k.sameKey q then some v else none) := by
  unfold put get? entry?
  split
  case isTrue hthere =>
    have hkeys : (fun e : Entry => e.key.sameKey q) ∘
        (fun e : Entry => if e.key.sameKey k then { e with value := v } else e) =
          fun e => e.key.sameKey q := by
      funext e
      dsimp only [Function.comp_apply]
      split <;> rfl
    rw [find?_map, hkeys, Option.map_map, hthere]
    simp [Function.comp_def, apply_ite Entry.value]
  case isFalse hnew =>
    rw [Bool.not_eq_true] at hnew
    rw [find?_append, find?_singleton, Option.map_or, hnew]
    congr 1
    · cases hfound : t.entries.find? fun e => e.key.sameKey q with
      | none => rfl
      | some e =>
        have hne : ¬ e.key.sameKey k = true :=
          find?_eq_none.mp (Option.not_isSome_iff_eq_none.mp (Bool.not_eq_true _ ▸ hnew)) e
            (mem_of_find?_eq_some hfound)
        simp [hne]
    · simp [apply_ite (Option.map Entry.value)]

theorem get?_put_str (t : Table) (name other : String) (v : Value) :
    (t.put (.str name) v).get? (.str other) =
      if name = other then some v else t.get? (.str other) := by
  rw [get?_put]
  have hself : (str name).sameKey (.str other) = decide (name = other) := by
    by_cases h : name = other <;> simp [sameKey, h]
  unfold get? contains
  rw [hself]
  by_cases heq : name = other
  · subst heq
    cases hfound : t.entry? (.str name) with
    | none => simp
    | some e => simp [sameKey_of_entry hfound]
  · cases hfound : t.entry? (.str other) with
    | none => simp [heq]
    | some e =>
      have hne : ¬ e.key.sameKey (.str name) = true := fun h =>
        heq (eq_of_sameKey_str h (sameKey_of_entry hfound))
      simp [heq, hne]

theorem get_put_str (t : Table) (name other : String) (v : Value) :
    (t.put (.str name) v).get (.str other) = if name = other then v else t.get (.str other) := by
  unfold get
  rw [get?_put_str]
  split <;> rfl

theorem ofFields_append_singleton (fields : List (String × Value)) (name : String) (v : Value) :
    ofFields (fields ++ [(name, v)]) = (ofFields fields).put (.str name) v := by
  unfold ofFields ofList
  rw [map_append, foldl_append]
  rfl

end Table

/-! ### Whole numbers as keys -/

namespace Value

def NoFraction (v : Value) : Prop := ∀ x, v ≠ .float x

theorem noFraction_int (n : Int) : (int n).NoFraction := fun _ => nofun

variable {k q : Value} {n : Int}

theorem sameKey_iff (hk : k.NoFraction) (hq : q.asInt? = some n) :
    k.sameKey q = true ↔ k.asInt? = some n := by
  cases q <;> simp only [asInt?, reduceCtorEq] at hq <;>
    cases k <;> simp_all [NoFraction, sameKey, sameNumber?, asInt?, isNil, isDummy]

theorem sameKey_eq_int (hk : k.NoFraction) (hq : q.asInt? = some n) :
    k.sameKey q = k.sameKey (.int n) := by
  rw [Bool.eq_iff_iff, sameKey_iff hk hq, sameKey_iff (q := .int n) hk rfl]

theorem asInt?_eq_of_sameKey (hk : k.NoFraction) (hq : q.NoFraction)
    (h : k.sameKey q = true) : k.asInt? = q.asInt? := by
  cases k <;> cases q <;>
    simp_all [NoFraction, sameKey, sameNumber?, asInt?, isNil, isDummy]

theorem not_sameKey_int (hk : k.NoFraction) (hq : q.NoFraction) (hn : q.asInt? ≠ some n)
    (h : k.sameKey q = true) : k.sameKey (.int n) = false := by
  rw [Bool.eq_false_iff, Ne, sameKey_iff hk rfl, asInt?_eq_of_sameKey hk hq h]
  exact hn

end Value

namespace Table

/-- A table whose keys are all different and no fractions. -/
structure Proper (t : Table) : Prop where
  whole : ∀ e ∈ t.entries, e.key.NoFraction
  distinct : t.entries.Pairwise fun d e => ¬ d.key.sameKey e.key = true

theorem proper_empty : Proper .empty := ⟨nofun, .nil⟩

namespace Proper

variable {t : Table} {q : Value}

theorem put (ht : t.Proper) (n : Int) (v : Value) : (t.put (.int n) v).Proper := by
  unfold Table.put
  split
  · refine ⟨fun e he => ?_, pairwise_map.mpr (ht.distinct.imp fun h => ?_)⟩
    · obtain ⟨e', he', rfl⟩ := mem_map.mp he
      have hold := ht.whole e' he'
      split <;> exact hold
    · split <;> split <;> exact h
  case isFalse hnew =>
    have hnone := find?_eq_none.mp (Option.not_isSome_iff_eq_none.mp hnew)
    refine ⟨fun e he => ?_, pairwise_append.mpr ⟨ht.distinct, pairwise_singleton _ _, ?_⟩⟩
    · rcases mem_append.mp he with he | he
      · exact ht.whole e he
      · cases mem_singleton.mp he
        exact nofun
    · intro d hd e he
      cases mem_singleton.mp he
      exact hnone d hd

theorem erase (ht : t.Proper) (k : Value) : (t.erase k).Proper :=
  ⟨fun e he => ht.whole e (mem_filter.mp he).1, ht.distinct.filter _⟩

theorem get?_put_int (ht : t.Proper) (hq : q.NoFraction) (n : Int) (v : Value) :
    (t.put (.int n) v).get? q = if q.asInt? = some n then some v else t.get? q := by
  have hint := noFraction_int n
  rw [get?_put, get?, contains]
  by_cases hn : q.asInt? = some n
  · have hentry : t.entry? q = t.entry? (.int n) :=
      find?_congr fun e he => sameKey_eq_int (ht.whole e he) hn
    rw [if_pos hn, hentry, (sameKey_iff hint hn).mpr rfl]
    cases hfound : t.entry? (.int n) with
    | none => simp
    | some e => simp [sameKey_of_entry hfound]
  · have hself : (int n).sameKey q = false := Bool.eq_false_iff.mpr fun h =>
      hn (asInt?_eq_of_sameKey hint hq h).symm
    rw [if_neg hn, hself]
    cases hfound : t.entry? q with
    | none => simp
    | some e =>
      have hwhole := ht.whole e (mem_of_find?_eq_some hfound)
      simp [not_sameKey_int hwhole hq hn (sameKey_of_entry hfound)]

theorem get?_erase_int (ht : t.Proper) (hq : q.NoFraction) (n : Int) :
    (t.erase (.int n)).get? q = if q.asInt? = some n then none else t.get? q := by
  unfold Table.erase get? entry?
  rw [find?_filter]
  by_cases hn : q.asInt? = some n
  · rw [if_pos hn, Option.map_eq_none_iff, find?_eq_none]
    intro e he
    rw [sameKey_eq_int (ht.whole e he) hn]
    simp
  · rw [if_neg hn]
    congr 1
    refine find?_congr fun e he => ?_
    cases h : e.key.sameKey q with
    | false => simp
    | true => simp [not_sameKey_int (ht.whole e he) hq hn h]

theorem le_size (ht : t.Proper) {n : Nat}
    (h : ∀ k : Int, 1 ≤ k → k ≤ n → t.contains (.int k) = true) : n ≤ t.size := by
  have hsub : (range n).map (fun i : Nat => (i : Int) + 1) ⊆
      t.entries.filterMap (·.key.asInt?) := by
    intro k hk
    obtain ⟨i, hi, rfl⟩ := mem_map.mp hk
    rw [mem_range] at hi
    obtain ⟨e, he⟩ := Option.isSome_iff_exists.mp (h (i + 1) (by omega) (by omega))
    have hmem := mem_of_find?_eq_some he
    exact mem_filterMap.mpr
      ⟨e, hmem, (sameKey_iff (ht.whole e hmem) rfl).mp (sameKey_of_entry he)⟩
  have hnodup : ((range n).map fun i : Nat => (i : Int) + 1).Nodup :=
    List.Nodup.map (fun i j hij => by change (i : Int) + 1 = j + 1 at hij; omega) nodup_range
  have hlength := (subperm_of_subset hnodup hsub).length_le
  rw [length_map, length_range] at hlength
  exact hlength.trans (length_filterMap_le _ _)

end Proper

theorem firstFree_spec (t : Table) : ∀ (bound : Nat) (k : Int), k ≤ t.firstFree bound k ∧
    t.firstFree bound k ≤ k + bound ∧
    (∀ j, k ≤ j → j < t.firstFree bound k → t.contains (.int j) = true) ∧
    (t.firstFree bound k < k + bound → t.contains (.int (t.firstFree bound k)) = false)
  | 0, k => by simp only [firstFree]; exact ⟨by omega, by omega, by omega, by omega⟩
  | bound + 1, k => by
    rw [firstFree]
    split
    case isTrue hk =>
      obtain ⟨h1, h2, h3, h4⟩ := firstFree_spec t bound (k + 1)
      refine ⟨by omega, by omega, fun j hj hlt => ?_, fun h => h4 (by omega)⟩
      rcases Int.lt_or_eq_of_le hj with hj | rfl
      · exact h3 j (by omega) hlt
      · exact hk
    case isFalse hk =>
      exact ⟨by omega, by omega, by omega, fun _ => Bool.eq_false_iff.mpr hk⟩

/-- The border is the last of the whole numbers from one on that are all keys. -/
theorem Proper.border_spec {t : Table} (ht : t.Proper) : 0 ≤ t.border ∧ t.border ≤ t.size ∧
    (∀ k, 1 ≤ k → k ≤ t.border → t.contains (.int k) = true) ∧
    t.contains (.int (t.border + 1)) = false := by
  obtain ⟨h1, h2, h3, h4⟩ := firstFree_spec t (t.size + 1) 1
  have hbound : t.firstFree (t.size + 1) 1 < 1 + (t.size + 1 : Nat) := by
    by_contra hge
    have := ht.le_size (n := t.size + 1) fun k hk hle => h3 k hk (by omega)
    omega
  unfold border
  rw [Int.sub_add_cancel]
  exact ⟨by omega, by omega, fun k hk hle => h3 k hk (by omega), h4 hbound⟩

end Table
end WikiFeed.Lua

import Mathlib.Data.List.Sort
import WikiFeed.Proofs.Lua.Counting
import WikiFeed.Proofs.Lua.Tables
import WikiFeed.Proofs.Outcome
import WikiFeed.Proofs.Prefab.Blind

/-! # Sequences in tables

The whole numbers among the keys of a table need not be a sequence. An insertion at a whole number
moves all keys from it on by one, the greatest one first, so that none is lost (`insertAt_opens`). A
table whose whole numbers are those from one on is a list (`Lists`), into which a value is inserted
in this way. The library functions look for the next free number instead and put the value behind
the list, and a value that they remove from inside of it leaves the last one twice
(`tableInsert_appends`). -/

namespace WikiFeed.Prefab

open Lua List Value
open Outcome (bind_of_eq_ok)

/-! ### Lists in tables -/

/-- Two tables hold the same beside whole numbers. -/
def SameBeside (t t' : Table) : Prop :=
  ∀ q : Value, q.NoFraction → q.asInt? = none → t'.get? q = t.get? q

/-- The values at the whole numbers of a table are a list, in its order from one on. -/
structure Lists (t : Table) (xs : List Value) : Prop where
  item : ∀ n : Nat, t.get? (.int (n + 1)) = xs[n]?
  front : ∀ k ≤ 0, t.get? (.int k) = none

/-- A table in which a place was opened for a value: what was at it and behind it is one place
further on. -/
structure Opened (t : Table) (place : Int) (v : Value) (t' : Table) : Prop where
  front : ∀ k < place, t'.get? (.int k) = t.get? (.int k)
  here : t'.get? (.int place) = some v
  behind : ∀ k, place ≤ k → t'.get? (.int (k + 1)) = t.get? (.int k)
  beside : SameBeside t t'
  proper : t'.Proper

section Tables

variable {t : Table} {xs : List Value} {v : Value}

theorem sameBeside_put (ht : t.Proper) (n : Int) (v : Value) : SameBeside t (t.put (.int n) v) :=
  fun q hq hn => by rw [ht.get?_put_int hq, hn, if_neg nofun]

theorem sameBeside_erase (ht : t.Proper) (n : Int) : SameBeside t (t.erase (.int n)) :=
  fun q hq hn => by rw [ht.get?_erase_int hq, hn, if_neg nofun]

theorem SameBeside.trans {t' t'' : Table} (h : SameBeside t t') (h' : SameBeside t' t'') :
    SameBeside t t'' := fun q hq hn => (h' q hq hn).trans (h q hq hn)

theorem get?_put_at (ht : t.Proper) (n k : Int) (v : Value) :
    (t.put (.int n) v).get? (.int k) = if k = n then some v else t.get? (.int k) := by
  rw [ht.get?_put_int (noFraction_int k)]
  simp only [asInt?, Option.some.injEq]

theorem get?_erase_at (ht : t.Proper) (n k : Int) :
    (t.erase (.int n)).get? (.int k) = if k = n then none else t.get? (.int k) := by
  rw [ht.get?_erase_int (noFraction_int k)]
  simp only [asInt?, Option.some.injEq]

theorem contains_iff_at (t : Table) (k : Int) :
    t.contains (.int k) = true ↔ (t.get? (.int k)).isSome := by
  rw [Table.contains, Table.get?, Option.isSome_map]

/-! ### Moving keys up -/

theorem get?_shiftUp (ht : t.Proper) {n : Int} (hn : (t.get? (.int n)).isSome) (k : Int) :
    (shiftUp t n).get? (.int k) =
      if k = n then none else if k = n + 1 then t.get? (.int n) else t.get? (.int k) := by
  obtain ⟨x, hx⟩ := Option.isSome_iff_exists.mp hn
  rw [shiftUp, get?_erase_at (ht.put _ _), get?_put_at ht, Table.get, hx]
  rfl

theorem get?_foldl_shiftUp : ∀ {ns : List Int} {t : Table}, t.Proper → ns.Pairwise (· > ·) →
    (∀ n ∈ ns, (t.get? (.int n)).isSome) → ∀ k : Int, (ns.foldl shiftUp t).get? (.int k) =
      if k - 1 ∈ ns then t.get? (.int (k - 1)) else if k ∈ ns then none else t.get? (.int k)
  | [], _, _, _, _, _ => by simp
  | n :: ns, t, ht, hsorted, hin, k => by
    rw [pairwise_cons] at hsorted
    have hn := hin n mem_cons_self
    have hmoved := get?_shiftUp ht hn
    -- the keys still to be moved are smaller, so that the move does not touch them
    have hlater : ∀ m ∈ ns, (shiftUp t n).get? (.int m) = t.get? (.int m) := fun m hm => by
      have := hsorted.1 m hm
      rw [hmoved, if_neg (by omega), if_neg (by omega)]
    have hproper : (shiftUp t n).Proper := (ht.put _ _).erase _
    rw [foldl_cons, get?_foldl_shiftUp hproper hsorted.2
      (fun m hm => by rw [hlater m hm]; exact hin m (mem_cons_of_mem n hm))]
    simp only [mem_cons]
    by_cases hprev : k - 1 ∈ ns
    · rw [if_pos hprev, if_pos (.inr hprev), hlater _ hprev]
    · by_cases hk : k ∈ ns
      · have := hsorted.1 k hk
        rw [if_neg hprev, if_pos hk, if_neg (by simp only [hprev, or_false]; omega),
          if_pos (.inr hk)]
      · grind

theorem sameBeside_foldl_shiftUp : ∀ (ns : List Int) {t : Table}, t.Proper →
    SameBeside t (ns.foldl shiftUp t) ∧ (ns.foldl shiftUp t).Proper
  | [], _, ht => ⟨fun _ _ _ => rfl, ht⟩
  | n :: ns, _, ht =>
    have hput := ht.put (n + 1) _
    have hrest := sameBeside_foldl_shiftUp ns (hput.erase (.int n))
    ⟨((sameBeside_put ht _ _).trans (sameBeside_erase hput n)).trans hrest.1, hrest.2⟩

theorem compareWith_ge_whole {k : Value} {n : Int} (hk : k.asInt? = some n) (place : Int) :
    compareWith .ge k (.int place) = .ok (decide (place ≤ n)) := by
  rw [← order_ge]
  cases k with
  | int i => cases hk; rfl
  | bool b => cases b <;> cases hk <;> rfl
  | _ => cases hk

theorem keysFrom_eq (place : Int) (ks : List Value) :
    keysFrom (.int place) ks = .ok ((ks.filterMap asInt?).filter (place ≤ ·)) := by
  induction ks with
  | nil => rfl
  | cons k ks ih =>
    rw [keysFrom, ih, filterMap_cons]
    cases hk : k.asInt? with
    | none => rfl
    | some n =>
      simp only
      rw [compareWith_ge_whole hk, filter_cons]
      rfl

def keysBehind (t : Table) (place : Int) : List Int :=
  ((t.keys.filterMap Value.asInt?).filter (place ≤ ·)).mergeSort (· ≥ ·)

theorem mem_keysBehind (ht : t.Proper) {place k : Int} :
    k ∈ keysBehind t place ↔ place ≤ k ∧ (t.get? (.int k)).isSome := by
  rw [keysBehind, mem_mergeSort, mem_filter, decide_eq_true_iff, And.comm, ← contains_iff_at,
    Table.contains, Table.entry?, find?_isSome, Table.keys, filterMap_map, mem_filterMap]
  refine and_congr_right fun _ => exists_congr fun e => and_congr_right fun he => ?_
  exact (sameKey_iff (ht.whole e he) rfl).symm

theorem keysBehind_sorted (ht : t.Proper) (place : Int) :
    (keysBehind t place).Pairwise (· > ·) := by
  have hnodup : (t.keys.filterMap asInt?).Nodup := by
    rw [Table.keys, filterMap_map]
    refine ht.distinct.imp_of_mem (fun hd he hne => ?_) |>.filterMap _ fun d e h => h
    exact fun i hi j hj hij => hne ((sameKey_iff (ht.whole _ hd) hj).mpr (hij ▸ hi))
  have hperm := mergeSort_perm ((t.keys.filterMap asInt?).filter (place ≤ ·)) (· ≥ ·)
  exact (sortedGE_mergeSort.pairwise.and (hperm.nodup_iff.mpr (hnodup.filter _))).imp
    fun h => lt_of_le_of_ne h.1 h.2.symm

theorem opened_insert (ht : t.Proper) (place : Int) (v : Value) :
    Opened t place v (((keysBehind t place).foldl shiftUp t).put (.int place) v) := by
  obtain ⟨hbeside, hproper⟩ := sameBeside_foldl_shiftUp (keysBehind t place) ht
  have hmoved := get?_foldl_shiftUp ht (keysBehind_sorted ht place)
    fun n hn => ((mem_keysBehind ht).mp hn).2
  simp only [mem_keysBehind ht] at hmoved
  refine ⟨fun k hk => ?_, ?_, fun k hk => ?_, hbeside.trans (sameBeside_put hproper _ _),
    hproper.put _ _⟩
  · rw [get?_put_at hproper, hmoved]
    grind
  · rw [get?_put_at hproper, if_pos rfl]
  · rw [get?_put_at hproper, hmoved, if_neg (by omega), Int.add_sub_cancel]
    cases h : t.get? (.int k) with
    | none =>
      have hk' : place ≤ k + 1 := by omega
      cases t.get? (.int (k + 1)) <;> simp [hk']
    | some x => simp [hk]

/-! ### Lists -/

theorem Lists.border_eq (h : Lists t xs) (ht : t.Proper) : t.border = xs.length := by
  obtain ⟨hzero, -, hin, hout⟩ := ht.border_spec
  obtain ⟨n, hn⟩ := Int.eq_ofNat_of_zero_le hzero
  rw [hn, Bool.eq_false_iff, Ne, contains_iff_at, h.item,
    Option.not_isSome_iff_eq_none, getElem?_eq_none_iff] at hout
  have hlast : n ≤ xs.length := by
    refine Nat.le_of_not_lt fun hlt => ?_
    have := hin (xs.length + 1) (by omega) (by omega)
    rw [contains_iff_at, h.item] at this
    simp at this
  omega

def push (t : Table) (v : Value) : Table := t.put (.int (t.border + 1)) v

theorem Lists.push (h : Lists t xs) (ht : t.Proper) (v : Value) : Lists (push t v) (xs ++ [v]) := by
  constructor
  · intro n
    rw [Prefab.push, get?_put_at ht, h.border_eq ht, h.item, getElem?_append, getElem?_singleton]
    grind
  · intro k hk
    rw [Prefab.push, get?_put_at ht, h.border_eq ht, if_neg (by omega), h.front k hk]

theorem Opened.lists {t' : Table} {i : Nat} (h : Opened t (i + 1) v t') (hl : Lists t xs)
    (hi : i ≤ xs.length) : Lists t' (xs.insertIdx i v) := by
  refine ⟨fun n => ?_, fun k hk => by rw [h.front k (by omega), hl.front k hk]⟩
  rw [getElem?_insertIdx]
  split
  case isTrue hlt => rw [h.front _ (by omega), hl.item]
  case isFalse hge =>
    split
    case isTrue heq => rw [heq, h.here, if_pos hi]
    case isFalse hne =>
      obtain ⟨j, rfl⟩ := Nat.exists_eq_add_one_of_ne_zero (show n ≠ 0 by omega)
      rw [Nat.cast_succ, h.behind _ (by omega), hl.item, Nat.add_sub_cancel]

theorem Lists.pop (h : Lists t xs) (ht : t.Proper) :
    Lists (t.erase (.int xs.length)) xs.dropLast := by
  refine ⟨fun n => ?_, fun k hk => by rw [get?_erase_at ht, h.front k hk, ite_self]⟩
  rw [get?_erase_at ht, h.item, getElem?_dropLast]
  grind

/-- A table in which the values between a place and the last one are moved down, while the last one
stays where it was. -/
structure Closed (t : Table) (place last : Int) (t' : Table) : Prop where
  moved : ∀ k, place ≤ k → k < last → t'.get? (.int k) = t.get? (.int (k + 1))
  kept : ∀ k, (k < place ∨ last ≤ k) → t'.get? (.int k) = t.get? (.int k)
  beside : SameBeside t t'
  proper : t'.Proper

theorem Closed.lists {t' : Table} {i : Nat} (h : Closed t (i + 1) xs.length t') (hl : Lists t xs)
    (hv : xs.getLast? = some v) (hi : i < xs.length) : Lists t' (xs.eraseIdx i ++ [v]) := by
  refine ⟨fun n => ?_, fun k hk => by rw [h.kept k (by omega), hl.front k hk]⟩
  rw [getLast?_eq_getElem?] at hv
  rw [getElem?_append, length_eraseIdx, if_pos hi, getElem?_eraseIdx, getElem?_singleton]
  by_cases hn : i ≤ n ∧ n + 1 < xs.length
  · rw [h.moved _ (by omega) (by omega), ← Nat.cast_succ, hl.item]
    grind
  · rw [h.kept _ (by omega), hl.item]
    grind

end Tables

/-! ### Tables of a machine -/

/-- An object of a machine is a table, a placeholder or an entity with given entries. -/
def Machine.Holds (m : Machine) (kind : Kind) (r : Ref) (t : Table) : Prop :=
  (Value.object kind r).isTable = true ∧
    ∃ c, m.store.cells[r]? = some c ∧ c.kind = kind ∧ c.entries = t

def Machine.rewrite (m : Machine) (r : Ref) (t : Table) : Machine :=
  { m with store := m.store.updateTable r fun _ => t }

section Machines

variable {m : Machine} {kind : Kind} {r : Ref} {t : Table} {v : Value}

theorem Machine.Holds.tableOf (h : m.Holds kind r t) : tableOf r m = .ok t m := by
  obtain ⟨-, c, hc, -, rfl⟩ := h
  change EStateM.Result.ok (m.store.table r) m = _
  simp [Store.table, Store.cell, hc]

theorem Machine.Holds.rewrite (h : m.Holds kind r t) (t' : Table) :
    (m.rewrite r t').Holds kind r t' := by
  obtain ⟨hkind, c, hc, rfl, -⟩ := h
  refine ⟨hkind, c.withEntries t', ?_, ?_⟩
  · simp [Machine.rewrite, Store.updateTable, Store.update, Array.getElem?_modify, hc]
  · cases c <;> first | exact ⟨rfl, rfl⟩ | cases hkind

theorem Machine.rewrite_rewrite (m : Machine) (r : Ref) (t t' : Table) :
    (m.rewrite r t).rewrite r t' = m.rewrite r t' := by
  unfold Machine.rewrite Store.updateTable Store.update
  congr 2
  refine Array.ext_getElem? fun i => ?_
  rw [Array.getElem?_modify, Array.getElem?_modify, Array.getElem?_modify]
  split
  · rw [Option.map_map]
    congr 1
    funext c
    cases c <;> rfl
  · rfl

theorem Machine.Holds.modifyTable (h : m.Holds kind r t) (f : Table → Table) :
    modifyTable r f m = .ok () (m.rewrite r (f t)) := by
  obtain ⟨-, c, hc, -, rfl⟩ := h
  change EStateM.Result.ok () { m with store := m.store.updateTable r f } = _
  unfold Machine.rewrite Store.updateTable Store.update
  congr 3
  refine Array.ext_getElem? fun i => ?_
  rw [Array.getElem?_modify, Array.getElem?_modify]
  split
  case isTrue hi =>
    rw [← hi, hc]
    rfl
  case isFalse => rfl

theorem Machine.Holds.rewrite_self (h : m.Holds kind r t) : m.rewrite r t = m := by
  obtain ⟨-, c, hc, -, rfl⟩ := h
  have hcells : m.store.cells.modify r (·.withEntries c.entries) = m.store.cells := by
    refine Array.ext_getElem? fun i => ?_
    rw [Array.getElem?_modify]
    split
    case isTrue hi =>
      rw [← hi, hc]
      cases c <;> rfl
    case isFalse => rfl
  change { m with store := ⟨m.store.cells.modify r (·.withEntries c.entries)⟩ } = m
  rw [hcells]

theorem insertAt_place (h : m.Holds kind r t) (place : Int) (v : Value) :
    insertAt r v (.int place) m =
      .ok () (m.rewrite r (((keysBehind t place).foldl shiftUp t).put (.int place) v)) := by
  have hkeys : lift (keysFrom (.int place) t.keys) m =
      .ok ((t.keys.filterMap asInt?).filter (place ≤ ·)) m := by
    rw [keysFrom_eq]
    rfl
  rw [insertAt, bind_of_eq_ok h.tableOf, if_neg (by simp [isNil]), bind_of_eq_ok hkeys,
    bind_of_eq_ok (h.modifyTable _), if_pos (by simp [isKey]),
    (h.rewrite _).modifyTable, Machine.rewrite_rewrite]
  rfl

theorem insertAt_nil (h : m.Holds kind r t) (v : Value) :
    insertAt r v .nil m = .ok () (m.rewrite r (push t v)) := h.modifyTable _

theorem insertFrom_eq (h : m.Holds kind r t) (ht : t.Proper) (v : Value) : ∀ (fuel : Nat) (k : Int),
    1 ≤ k → k ≤ t.border + 1 → t.border + 1 < k + fuel →
      insertFrom r v fuel (.int k) m = .ok () (m.rewrite r (push t v))
  | 0, k, _, hle, hfuel => by omega
  | fuel + 1, k, hk, hle, hfuel => by
    rw [insertFrom, if_neg (by simp [isKey])]
    refine (bind_of_eq_ok h.tableOf).trans ?_
    obtain ⟨-, -, hin, hout⟩ := ht.border_spec
    rcases Int.lt_or_eq_of_le hle with hlt | rfl
    · rw [if_pos (hin k hk (by omega))]
      exact insertFrom_eq h ht v fuel (k + 1) (by omega) (by omega) (by omega)
    · rw [hout]
      exact h.modifyTable _

/-- The value that a library insertion puts behind a sequence, and the place from which it looks for
the next free one. -/
theorem tableInsert_eq (h : m.Holds kind r t) (ht : t.Proper) {position v w : Value} {k : Int}
    (hargs : (if v.isNil then (.int 1, position)
      else (if position.isNil then .int 1 else position, v)) = (int k, w))
    (hk : 1 ≤ k) (hle : k ≤ t.border + 1) :
    tableInsert (.object kind r) position v m = .ok .nil (m.rewrite r (push t w)) := by
  have hsize := ht.border_spec.2.1
  unfold tableInsert
  simp only [h.1, hargs, Bool.not_true, Bool.false_eq_true, if_false]
  refine (bind_of_eq_ok h.tableOf).trans ?_
  exact bind_of_eq_ok (insertFrom_eq h ht w _ k hk hle (by omega))

theorem closed_of_put (ht : t.Proper) {k last : Int} (hlt : k < last) {t' : Table}
    (hv : t.get? (.int (k + 1)) = some v) (h : Closed (t.put (.int k) v) (k + 1) last t') :
    Closed t k last t' := by
  refine ⟨fun j hj hj' => ?_, fun j hj => ?_, (sameBeside_put ht k v).trans h.beside, h.proper⟩
  · rcases Int.lt_or_eq_of_le hj with hj | rfl
    · rw [h.moved j hj hj', get?_put_at ht, if_neg (by omega)]
    · rw [h.kept k (by omega), get?_put_at ht, if_pos rfl, hv]
  · rw [h.kept j (by omega), get?_put_at ht, if_neg (by omega)]

theorem shiftDown_eq {last : Int} : ∀ (fuel : Nat) {m : Machine} {t : Table} {k : Int},
    m.Holds kind r t → t.Proper → k ≤ last → last ≤ k + fuel →
    (∀ j, k < j → j ≤ last → (t.get? (.int j)).isSome) →
    ∃ t', Closed t k last t' ∧ shiftDown r last fuel (.int k) m = .ok () (m.rewrite r t')
  | 0, m, t, k, h, ht, hle, hfuel, _ => by
    refine ⟨t, ⟨by omega, fun _ _ => rfl, fun _ _ _ => rfl, ht⟩, ?_⟩
    rw [shiftDown, h.rewrite_self]
    rfl
  | fuel + 1, m, t, k, h, ht, hle, hfuel, hin => by
    have hcompare : lift (compareWith .lt (.int k) (.int last)) m = .ok (decide (k < last)) m := by
      change lift (order .lt (.int k) (.int last)) m = _
      rw [order_lt]
      rfl
    have hget : (get : Eval Machine) m = .ok m m := rfl
    have hadd : lift (arithmetic m.store .add (.int k) (.int 1)) m = .ok (.int (k + 1)) m := rfl
    rw [shiftDown]
    rcases Int.lt_or_eq_of_le hle with hlt | rfl
    · obtain ⟨v, hv⟩ := Option.isSome_iff_exists.mp (hin (k + 1) (by omega) (by omega))
      have hrest : ∀ j, k + 1 < j → j ≤ last → ((t.put (.int k) v).get? (.int j)).isSome := by
        intro j hj hj'
        rw [get?_put_at ht, if_neg (by omega)]
        exact hin j (by omega) hj'
      obtain ⟨t', hclosed, hrun⟩ := shiftDown_eq fuel (h.rewrite _) (ht.put k v)
        (by omega) (by omega) hrest
      refine ⟨t', closed_of_put ht hlt hv hclosed, ?_⟩
      rw [bind_of_eq_ok hcompare, decide_eq_true hlt, if_pos rfl]
      refine (bind_of_eq_ok hget).trans ((bind_of_eq_ok hadd).trans ?_)
      rw [if_neg (by simp [isKey])]
      refine (bind_of_eq_ok h.tableOf).trans ?_
      rw [hv]
      refine (bind_of_eq_ok (h.modifyTable _)).trans ?_
      rw [hrun, Machine.rewrite_rewrite]
    · refine ⟨t, ⟨by omega, fun _ _ => rfl, fun _ _ _ => rfl, ht⟩, ?_⟩
      rw [bind_of_eq_ok hcompare, h.rewrite_self, decide_eq_false (by omega)]
      rfl

theorem tableRemove_place (h : m.Holds kind r t) (ht : t.Proper) {k : Int} (hk : 1 ≤ k)
    (hle : k ≤ t.border) : ∃ t', Closed t k t.border t' ∧
      tableRemove (.object kind r) (.int k) m = .ok .nil (m.rewrite r t') := by
  obtain ⟨-, hsize, hin, -⟩ := ht.border_spec
  obtain ⟨t', hclosed, hrun⟩ := shiftDown_eq (t.size + 2) h ht hle (by omega)
    fun j hj hj' => (contains_iff_at t j).mp (hin j (by omega) hj')
  refine ⟨t', hclosed, ?_⟩
  have hborder : (t.border != 0) = true := bne_iff_ne.mpr (by omega)
  unfold tableRemove
  simp only [h.1, Bool.not_true, Bool.false_eq_true, if_false]
  refine (bind_of_eq_ok h.tableOf).trans ?_
  rw [if_neg (by simp [isNil]), if_pos hborder]
  exact bind_of_eq_ok hrun

theorem tableRemove_last (h : m.Holds kind r t) (ht : t.Proper) (hpos : 0 < t.border) :
    tableRemove (.object kind r) .nil m = .ok .nil (m.rewrite r (t.erase (.int t.border))) := by
  have hlast := ht.border_spec.2.2.1 t.border (by omega) (by omega)
  unfold tableRemove
  simp only [h.1, Bool.not_true, Bool.false_eq_true, if_false]
  refine (bind_of_eq_ok h.tableOf).trans ?_
  rw [if_pos (show nil.isNil = true from rfl), if_pos hlast]
  exact bind_of_eq_ok (h.modifyTable _)

theorem forM_push {act : Value → Eval Unit}
    (hact : ∀ {m t} v, m.Holds kind r t → t.Proper → act v m = .ok () (m.rewrite r (push t v))) :
    ∀ (vs : List Value) {m : Machine} {t : Table} {xs : List Value}, m.Holds kind r t → t.Proper →
      Lists t xs → ∃ t', vs.forM act m = .ok () (m.rewrite r t') ∧ Lists t' (xs ++ vs) ∧
        SameBeside t t' ∧ t'.Proper
  | [], m, t, xs, h, ht, hl =>
    ⟨t, by rw [h.rewrite_self]; rfl, by rwa [append_nil], fun _ _ _ => rfl, ht⟩
  | v :: vs, m, t, xs, h, ht, hl => by
    obtain ⟨t', hrun, hl', hbeside, hproper⟩ := forM_push hact vs (h.rewrite (push t v))
      (ht.put _ v) (hl.push ht v)
    refine ⟨t', ?_, by simpa using hl', (sameBeside_put ht _ v).trans hbeside, hproper⟩
    refine (bind_of_eq_ok (hact v h ht)).trans ?_
    rw [hrun, Machine.rewrite_rewrite]

/-- A value that is put at a whole number opens a place for it, whatever whole numbers are keys of
the table. One that is put behind the sequence changes nothing else, so that values which are put
behind an empty table one after the other are a list. -/
theorem insertAt_opens (h : m.Holds kind r t) (ht : t.Proper) :
    (∀ v place, ∃ t', insertAt r v (.int place) m = .ok () (m.rewrite r t') ∧
      Opened t place v t') ∧
    (∀ v, ∃ t', insertAt r v .nil m = .ok () (m.rewrite r t') ∧
      tableInsert (.object kind r) v .nil m = .ok .nil (m.rewrite r t') ∧
      (∀ k, t'.get? (.int k) = if k = t.border + 1 then some v else t.get? (.int k)) ∧
      SameBeside t t' ∧ t'.Proper) ∧
    (t.entries = [] → ∀ vs : List Value, ∀ act ∈ [fun v => insertAt r v .nil,
        fun v => discard (tableInsert (.object kind r) v .nil)],
      ∃ t', vs.forM act m = .ok () (m.rewrite r t') ∧ Lists t' vs ∧
        ∀ q : Value, q.NoFraction → q.asInt? = none → t'.get? q = none) := by
  have hone {m t} (v : Value) (h : m.Holds kind r t) (ht : t.Proper) :
      tableInsert (.object kind r) v .nil m = .ok .nil (m.rewrite r (push t v)) :=
    tableInsert_eq h ht rfl (Int.le_refl 1) (by have := ht.border_spec.1; omega)
  refine ⟨fun v place => ⟨_, insertAt_place h place v, opened_insert ht place v⟩,
    fun v => ⟨_, insertAt_nil h v, hone v h ht, fun k => get?_put_at ht _ k v,
      sameBeside_put ht _ v, ht.put _ v⟩, fun hempty vs act hact => ?_⟩
  have hnone (q : Value) : t.get? q = none := by rw [Table.get?, Table.entry?, hempty]; rfl
  have hlists : Lists t [] := ⟨fun n => hnone _, fun k _ => hnone _⟩
  have hstep : ∀ {m t} v, m.Holds kind r t → t.Proper →
      act v m = .ok () (m.rewrite r (push t v)) := by
    intro m t v h ht
    rcases List.mem_pair.mp hact with rfl | rfl
    · exact insertAt_nil h v
    · exact bind_of_eq_ok (hone v h ht)
  obtain ⟨t', hrun, hl, hbeside, -⟩ := forM_push hstep vs h ht hlists
  exact ⟨t', hrun, hl, fun q hq hn => (hbeside q hq hn).trans (hnone q)⟩

def sparse : Table :=
  ⟨[⟨0, .int (-1), .str "a"⟩, ⟨1, .int 2, .str "b"⟩, ⟨2, .str "n", .bool true⟩], 3⟩

def tabular (t : Table) : Machine := { (default : Machine) with store := ⟨#[.table t]⟩ }

theorem holds_tabular (t : Table) : (tabular t).Holds .table 0 t := ⟨rfl, .table t, rfl, rfl, rfl⟩

theorem insertAt_opens_sparse :
    ∃ t', insertAt 0 (.str "c") (.int 2) (tabular sparse) = .ok () ((tabular sparse).rewrite 0 t') ∧
      t'.get? (.int (-1)) = some (.str "a") ∧ t'.get? (.int 2) = some (.str "c") ∧
      t'.get? (.int 3) = some (.str "b") ∧ t'.get? (.str "n") = some (.bool true) := by
  have hproper : sparse.Proper := ⟨by simp [sparse, Value.NoFraction], by decide⟩
  obtain ⟨t', hrun, hopened⟩ :=
    (insertAt_opens (holds_tabular sparse) hproper).1 (.str "c") 2
  exact ⟨t', hrun, hopened.front (-1) (by decide), hopened.here, hopened.behind 2 (by decide),
    hopened.beside (.str "n") (by simp [Value.NoFraction]) rfl⟩

/-- Values at whole numbers are put at their place of a list, but the library puts them behind it,
and a value that it takes away there leaves the last one twice. -/
theorem tableInsert_appends {xs : List Value} {i : Nat} (h : m.Holds kind r t) (ht : t.Proper)
    (hl : Lists t xs) (hv : v.isNil = false) :
    (i ≤ xs.length → ∃ t', insertAt r v (.int (i + 1)) m = .ok () (m.rewrite r t') ∧
      Lists t' (xs.insertIdx i v) ∧ SameBeside t t') ∧
    (i ≤ xs.length → ∃ t', tableInsert (.object kind r) (.int (i + 1)) v m =
        .ok .nil (m.rewrite r t') ∧ Lists t' (xs ++ [v]) ∧ SameBeside t t') ∧
    (∀ x, xs.getLast? = some x → i < xs.length →
      ∃ t', tableRemove (.object kind r) (.int (i + 1)) m = .ok .nil (m.rewrite r t') ∧
        Lists t' (xs.eraseIdx i ++ [x]) ∧ SameBeside t t') ∧
    (xs ≠ [] → ∃ t', tableRemove (.object kind r) .nil m = .ok .nil (m.rewrite r t') ∧
      Lists t' xs.dropLast ∧ SameBeside t t') := by
  have hborder := hl.border_eq ht
  refine ⟨fun hi => ?_, fun hi => ?_, fun x hx hi => ?_, fun hne => ?_⟩
  · have hopened := opened_insert ht (i + 1) v
    exact ⟨_, insertAt_place h _ v, hopened.lists hl hi, hopened.beside⟩
  · have hargs : (if v.isNil then (Value.int 1, Value.int (i + 1))
        else (if (Value.int (i + 1)).isNil then .int 1 else .int (i + 1), v)) =
          (.int (i + 1), v) := by
      rw [hv]
      rfl
    exact ⟨_, tableInsert_eq h ht hargs (by omega) (by omega), hl.push ht v, sameBeside_put ht _ v⟩
  · obtain ⟨t', hclosed, hrun⟩ := tableRemove_place h ht (k := i + 1) (by omega) (by omega)
    rw [hborder] at hclosed
    exact ⟨t', hrun, hclosed.lists hl hx hi, hclosed.beside⟩
  · have hlength := List.length_pos_iff.mpr hne
    refine ⟨_, tableRemove_last h ht (by omega), ?_, sameBeside_erase ht _⟩
    rw [hborder]
    exact hl.pop ht

def oneTwo : Table := push (push .empty (.int 1)) (.int 2)

theorem tableInsert_appends_oneTwo :
    (∃ t', tableInsert (.object .table 0) (.int 1) (.int 0) (tabular oneTwo) =
        .ok .nil ((tabular oneTwo).rewrite 0 t') ∧ Lists t' [.int 1, .int 2, .int 0]) ∧
    ∃ t', tableRemove (.object .table 0) (.int 1) (tabular oneTwo) =
        .ok .nil ((tabular oneTwo).rewrite 0 t') ∧ Lists t' [.int 2, .int 2] := by
  have hempty : Lists .empty [] := ⟨fun _ => rfl, fun _ _ => rfl⟩
  have hone := Table.proper_empty.put 1 (.int 1)
  have hlists : Lists oneTwo [.int 1, .int 2] :=
    (hempty.push Table.proper_empty (.int 1)).push hone (.int 2)
  have hinserted := tableInsert_appends (i := 0) (v := .int 0) (holds_tabular oneTwo)
    (hone.put 2 (.int 2)) hlists rfl
  obtain ⟨t₁, hrun₁, hlists₁, -⟩ := hinserted.2.1 (by decide)
  obtain ⟨t₂, hrun₂, hlists₂, -⟩ := hinserted.2.2.1 (.int 2) rfl (by decide)
  exact ⟨⟨t₁, hrun₁, hlists₁⟩, t₂, hrun₂, hlists₂⟩

/-- What is inserted in front of a list is not found there. -/
theorem tableInsert_not_insertIdx :
    ((finalState (tableInsert (.object .table 0) (.int 1) (.int 0) (tabular oneTwo))).store.table
      0).get? (.int 1) = some (.int 1) := by
  with_unfolding_all rfl

end Machines

end WikiFeed.Prefab

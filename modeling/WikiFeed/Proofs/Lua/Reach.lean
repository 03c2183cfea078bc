import Mathlib.Order.Basic
import WikiFeed.Lua.Table
import WikiFeed.Proofs.Lua.Syntax
import WikiFeed.Proofs.Places

/-! # Values within reach

A `Reach` marks some scopes, objects and functions, and may ask that functions are tame. A value is
good if all objects in it are marked and all functions in it are marked and as tame as asked. What
is taken out of a good table is good, and a store whose marked objects hold only good values stays
so when good values are written to it or a new object is made of them. -/

namespace WikiFeed.Lua

open List

def Tree.tame : Tree → Bool
  | .expr e => e.tame
  | .stmt s => s.tame false

/-- What is within reach: scopes, objects, and functions by their labels; and whether functions have
to be tame. -/
structure Reach where
  scope : Nat → Prop
  cell : Ref → Prop
  label : Nat → Prop
  tame : Bool

/-- One reach is below another one if it marks nothing else. -/
instance : Preorder Reach where
  le R S := (∀ i, R.scope i → S.scope i) ∧ (∀ r, R.cell r → S.cell r) ∧
    (∀ l, R.label l → S.label l) ∧ (S.tame = true → R.tame = true)
  le_refl _ := ⟨fun _ => id, fun _ => id, fun _ => id, id⟩
  le_trans _ _ _ h₁ h₂ :=
    ⟨fun i h => h₂.1 i (h₁.1 i h), fun r h => h₂.2.1 r (h₁.2.1 r h),
      fun l h => h₂.2.2.1 l (h₁.2.2.1 l h), fun h => h₁.2.2.2 (h₂.2.2.2 h)⟩

mutual

/-- A value in which all objects are marked, and all functions are marked and as tame as asked. -/
def Good (R : Reach) : Value → Prop
  | .tuple xs => AllGood R xs
  | .rest xs => AllGood R xs
  | .spread xs => AllGood R xs
  | .object _ r => R.cell r
  | .func f => R.label f.label ∧ (R.tame = true → f.tame = true)
  | .tree t => R.tame = true → t.tame = true
  | .method self _ => Good R self
  | _ => True

def AllGood (R : Reach) : List Value → Prop
  | [] => True
  | v :: vs => Good R v ∧ AllGood R vs

end

section Lists

variable {R S : Reach}

theorem allGood_nil : AllGood R [] := trivial

theorem allGood_iff : ∀ {vs : List Value}, AllGood R vs ↔ ∀ v ∈ vs, Good R v
  | [] => by simp [AllGood]
  | v :: vs => by simp [AllGood, allGood_iff]

theorem AllGood.mem {vs : List Value} {v : Value} (h : AllGood R vs) (hv : v ∈ vs) : Good R v :=
  allGood_iff.mp h v hv

theorem AllGood.subset {us vs : List Value} (h : AllGood R vs) (hsub : ∀ v ∈ us, v ∈ vs) :
    AllGood R us :=
  allGood_iff.mpr fun v hv => h.mem (hsub v hv)

@[simp]
theorem allGood_append {us vs : List Value} :
    AllGood R (us ++ vs) ↔ AllGood R us ∧ AllGood R vs := by
  simp only [allGood_iff, mem_append]
  exact ⟨fun h => ⟨fun v hv => h v (.inl hv), fun v hv => h v (.inr hv)⟩,
    fun h v hv => hv.elim (h.1 v) (h.2 v)⟩

mutual

theorem Good.mono (h : R ≤ S) : ∀ {v : Value}, Good R v → Good S v
  | .tuple _, hv | .rest _, hv | .spread _, hv => AllGood.mono h hv
  | .object _ r, hv => h.2.1 r hv
  | .func f, hv => ⟨h.2.2.1 f.label hv.1, fun ht => hv.2 (h.2.2.2 ht)⟩
  | .tree _, hv => fun ht => hv (h.2.2.2 ht)
  | .method self _, hv => Good.mono h (v := self) hv
  | .nil, _ | .bool _, _ | .int _, _ | .float _, _ | .complex _ _, _ | .str _, _ | .lazy _, _
  | .native _, _ | .module _, _ | .view _ _ _, _ => trivial

theorem AllGood.mono (h : R ≤ S) : ∀ {vs : List Value}, AllGood R vs → AllGood S vs
  | [], _ => trivial
  | _ :: _, hvs => ⟨Good.mono h hvs.1, AllGood.mono h hvs.2⟩

end

def Reach.everything : Reach := ⟨fun _ => True, fun _ => True, fun _ => True, false⟩

mutual

theorem good_everything : ∀ v : Value, Good .everything v
  | .tuple vs | .rest vs | .spread vs => allGood_everything vs
  | .func _ => ⟨trivial, nofun⟩
  | .tree _ => nofun
  | .method self _ => good_everything self
  | .object _ _ | .nil | .bool _ | .int _ | .float _ | .complex _ _ | .str _ | .lazy _ | .native _
  | .module _ | .view _ _ _ => trivial

theorem allGood_everything : ∀ vs : List Value, AllGood .everything vs
  | [] => trivial
  | v :: vs => ⟨good_everything v, allGood_everything vs⟩

end

end Lists

/-! ### Tables -/

def Table.contents (t : Table) : List Value := t.keys ++ t.values

section Tables

variable {R : Reach} {t : Table} {k v : Value}

theorem allGood_contents_iff :
    AllGood R t.contents ↔ ∀ e ∈ t.entries, Good R e.key ∧ Good R e.value := by
  unfold Table.contents Table.keys Table.values
  rw [allGood_append, allGood_iff, allGood_iff]
  simp only [forall_mem_map]
  exact ⟨fun h e he => ⟨h.1 e he, h.2 e he⟩,
    fun h => ⟨fun e he => (h e he).1, fun e he => (h e he).2⟩⟩

theorem AllGood.toList (h : AllGood R t.contents) : ∀ p ∈ t.toList, Good R p.1 ∧ Good R p.2 := by
  intro p hp
  obtain ⟨e, he, rfl⟩ := mem_map.mp hp
  exact allGood_contents_iff.mp h e he

theorem allGood_contents_empty : AllGood R Table.empty.contents := trivial

theorem AllGood.put (h : AllGood R t.contents) (hk : Good R k) (hv : Good R v) :
    AllGood R (t.put k v).contents := by
  rw [allGood_contents_iff] at h ⊢
  unfold Table.put
  split
  · intro e he
    obtain ⟨e', he', rfl⟩ := mem_map.mp he
    split
    · exact ⟨(h e' he').1, hv⟩
    · exact h e' he'
  · intro e he
    rcases mem_append.mp he with he | he
    · exact h e he
    · cases mem_singleton.mp he
      exact ⟨hk, hv⟩

theorem AllGood.erase (h : AllGood R t.contents) (k : Value) : AllGood R (t.erase k).contents := by
  rw [allGood_contents_iff] at h ⊢
  exact fun e he => h e (mem_filter.mp he).1

theorem AllGood.get? (h : AllGood R t.contents) (hv : t.get? k = some v) : Good R v := by
  obtain ⟨e, he, rfl⟩ := Option.map_eq_some_iff.mp hv
  exact (allGood_contents_iff.mp h e (mem_of_find?_eq_some he)).2

theorem AllGood.get (h : AllGood R t.contents) (k : Value) : Good R (t.get k) := by
  unfold Table.get
  cases hk : t.get? k with
  | none => exact trivial
  | some v => exact h.get? hk

theorem Table.get?_of_put {k' : Value} (h : (t.put k v).get? k' = none) : t.get? k' = none := by
  have hnone {t : Table} : t.get? k' = none ↔ ∀ e ∈ t.entries, ¬ e.key.sameKey k' = true := by
    rw [Table.get?, Option.map_eq_none_iff, Table.entry?, find?_eq_none]
  rw [hnone] at h ⊢
  intro e he
  unfold Table.put at h
  split at h
  · have hkey := h _ (mem_map_of_mem he)
    split at hkey
    · exact hkey
    · exact hkey
  · exact h e (mem_append_left _ he)

theorem AllGood.ofList {pairs : List (Value × Value)}
    (h : ∀ p ∈ pairs, Good R p.1 ∧ Good R p.2) : AllGood R (Table.ofList pairs).contents := by
  have hfold : ∀ (ps : List (Value × Value)) (t : Table), (∀ p ∈ ps, Good R p.1 ∧ Good R p.2) →
      AllGood R t.contents → AllGood R (ps.foldl (fun t p => t.put p.1 p.2) t).contents := by
    intro ps
    induction ps with
    | nil => exact fun _ _ ht => ht
    | cons p ps ih =>
      intro t hps ht
      obtain ⟨hk, hv⟩ := hps p mem_cons_self
      exact ih _ (fun q hq => hps q (mem_cons_of_mem _ hq)) (ht.put hk hv)
  exact hfold pairs _ h allGood_contents_empty

theorem AllGood.ofFields {fields : List (String × Value)} (h : ∀ p ∈ fields, Good R p.2) :
    AllGood R (Table.ofFields fields).contents := by
  refine AllGood.ofList fun p hp => ?_
  obtain ⟨q, hq, rfl⟩ := mem_map.mp hp
  exact ⟨trivial, h q hq⟩

end Tables

/-! ### Objects -/

def Cell.contents : Cell → List Value
  | .table t => t.contents
  | .dummy t a => t.contents ++ a.toList
  | .entity t tags o a => t.contents ++ (tags ++ o :: a.toList)
  | .dict t => t.contents
  | .list xs => xs
  | .vector x y z => [x, y, z]
  | .asset t f p => [t, f, p]
  | .phrase n p => n :: (p.map (Value.object .phrase)).toList
  | .stub t n p => t.contents ++ n :: (p.map (Value.object .stub)).toList

/-- A store whose marked objects hold only good values. All objects that are still to come are
marked. -/
structure GoodStore (R : Reach) (s : Store) : Prop where
  contents : ∀ r, R.cell r → AllGood R (s.cell r).contents
  fresh : ∀ r, s.cells.size ≤ r → R.cell r

theorem goodStore_everything (s : Store) : GoodStore .everything s :=
  ⟨fun _ _ => allGood_everything _, fun _ _ => trivial⟩

section Objects

variable {R : Reach} {s : Store} {c : Cell} {t : Table} {r : Ref}

theorem AllGood.entries (h : AllGood R c.contents) : AllGood R c.entries.contents := by
  cases c with
  | table | dict => exact h
  | dummy | entity | stub => exact (allGood_append.mp h).1
  | list | vector | asset | phrase => exact trivial

theorem AllGood.withEntries (h : AllGood R c.contents) (ht : AllGood R t.contents) :
    AllGood R (c.withEntries t).contents := by
  cases c with
  | table | dict => exact ht
  | dummy | entity | stub => exact allGood_append.mpr ⟨ht, (allGood_append.mp h).2⟩
  | list | vector | asset | phrase => exact h

theorem GoodStore.table (h : GoodStore R s) (hr : R.cell r) : AllGood R (s.table r).contents :=
  (h.contents r hr).entries

theorem GoodStore.update (h : GoodStore R s) {f : Cell → Cell}
    (hf : R.cell r → AllGood R (s.cell r).contents → AllGood R (f (s.cell r)).contents) :
    GoodStore R (s.update r f) where
  contents q hq := by
    have hcell : (s.update r f).cell q = _ := Places.getD_modify s.cells r q f
    rw [hcell]
    split
    case isTrue hrq =>
      obtain ⟨rfl, -⟩ := hrq
      exact hf hq (h.contents r hq)
    case isFalse => exact h.contents q hq
  fresh q hq := h.fresh q (by simpa [Store.update] using hq)

theorem GoodStore.updateTable (h : GoodStore R s) {f : Table → Table}
    (hf : ∀ t, AllGood R t.contents → AllGood R (f t).contents) : GoodStore R (s.updateTable r f) :=
  h.update fun _ hc => hc.withEntries (hf _ hc.entries)

theorem GoodStore.alloc (h : GoodStore R s) (hc : AllGood R c.contents) :
    GoodStore R (s.alloc c).2 where
  contents q hq := by
    have hcell : (s.alloc c).2.cell q = if q = s.cells.size then c else s.cell q :=
      Places.getD_push s.cells c q
    rw [hcell]
    split
    · exact hc
    · exact h.contents q hq
  fresh q hq := by
    refine h.fresh q (Nat.le_of_succ_le ?_)
    simpa [Store.alloc] using hq

theorem GoodStore.good_alloc (h : GoodStore R s) : Good R (s.alloc c).1 :=
  h.fresh _ (Nat.le_refl _)

end Objects

end WikiFeed.Lua

import Mathlib.Data.List.Nodup
import WikiFeed.Proofs.Places

/-! # Entries over entries

Entries are laid over others one by one: an entry under a new key comes behind all, an entry under
a key that is there is joined with the one at its place. So the keys stand in the order in which
they came up (`keys_overlay`), and under a key stands what the two entries make up
(`lookup_overlay`). Entries under different keys are known by these two (`eq_of_lookup_eq`), so
laying over is associative wherever joining is (`overlay_assoc`). -/

namespace WikiFeed.Places

open List

variable {κ α : Type}

def Distinct (ps : List (κ × α)) : Prop := (ps.map (·.1)).Nodup

variable {ps : List (κ × α)}

theorem Distinct.of_cons {p : κ × α} (h : Distinct (p :: ps)) :
    p.1 ∉ ps.map (·.1) ∧ Distinct ps := nodup_cons.mp h

variable [BEq κ] [LawfulBEq κ]

variable {k : κ}

/-- **Entries under different keys** are the same if they have the same keys in the same order and
the same values under them. -/
theorem eq_of_lookup_eq : ∀ {a b : List (κ × α)}, Distinct a → a.map (·.1) = b.map (·.1) →
    (∀ k, a.lookup k = b.lookup k) → a = b
  | [], b, _, hkeys, _ => (map_eq_nil_iff.mp hkeys.symm).symm
  | p :: a, [], _, hkeys, _ => by cases hkeys
  | (k, x) :: a, (l, y) :: b, ha, hkeys, hlookup => by
    rw [map_cons, map_cons, cons.injEq] at hkeys
    obtain ⟨rfl, hkeys⟩ := hkeys
    obtain ⟨hnew, ha⟩ := ha.of_cons
    have hx : x = y := by simpa using hlookup k
    have hrest : ∀ j, a.lookup j = b.lookup j := by
      intro j
      by_cases hj : j = k
      · rw [hj, lookup_eq_none_of_not_mem hnew, lookup_eq_none_of_not_mem (hkeys ▸ hnew)]
      · simpa [lookup_cons, beq_eq_false_iff_ne.mpr hj] using hlookup j
    rw [hx, eq_of_lookup_eq ha hkeys hrest]

theorem withKey_of_mem {ks : List κ} (h : k ∈ ks) : withKey ks k = ks :=
  if_pos (contains_iff_mem.mpr h)

theorem put_of_lookup (h : Distinct ps) {x : α} (hx : ps.lookup k = some x) : put ps k x = ps := by
  have hk : k ∈ ps.map (·.1) := (lookup_isSome_iff ps k).mp (by rw [hx]; rfl)
  have hkeys : (put ps k x).map (·.1) = ps.map (·.1) := by
    rw [keys_put, withKey_of_mem hk]
  refine eq_of_lookup_eq (by rw [Distinct, hkeys]; exact h) hkeys fun j => ?_
  rw [lookup_put]
  split
  case isTrue hj => rw [eq_of_beq hj, hx]
  case isFalse => rfl

theorem Distinct.put (h : Distinct ps) (k : κ) (x : α) : Distinct (put ps k x) := by
  rw [Distinct, keys_put]
  exact nodup_withKey h k

theorem mem_iff_lookup (h : Distinct ps) {p : κ × α} : p ∈ ps ↔ ps.lookup p.1 = some p.2 :=
  ⟨lookup_of_mem h, mem_of_lookup_eq_some⟩

theorem lookup_eq_of_perm {qs : List (κ × α)} (h : Distinct ps) (hperm : ps.Perm qs) (k : κ) :
    ps.lookup k = qs.lookup k := by
  have hq : Distinct qs := (hperm.map _).nodup_iff.mp h
  refine Option.ext fun x => ?_
  exact (mem_iff_lookup h (p := (k, x))).symm.trans (hperm.mem_iff.trans (mem_iff_lookup hq))

/-! ### Laying over -/

def joined (join : α → α → α) : Option α → Option α → Option α
  | some x, some y => some (join x y)
  | some x, none => some x
  | none, y => y

def lay (join : α → α → α) (own : List (κ × α)) (e : κ × α) : List (κ × α) :=
  put own e.1 (match own.lookup e.1 with
    | some x => join x e.2
    | none => e.2)

def overlay (join : α → α → α) (own other : List (κ × α)) : List (κ × α) :=
  other.foldl (lay join) own

variable {join : α → α → α}

theorem Distinct.lay {own : List (κ × α)} (h : Distinct own) (e : κ × α) :
    Distinct (lay join own e) := h.put _ _

theorem keys_lay (own : List (κ × α)) (e : κ × α) :
    (lay join own e).map (·.1) = withKey (own.map (·.1)) e.1 := keys_put _ _ _

theorem lookup_lay_self (own : List (κ × α)) (e : κ × α) :
    (lay join own e).lookup e.1 = joined join (own.lookup e.1) (some e.2) := by
  rw [lay, lookup_put_self]
  cases own.lookup e.1 <;> rfl

theorem lookup_overlay {own other : List (κ × α)} (h : Distinct other) (k : κ) :
    (overlay join own other).lookup k = joined join (own.lookup k) (other.lookup k) := by
  induction other generalizing own with
  | nil => cases h : own.lookup k <;> simp [overlay, joined, h]
  | cons e other ih =>
    obtain ⟨hnew, hother⟩ := h.of_cons
    rw [overlay, foldl_cons, ← overlay, ih hother, lookup_cons]
    by_cases hk : k = e.1
    · rw [hk, lookup_lay_self, lookup_eq_none_of_not_mem hnew, beq_self_eq_true]
      cases own.lookup e.1 <;> rfl
    · rw [lay, lookup_put_of_ne hk, beq_eq_false_iff_ne.mpr hk]

theorem keys_overlay {own other : List (κ × α)} (h : Distinct other) :
    (overlay join own other).map (·.1) =
      own.map (·.1) ++ (other.map (·.1)).filter fun k => !(own.map (·.1)).contains k := by
  induction other generalizing own with
  | nil => simp [overlay]
  | cons e other ih =>
    obtain ⟨hnew, hother⟩ := h.of_cons
    rw [overlay, foldl_cons, ← overlay, ih hother, keys_lay, map_cons]
    unfold withKey
    by_cases he : (own.map (·.1)).contains e.1 = true
    · rw [if_pos he, filter_cons_of_neg (by simpa using he)]
    · rw [if_neg he, filter_cons_of_pos (by simpa using he), append_assoc, singleton_append]
      refine congrArg (fun ks => own.map (·.1) ++ e.1 :: ks) (filter_congr fun k hk => ?_)
      have hne : k ≠ e.1 := fun heq => hnew (heq ▸ hk)
      simp [hne]

theorem Distinct.overlay {own other : List (κ × α)} (h : Distinct own) :
    Distinct (overlay join own other) := by
  induction other generalizing own with
  | nil => exact h
  | cons e other ih => exact ih (h.lay e)

section Forall

variable {P : κ × α → Prop} {own other : List (κ × α)}
  (hjoin : ∀ k x y, P (k, x) → P (k, y) → P (k, join x y))
include hjoin

theorem forall_lay (hown : ∀ e ∈ own, P e) {e : κ × α} (he : P e) : ∀ f ∈ lay join own e, P f := by
  intro f hf
  rcases mem_put hf with rfl | hf
  · cases hlook : own.lookup e.1 with
    | none => exact he
    | some x => exact hjoin e.1 x e.2 (hown _ (mem_of_lookup_eq_some hlook)) he
  · exact hown f hf

theorem forall_overlay (hown : ∀ e ∈ own, P e) (hother : ∀ e ∈ other, P e) :
    ∀ f ∈ overlay join own other, P f := by
  induction other generalizing own with
  | nil => exact hown
  | cons e other ih =>
    rw [forall_mem_cons] at hother
    exact ih (forall_lay hjoin hown hother.1) hother.2

end Forall

theorem joined_assoc {x y z : Option α}
    (h : ∀ u ∈ x, ∀ v ∈ y, ∀ w ∈ z, join (join u v) w = join u (join v w)) :
    joined join (joined join x y) z = joined join x (joined join y z) := by
  cases x with
  | none => rfl
  | some u =>
    cases y with
    | none => rfl
    | some v =>
      cases z with
      | none => rfl
      | some w => exact congrArg some (h u rfl v rfl w rfl)

/-- **Laying over is associative**, also in the order of keys, where joining is. -/
theorem overlay_assoc {a b c : List (κ × α)} (ha : Distinct a) (hb : Distinct b) (hc : Distinct c)
    (h : ∀ k, ∀ u ∈ a.lookup k, ∀ v ∈ b.lookup k, ∀ w ∈ c.lookup k,
      join (join u v) w = join u (join v w)) :
    overlay join (overlay join a b) c = overlay join a (overlay join b c) := by
  have hbc : Distinct (overlay join b c) := hb.overlay
  refine eq_of_lookup_eq ha.overlay.overlay ?_ fun k => ?_
  · rw [keys_overlay hc, keys_overlay hb, keys_overlay hbc, keys_overlay hc, filter_append,
      filter_filter, append_assoc]
    refine congrArg (fun ks => a.map (·.1) ++ (filter _ (b.map (·.1)) ++ ks))
      (filter_congr fun k _ => ?_)
    rw [Bool.eq_iff_iff]
    simp only [Bool.not_eq_true', Bool.and_eq_true, contains_iff_mem, ← Bool.not_eq_true,
      mem_append, mem_filter]
    tauto
  · rw [lookup_overlay hc, lookup_overlay hb, lookup_overlay hbc, lookup_overlay hc,
      joined_assoc (h k)]

end WikiFeed.Places

import Mathlib.Logic.Function.Iterate
import Mathlib.Tactic.SplitIfs
import WikiFeed.Region.Box

/-! # Joined boxes cover the same points

`hits boxes x y` is the number of boxes that the point `(x, y)` lies in. Two boxes that share a
whole edge make up a box that is hit exactly by their points, so joining boxes, over and over,
leaves all numbers of hits as they are (`hits_joinAll`). Where no point is hit twice, the boxes have
no point in common (`pairwise_apart_of_hits_le`). Joining ends with a pass that finds nothing to
join (`exists_joinAll_eq`), so of boxes that lie apart it makes boxes that lie apart, cover the same
points and cannot be joined (`joinAll_joined`). -/

namespace WikiFeed.Box

open List

def Proper (b : Box) : Prop := 0 < b.w ∧ 0 < b.h

def Apart (a b : Box) : Prop := a.meets b = false

def hits (boxes : List Box) (x y : Int) : Nat := boxes.countP (·.contains x y)

theorem contains_iff {b : Box} {x y : Int} : b.contains x y = true ↔
    b.x ≤ x ∧ x < b.x + b.w ∧ b.y ≤ y ∧ y < b.y + b.h := by
  simp [contains, and_assoc]

theorem meets_iff {a b : Box} : a.meets b = true ↔
    b.x < a.x + a.w ∧ a.x < b.x + b.w ∧ a.y < b.y + b.h ∧ b.y < a.y + a.h := by
  simp [meets, and_assoc]

theorem hits_nil (x y : Int) : hits [] x y = 0 := rfl

theorem hits_cons (b : Box) (bs : List Box) (x y : Int) :
    hits (b :: bs) x y = hits bs x y + if b.contains x y = true then 1 else 0 := by
  rw [hits, countP_cons, ← hits]

theorem hits_append (as bs : List Box) (x y : Int) :
    hits (as ++ bs) x y = hits as x y + hits bs x y := countP_append

variable {bs as : List Box}

theorem hits_perm (h : as.Perm bs) (x y : Int) : hits as x y = hits bs x y :=
  h.countP_eq _

theorem hits_pos_iff {x y : Int} :
    0 < hits bs x y ↔ ∃ b ∈ bs, b.contains x y = true := countP_pos_iff

variable {o : Box}

theorem join?_eq_some {n j : Box} (h : join? n o = some j) (hn : n.Proper) (ho : o.Proper) :
    j.Proper ∧ ∀ x y, hits [j] x y = hits [n] x y + hits [o] x y := by
  obtain ⟨hnw, hnh⟩ := hn
  obtain ⟨how, hoh⟩ := ho
  unfold join? at h
  split_ifs at h with h1 h2
  · cases h
    refine ⟨⟨hnw, by simp only; omega⟩, fun x y => ?_⟩
    simp only [hits_cons, hits_nil, contains_iff]
    split_ifs <;> omega
  · cases h
    refine ⟨⟨by simp only; omega, hoh⟩, fun x y => ?_⟩
    simp only [hits_cons, hits_nil, contains_iff]
    split_ifs <;> omega

theorem partner?_eq_some {n j : Box} : ∀ {bs : List Box}, partner? o bs = some (n, j) →
    n ∈ bs ∧ join? n o = some j
  | [], h => by simp [partner?] at h
  | b :: bs, h => by
    unfold partner? at h
    split at h
    · next j' hj =>
      cases h
      exact ⟨mem_cons_self, hj⟩
    · obtain ⟨hm, hj⟩ := partner?_eq_some h
      exact ⟨mem_cons_of_mem _ hm, hj⟩

/-! ### Properties that joined boxes keep -/

section Keep
variable {P : Box → Prop} (hP : ∀ n o j, join? n o = some j → P n → P o → P j)
include hP

theorem forall_addJoined {done : List Box} (hd : ∀ b ∈ done, P b) (ho : P o) :
    ∀ b ∈ addJoined done o, P b := by
  unfold addJoined
  split
  · next n j h =>
    obtain ⟨hn, hj⟩ := partner?_eq_some h
    exact forall_mem_append.mpr ⟨fun b hb => hd b (mem_of_mem_erase hb),
      forall_mem_singleton.mpr (hP n o j hj (hd n hn) ho)⟩
  · exact forall_mem_append.mpr ⟨hd, forall_mem_singleton.mpr ho⟩

theorem forall_foldl_addJoined : ∀ (bs done : List Box), (∀ b ∈ done, P b) → (∀ b ∈ bs, P b) →
    ∀ b ∈ bs.foldl addJoined done, P b
  | [], _, hd, _ => hd
  | o :: bs, done, hd, hb => by
    have hd' := forall_addJoined hP hd (hb o mem_cons_self)
    exact forall_foldl_addJoined bs _ hd' fun b h => hb b (mem_cons_of_mem _ h)

theorem forall_joinAll (hb : ∀ b ∈ bs, P b) : ∀ b ∈ joinAll bs, P b := by
  have once {bs : List Box} (hb : ∀ b ∈ bs, P b) : ∀ b ∈ joinOnce bs, P b :=
    forall_foldl_addJoined hP bs [] (by simp) hb
  induction bs using joinAll.induct with
  | case1 bs h => rw [joinAll, if_pos h]; exact once hb
  | case2 bs h ih => rw [joinAll, if_neg h]; exact ih (once hb)

end Keep

/-! ### Hits of joined boxes -/

theorem hits_addJoined {done : List Box} (hd : ∀ b ∈ done, b.Proper) (ho : o.Proper)
    (x y : Int) : hits (addJoined done o) x y = hits done x y + hits [o] x y := by
  unfold addJoined
  split
  · next n j h =>
    obtain ⟨hn, hj⟩ := partner?_eq_some h
    have hdone := hits_perm (perm_cons_erase hn) x y
    have hjoin := (join?_eq_some hj (hd n hn) ho).2 x y
    rw [← singleton_append, hits_append] at hdone
    rw [hits_append, hjoin]
    omega
  · exact hits_append done [o] x y

theorem hits_foldl_addJoined (x y : Int) : ∀ (bs done : List Box), (∀ b ∈ done, b.Proper) →
    (∀ b ∈ bs, b.Proper) → hits (bs.foldl addJoined done) x y = hits done x y + hits bs x y
  | [], done, _, _ => by simp [hits_nil]
  | o :: bs, done, hd, hb => by
    have ho := hb o mem_cons_self
    have hd' := forall_addJoined (fun _ _ _ h hn ho => (join?_eq_some h hn ho).1) hd ho
    have hcons : hits (o :: bs) x y = hits [o] x y + hits bs x y := hits_append [o] bs x y
    rw [foldl_cons, hits_foldl_addJoined x y bs _ hd' fun b h => hb b (mem_cons_of_mem _ h),
      hits_addJoined hd ho, hcons]
    omega

/-- **Joining keeps the hits**: joined boxes cover each point as often as the boxes before. -/
theorem hits_joinAll (hb : ∀ b ∈ bs, b.Proper) (x y : Int) :
    hits (joinAll bs) x y = hits bs x y := by
  have once {bs : List Box} (hb : ∀ b ∈ bs, b.Proper) : hits (joinOnce bs) x y = hits bs x y := by
    rw [joinOnce, hits_foldl_addJoined x y bs [] (by simp) hb, hits_nil]
    omega
  -- over the passes, of which the last one finds nothing to join
  induction bs using joinAll.induct with
  | case1 bs h => rw [joinAll, if_pos h]; exact once hb
  | case2 bs h ih =>
    have hb' : ∀ b ∈ joinOnce bs, b.Proper :=
      forall_foldl_addJoined (fun _ _ _ h hn ho => (join?_eq_some h hn ho).1) bs [] (by simp) hb
    rw [joinAll, if_neg h, ih hb', once hb]

theorem largestFirst_perm (bs : List Box) : (largestFirst bs).Perm bs := mergeSort_perm bs _

theorem exists_contains_of_meets {a b : Box} (ha : a.Proper) (hb : b.Proper)
    (h : a.meets b = true) : ∃ x y, a.contains x y = true ∧ b.contains x y = true := by
  obtain ⟨haw, hah⟩ := ha
  obtain ⟨hbw, hbh⟩ := hb
  rw [meets_iff] at h
  refine ⟨max a.x b.x, max a.y b.y, ?_, ?_⟩ <;> rw [contains_iff] <;> omega

theorem pairwise_apart_of_hits_le : ∀ {bs : List Box}, (∀ b ∈ bs, b.Proper) →
    (∀ x y, hits bs x y ≤ 1) → bs.Pairwise Apart
  | [], _, _ => List.Pairwise.nil
  | a :: bs, hb, hle => by
    refine List.Pairwise.cons (fun b hm => ?_)
      (pairwise_apart_of_hits_le (fun b h => hb b (mem_cons_of_mem _ h)) fun x y => ?_)
    · refine Bool.eq_false_iff.mpr fun hmeet => ?_
      obtain ⟨x, y, hax, hbx⟩ := exists_contains_of_meets (hb a mem_cons_self)
        (hb b (mem_cons_of_mem _ hm)) hmeet
      have hpos : 0 < hits bs x y := hits_pos_iff.mpr ⟨b, hm, hbx⟩
      have := hle x y
      rw [hits_cons, if_pos hax] at this
      omega
    · have := hle x y
      rw [hits_cons] at this
      omega

/-! ### When nothing is left to join -/

theorem join?_eq_none_comm {a b : Box} : join? a b = none ↔ join? b a = none := by
  unfold join?
  split_ifs <;> simp <;> omega

theorem partner?_eq_none : ∀ {bs : List Box}, partner? o bs = none ↔
    ∀ n ∈ bs, join? n o = none
  | [] => by simp [partner?]
  | b :: bs => by
    unfold partner?
    rw [forall_mem_cons]
    cases join? b o with
    | some j => simp
    | none => simpa using partner?_eq_none

/-- A pass that ends with as many boxes as it began with has joined none of them. -/
theorem pairwise_of_length_foldl (done : List Box)
    (h : (bs.foldl addJoined done).length = done.length + bs.length) :
    bs.foldl addJoined done = done ++ bs ∧
      (done.Pairwise (fun a b => join? a b = none) →
        (done ++ bs).Pairwise fun a b => join? a b = none) := by
  induction bs generalizing done with
  | nil => exact ⟨by simp, by simp⟩
  | cons o bs ih =>
    rw [foldl_cons, length_cons] at h
    have hle := length_foldl_addJoined_le bs (addJoined done o)
    have hstep : partner? o done = none := by
      cases hp : partner? o done with
      | none => rfl
      | some nj =>
        have hlen : (addJoined done o).length = done.length := by
          have hmem := (partner?_eq_some hp).1
          have := length_pos_of_mem hmem
          rw [addJoined, hp]
          simp only [length_append, length_erase_of_mem hmem, length_singleton]
          omega
        omega
    have hadd : addJoined done o = done ++ [o] := by rw [addJoined, hstep]
    rw [hadd] at h
    have hlength : (bs.foldl addJoined (done ++ [o])).length =
        (done ++ [o]).length + bs.length := by
      rw [h, length_append, length_singleton]
      omega
    obtain ⟨heq, hpair⟩ := ih _ hlength
    rw [foldl_cons, hadd, append_cons done o bs]
    refine ⟨heq, fun hd => hpair (pairwise_append.mpr ⟨hd, pairwise_singleton _ _, ?_⟩)⟩
    intro n hn b hb
    rw [mem_singleton.mp hb]
    exact partner?_eq_none.mp hstep n hn

theorem hits_le_one_of_apart (h : bs.Pairwise Apart) (x y : Int) : hits bs x y ≤ 1 := by
  induction bs with
  | nil => exact Nat.zero_le _
  | cons b bs ih =>
    rw [pairwise_cons] at h
    rw [hits_cons]
    split_ifs with hb
    · have hnone : hits bs x y = 0 := by
        refine Nat.eq_zero_of_not_pos fun hpos => ?_
        obtain ⟨c, hc, hcx⟩ := hits_pos_iff.mp hpos
        have hmeet : b.meets c = true := by
          rw [contains_iff] at hb hcx
          rw [meets_iff]
          omega
        exact absurd (h.1 c hc) (by simp [Apart, hmeet])
      omega
    · exact ih h.2

/-- Passes are made until one of them joins nothing, which no more of them follow than there are
boxes. -/
theorem exists_joinAll_eq (bs : List Box) :
    ∃ n ≤ bs.length, joinAll bs = joinOnce^[n] bs ∧ joinOnce (joinAll bs) = joinAll bs ∧
      (joinAll bs).Pairwise fun a b => join? a b = none := by
  induction bs using joinAll.induct with
  | case1 bs h =>
    obtain ⟨heq, hpair⟩ := pairwise_of_length_foldl [] (by simpa [joinOnce] using h)
    have honce : joinOnce bs = bs := heq
    rw [joinAll, if_pos h, honce]
    exact ⟨0, Nat.zero_le _, rfl, honce, hpair Pairwise.nil⟩
  | case2 bs h ih =>
    obtain ⟨n, hn, heq, hrest⟩ := ih
    have := length_joinOnce_le bs
    rw [joinAll, if_neg h]
    exact ⟨n + 1, by omega, heq, hrest⟩

theorem length_joinAll_le (bs : List Box) : (joinAll bs).length ≤ bs.length := by
  induction bs using joinAll.induct with
  | case1 bs h => rw [joinAll, if_pos h]; exact length_joinOnce_le bs
  | case2 bs h ih => rw [joinAll, if_neg h]; exact Nat.le_trans ih (length_joinOnce_le bs)

/-- **Joining ends with boxes that cannot be joined**, which lie apart and cover the points that the
boxes before covered. -/
theorem joinAll_joined (boxes : List Box) (hproper : ∀ b ∈ boxes, b.Proper)
    (hapart : boxes.Pairwise Apart) :
    (∃ n ≤ boxes.length, joinAll boxes = joinOnce^[n] boxes ∧
      joinOnce (joinAll boxes) = joinAll boxes) ∧
    (∀ b ∈ joinAll boxes, b.Proper) ∧ (joinAll boxes).Pairwise Apart ∧
    (∀ x y, (∃ b ∈ joinAll boxes, b.contains x y = true) ↔ ∃ b ∈ boxes, b.contains x y = true) ∧
    (joinAll boxes).length ≤ boxes.length ∧
    (joinAll boxes).Pairwise fun a b => join? a b = none ∧ join? b a = none := by
  have hjoined : ∀ b ∈ joinAll boxes, b.Proper :=
    forall_joinAll (fun _ _ _ h hn ho => (join?_eq_some h hn ho).1) hproper
  obtain ⟨n, hn, hpasses, hfixed, hpair⟩ := exists_joinAll_eq boxes
  refine ⟨⟨n, hn, hpasses, hfixed⟩, hjoined, ?_, fun x y => ?_, length_joinAll_le boxes,
    hpair.imp fun h => ⟨h, join?_eq_none_comm.mp h⟩⟩
  · refine pairwise_apart_of_hits_le hjoined fun x y => ?_
    rw [hits_joinAll hproper]
    exact hits_le_one_of_apart hapart x y
  · rw [← hits_pos_iff, ← hits_pos_iff, hits_joinAll hproper]

def fourParts : List Box := [⟨0, 0, 2, 1⟩, ⟨2, 1, 1, 1⟩, ⟨0, 1, 2, 1⟩, ⟨2, 0, 1, 1⟩]

theorem joinAll_joined_fourParts : (∀ b ∈ fourParts, b.Proper) ∧ fourParts.Pairwise Apart ∧
    (joinAll fourParts).Pairwise (fun a b => join? a b = none ∧ join? b a = none) ∧
    (joinAll fourParts).length ≤ 4 := by
  have hproper : ∀ b ∈ fourParts, b.Proper := by simp [fourParts, Proper]
  have hapart : fourParts.Pairwise Apart := by simp [fourParts, Apart, meets]
  obtain ⟨-, -, -, -, hlength, hjoined⟩ := joinAll_joined fourParts hproper hapart
  exact ⟨hproper, hapart, hjoined, hlength⟩

end WikiFeed.Box

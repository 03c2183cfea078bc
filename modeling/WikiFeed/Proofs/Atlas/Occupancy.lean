import WikiFeed.Proofs.Atlas.FirstPlace
import WikiFeed.Proofs.Atlas.Packing
import WikiFeed.Proofs.Rows

/-! # Pages that stay empty

A picture may be as wide as a page, but it has to be less high (`place?_nil`). So a picture that is
as high as the page finds no place on an empty page and opens a page of its own. Later pages begin
with a picture. The first page stays empty exactly if all pictures are as high as its side: as long
as they are, the side of new pages stays the same (`putAll_first`). -/

namespace WikiFeed.Atlas

open Sprite (Result)
open Outcome List

variable {α : Type}

/-! ### Later pages -/

/-- A page keeps its room, and is empty only if it was. -/
def Fuller (p q : Page α) : Prop := q.room = p.room ∧ (q.placed = [] → p.placed = [])

theorem Fuller.refl (p : Page α) : Fuller p p := ⟨rfl, id⟩

theorem fuller_putOnPages {room : Room} {i : Item α} : ∀ {pages pages' : List (Page α)},
    putOnPages room i pages = some pages' → Forall₂ Fuller pages pages'
  | [], _, h => by cases h
  | p :: rest, pages', h => by
    unfold putOnPages at h
    split at h
    · cases h
      exact .cons ⟨rfl, fun hnil => by simp at hnil⟩ (forall₂_same.mpr fun q _ => .refl q)
    · obtain ⟨rest', hrest, rfl⟩ := Option.map_eq_some_iff.mp h
      exact .cons (.refl p) (fuller_putOnPages hrest)

variable {roomOf : List (Nat × Nat) → Result Room}

/-- **Later pages hold something**: only the first page of a run can be empty in the end, and only
if it was empty. -/
theorem putAll_later {first : Room} :
    ∀ {items : List (Item α)} {room : Room} {p : Page α} {more pages : List (Page α)},
      putAll roomOf first room (p :: more) items = .ok pages → (∀ q ∈ more, q.placed ≠ []) →
      ∃ p' more', pages = p' :: more' ∧ Fuller p p' ∧ ∀ q ∈ more', q.placed ≠ []
  | [], _, p, more, _, h, hmore => by
    cases h
    exact ⟨p, more, rfl, .refl p, hmore⟩
  | i :: rest, room, p, more, pages, h, hmore => by
    rw [putAll] at h
    split_ifs at h
    split at h
    · next pages₁ hput =>
      cases fuller_putOnPages hput with
      | cons hp hrest =>
        obtain ⟨p', more', rfl, hp', hmore'⟩ := putAll_later h fun q hq hnil => by
          obtain ⟨q₀, hq₀, hfuller⟩ := Rows.exists_of_mem_right hrest hq
          exact hmore q₀ hq₀ (hfuller.2 hnil)
        exact ⟨p', more', rfl, ⟨hp'.1.trans hp.1, fun hnil => hp.2 (hp'.2 hnil)⟩, hmore'⟩
    · obtain ⟨room₁, -, h⟩ := exists_of_bind_eq_ok h
      dsimp only at h
      rw [cons_append] at h
      exact putAll_later h (forall_mem_append.mpr ⟨hmore, by simp⟩)

theorem place?_nil (room : Room) {w h : Nat} (hw : (w : Int) ≤ room.inner)
    (hh : (h : Int) < room.outer) : ∃ b, place? room w h [] = some b := by
  have hfree : FreePlace room w h [] ⟨0, 0, w, h⟩ :=
    ⟨rfl, rfl, Int.le_refl _, Int.le_refl _, Int.dvd_zero 4, Int.dvd_zero 4, by simpa using hw,
      by simpa using hh, fun c hc => absurd hc not_mem_nil⟩
  obtain ⟨b, hb, -⟩ := exists_searchRows_eq_some (fun b hb => absurd hb not_mem_nil) hfree
    (Int.dvd_zero 4) (Int.le_refl _)
  exact ⟨b, hb⟩

theorem putOnPages_of_height (room : Room) (hroom : room.inner ≤ room.outer) {i : Item α}
    (hi : room.outer ≤ i.height) : ∀ pages : List (Page α), putOnPages room i pages = none
  | [] => rfl
  | p :: rest => by
    have hnone : place? room i.width i.height (p.placed.map (·.box)) = none := by
      rw [Option.eq_none_iff_forall_ne_some]
      intro b hb
      have hfree := place?_eq_some hroom hb
      have := hfree.top
      have := hfree.bottom
      rw [hfree.height] at this
      omega
    rw [putOnPages, hnone, putOnPages_of_height room hroom hi rest]
    rfl

/-- **The first page of a run** that begins with nothing on it stays empty exactly if all pictures
are as high as the side of the pages. -/
theorem putAll_first {limit : Nat} {first : Room} {n : Nat} :
    ∀ {items : List (Item α)} {p p' : Page α} {more more' : List (Page α)},
      SideRule limit roomOf (items.map Item.size) →
      (∀ i ∈ items, 0 < i.width ∧ 0 < i.height) →
      (∀ i ∈ items, i.width ≤ limit ∧ i.height ≤ limit) → IsSide (items.map Item.size) n →
      (∀ q ∈ more, q.placed ≠ []) →
      putAll roomOf first (Room.whole (min limit n : Nat)) (p :: more) items = .ok (p' :: more') →
      p.placed = [] → (p'.placed = [] ↔ ∀ i ∈ items, i.height = min limit n)
  | [], p, p', more, more', _, _, _, _, _, h, hp => by
    cases h
    simp [hp]
  | i :: rest, p, p', more, more', hrule, hpos, hlim, hn, hmore, h, hp => by
    obtain ⟨-, hpos'⟩ := forall_mem_cons.mp hpos
    obtain ⟨hi, hlim'⟩ := forall_mem_cons.mp hlim
    have hfit := RoomFor.le_inner ⟨n, hn, rfl⟩ (mem_map_of_mem mem_cons_self) hi.1 hi.2
    simp only [Item.size, Room.whole] at hfit
    rw [putAll] at h
    split_ifs at h
    by_cases hhigh : i.height = min limit n
    · -- the picture opens a page whose side is its height, so nothing has changed for the others
      have hnone := putOnPages_of_height (Room.whole (min limit n : Nat)) (Int.le_refl _)
        (i := i) (by rw [hhigh]; exact Int.le_refl _) (p :: more)
      rw [hnone] at h
      dsimp only at h
      obtain ⟨m, hm, hleast, hroomOf⟩ :=
        hrule ((i :: rest).map Item.size) (.refl _) (by simp) (pos_size hpos)
      have hmn := hleast n hn
      have hreach := (le_longest (mem_map_of_mem (f := Item.size) mem_cons_self)).2.trans
        hm.longest_le
      have hsame : min limit m = min limit n := by
        simp only [Item.size] at hreach
        omega
      rw [hroomOf, ok_bind, hsame, cons_append] at h
      have hmore₁ : ∀ q ∈ more ++ [(⟨Room.whole (min limit n : Nat),
          [⟨i, ⟨0, 0, i.width, i.height⟩⟩]⟩ : Page α)], q.placed ≠ [] :=
        forall_mem_append.mpr ⟨hmore, by simp⟩
      have hrule' : SideRule limit roomOf (rest.map Item.size) :=
        hrule.of_subperm (sublist_cons_self _ _).subperm
      rw [forall_mem_cons, putAll_first hrule' hpos' hlim' hn.of_cons hmore₁ h hp]
      exact ⟨fun hrest => ⟨hhigh, hrest⟩, fun hall => hall.2⟩
    · -- the picture comes onto the first page, which is not empty from then on
      obtain ⟨b, hb⟩ := place?_nil (Room.whole (min limit n : Nat)) (h := i.height) hfit.1
        (by simp only [Room.whole]; omega)
      have hput : putOnPages (Room.whole (min limit n : Nat)) i (p :: more) =
          some ({ p with placed := [⟨i, b⟩] } :: more) := by
        rw [putOnPages, hp, map_nil, hb]
        rfl
      rw [hput] at h
      obtain ⟨p₁, more₁, heq, hfuller, -⟩ := putAll_later h hmore
      cases heq
      refine iff_of_false (fun hnil => ?_) fun hall => hhigh (hall i mem_cons_self)
      exact cons_ne_nil _ _ (hfuller.2 hnil)

/-- **Which pages hold nothing**: the first one, if all pictures are as high as its side, and no
other one. So a single picture comes onto one page exactly if it is not as high as the page. -/
theorem packWith_empty_iff {limit : Nat} {roomOf : List (Nat × Nat) → Result Room}
    {items : List (Item α)} (hrule : SideRule limit roomOf (items.map Item.size))
    (hne : items ≠ []) (hpos : ∀ i ∈ items, 0 < i.width ∧ 0 < i.height)
    (hlim : ∀ i ∈ items, i.width ≤ limit ∧ i.height ≤ limit) :
    ∃ (side : Nat) (first : Page α) (more : List (Page α)),
      roomOf (items.map Item.size) = .ok (Room.whole side) ∧
      packWith roomOf items = .ok (first :: more) ∧ (∀ p ∈ more, p.placed ≠ []) ∧
      (first.placed = [] ↔ ∀ i ∈ items, i.height = side) ∧
      ∀ i, items = [i] → (more = [] ↔ i.height ≠ side) := by
  obtain ⟨n, pages, hroomOf, hn, hrun, hperm, -⟩ := exists_packWith_eq_ok hrule hne hpos hlim
  have hsorted := largestFirst_perm items
  obtain ⟨first, more, rfl, -, hmore⟩ := putAll_later hrun (by simp)
  have hempty := putAll_first (hrule.of_subperm (hsorted.map Item.size).subperm)
    (fun i hi => hpos i (hsorted.mem_iff.mp hi))
    (fun i hi => hlim i (hsorted.mem_iff.mp hi)) hn (by simp) hrun rfl
  simp only [hsorted.mem_iff] at hempty
  refine ⟨min limit n, first, more, hroomOf, ?_, hmore, hempty, fun i hi => ?_⟩
  · rw [packWith, hroomOf, ok_bind]
    exact hrun
  · -- the only picture is on the first page or on another one
    subst hi
    rw [List.forall_mem_singleton] at hempty
    rw [Ne, ← hempty]
    have hlength := hperm.length_eq
    simp only [itemsOn, List.flatMap_cons, List.length_append, List.length_map,
      List.length_singleton] at hlength
    constructor
    · rintro rfl hfirst
      simp [hfirst] at hlength
    · intro hfirst
      have := List.length_pos_iff.mpr hfirst
      cases more with
      | nil => rfl
      | cons q more =>
        have hq := List.length_pos_iff.mpr (hmore q List.mem_cons_self)
        simp only [List.flatMap_cons, List.length_append, List.length_map] at hlength
        omega

def polesAndGem : List (Item Unit) := [⟨"pole", 8, 64, ()⟩, ⟨"gem", 3, 5, ()⟩, ⟨"post", 4, 64, ()⟩]

theorem packWith_empty_iff_polesAndGem :
    ∃ (side : Nat) (first : Page Unit) (more : List (Page Unit)),
      roomByRule 2048 (polesAndGem.map Item.size) = .ok (Room.whole side) ∧
      packWith (roomByRule 2048) polesAndGem = .ok (first :: more) ∧
      (∀ p ∈ more, p.placed ≠ []) ∧
      (first.placed = [] ↔ ∀ i ∈ polesAndGem, i.height = side) ∧
      ∀ i, polesAndGem = [i] → (more = [] ↔ i.height ≠ side) :=
  packWith_empty_iff (sideRule_roomByRule 2048 _) (by decide) (by decide) (by decide)

/-- A single picture that is twice as high as wide leaves the first page empty. -/
theorem pole_leaves_page_empty :
    (packWith (roomByRule 2048) [⟨"pole", 4, 8, ()⟩]).map (·.map fun p => p.placed.length) =
      .ok [0, 1] := by
  decide +kernel

end WikiFeed.Atlas

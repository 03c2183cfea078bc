import Mathlib.Data.List.Perm.Subperm
import Mathlib.Data.Nat.Find
import Mathlib.Tactic.Ring
import WikiFeed.Atlas.Page
import WikiFeed.Proofs.Atlas.Placement
import WikiFeed.Proofs.Outcome
import WikiFeed.Proofs.Places

/-! # Packed pages are sound

Sides of pages follow a rule (`SideRule`): the least power of two whose square is a quarter above
the area of the pictures that are left and which is not below their longest side, up to a limit. A
side that is enough for some pictures is enough for those that are left of them, so the room for
places never grows, and what is put on an older page stays inside of it. One step puts a picture on
a page that stays tidy (`putOnPages_eq_some`), or opens a page; a whole run keeps all pages tidy
(`putAll_eq_ok`), and finished pages hold their boxes (`packWith_sound`). Whatever the sides are, a
run that goes through puts every picture on one page (`itemsOn_putAll`, `itemsOn_packWith`). -/

namespace WikiFeed.Atlas

open Sprite (Result)
open Box (Apart)
open Outcome List

/-! ### Sides -/

def area (sizes : List (Nat × Nat)) : Nat := (sizes.map fun s => s.1 * s.2).sum

def longest (sizes : List (Nat × Nat)) : Nat := sizes.foldr (fun s m => max (max s.1 s.2) m) 0

/-- A side that is enough for pictures of some sizes: a power of two whose square is at least 1.25
times their area, and which is not below the multiple of four behind their longest side. -/
structure IsSide (sizes : List (Nat × Nat)) (n : Nat) : Prop where
  power : ∃ k, n = 2 ^ k
  spread : 5 * area sizes ≤ 4 * n ^ 2
  reach : ceilTo step (longest sizes) ≤ n

/-- The rule for the room on a new page, when pictures of some sizes are packed: its side is the
least one that is enough for those of them that are left, but not above a limit. -/
def SideRule (limit : Nat) (roomOf : List (Nat × Nat) → Result Room) (sizes : List (Nat × Nat)) :
    Prop :=
  ∀ left, left.Subperm sizes → left ≠ [] → (∀ s ∈ left, 0 < s.1 ∧ 0 < s.2) →
    ∃ n, IsSide left n ∧ (∀ m, IsSide left m → n ≤ m) ∧
      roomOf left = .ok (Room.whole (min limit n : Nat))

theorem SideRule.of_subperm {limit : Nat} {roomOf : List (Nat × Nat) → Result Room}
    {sizes sizes' : List (Nat × Nat)} (h : SideRule limit roomOf sizes)
    (hsub : sizes'.Subperm sizes) : SideRule limit roomOf sizes' :=
  fun left hleft => h left (hleft.trans hsub)

theorem longest_cons (s : Nat × Nat) (sizes : List (Nat × Nat)) :
    longest (s :: sizes) = max (max s.1 s.2) (longest sizes) := rfl

variable {sizes : List (Nat × Nat)} {s : Nat × Nat}

theorem le_longest (h : s ∈ sizes) : s.1 ≤ longest sizes ∧ s.2 ≤ longest sizes := by
  induction sizes with
  | nil => simp at h
  | cons t sizes ih =>
    rw [longest_cons]
    rcases mem_cons.mp h with rfl | h
    · omega
    · have := ih h
      omega

variable {n : Nat}

theorem ceilTo_step_mono {m : Nat} (h : m ≤ n) : ceilTo step m ≤ ceilTo step n := by
  unfold ceilTo
  simp only [fmod_step]
  unfold step
  split_ifs <;> omega

theorem ceilTo_step_le (n : Int) : ceilTo step n ≤ n + 3 := by
  unfold ceilTo
  simp only [fmod_step]
  unfold step
  split_ifs <;> omega

theorem IsSide.of_cons (h : IsSide (s :: sizes) n) : IsSide sizes n := by
  obtain ⟨hpower, hspread, hreach⟩ := h
  refine ⟨hpower, ?_, ?_⟩
  · rw [area, map_cons, sum_cons, ← area] at hspread
    omega
  · have hle : longest sizes ≤ longest (s :: sizes) := by
      rw [longest_cons]
      omega
    have := ceilTo_step_mono hle
    omega

theorem IsSide.longest_le (h : IsSide sizes n) : longest sizes ≤ n := by
  have := h.reach
  have := le_ceilTo_step (longest sizes)
  omega

theorem IsSide.of_perm {sizes' : List (Nat × Nat)} (h : IsSide sizes n) (hp : sizes.Perm sizes') :
    IsSide sizes' n := by
  have harea : area sizes' = area sizes := ((hp.map _).sum_nat).symm
  have hlongest : longest sizes' = longest sizes :=
    (hp.foldr_eq' (fun a _ b _ m => by omega) 0).symm
  exact ⟨h.power, harea ▸ h.spread, hlongest ▸ h.reach⟩

def RoomFor (limit : Nat) (sizes : List (Nat × Nat)) (room : Room) : Prop :=
  ∃ n, IsSide sizes n ∧ room = Room.whole (min limit n : Nat)

variable {room : Room} {limit : Nat}

theorem RoomFor.le_inner (h : RoomFor limit sizes room) (hs : s ∈ sizes) (h1 : s.1 ≤ limit)
    (h2 : s.2 ≤ limit) : (s.1 : Int) ≤ room.inner ∧ (s.2 : Int) ≤ room.inner := by
  obtain ⟨n, hn, rfl⟩ := h
  have := le_longest hs
  have := hn.longest_le
  simp only [Room.whole]
  omega

theorem exists_isSide (sizes : List (Nat × Nat)) : ∃ k, IsSide sizes (2 ^ k) := by
  refine ⟨5 * area sizes + longest sizes + 3, ⟨_, rfl⟩, ?_, ?_⟩
  · have hlt : 5 * area sizes + longest sizes + 3 < 2 ^ (5 * area sizes + longest sizes + 3) :=
      Nat.lt_two_pow_self
    have hsq := Nat.le_self_pow (show 2 ≠ 0 by decide) (2 ^ (5 * area sizes + longest sizes + 3))
    omega
  · have hlt : 5 * area sizes + longest sizes + 3 < 2 ^ (5 * area sizes + longest sizes + 3) :=
      Nat.lt_two_pow_self
    have := ceilTo_step_le (longest sizes)
    omega

theorem isSide_two_pow_iff {k : Nat} : IsSide sizes (2 ^ k) ↔
    5 * area sizes ≤ 4 * (2 ^ k) ^ 2 ∧ ceilTo step (longest sizes) ≤ (2 ^ k : Nat) :=
  ⟨fun h => ⟨h.spread, h.reach⟩, fun h => ⟨⟨k, rfl⟩, h.1, h.2⟩⟩

instance (sizes : List (Nat × Nat)) : DecidablePred fun k => IsSide sizes (2 ^ k) :=
  fun _ => decidable_of_iff _ isSide_two_pow_iff.symm

def leastSide (sizes : List (Nat × Nat)) : Nat := 2 ^ Nat.find (exists_isSide sizes)

def roomByRule (limit : Nat) (sizes : List (Nat × Nat)) : Result Room :=
  .ok (Room.whole (min limit (leastSide sizes) : Nat))

theorem sideRule_roomByRule (limit : Nat) (sizes : List (Nat × Nat)) :
    SideRule limit (roomByRule limit) sizes := by
  intro sizes _ _ _
  refine ⟨leastSide sizes, Nat.find_spec (exists_isSide sizes), fun m hm => ?_, rfl⟩
  obtain ⟨k, rfl⟩ := hm.power
  exact Nat.pow_le_pow_right (by decide) (Nat.find_min' (exists_isSide sizes) hm)

/-! ### Pages while they are packed -/

variable {α : Type}

/-- A page on which boxes have the sizes of their items, begin at multiples of four, lie inside and
apart. -/
structure Page.Tidy (p : Page α) : Prop where
  size : ∀ q ∈ p.placed, q.box.w = q.item.width ∧ q.box.h = q.item.height
  aligned : ∀ q ∈ p.placed, 0 ≤ q.box.x ∧ 0 ≤ q.box.y ∧ 4 ∣ q.box.x ∧ 4 ∣ q.box.y
  within : ∀ q ∈ p.placed, q.box.x + q.box.w ≤ p.room.inner ∧ q.box.y + q.box.h ≤ p.room.inner
  apart : (p.placed.map (·.box)).Pairwise Apart

def itemsOn (pages : List (Page α)) : List (Item α) := pages.flatMap fun p => p.placed.map (·.item)

theorem Page.tidy_empty (room : Room) : Page.Tidy (⟨room, []⟩ : Page α) :=
  ⟨by simp, by simp, by simp, .nil⟩

variable {i : Item α}

theorem Page.tidy_first (hw : (i.width : Int) ≤ room.inner) (hh : (i.height : Int) ≤ room.inner) :
    Page.Tidy (⟨room, [⟨i, ⟨0, 0, i.width, i.height⟩⟩]⟩ : Page α) := by
  refine ⟨?_, ?_, ?_, pairwise_singleton _ _⟩
  all_goals
    intro q hq
    rw [mem_singleton.mp hq]
    simp [hw, hh]

variable {p : Page α}

theorem Page.Tidy.put (hp : p.Tidy) {b : Box} (hroom : room.inner ≤ p.room.inner)
    (houter : room.outer ≤ p.room.inner)
    (hb : FreePlace room i.width i.height (p.placed.map (·.box)) b) :
    Page.Tidy { p with placed := p.placed ++ [⟨i, b⟩] } := by
  have hall {P : Placed α → Prop} (hold : ∀ q ∈ p.placed, P q) (hnew : P ⟨i, b⟩) :
      ∀ q ∈ p.placed ++ [⟨i, b⟩], P q :=
    forall_mem_append.mpr ⟨hold, forall_mem_singleton.mpr hnew⟩
  refine ⟨hall hp.size ⟨hb.width, hb.height⟩,
    hall hp.aligned ⟨hb.left, hb.top, hb.column, hb.row⟩, hall hp.within ?_, ?_⟩
  · have := hb.right
    have := hb.bottom
    simp only
    omega
  · rw [map_append, pairwise_append]
    refine ⟨hp.apart, pairwise_singleton _ _, fun c hc d hd => ?_⟩
    rw [mem_singleton.mp hd]
    exact hb.free c hc

/-- **One step**: an item that finds a place on a page leaves all pages tidy. -/
theorem putOnPages_eq_some (hroom : room.inner ≤ room.outer) :
    ∀ {pages pages' : List (Page α)}, putOnPages room i pages = some pages' →
      (∀ p ∈ pages, p.Tidy ∧ room.outer ≤ p.room.inner) →
      ∀ p ∈ pages', p.Tidy ∧ room.outer ≤ p.room.inner
  | [], pages', h, _ => by simp [putOnPages] at h
  | p :: rest, pages', h, hp => by
    obtain ⟨⟨htidy, hinner⟩, hrest⟩ := forall_mem_cons.mp hp
    unfold putOnPages at h
    split at h
    · next b hplace =>
      cases h
      have hput := htidy.put (by omega) hinner (place?_eq_some hroom hplace)
      exact forall_mem_cons.mpr ⟨⟨hput, hinner⟩, hrest⟩
    · obtain ⟨pages'', hput, rfl⟩ := Option.map_eq_some_iff.mp h
      exact forall_mem_cons.mpr ⟨⟨htidy, hinner⟩, putOnPages_eq_some hroom hput hrest⟩

/-! ### What is on the pages -/

theorem itemsOn_putOnPages : ∀ {pages pages' : List (Page α)},
    putOnPages room i pages = some pages' → (itemsOn pages').Perm (i :: itemsOn pages)
  | [], pages', h => by simp [putOnPages] at h
  | p :: rest, pages', h => by
    unfold putOnPages at h
    split at h
    · cases h
      simp only [itemsOn, flatMap_cons, map_append, map_cons, map_nil, append_assoc,
        singleton_append]
      exact perm_middle
    · obtain ⟨pages'', hput, rfl⟩ := Option.map_eq_some_iff.mp h
      exact ((itemsOn_putOnPages hput).append_left _).trans perm_middle

variable {items : List (Item α)} {roomOf : List (Nat × Nat) → Result Room}

/-- **A run that goes through** adds each item to one page, whatever the sides of pages are. -/
theorem itemsOn_putAll {first : Room} : ∀ {items : List (Item α)} {room : Room}
    {pages pages' : List (Page α)}, putAll roomOf first room pages items = .ok pages' →
      (itemsOn pages').Perm (itemsOn pages ++ items)
  | [], room, pages, pages', h => by
    cases h
    rw [append_nil]
  | i :: rest, room, pages, pages', h => by
    rw [putAll] at h
    split_ifs at h
    split at h
    · next pages₁ hput =>
      have hperm := ((itemsOn_putOnPages hput).append_right rest).trans perm_middle.symm
      exact (itemsOn_putAll h).trans hperm
    · obtain ⟨room₁, -, h⟩ := exists_of_bind_eq_ok h
      refine (itemsOn_putAll h).trans ?_
      simp [itemsOn]

theorem largestFirst_perm (items : List (Item α)) : (largestFirst items).Perm items :=
  mergeSort_perm items _

theorem pos_size (hpos : ∀ i ∈ items, 0 < i.width ∧ 0 < i.height) :
    ∀ s ∈ items.map Item.size, 0 < s.1 ∧ 0 < s.2 := by
  intro s hs
  obtain ⟨i, hi, rfl⟩ := mem_map.mp hs
  exact hpos i hi

/-- **A run by the rule**: all items come onto pages, and all pages are tidy. The room for places is
enough for the items that are left, and no page is smaller. -/
theorem putAll_eq_ok {first : Room} : ∀ {items : List (Item α)} {room : Room}
      {pages : List (Page α)}, SideRule limit roomOf (items.map Item.size) →
      (∀ i ∈ items, 0 < i.width ∧ 0 < i.height) →
      (∀ i ∈ items, i.width ≤ limit ∧ i.height ≤ limit) →
      (∀ i ∈ items, (i.width : Int) ≤ first.inner ∧ (i.height : Int) ≤ first.inner) →
      RoomFor limit (items.map Item.size) room →
      (∀ p ∈ pages, p.Tidy ∧ room.outer ≤ p.room.inner) →
      ∃ pages', putAll roomOf first room pages items = .ok pages' ∧ ∀ p ∈ pages', p.Tidy
  | [], room, pages, _, _, _, _, _, hp => ⟨pages, rfl, fun p h => (hp p h).1⟩
  | i :: rest, room, pages, hrule, hpos, hlim, hfirst, hroom, hp => by
    have hrule' : SideRule limit roomOf (rest.map Item.size) :=
      hrule.of_subperm (sublist_cons_self _ _).subperm
    obtain ⟨-, hpos'⟩ := forall_mem_cons.mp hpos
    obtain ⟨hsides, hlim'⟩ := forall_mem_cons.mp hlim
    obtain ⟨hi, hfirst'⟩ := forall_mem_cons.mp hfirst
    have hsize : ¬ ((i.width : Int) > first.inner || (i.height : Int) > first.inner) = true := by
      simp; omega
    obtain ⟨n, hn, rfl⟩ := hroom
    rw [putAll, if_neg hsize]
    split
    · next pages₁ hput =>
      exact putAll_eq_ok hrule' hpos' hlim' hfirst' ⟨n, hn.of_cons, rfl⟩
        (putOnPages_eq_some (Int.le_refl _) hput hp)
    · -- no page has a place: a new one is opened, with the least side for the items that are left
      obtain ⟨m, hm, hleast, hroomOf⟩ :=
        hrule ((i :: rest).map Item.size) (.refl _) (by simp) (pos_size hpos)
      have hmn := hleast n hn
      have hfit := RoomFor.le_inner ⟨m, hm, rfl⟩ (mem_map_of_mem mem_cons_self) hsides.1 hsides.2
      rw [hroomOf, ok_bind]
      have hp₁ : ∀ p ∈ pages ++
          [⟨Room.whole (min limit m : Nat), [⟨i, ⟨0, 0, i.width, i.height⟩⟩]⟩],
          p.Tidy ∧ (Room.whole (min limit m : Nat)).outer ≤ p.room.inner := by
        refine forall_mem_append.mpr ⟨fun p h => ?_,
          forall_mem_singleton.mpr ⟨Page.tidy_first hfit.1 hfit.2, Int.le_refl _⟩⟩
        obtain ⟨htidy, hinner⟩ := hp p h
        refine ⟨htidy, ?_⟩
        simp only [Room.whole] at hinner ⊢
        omega
      exact putAll_eq_ok hrule' hpos' hlim' hfirst' ⟨m, hm.of_cons, rfl⟩ hp₁

/-! ### Finished pages -/

theorem le_foldl_extent : ∀ (placed : List (Placed α)) (e : Int × Int),
    let f := placed.foldl
      (fun e i => (max e.1 (i.box.x + i.box.w), max e.2 (i.box.y + i.box.h))) e
    (e.1 ≤ f.1 ∧ e.2 ≤ f.2) ∧
      ∀ q ∈ placed, q.box.x + q.box.w ≤ f.1 ∧ q.box.y + q.box.h ≤ f.2
  | [], e => by simp
  | q :: placed, e => by
    obtain ⟨hstart, hall⟩ := le_foldl_extent placed
      (max e.1 (q.box.x + q.box.w), max e.2 (q.box.y + q.box.h))
    simp only [foldl_cons] at hstart hall ⊢
    refine ⟨by omega, fun r hr => ?_⟩
    rcases mem_cons.mp hr with rfl | hr
    · omega
    · exact hall r hr

theorem Page.Tidy.within_size (hp : p.Tidy) {q : Placed α} (h : q ∈ p.placed) (square : Bool) :
    q.box.x + q.box.w ≤ (p.size square).1 ∧ q.box.y + q.box.h ≤ (p.size square).2 := by
  have hwithin := hp.within q h
  have hextent := (le_foldl_extent p.placed (0, 0)).2 q h
  unfold Page.size Page.extent
  simp only
  split_ifs
  all_goals
    simp only
    omega

/-- **A sound page**: its list gives each item on it the box of the item, which has the size of the
item, begins at multiples of four, is apart from the other boxes, and lies inside of the finished
page. -/
structure Page.Sound (p : Page α) : Prop where
  boxes : p.boxes = p.placed.map fun q => (q.item.name, q.box)
  size : ∀ q ∈ p.placed, q.box.w = q.item.width ∧ q.box.h = q.item.height
  aligned : ∀ q ∈ p.placed, 0 ≤ q.box.x ∧ 0 ≤ q.box.y ∧ 4 ∣ q.box.x ∧ 4 ∣ q.box.y
  apart : (p.placed.map (·.box)).Pairwise Apart
  within : ∀ q ∈ p.placed, ∀ square,
    q.box.x + q.box.w ≤ (p.size square).1 ∧ q.box.y + q.box.h ≤ (p.size square).2

theorem Page.Tidy.sound (hp : p.Tidy) (hnames : (p.placed.map fun q => q.item.name).Nodup) :
    p.Sound := by
  refine ⟨?_, hp.size, hp.aligned, hp.apart, fun q hq square => hp.within_size hq square⟩
  rw [Page.boxes, Places.lastByKey_of_nodup]
  rw [map_map]
  exact hnames

theorem nodup_names_of_mem {pages : List (Page α)} (h : p ∈ pages)
    (hnodup : ((itemsOn pages).map (·.name)).Nodup) :
    (p.placed.map fun q => q.item.name).Nodup := by
  have hsub : (p.placed.map (·.item)).Sublist (itemsOn pages) :=
    sublist_flatten_of_mem (mem_map_of_mem h)
  have := hnodup.sublist (hsub.map (·.name))
  rwa [map_map] at this

theorem exists_packWith_eq_ok (hrule : SideRule limit roomOf (items.map Item.size))
    (hne : items ≠ [])
    (hpos : ∀ i ∈ items, 0 < i.width ∧ 0 < i.height)
    (hlim : ∀ i ∈ items, i.width ≤ limit ∧ i.height ≤ limit) :
    ∃ n pages, roomOf (items.map Item.size) = .ok (Room.whole (min limit n : Nat)) ∧
      IsSide ((largestFirst items).map Item.size) n ∧
      putAll roomOf (Room.whole (min limit n : Nat)) (Room.whole (min limit n : Nat))
        [⟨Room.whole (min limit n : Nat), []⟩] (largestFirst items) = .ok pages ∧
      (itemsOn pages).Perm items ∧ ∀ p ∈ pages, p.Tidy := by
  have hsorted := largestFirst_perm items
  have hmem : ∀ {i}, i ∈ largestFirst items → i ∈ items := hsorted.mem_iff.mp
  obtain ⟨n, hn, -, hroomOf⟩ :=
    hrule (items.map Item.size) (.refl _) (by simpa using hne) (pos_size hpos)
  have hside := hn.of_perm (hsorted.map Item.size).symm
  have hroom : RoomFor limit ((largestFirst items).map Item.size)
      (Room.whole (min limit n : Nat)) := ⟨n, hside, rfl⟩
  have hfirst : ∀ p ∈ [(⟨Room.whole (min limit n : Nat), []⟩ : Page α)],
      p.Tidy ∧ (Room.whole (min limit n : Nat)).outer ≤ p.room.inner :=
    forall_mem_singleton.mpr ⟨Page.tidy_empty _, Int.le_refl _⟩
  obtain ⟨pages, hrun, htidy⟩ := putAll_eq_ok (hrule.of_subperm (hsorted.map Item.size).subperm)
    (fun i hi => hpos i (hmem hi)) (fun i hi => hlim i (hmem hi))
    (fun i hi => hroom.le_inner (mem_map_of_mem hi) (hlim i (hmem hi)).1 (hlim i (hmem hi)).2)
    hroom hfirst
  exact ⟨n, pages, hroomOf, hside, hrun, (itemsOn_putAll hrun).trans hsorted, htidy⟩

/-- **Packing is sound**: pictures whose sides are within the limit all come onto pages, each of
them once, and every page is sound. -/
theorem packWith_sound {limit : Nat} {roomOf : List (Nat × Nat) → Result Room}
    {items : List (Item α)} (hrule : SideRule limit roomOf (items.map Item.size))
    (hne : items ≠ []) (hpos : ∀ i ∈ items, 0 < i.width ∧ 0 < i.height)
    (hlim : ∀ i ∈ items, i.width ≤ limit ∧ i.height ≤ limit)
    (hnames : (items.map (·.name)).Nodup) :
    ∃ pages, packWith roomOf items = .ok pages ∧ (itemsOn pages).Perm items ∧
      ((itemsOn pages).map (·.name)).Nodup ∧ ∀ p ∈ pages, p.Sound := by
  obtain ⟨n, pages, hroomOf, -, hrun, hall, htidy⟩ := exists_packWith_eq_ok hrule hne hpos hlim
  have honce : ((itemsOn pages).map (·.name)).Nodup := (hall.map (·.name)).nodup_iff.mpr hnames
  refine ⟨pages, ?_, hall, honce, fun p hp => (htidy p hp).sound (nodup_names_of_mem hp honce)⟩
  rw [packWith, hroomOf, ok_bind]
  exact hrun

def wallAndGems : List (Item Unit) :=
  [⟨"gem", 3, 5, ()⟩, ⟨"wall", 2048, 2048, ()⟩, ⟨"ore", 7, 1, ()⟩]

theorem packWith_sound_wallAndGems :
    ∃ pages, packWith (roomByRule 2048) wallAndGems = .ok pages ∧
      (itemsOn pages).Perm wallAndGems ∧ ((itemsOn pages).map (·.name)).Nodup ∧
      ∀ p ∈ pages, p.Sound :=
  packWith_sound (sideRule_roomByRule 2048 _) (by decide) (by decide) (by decide) (by decide)

end WikiFeed.Atlas

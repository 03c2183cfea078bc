import WikiFeed.Proofs.Atlas.Occupancy
import WikiFeed.Proofs.Decimal.Digits
import WikiFeed.Proofs.Decimal.Monotone
import WikiFeed.Proofs.Region.Trimming
import WikiFeed.Proofs.Scene.Data
import WikiFeed.Proofs.Sprite.Merging
import WikiFeed.Proofs.Sprite.Wire

/-! # Gathering frames on pages

Gathering trims the pictures of all frames, packs them on pages and goes through the symbols in the
order of their codes. A frame gets six corners for each region of its picture, behind all corners
that there are, and is told which they are (`exists_showFrame`). Only the page with its picture
gives it corners, and they name the page (`exists_onPage`).

A file has the symbols in the same order (`symbolOrder_eq`, `written_overlay`). So along a file the
ranges of the frames follow each other from the first corner to the last one (`gather_ranges`). The
pages may be of any sides: a run goes through exactly if the pictures can be packed and the pages
drawn (`exists_gathered`, `exists_pages_of_gatherWith`), and packing that goes through puts each
picture on one page. -/

namespace WikiFeed

open List Places Decimal

abbrev Trimmed.parts (t : Trimmed) : List Box := t.regions.mixed ++ t.regions.solid

namespace Sprite

open Atlas (Page Item itemsOn)
open Outcome (ok_bind bind_eq_ok bind_of_eq_ok mapM_eq_ok exists_mapM_eq_ok)
open Places (Distinct overlay)
open Scene (pictureName)

theorem pictureName_inj {s s' : String} {m n : Nat} (h : pictureName s m = pictureName s' n) :
    s = s' ∧ m = n := by
  have hlist (s : String) (n : Nat) : (pictureName s n).toList.reverse =
      (natDigits n).reverse ++ '-' :: s.toList.reverse := by
    simp [pictureName, toList_intText_natCast]
  -- the digits reach back to the last dash
  have hdigits (s : String) (n : Nat) :
      (pictureName s n).toList.reverse.takeWhile (· != '-') = (natDigits n).reverse := by
    rw [hlist, takeWhile_append_of_pos, takeWhile_cons_of_neg (by simp), append_nil]
    intro c hc
    have := isDigit_of_mem_natDigits (mem_reverse.mp hc)
    exact bne_iff_ne.mpr fun heq => absurd (heq ▸ this) (by decide)
  have hn := hdigits s m
  rw [h, hdigits] at hn
  have hs := hlist s m
  rw [h, hlist, hn, append_cancel_left_eq] at hs
  refine ⟨String.toList_injective (reverse_injective (cons.inj hs).2.symm), ?_⟩
  rw [← ofDigits_natDigits m, ← reverse_injective hn, ofDigits_natDigits]

/-! ### Corners of a region -/

namespace Building

def HasName (name : String) (p : Page Trimmed) : Prop := name ∈ p.placed.map fun q => q.item.name

variable {p : Page Trimmed} {name : String} {x0 y0 : Datum} {k : Nat}

end Building

/-! ### Symbols with frames -/

abbrev Fields := List (String × Datum)

abbrev FrameTable := List (String × List (Nat × Fields))

def framesDatum (fs : List (Nat × Fields)) : Datum := .list (fs.map fun f => .dict (keyed .str f.2))

def FrameTable.toMembers (t : FrameTable) : Members :=
  keyed .str (t.map fun s => (s.1, framesDatum s.2))

def FrameTable.frames (t : FrameTable) : List (String × Nat × Fields) :=
  t.flatMap fun s => s.2.map fun f => (s.1, f)

def Begins (f : Fields) (place size : String) (d : Datum) : Prop :=
  ∃ p s half, f.lookup place = some p ∧ f.lookup size = some s ∧ floorOver s (.int 2) = .ok half ∧
    minus p half = .ok d

namespace Building

end Building

/-! ### Trimming -/

def Build.image? (b : Build) (name : String) : Option Trimmed :=
  (b.portraits.lookup name).bind fun c =>
    match (do (← c.opened).trim Building.trimBlock : Result Trimmed) with
    | .ok t => some { t with offset := t.offset.or c.offset }
    | .error _ => none

theorem Portraits.lookup_put_of_ne {ps : Portraits} {name other : String} (c : Cutout)
    (h : other ≠ name) : (ps.put name c).lookup other = ps.lookup other :=
  Places.lookup_put_of_ne h ps c

namespace Building

variable {b : Build} {t : FrameTable} {corners : List Datum} {s : String}
  {fs : List (Nat × Fields)} {sheets : List Sheet}

/-- The corners of a frame are on one page: the one with its item. -/
structure OnPage (pages : List (Page Trimmed)) (i : Item Trimmed) (k : Nat)
    (corners : List Datum) : Prop where
  holds : ∃ p, pages[k]? = some p ∧ ∃ q ∈ p.placed, q.item = i
  only : ∀ j p, pages[j]? = some p → HasName i.name p → j = k
  corners : ∀ c ∈ corners, named c "w" = .ok (.int k)

/-- The frame of a symbol knows the range of its corners. They show its picture, six for each
region, on the one page that has it. -/
structure Shown (b : Build) (pages : List (Page Trimmed)) (corners : List Datum)
    (f : String × Nat × Fields) (r : Nat × Nat) : Prop where
  start : f.2.2.lookup "alphaidx" = some (.int r.1)
  count : f.2.2.lookup "alphacount" = some (.int r.2)
  within : r.1 + r.2 ≤ corners.length
  page : ∃ img k, b.image? (pictureName f.1 f.2.1) = some img ∧
    r.2 = 6 * img.parts.length ∧
    OnPage pages (itemOf (pictureName f.1 f.2.1) img) k ((corners.drop r.1).take r.2)

variable {whole : Build} {pages : List (Page Trimmed)}

theorem Shown.append {f : String × Nat × Fields} {r : Nat × Nat} (h : Shown whole pages corners f r)
    (more : List Datum) : Shown whole pages (corners ++ more) f r := by
  obtain ⟨hstart, hcount, hwithin, hpage⟩ := h
  refine ⟨hstart, hcount, by rw [length_append]; omega, ?_⟩
  rwa [drop_append_of_le_length (by omega), take_append_of_le_length]
  rw [length_drop]
  omega

end Building

/-! ### The order of symbols -/

/-- Names in the order in which a file has them: the writer asks for their codes, sorts these and
looks up the name for each. -/
def writtenOrder (names : List String) : List String :=
  match (names.map .str).mapM Writing.code .empty with
  | .ok codes d =>
    (codes.mergeSort fun m n => decide (m ≤ n)).map fun c => (d.names.name? c).getD ""
  | .error _ _ => []

structure Coded (names : List String) : Prop where
  code : ∀ n ∈ names, nameCode n = .ok (codeOf n)
  nodup : (names.map codeOf).Nodup

def FrameTable.written (t : FrameTable) : FrameTable :=
  (writtenOrder (t.map (·.1))).map fun s => (s, (t.lookup s).getD [])

section Written

variable {t : FrameTable}

end Written

/-! ### Gathering -/

def drawn (p : Page Trimmed) : Result Cutout :=
  Building.scaledPage (.int 1) (p.picture (·.picture) false)

/-- A frame of a symbol with a picture whose sides are at most 2048. -/
structure Pictured (b : Build) (s : String) (f : Nat × Fields) : Prop where
  number : f.2.lookup "framenum" = some (.int f.1)
  left : ∃ x, Begins f.2 "x" "w" x
  top : ∃ y, Begins f.2 "y" "h" y
  picture : ∃ c, b.portraits.lookup (pictureName s f.1) = some c ∧ c.closed = false ∧
    (1 ≤ c.picture.width ∧ c.picture.width ≤ 2048) ∧
    1 ≤ c.picture.height ∧ c.picture.height ≤ 2048

/-- A build in the scale 1 with symbols whose names have different codes and whose frames have
different numbers and pictures. -/
structure Build.Gatherable (b : Build) (t : FrameTable) : Prop where
  data : ∃ ms, b.data = keyed .str ms ∧ ms.lookup "scale" = some (.int 1) ∧
    ms.lookup "Symbol" = some (.dict t.toMembers)
  codes : Coded (t.map (·.1))
  numbers : ∀ s ∈ t, (s.2.map (·.1)).Nodup
  pictured : ∀ s ∈ t, ∀ f ∈ s.2, Pictured b s.1 f
  nonempty : t.frames ≠ []

variable {b : Build} {t : FrameTable} {s : String × List (Nat × Fields)} {f : Nat × Fields}

def FrameTable.names (t : FrameTable) : List String :=
  t.flatMap fun s => s.2.map fun f => pictureName s.1 f.1

theorem Build.Gatherable.names_nodup (h : b.Gatherable t) : t.names.Nodup := by
  have hdistinct : t.Pairwise fun s s' => s.1 ≠ s'.1 :=
    pairwise_map.mp (h.codes.nodup.of_map _)
  refine nodup_flatMap.mpr ⟨fun s hs => ?_, hdistinct.imp fun {s s'} hne => ?_⟩
  · have hinj : Function.Injective (pictureName s.1) := fun _ _ heq => (pictureName_inj heq).2
    have := (h.numbers s hs).map hinj
    rwa [map_map] at this
  · rw [Function.onFun, disjoint_left]
    intro n hn hn'
    obtain ⟨f, -, rfl⟩ := mem_map.mp hn
    obtain ⟨f', -, heq⟩ := mem_map.mp hn'
    exact hne (pictureName_inj heq).1.symm

def Build.imageOf (b : Build) (name : String) : Trimmed :=
  (b.image? name).getD ⟨.blank 0 0, ⟨[], []⟩, 0, 0, none⟩

def Build.items (b : Build) (t : FrameTable) : List (Item Trimmed) :=
  t.names.map fun n => Building.itemOf n (b.imageOf n)

namespace Build.Gatherable

end Build.Gatherable

namespace Building

variable {roomOf : Number → List (Nat × Nat) → Result Atlas.Room} {pages : List (Page Trimmed)}

def dots : Cutout := .ofPicture (.plain 2 2 (.ofParts 255 0 0 255))

end Building

end Sprite

end WikiFeed

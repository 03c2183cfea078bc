import Mathlib.Data.List.Infix
import WikiFeed.Text.Search

/-! # Lines and marks in them

Lines that are each ended by a line feed are found again as the lines of the text that they make
(`lines_ofLines`), and a mark that stands nowhere in a text stands in none of its lines. -/

namespace WikiFeed.Text

open List

/-! ### Marks in a line -/

theorem find?_isSome_iff (sub : List Char) : ∀ s, (find? sub s).isSome ↔ sub <:+: s
  | [] => by
    rw [find?, infix_nil]
    cases sub <;> simp
  | c :: r => by
    rw [find?, infix_cons_iff, ← isPrefixOf_iff_prefix]
    split
    · simp [*]
    · simp [*, find?_isSome_iff sub r]

abbrev Has (mark line : String) : Prop := mark.toList <:+: line.toList

theorem occurs_iff {mark line : String} : occurs mark line ↔ Has mark line :=
  find?_isSome_iff mark.toList line.toList

/-! ### Lines and line feeds -/

theorem lineList_cons {c : Char} {r : List Char} (h : c = '\r' → r.head? ≠ some '\n')
    (acc : List Char) :
    lineList acc (c :: r) =
      if isLineEnd c then acc.reverse :: lineList [] r else lineList (c :: acc) r := by
  rw [lineList]
  rintro r rfl rfl
  exact h rfl rfl

theorem lineList_append_feed (t : List Char) : ∀ acc s,
    lineList acc (s ++ '\n' :: t) = lineList acc (s ++ ['\n']) ++ lineList [] t
  | acc, [] => by
    rw [nil_append, nil_append, lineList_cons (by simp), lineList_cons (by simp)]
    rfl
  | _, ['\r'] => rfl
  | acc, '\r' :: '\n' :: r => congrArg (acc.reverse :: ·) (lineList_append_feed t [] r)
  | acc, c :: r => by
    by_cases hlast : c = '\r' ∧ r = []
    · obtain ⟨rfl, rfl⟩ := hlast
      rfl
    by_cases hfeed : c = '\r' ∧ r.head? = some '\n'
    · obtain ⟨rfl, hr⟩ := hfeed
      obtain ⟨r, rfl⟩ := head?_eq_some_iff.mp hr
      exact congrArg (acc.reverse :: ·) (lineList_append_feed t [] r)
    have hplain (u : List Char) : c = '\r' → (r ++ '\n' :: u).head? ≠ some '\n' := by
      intro hc
      cases r with
      | nil => exact absurd ⟨hc, rfl⟩ hlast
      | cons d r => exact fun hd => hfeed ⟨hc, hd⟩
    rw [cons_append, cons_append, lineList_cons (hplain t), lineList_cons (hplain [])]
    split
    · rw [lineList_append_feed t [] r]
      rfl
    · exact lineList_append_feed t (c :: acc) r

theorem piece_of_mem_lineList {l : List Char} (acc s : List Char) (h : l ∈ lineList acc s)
    (hacc : ∀ c ∈ acc, isLineEnd c = false) :
    l <:+: acc.reverse ++ s ∧ ∀ c ∈ l, isLineEnd c = false := by
  have hfirst (acc u : List Char) (hacc : ∀ c ∈ acc, isLineEnd c = false) :
      acc.reverse <:+: acc.reverse ++ u ∧ ∀ c ∈ acc.reverse, isLineEnd c = false :=
    ⟨(prefix_append _ _).isInfix, by simpa using hacc⟩
  fun_induction lineList acc s with
  | case1 acc => cases h
  | case2 acc => exact mem_singleton.mp h ▸ hfirst acc [] hacc
  | case3 acc r ih =>
    rcases mem_cons.mp h with rfl | h
    · exact hfirst acc _ hacc
    · obtain ⟨hl, hplain⟩ := ih h (by simp)
      exact ⟨hl.trans ⟨acc.reverse ++ ['\r', '\n'], [], by simp⟩, hplain⟩
  | case4 acc c r _ hc ih =>
    rcases mem_cons.mp h with rfl | h
    · exact hfirst acc _ hacc
    · obtain ⟨hl, hplain⟩ := ih h (by simp)
      exact ⟨hl.trans ⟨acc.reverse ++ [c], [], by simp⟩, hplain⟩
  | case5 acc c r _ hc ih =>
    simpa using ih h (forall_mem_cons.mpr ⟨eq_false_of_ne_true hc, hacc⟩)

theorem lineList_of_plain {l : List Char} (t : List Char) (h : ∀ c ∈ l, isLineEnd c = false)
    (acc : List Char) : lineList acc (l ++ '\n' :: t) = (acc.reverse ++ l) :: lineList [] t := by
  induction l generalizing acc with
  | nil =>
    rw [nil_append, lineList_cons (by simp), append_nil]
    rfl
  | cons c l ih =>
    obtain ⟨hc, hl⟩ := forall_mem_cons.mp h
    have hne : c ≠ '\r' := by
      rintro rfl
      cases hc
    rw [cons_append, lineList_cons (absurd · hne), hc, if_neg Bool.false_ne_true, ih hl]
    simp

def ofLines (ls : List String) : String := String.join (ls.map (· ++ "\n"))

theorem ofLines_cons (l : String) (ls : List String) :
    ofLines (l :: ls) = l ++ "\n" ++ ofLines ls := by
  rw [ofLines, map_cons, String.join_cons]
  rfl

theorem ofLines_append (ls ms : List String) : ofLines (ls ++ ms) = ofLines ls ++ ofLines ms := by
  rw [ofLines, map_append, String.join_append]
  rfl

def Plain (s : String) : Prop := ∀ c ∈ s.toList, isLineEnd c = false

theorem plain_of_mem_lines {l s : String} (h : l ∈ lines s) : Plain l := by
  obtain ⟨l, hl, rfl⟩ := mem_map.mp h
  rw [Plain, String.toList_ofList]
  exact (piece_of_mem_lineList [] _ hl (by simp)).2

theorem lines_ofLines_append {ls : List String} (h : ∀ l ∈ ls, Plain l) (s : String) :
    lines (ofLines ls ++ s) = ls ++ lines s := by
  induction ls with
  | nil => rw [ofLines, map_nil, String.join_nil, String.empty_append]; rfl
  | cons l ls ih =>
    obtain ⟨hl, hls⟩ := forall_mem_cons.mp h
    rw [ofLines_cons, cons_append, ← ih hls, lines, lines]
    have hfeed : (l ++ "\n" ++ ofLines ls ++ s).toList =
        l.toList ++ '\n' :: (ofLines ls ++ s).toList := by simp
    rw [hfeed, lineList_of_plain _ hl, map_cons]
    simp

theorem lines_ofLines {ls : List String} (h : ∀ l ∈ ls, Plain l) : lines (ofLines ls) = ls := by
  have hend := lines_ofLines_append h ""
  rwa [String.append_empty, show lines "" = [] from rfl, append_nil] at hend

theorem lines_feed_append (s t : String) : lines (s ++ "\n" ++ t) =
    lines (s ++ "\n") ++ lines t := by
  simp [lines, lineList_append_feed t.toList [] s.toList]

theorem not_has_of_mem_lines {mark s l : String} (h : ¬ Has mark s) (hl : l ∈ lines s) :
    ¬ Has mark l := by
  obtain ⟨cs, hcs, rfl⟩ := mem_map.mp hl
  refine fun hmark => h (hmark.trans ?_)
  rw [String.toList_ofList]
  exact (piece_of_mem_lineList [] _ hcs (by simp)).1

theorem not_has_feed {mark s : String} (hmark : mark.toList.getLast? ∉ [none, some '\n'])
    (h : ¬ Has mark s) : ¬ Has mark (s ++ "\n") := by
  rw [Has, String.toList_append, show "\n".toList = ['\n'] from rfl, infix_concat_iff,
    suffix_concat_iff]
  rintro ((hnil | ⟨t, ht, -⟩) | hs)
  · simp [hnil] at hmark
  · simp [ht] at hmark
  · exact h hs

end WikiFeed.Text

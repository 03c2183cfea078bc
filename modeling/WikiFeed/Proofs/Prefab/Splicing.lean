import WikiFeed.Prefab.Override
import WikiFeed.Proofs.Text.Lines

/-! # Data between the lines of a page

The page of the overrides is kept up to its first line that opens a long text and from the next line
that closes one; what stands between them is the data. A second update finds the same two lines
again, since a line of data without closing brackets closes nothing. Main statement:
`updatedPage_splices`. -/

namespace WikiFeed.Prefab

open List Text
open Text (Has ofLines Plain)

/-! ### The two lines that are looked for -/

/-- The lines of a page around its data: those up to the line that opens a long text, those of the
text, and those from the line that closes it. -/
structure Frame (ls before : List String) (opening : String) (inside behind : List String) :
    Prop where
  lines : ls = before ++ opening :: (inside ++ behind)
  before : ∀ l ∈ before, ¬ Has "[[" l
  opening : Has "[[" opening
  inside : ∀ l ∈ inside, ¬ Has "]]" l
  behind : ∀ l ∈ behind.head?, Has "]]" l

theorem exists_closing : ∀ ls : List String, ∃ inside behind, ls = inside ++ behind ∧
    (∀ l ∈ inside, ¬ Has "]]" l) ∧ ∀ l ∈ behind.head?, Has "]]" l
  | [] => ⟨[], [], rfl, by simp, by simp⟩
  | l :: ls => by
    by_cases hl : Has "]]" l
    · exact ⟨[], l :: ls, rfl, by simp, by simpa using hl⟩
    · obtain ⟨inside, behind, rfl, hinside, hbehind⟩ := exists_closing ls
      exact ⟨l :: inside, behind, rfl, forall_mem_cons.mpr ⟨hl, hinside⟩, hbehind⟩

theorem exists_frame : ∀ ls : List String, (∀ l ∈ ls, ¬ Has "[[" l) ∨
    ∃ before opening inside behind, Frame ls before opening inside behind
  | [] => .inl (by simp)
  | l :: ls => by
    by_cases hl : Has "[[" l
    · obtain ⟨inside, behind, rfl, hinside, hbehind⟩ := exists_closing ls
      exact .inr ⟨[], l, inside, behind, rfl, by simp, hl, hinside, hbehind⟩
    · rcases exists_frame ls with hls | ⟨before, opening, inside, behind, h⟩
      · exact .inl (forall_mem_cons.mpr ⟨hl, hls⟩)
      · exact .inr ⟨l :: before, opening, inside, behind, by rw [h.lines]; rfl,
          forall_mem_cons.mpr ⟨hl, h.before⟩, h.opening, h.inside, h.behind⟩

/-! ### The updated page -/

section Phases

variable {ls : List String} {data t : String}

theorem foldl_next_of_kept {opened closed : Bool}
    (h : ∀ l ∈ ls, ∀ t, Splicing.next data ⟨opened, closed, t⟩ l =
      ⟨opened, closed, t ++ (l ++ "\n")⟩) :
    ls.foldl (Splicing.next data) ⟨opened, closed, t⟩ = ⟨opened, closed, t ++ ofLines ls⟩ := by
  induction ls generalizing t with
  | nil => exact congrArg _ String.append_empty.symm
  | cons l ls ih =>
    obtain ⟨hl, hls⟩ := forall_mem_cons.mp h
    rw [foldl_cons, hl, ih hls, ofLines_cons, String.append_assoc]

theorem foldl_next_before (h : ∀ l ∈ ls, ¬ Has "[[" l) :
    ls.foldl (Splicing.next data) ⟨false, false, t⟩ = ⟨false, false, t ++ ofLines ls⟩ :=
  foldl_next_of_kept fun l hl _ => if_neg (mt occurs_iff.mp (h l hl))

theorem foldl_next_inside (h : ∀ l ∈ ls, ¬ Has "]]" l) :
    ls.foldl (Splicing.next data) ⟨true, false, t⟩ = ⟨true, false, t⟩ := by
  induction ls with
  | nil => rfl
  | cons l ls ih =>
    obtain ⟨hl, hls⟩ := forall_mem_cons.mp h
    have hskip : Splicing.next data ⟨true, false, t⟩ l = ⟨true, false, t⟩ :=
      if_neg (mt occurs_iff.mp hl)
    rw [foldl_cons, hskip, ih hls]

/-- The line that closes the text is kept, as are all lines after it. -/
theorem foldl_next_behind (h : ∀ l ∈ ls.head?, Has "]]" l) :
    (ls.foldl (Splicing.next data) ⟨true, false, t⟩).text = t ++ ofLines ls := by
  cases ls with
  | nil => exact String.append_empty.symm
  | cons l ls =>
    have hclose : Splicing.next data ⟨true, false, t⟩ l = ⟨true, true, t ++ (l ++ "\n")⟩ :=
      if_pos (occurs_iff.mpr (h l rfl))
    rw [foldl_cons, hclose, foldl_next_of_kept fun _ _ _ => rfl, ofLines_cons, String.append_assoc]

end Phases

theorem updatedPage_of_frame {page opening : String} {before inside behind : List String}
    (h : Frame (lines page) before opening inside behind) (data : String) :
    updatedPage page data = ofLines (before ++ [opening]) ++ (data ++ "\n") ++ ofLines behind := by
  obtain ⟨hlines, hbefore, hopening, hinside, hbehind⟩ := h
  have hopen (t : String) : Splicing.next data ⟨false, false, t⟩ opening =
      ⟨true, false, t ++ (opening ++ "\n") ++ (data ++ "\n")⟩ := if_pos (occurs_iff.mpr hopening)
  have hsingle : ofLines [opening] = opening ++ "\n" := by
    rw [ofLines_cons]
    exact String.append_empty
  rw [updatedPage, hlines, foldl_append, foldl_next_before hbefore, foldl_cons, hopen, foldl_append,
    foldl_next_inside hinside, foldl_next_behind hbehind, ofLines_append, hsingle,
    String.empty_append]

theorem updatedPage_of_not_has {page : String} (h : ∀ l ∈ lines page, ¬ Has "[[" l)
    (data : String) :
    updatedPage page data = ofLines (lines page) := by
  rw [updatedPage, foldl_next_before h, String.empty_append]

/-- **An update puts the data** between the first line that opens a long text and the next line that
closes one, and leaves a page as it is that opens none. A second update with the same data changes
nothing. -/
theorem updatedPage_splices (page data : String) (hdata : ¬ Has "]]" data) :
    ((∀ l ∈ Text.lines page, ¬ Has "[[" l) ∧ updatedPage page data = ofLines (Text.lines page) ∨
      ∃ before opening inside behind, Frame (Text.lines page) before opening inside behind ∧
        updatedPage page data =
          ofLines (before ++ [opening]) ++ (data ++ "\n") ++ ofLines behind) ∧
      updatedPage (updatedPage page data) data = updatedPage page data := by
  have hplain (l) (hl : l ∈ Text.lines page) : Text.Plain l := Text.plain_of_mem_lines hl
  rcases exists_frame (Text.lines page) with hnone | ⟨before, opening, inside, behind, h⟩
  · have hsame := updatedPage_of_not_has hnone data
    have hagain : Text.lines (ofLines (Text.lines page)) = Text.lines page :=
      Text.lines_ofLines hplain
    refine ⟨.inl ⟨hnone, hsame⟩, ?_⟩
    rw [hsame, updatedPage_of_not_has (by rwa [hagain]), hagain]
  · have hpage := updatedPage_of_frame h data
    refine ⟨.inr ⟨before, opening, inside, behind, h, hpage⟩, ?_⟩
    rw [h.lines] at hplain
    -- the lines of the data stand where the lines of the old data stood
    have hagain : Frame (Text.lines (updatedPage page data)) before opening
        (Text.lines (data ++ "\n")) behind := by
      refine ⟨?_, h.before, h.opening, fun l hl => ?_, h.behind⟩
      · have hbehind : Text.lines (ofLines behind) = behind :=
          Text.lines_ofLines fun l hl => hplain l (by simp [hl])
        rw [hpage, String.append_assoc, Text.lines_ofLines_append, Text.lines_feed_append, hbehind]
        · simp
        · exact fun l hl => hplain l (by simp at hl ⊢; tauto)
      · exact Text.not_has_of_mem_lines (Text.not_has_feed (by decide) hdata) hl
    rw [updatedPage_of_frame hagain data, hpage]

theorem updatedPage_splices_module :
    ¬ Has "]]" "\x7b\x7d" ∧
      updatedPage "return [[\nold\n]]\n-- [[a]]" "\x7b\x7d" =
        "return [[\n\x7b\x7d\n]]\n-- [[a]]\n" ∧
      updatedPage "return [[\n\x7b\x7d\n]]\n-- [[a]]\n" "\x7b\x7d" =
        "return [[\n\x7b\x7d\n]]\n-- [[a]]\n" := by
  have hdata : ¬ Has "]]" "\x7b\x7d" := by decide
  have hpage : updatedPage "return [[\nold\n]]\n-- [[a]]" "\x7b\x7d" =
      "return [[\n\x7b\x7d\n]]\n-- [[a]]\n" := by decide +kernel
  have hagain := (updatedPage_splices "return [[\nold\n]]\n-- [[a]]" "\x7b\x7d" hdata).2
  rw [hpage] at hagain
  exact ⟨hdata, hpage, hagain⟩

end WikiFeed.Prefab

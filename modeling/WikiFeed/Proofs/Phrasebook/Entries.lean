import WikiFeed.Phrasebook.Basic
import WikiFeed.Proofs.Places
import WikiFeed.Proofs.Text.Utf8

/-! # Phrase books whose entries go on over several lines

An entry is written with each of its parts cut into segments: the first stands behind a keyword and
each further one on a line of its own, all between quotes. A context and a wording are read whole,
but the first segment of a translation ends the entry, so that the rest of the translation is lost.
Main statement: `lookup_readInto_written`. -/

namespace WikiFeed.Phrasebook

open List Text

/-! ### Written entries -/

abbrev OneLine := { s : String // '\n' ∉ s.toList }

abbrev Aside := { s : OneLine // (Text.trim s.1.toList).head? ∈ [none, some '#'] }

/-- A part of an entry that is cut into segments. -/
structure Segments where
  first : OneLine
  more : List OneLine

def Segments.whole (s : Segments) : String := String.join (s.first.1 :: s.more.map (·.1))

def quoted (s : String) : String := "\"" ++ s ++ "\""

def Segments.lines (keyword : String) (s : Segments) : List String :=
  (keyword ++ " " ++ quoted s.first.1) :: s.more.map (quoted ·.1)

/-- An entry as it is written, and what stands in front of it. -/
structure Entry where
  asides : List Aside
  context : Segments
  source : Segments
  text : Segments

namespace Entry

def lines (e : Entry) : List String :=
  e.asides.map (·.1.1) ++ e.context.lines "msgctxt" ++ e.source.lines "msgid" ++
    e.text.lines "msgstr"

def phrase (e : Entry) : Phrase := ⟨e.context.whole, e.source.whole, e.text.whole⟩

def cutPhrase (e : Entry) : Phrase := { e.phrase with text := e.text.first }

end Entry

def ofLines (lines : List String) : String := String.join (lines.map (· ++ "\n"))

def written (entries : List Entry) : String := ofLines (entries.flatMap Entry.lines)

/-! ### Lines of a file -/

def readLine (state : Phrasebook × Draft) (s : String) : Phrasebook × Draft :=
  if (Text.trim s.toList).head? ∈ [none, some '#'] then state
  else step state (.ofChars (Text.trim s.toList))

theorem byteLines_append {bs : List UInt8} (h : 10 ∉ bs) (acc rest : List UInt8) :
    byteLines acc (bs ++ 10 :: rest) = (acc.reverse ++ bs) :: byteLines [] rest := by
  induction bs generalizing acc with
  | nil =>
    rw [append_nil]
    rfl
  | cons b bs ih =>
    obtain ⟨hb, hbs⟩ := not_or.mp (mt mem_cons.mpr h)
    rw [cons_append, byteLines, if_neg (by simpa using Ne.symm hb), ih hbs, reverse_cons,
      append_assoc, singleton_append]

theorem byteLines_ofLines {lines : List String} (h : ∀ s ∈ lines, '\n' ∉ s.toList) :
    byteLines [] (encode (ofLines lines)) = lines.map encode ++ [[]] := by
  induction lines with
  | nil => rfl
  | cons s lines ih =>
    have hfeed : encode "\n" = [10] := rfl
    rw [ofLines, map_cons, String.join_cons, encode_append, encode_append, hfeed, append_assoc,
      singleton_append, byteLines_append (feed_not_mem_encode (h s mem_cons_self))]
    exact congrArg (encode s :: ·) (ih fun t ht => h t (mem_cons_of_mem s ht))

theorem readLine_eq (state : Phrasebook × Draft) (s : String) :
    readLine state s =
      if !(trim s.toList).isEmpty && (trim s.toList).head? != some '#' then
        step state (.ofChars (trim s.toList))
      else state := by
  unfold readLine
  cases trim s.toList with
  | nil => rfl
  | cons c cs =>
    by_cases hc : c = '#'
    · simp [hc]
    · simp [hc]

theorem readInto_ofLines {lines : List String} (h : ∀ s ∈ lines, '\n' ∉ s.toList)
    (book : Phrasebook) :
    readInto book (encode (ofLines lines)) = (lines.foldl readLine (book, .empty)).1 := by
  have hread : (lines.map encode ++ [[]]).filterMap decode? = lines ++ [""] := by
    have hend : lines.map encode ++ [[]] = (lines ++ [""]).map encode := by
      rw [map_append]
      rfl
    rw [hend, filterMap_map, funext decode?_encode (f := decode? ∘ encode), filterMap_some]
  -- the last line is empty
  have hblank : ∀ state, readLine state "" = state := fun _ => rfl
  rw [readInto, contentLines, byteLines_ofLines h, hread, foldl_map, foldl_filter, foldl_map]
  simp only [← readLine_eq]
  rw [foldl_append, foldl_cons, foldl_nil, hblank]

/-! ### Lines of an entry -/

theorem trim_eq_self {a b : Char} (ha : isBlank a = false) (hb : isBlank b = false)
    (cs : List Char) : trim (a :: (cs ++ [b])) = a :: (cs ++ [b]) := by
  have hstart : trimStart (a :: (cs ++ [b])) = a :: (cs ++ [b]) :=
    dropWhile_cons_of_neg (by simp [ha])
  have hend : (a :: (cs ++ [b])).reverse = b :: (a :: cs).reverse := by
    simp
  rw [trim, hstart, trimEnd, hend, dropWhile_cons_of_neg (by simp [hb]), ← hend, reverse_reverse]

theorem toList_quoted (s : String) : (quoted s).toList = '"' :: (s.toList ++ ['"']) := by
  simp [quoted]

theorem unquote_quoted (s : String) : unquote (quoted s).toList = s.toList := by
  have hlast : ('"' :: (s.toList ++ ['"'])).getLast? = some '"' := by
    rw [← cons_append, getLast?_append]
    rfl
  rw [unquote, toList_quoted, trim_eq_self (by decide) (by decide)]
  simp only [hlast, head?_cons, beq_self_eq_true, Bool.and_self, ↓reduceIte, tail_cons,
    dropLast_concat]

theorem unquote_behind (s : String) : unquote (trim (' ' :: (quoted s).toList)) = s.toList := by
  have htrim : trim (' ' :: (quoted s).toList) = (quoted s).toList := by
    rw [toList_quoted]
    exact trim_eq_self (a := '"') (b := '"') (by decide) (by decide) s.toList
  rw [htrim, unquote_quoted]

theorem isPrefixOf?_append (l r : List Char) : l.isPrefixOf? (l ++ r) = some r := by
  induction l with
  | nil => rfl
  | cons c l ih =>
    change (if (c == c) = true then l.isPrefixOf? (l ++ r) else none) = some r
    rw [if_pos (beq_self_eq_true c), ih]

theorem readLine_of_quote {s : String} {c : Char} {r : List Char} (state : Phrasebook × Draft)
    (hs : s.toList = c :: (r ++ ['"'])) (hc : isBlank c = false) (hc' : c ≠ '#') :
    readLine state s = step state (.ofChars s.toList) := by
  have htrim : trim s.toList = s.toList := by
    rw [hs]
    exact trim_eq_self hc (by decide) r
  have hkeep : s.toList.head? ∉ [none, some '#'] := by
    rw [hs]
    simp [hc']
  rw [readLine, htrim, if_neg hkeep]

theorem readLine_context (book : Phrasebook) (d : Draft) (s : String) :
    readLine (book, d) ("msgctxt" ++ " " ++ quoted s) =
      (book, ⟨some s.toList, none, some .context⟩) := by
  have hs : ("msgctxt" ++ " " ++ quoted s).toList =
      "msgctxt".toList ++ ' ' :: (quoted s).toList := by
    simp
  rw [readLine_of_quote (c := 'm') (r := "sgctxt \"".toList ++ s.toList) _ (by simp [quoted])
    (by decide) (by decide), hs, Line.ofChars, isPrefixOf?_append]
  simp only [unquote_behind, step]

theorem readLine_source (book : Phrasebook) (d : Draft) (s : String) :
    readLine (book, d) ("msgid" ++ " " ++ quoted s) =
      (book, { d with source := some s.toList, slot := some .source }) := by
  have hs : ("msgid" ++ " " ++ quoted s).toList = "msgid".toList ++ ' ' :: (quoted s).toList := by
    simp
  have hcontext :
      "msgctxt".toList.isPrefixOf? ("msgid".toList ++ ' ' :: (quoted s).toList) = none := rfl
  rw [readLine_of_quote (c := 'm') (r := "sgid \"".toList ++ s.toList) _ (by simp [quoted])
    (by decide) (by decide), hs, Line.ofChars, hcontext, isPrefixOf?_append]
  simp only [unquote_behind, step]

theorem readLine_text (book : Phrasebook) (c s : List Char) (slot : Option Slot) (t : String) :
    readLine (book, ⟨some c, some s, slot⟩) ("msgstr" ++ " " ++ quoted t) =
      (put book (String.ofList c) ⟨String.ofList c, String.ofList s, t⟩, .empty) := by
  have hs : ("msgstr" ++ " " ++ quoted t).toList = "msgstr".toList ++ ' ' :: (quoted t).toList := by
    simp
  have hcontext :
      "msgctxt".toList.isPrefixOf? ("msgstr".toList ++ ' ' :: (quoted t).toList) = none := rfl
  have hsource : "msgid".toList.isPrefixOf? ("msgstr".toList ++ ' ' :: (quoted t).toList) = none :=
    rfl
  rw [readLine_of_quote (c := 'm') (r := "sgstr \"".toList ++ t.toList) _ (by simp [quoted])
    (by decide) (by decide), hs, Line.ofChars, hcontext, hsource, isPrefixOf?_append]
  simp only [unquote_behind, step, String.ofList_toList]

theorem readLine_quoted (book : Phrasebook) (d : Draft) (s : String) :
    readLine (book, d) (quoted s) = (book, d.extend s.toList) := by
  have hcontext : "msgctxt".toList.isPrefixOf? ('"' :: (s.toList ++ ['"'])) = none := rfl
  have hsource : "msgid".toList.isPrefixOf? ('"' :: (s.toList ++ ['"'])) = none := rfl
  have htext : "msgstr".toList.isPrefixOf? ('"' :: (s.toList ++ ['"'])) = none := rfl
  have hunquote := unquote_quoted s
  rw [toList_quoted] at hunquote
  rw [readLine_of_quote _ (toList_quoted s) (by decide) (by decide), toList_quoted, Line.ofChars,
    hcontext, hsource, htext]
  simp only [head?_cons, beq_self_eq_true, ↓reduceIte, hunquote, step]

theorem readLine_aside (state : Phrasebook × Draft) (s : Aside) : readLine state s.1.1 = state :=
  if_pos s.2

/-! ### Entries -/

theorem Draft.extend_extend (d : Draft) (a b : List Char) :
    (d.extend a).extend b = d.extend (a ++ b) := by
  obtain ⟨context, source, slot⟩ := d
  cases slot with
  | none => rfl
  | some slot => cases slot <;> simp [Draft.extend]

theorem foldl_segments {state : Phrasebook × Draft} {book : Phrasebook} {d : Draft}
    {keyword : String} {s : Segments}
    (h : readLine state (keyword ++ " " ++ quoted s.first.1) = (book, d.extend s.first.1.toList)) :
    (s.lines keyword).foldl readLine state = (book, d.extend s.whole.toList) := by
  have hmore : ∀ (more : List OneLine) (a : List Char),
      (more.map (quoted ·.1)).foldl readLine (book, d.extend a) =
        (book, d.extend (a ++ (String.join (more.map (·.1))).toList)) := by
    intro more
    induction more with
    | nil => intro a; simp
    | cons m more ih =>
      intro a
      rw [map_cons, foldl_cons, readLine_quoted, Draft.extend_extend, ih,
        append_assoc, ← String.toList_append, ← String.join_cons]
      rfl
  rw [Segments.lines, foldl_cons, h, hmore, ← String.toList_append, ← String.join_cons]
  rfl

theorem foldl_asides (asides : List Aside) (state : Phrasebook × Draft) :
    (asides.map (·.1.1)).foldl readLine state = state := by
  induction asides with
  | nil => rfl
  | cons s asides ih => rw [map_cons, foldl_cons, readLine_aside, ih]

theorem foldl_entry (book : Phrasebook) (d : Draft) (e : Entry) :
    e.lines.foldl readLine (book, d) = (put book e.context.whole e.cutPhrase, .empty) := by
  have hcontext : (e.context.lines "msgctxt").foldl readLine (book, d) =
      (book, ⟨some e.context.whole.toList, none, some .context⟩) :=
    foldl_segments (d := ⟨some [], none, some .context⟩) (readLine_context book d _)
  have hsource : (e.source.lines "msgid").foldl readLine
      (book, ⟨some e.context.whole.toList, none, some .context⟩) =
      (book, ⟨some e.context.whole.toList, some e.source.whole.toList, some .source⟩) :=
    foldl_segments (d := ⟨some e.context.whole.toList, some [], some .source⟩)
      (readLine_source book _ _)
  have htext : (e.text.lines "msgstr").foldl readLine
      (book, ⟨some e.context.whole.toList, some e.source.whole.toList, some .source⟩) =
      (put book e.context.whole e.cutPhrase, .empty) := by
    have hfirst := readLine_text book e.context.whole.toList e.source.whole.toList (some .source)
      e.text.first.1
    rw [String.ofList_toList, String.ofList_toList] at hfirst
    -- nothing is being read any more, so the further lines add nothing
    exact foldl_segments (d := .empty) hfirst
  rw [Entry.lines, foldl_append, foldl_append, foldl_append, foldl_asides, hcontext, hsource, htext]

theorem foldl_entries (book : Phrasebook) (entries : List Entry) :
    (entries.flatMap Entry.lines).foldl readLine (book, .empty) =
      (entries.foldl (fun b e => put b e.context.whole e.cutPhrase) book, .empty) := by
  induction entries generalizing book with
  | nil => rfl
  | cons e entries ih => rw [flatMap_cons, foldl_append, foldl_entry, ih, foldl_cons]

theorem feed_not_mem_lines {e : Entry} {s : String} (h : s ∈ e.lines) : '\n' ∉ s.toList := by
  have hsegments : ∀ (keyword : String) (t : Segments), '\n' ∉ keyword.toList →
      s ∈ t.lines keyword → '\n' ∉ s.toList := by
    intro keyword t hkeyword hs
    rcases mem_cons.mp hs with rfl | hs
    · simp [quoted, hkeyword, t.first.2]
    · obtain ⟨m, -, rfl⟩ := mem_map.mp hs
      simp [quoted, m.2]
  simp only [Entry.lines, mem_append] at h
  rcases h with ((h | h) | h) | h
  · obtain ⟨a, -, rfl⟩ := mem_map.mp h
    exact a.1.2
  · exact hsegments "msgctxt" _ (by decide) h
  · exact hsegments "msgid" _ (by decide) h
  · exact hsegments "msgstr" _ (by decide) h

theorem readInto_written (book : Phrasebook) (entries : List Entry) :
    readInto book (encode (written entries)) =
      entries.foldl (fun b e => put b e.context.whole e.cutPhrase) book := by
  have hlines : ∀ s ∈ entries.flatMap Entry.lines, '\n' ∉ s.toList := by
    intro s hs
    obtain ⟨e, -, he⟩ := mem_flatMap.mp hs
    exact feed_not_mem_lines he
  rw [written, readInto_ofLines hlines, foldl_entries]

/-- **The last entry of a context is stored, with its translation up to the first cut.** Whatever
the entries, however their parts are cut and whatever blank lines and comments stand in front of
them: under each context stands the last entry with that context. Its context and its wording are
those of all their segments, but of its translation only the first segment is kept. Other contexts
keep what the book had before. -/
theorem lookup_readInto_written (book : Phrasebook) (entries : List Entry) (context : String) :
    (readInto book (Text.encode (written entries))).lookup context =
      ((entries.filter (·.context.whole == context)).getLast?.map fun e =>
        { e.phrase with text := e.text.first.1 }).or (book.lookup context) := by
  rw [readInto_written]
  exact Places.lookup_foldl_put (fun e : Entry => e.context.whole) Entry.cutPhrase ..

def folded : Entry where
  asides := []
  context := ⟨⟨"A", by decide⟩, []⟩
  source := ⟨⟨"b", by decide⟩, []⟩
  text := ⟨⟨"", by decide⟩, [⟨"c", by decide⟩]⟩

/-- A translation that starts on the second line is lost. -/
theorem lookup_readInto_folded :
    (readInto [] (Text.encode (written [folded]))).lookup "A" = some ⟨"A", "b", ""⟩ ∧
    folded.phrase = ⟨"A", "b", "c"⟩ := by
  rw [readInto_written]
  exact ⟨rfl, rfl⟩

end WikiFeed.Phrasebook

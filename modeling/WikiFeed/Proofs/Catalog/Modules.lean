import WikiFeed.Proofs.Catalog.Buckets
import WikiFeed.Proofs.Overlays

/-! # What the modules of tables return

A module is read the way the wiki reads it: its text is cut into signs (`signs?`), where a literal
ends at the first quote that no backslash stands before, and the signs are read as fields of nested
tables (`fields?`). The reader knows four escapes and refuses a line break inside a literal.

A text between quotes is written by four replacements, each over the result of the one before. Since
the backslash is replaced first, they come to writing each character on its own
(`toList_escape`), which the reader undoes (`decode?_escaped`). A name that needs no escape is its
own writing (`escaped_of_plain`), so the names of characters, which are written as they are, are
read like all the other texts. -/

namespace WikiFeed.Catalog

open List Text

/-! ### The reader -/

/-- A sign of a table constructor; a literal is held as it is written between its quotes. -/
inductive Sign where
  | opening
  | closing
  | left
  | right
  | equals
  | separator
  | literal (body : List Char)

def sign? : Char → Option Sign
  | '\x7b' => some .opening
  | '\x7d' => some .closing
  | '[' => some .left
  | ']' => some .right
  | '=' => some .equals
  | ',' => some .separator
  | ';' => some .separator
  | _ => none

def isGap (c : Char) : Bool := c ∈ [' ', '\t', '\n', '\r', '\x0b', '\x0c']

/-- The place of a character: between two signs, in a literal, or behind a backslash of a literal.
What stands before it in the literal is held in reverse. -/
inductive Spot where
  | between
  | inside (before : List Char)
  | behind (before : List Char)

def signs? : Spot → List Char → Option (List Sign)
  | .between, [] => some []
  | .between, c :: r =>
    if isGap c then signs? .between r
    else if c = '"' then signs? (.inside []) r
    else (sign? c).bind fun s => (signs? .between r).map (s :: ·)
  | .inside before, c :: r =>
    if c = '"' then (signs? .between r).map (.literal before.reverse :: ·)
    else if c = '\\' then signs? (.behind (c :: before)) r
    else signs? (.inside (c :: before)) r
  | .behind before, c :: r => signs? (.inside (c :: before)) r
  | .inside _, [] => none
  | .behind _, [] => none

def meaning? : Char → Option Char
  | '\\' => some '\\'
  | '"' => some '"'
  | 'n' => some '\n'
  | 'r' => some '\r'
  | _ => none

def isSpecial (c : Char) : Bool := c ∈ ['\\', '"', '\n', '\r']

def decode? : List Char → Option (List Char)
  | [] => some []
  | [c] => if isSpecial c then none else some [c]
  | c :: d :: r =>
    if c = '\\' then (meaning? d).bind fun e => (decode? r).map (e :: ·)
    else if isSpecial c then none
    else (decode? (d :: r)).map (c :: ·)

inductive Node where
  | text (s : String)
  | table (fields : List (String × Node))

/-- Reads the signs behind the opening of a table: the tables around it with the keys that they
have for it and its own fields so far are given. Where `fresh` holds, a field may start; else a
value was just read, and a separator or the end of the table comes next. -/
def fields? (around : List (List (String × Node) × String)) (before : List (String × Node))
    (fresh : Bool) : List Sign → Option (List (String × Node))
  | .closing :: rest =>
    match around with
    | [] => if rest.isEmpty then some before else none
    | (outer, key) :: around => fields? around (outer ++ [(key, .table before)]) false rest
  | .separator :: rest => if fresh then none else fields? around before true rest
  | .left :: .literal key :: .right :: .equals :: .literal value :: rest =>
    if fresh then
      (decode? key).bind fun k => (decode? value).bind fun v =>
        fields? around (before ++ [(String.ofList k, .text (String.ofList v))]) false rest
    else none
  | .left :: .literal key :: .right :: .equals :: .opening :: rest =>
    if fresh then
      (decode? key).bind fun k => fields? ((before, String.ofList k) :: around) [] true rest
    else none
  | _ => none

def returned? (text : String) : Option (List Sign) :=
  ("return".toList.isPrefixOf? text.toList).bind (signs? .between)

def returnedFields? (text : String) : Option (List (String × Node)) :=
  (returned? text).bind fun
    | .opening :: signs => fields? [] [] true signs
    | _ => none

def literals? (text : String) : Option (List (List Char)) :=
  (returned? text).map fun signs => signs.filterMap fun
    | .literal body => some body
    | _ => none

/-! ### Escaped texts -/

def escapedChar (c : Char) : List Char :=
  if c = '\\' then ['\\', '\\'] else if c = '"' then ['\\', '"']
  else if c = '\n' then ['\\', 'n'] else if c = '\r' then ['\\', 'r'] else [c]

def escaped (s : String) : List Char := s.toList.flatMap escapedChar

theorem pieces_ne_nil (sep : List Char) : ∀ (s : List Char) (limit skip : Nat) (acc : List Char),
    pieces sep limit skip acc s ≠ []
  | [], limit, skip, acc => by simp [pieces]
  | c :: s, limit, skip + 1, acc => by
    rw [pieces]
    exact pieces_ne_nil sep s limit skip acc
  | c :: s, 0, 0, acc => by
    rw [pieces]
    exact pieces_ne_nil sep s 0 0 (c :: acc)
  | c :: s, limit + 1, 0, acc => by
    rw [pieces]
    split
    · exact cons_ne_nil _ _
    · exact pieces_ne_nil sep s (limit + 1) 0 (c :: acc)

theorem intercalate_pieces (c : Char) (new : List Char) : ∀ (s : List Char) (limit : Nat)
    (acc : List Char), s.length < limit →
    new.intercalate (pieces [c] limit 0 acc s) =
      acc.reverse ++ s.flatMap fun d => if d = c then new else [d]
  | [], limit, acc, _ => by simp [pieces]
  | d :: s, 0, acc, h => absurd h (Nat.not_lt_zero _)
  | d :: s, limit + 1, acc, h => by
    have hlength : s.length < limit := by simpa using h
    by_cases hd : d = c
    · have hsplit : pieces [c] (limit + 1) 0 acc (d :: s) =
          acc.reverse :: pieces [c] limit 0 [] s := by
        simp [pieces, hd]
      rw [hsplit, intercalate_cons_of_ne_nil (pieces_ne_nil _ _ _ _ _),
        intercalate_pieces c new s limit [] hlength]
      simp [hd]
    · have hkeep : pieces [c] (limit + 1) 0 acc (d :: s) =
          pieces [c] (limit + 1) 0 (d :: acc) s := by
        simp [pieces, Ne.symm hd]
      rw [hkeep, intercalate_pieces c new s (limit + 1) (d :: acc) (by omega)]
      simp [hd]

theorem toList_substitute (old : String) (c : Char) (hold : old.toList = [c]) (new s : String) :
    (substitute old new s).toList =
      s.toList.flatMap fun d => if d = c then new.toList else [d] := by
  rw [Text.substitute, String.toList_ofList, hold, Text.replace, Text.replaceUpTo]
  rw [if_neg (by simp), intercalate_pieces c _ _ _ _ (Nat.lt_succ_self _)]
  rfl

/-- What the replacements make of a character. No replacement touches what an earlier one wrote:
none of them writes a quote or a line break that was not there, and only the first looks for a
backslash. -/
theorem toList_escape (s : String) : (escape s).toList = escaped s := by
  rw [escape, escapes]
  simp only [foldl_cons, foldl_nil]
  rw [toList_substitute "\r" '\r' rfl, toList_substitute "\n" '\n' rfl,
    toList_substitute "\"" '"' rfl, toList_substitute "\\" '\\' rfl]
  simp only [flatMap_assoc]
  refine flatMap_congr fun c _ => ?_
  unfold escapedChar
  by_cases hslash : c = '\\'
  · simp [hslash]
  by_cases hquote : c = '"'
  · simp [hquote]
  by_cases hfeed : c = '\n'
  · simp [hfeed]
  by_cases hreturn : c = '\r'
  · simp [hreturn]
  · simp [hslash, hquote, hfeed, hreturn]

theorem escapedChar_cases (c : Char) :
    (escapedChar c = [c] ∧ isSpecial c = false) ∨
      ∃ d, escapedChar c = ['\\', d] ∧ meaning? d = some c ∧ d ≠ '\n' ∧ d ≠ '\r' := by
  unfold escapedChar
  by_cases hslash : c = '\\'
  · exact .inr ⟨'\\', by simp [hslash], by simp [hslash, meaning?], by decide, by decide⟩
  by_cases hquote : c = '"'
  · exact .inr ⟨'"', by simp [hquote], by simp [hquote, meaning?], by decide, by decide⟩
  by_cases hfeed : c = '\n'
  · exact .inr ⟨'n', by simp [hfeed], by simp [hfeed, meaning?], by decide, by decide⟩
  by_cases hreturn : c = '\r'
  · exact .inr ⟨'r', by simp [hreturn], by simp [hreturn, meaning?], by decide, by decide⟩
  · exact .inl ⟨by simp [hslash, hquote, hfeed, hreturn],
      by simp [isSpecial, hslash, hquote, hfeed, hreturn]⟩

variable {c : Char}

theorem not_isSpecial (h : isSpecial c = false) : c ≠ '\\' ∧ c ≠ '"' ∧ c ≠ '\n' ∧ c ≠ '\r' := by
  simpa [isSpecial] using h

theorem escapedChar_of_not_special (h : isSpecial c = false) : escapedChar c = [c] := by
  obtain ⟨hslash, hquote, hfeed, hreturn⟩ := not_isSpecial h
  simp [escapedChar, hslash, hquote, hfeed, hreturn]

theorem escaped_of_plain {s : String} (h : ∀ c ∈ s.toList, isSpecial c = false) :
    escaped s = s.toList := by
  unfold escaped
  rw [flatMap_congr fun c hc => escapedChar_of_not_special (h c hc)]
  exact flatMap_singleton' _

theorem decode?_cons (h : isSpecial c = false) (r : List Char) :
    decode? (c :: r) = (decode? r).map (c :: ·) := by
  have hslash : c ≠ '\\' := (not_isSpecial h).1
  cases r with
  | nil => simp [decode?, h]
  | cons d r => simp [decode?, h, hslash]

theorem decode?_escaped (s : String) : decode? (escaped s) = some s.toList := by
  unfold escaped
  induction s.toList with
  | nil => rfl
  | cons c cs ih =>
    rw [flatMap_cons]
    rcases escapedChar_cases c with ⟨hc, hspecial⟩ | ⟨d, hc, hd, -, -⟩
    · rw [hc, singleton_append, decode?_cons hspecial, ih, Option.map_some]
    · rw [hc]
      simp [decode?, hd, ih]

theorem not_mem_escaped (s : String) : '\n' ∉ escaped s ∧ '\r' ∉ escaped s := by
  have hall : ∀ x ∈ escaped s, x ≠ '\n' ∧ x ≠ '\r' := by
    intro x hx
    obtain ⟨c, -, hx⟩ := mem_flatMap.mp hx
    rcases escapedChar_cases c with ⟨hc, hspecial⟩ | ⟨d, hc, -, hfeed, hreturn⟩
    · rw [hc, mem_singleton] at hx
      rw [hx]
      exact (not_isSpecial hspecial).2.2
    · rw [hc, mem_cons, mem_singleton] at hx
      rcases hx with rfl | rfl
      · decide
      · exact ⟨hfeed, hreturn⟩
  exact ⟨fun h => (hall _ h).1 rfl, fun h => (hall _ h).2 rfl⟩

/-! ### Signs of the written text -/

theorem signs?_escaped (s : String) (before r : List Char) :
    signs? (.inside before) (escaped s ++ r) =
      signs? (.inside ((escaped s).reverse ++ before)) r := by
  unfold escaped
  induction s.toList generalizing before with
  | nil => rfl
  | cons c cs ih =>
    rw [flatMap_cons, append_assoc]
    rcases escapedChar_cases c with ⟨hc, hspecial⟩ | ⟨d, hc, -, -, -⟩
    · obtain ⟨hslash, hquote, -, -⟩ := not_isSpecial hspecial
      rw [hc, singleton_append, signs?, if_neg hquote, if_neg hslash, ih]
      simp
    · rw [hc]
      simp only [cons_append, nil_append]
      rw [signs?, if_neg (by decide), if_pos rfl, signs?, ih]
      simp

/-- A part of a text, from the place between two signs to another such place, gives some signs. -/
def Spells (cs : List Char) (signs : List Sign) : Prop :=
  ∀ r, signs? .between (cs ++ r) = (signs? .between r).map (signs ++ ·)

theorem Spells.nil : Spells [] [] := fun r => by simp

variable {cs : List Char} {ss : List Sign}

theorem Spells.append {ds : List Char} {ts : List Sign} (hcs : Spells cs ss) (hds : Spells ds ts) :
    Spells (cs ++ ds) (ss ++ ts) := by
  intro r
  rw [append_assoc, hcs, hds, Option.map_map]
  congr 1
  funext us
  simp

theorem Spells.gap (hc : isGap c = true) (hcs : Spells cs ss) : Spells (c :: cs) ss := by
  intro r
  rw [cons_append, signs?, if_pos hc, hcs]

theorem Spells.sign {s : Sign} (hc : sign? c = some s) (hcs : Spells cs ss) :
    Spells (c :: cs) (s :: ss) := by
  have hother : isGap c = false ∧ c ≠ '"' := by
    unfold sign? at hc
    split at hc
    case h_8 => nomatch hc
    all_goals exact ⟨rfl, by decide⟩
  intro r
  rw [cons_append, signs?, hother.1, if_neg (by decide), if_neg hother.2, hc, Option.bind_some, hcs,
    Option.map_map]
  rfl

theorem Spells.literal (s : String) (hcs : Spells cs ss) :
    Spells ('"' :: escaped s ++ '"' :: cs) (.literal (escaped s) :: ss) := by
  intro r
  have hcut : '"' :: escaped s ++ '"' :: cs ++ r = '"' :: (escaped s ++ '"' :: (cs ++ r)) := by simp
  rw [hcut, signs?, if_neg (by decide), if_pos rfl, signs?_escaped, signs?, if_pos rfl, hcs,
    Option.map_map]
  simp [Function.comp_def]

def LineSpells (line : String) (signs : List Sign) : Prop := Spells line.toList signs

theorem Spells.lines : ∀ {lines : List String} {signs : List (List Sign)},
    Forall₂ LineSpells lines signs →
    Spells ("\n".intercalate lines).toList signs.flatten
  | [], [], _ => Spells.nil
  | l :: lines, ss :: signs, .cons h hs => by
    rw [String.toList_intercalate]
    cases lines with
    | nil =>
      cases hs
      have hline : Spells l.toList ss := h
      simpa using hline
    | cons l' lines =>
      have htail := Spells.lines hs
      rw [String.toList_intercalate] at htail
      rw [map_cons, map_cons, intercalate_cons_cons, append_assoc, flatten_cons]
      exact h.append (Spells.gap (by decide) htail)

def entrySigns (e : String × String) : List Sign :=
  [.left, .literal (escaped e.1), .right, .equals, .literal (escaped e.2), .separator]

def lineSigns (e : String × Wording) : List (List Sign) :=
  match e.2 with
  | .text s => [entrySigns (e.1, s)]
  | .spoken es =>
    [[.left, .literal (escaped e.1), .right, .equals, .opening]] ++ (sorted es).map entrySigns ++
      [[.closing, .separator]]

theorem Spells.indent : ∀ {cs : List Char}, (∀ c ∈ cs, isGap c = true) → Spells cs []
  | [], _ => Spells.nil
  | c :: _, h =>
    Spells.gap (h c mem_cons_self) (Spells.indent fun d hd => h d (mem_cons_of_mem c hd))

theorem Spells.field {i : List Char} (hindent : ∀ c ∈ i, isGap c = true) (key : String)
    (hcs : Spells cs ss) :
    Spells (i ++ '[' :: ('"' :: escaped key ++ '"' :: (']' :: ' ' :: '=' :: ' ' :: cs)))
      (.left :: .literal (escaped key) :: .right :: .equals :: ss) := by
  have hequals := ((hcs.gap (c := ' ') rfl).sign (c := '=') rfl).gap (c := ' ') rfl
  have hkey := Spells.literal key (hequals.sign (c := ']') rfl)
  exact (Spells.indent hindent).append (hkey.sign (c := '[') rfl)

theorem spells_entryLine {indent key : String} (hindent : ∀ c ∈ indent.toList, isGap c = true)
    (e : String × String) (hkey : key.toList = escaped e.1) :
    LineSpells (entryLine indent key e.2) (entrySigns e) := by
  have hcomma : Spells [','] [.separator] := Spells.nil.sign rfl
  have hfield := (Spells.literal e.2 hcomma).field hindent e.1
  simpa [LineSpells, entryLine, entrySigns, String.toList_append, hkey, toList_escape] using hfield

theorem spells_openingLine (key : String) :
    LineSpells ("  [\"" ++ escape key ++ "\"] = \x7b")
      [.left, .literal (escaped key), .right, .equals, .opening] := by
  have hopening : Spells ['\x7b'] [.opening] := Spells.nil.sign rfl
  have hfield := hopening.field (i := "  ".toList) (by simp [isGap]) key
  simpa [LineSpells, String.toList_append, toList_escape] using hfield

def Wording.PlainNames : Wording → Prop
  | .text _ => True
  | .spoken es => ∀ e ∈ es, ∀ c ∈ e.1.toList, isSpecial c = false

theorem spells_entryLines (e : String × Wording) (h : e.2.PlainNames) :
    Forall₂ LineSpells (entryLines e) (lineSigns e) := by
  obtain ⟨key, wording⟩ := e
  cases wording with
  | text s => exact .cons (spells_entryLine (by simp [isGap]) (key, s) (toList_escape key)) .nil
  | spoken es =>
    have hinner : Forall₂ LineSpells
        ((sorted es).map fun c => entryLine "    " c.1 c.2) ((sorted es).map entrySigns) := by
      rw [forall₂_map_left_iff, forall₂_map_right_iff, forall₂_same]
      intro c hc
      have hname := h c ((sorted_perm es).mem_iff.mp hc)
      exact spells_entryLine (by simp [isGap]) c (escaped_of_plain hname).symm
    have hclosing : LineSpells "  \x7d," [.closing, .separator] :=
      (((Spells.nil.sign (c := ',') rfl).sign rfl).gap rfl).gap rfl
    exact rel_append (rel_append (.cons (spells_openingLine key) .nil) hinner)
      (.cons hclosing .nil)

theorem spells_flatMap : ∀ {m : Table}, (∀ e ∈ m, e.2.PlainNames) →
    Forall₂ LineSpells (m.flatMap entryLines) (m.flatMap lineSigns)
  | [], _ => .nil
  | e :: m, h => by
    rw [flatMap_cons, flatMap_cons]
    exact rel_append (spells_entryLines e (h e mem_cons_self))
      (spells_flatMap fun d hd => h d (mem_cons_of_mem e hd))

variable {m : Table}

theorem returned?_moduleText (h : ∀ e ∈ m, e.2.PlainNames) :
    returned? (moduleText m) =
      some (.opening :: (((sorted m).flatMap lineSigns).flatten ++ [.closing])) := by
  have hsorted : ∀ e ∈ sorted m, e.2.PlainNames := fun e he =>
    h e ((sorted_perm m).mem_iff.mp he)
  have hopening : LineSpells " \x7b" [.opening] := (Spells.nil.sign rfl).gap rfl
  have hclosing : LineSpells "\x7d" [.closing] := Spells.nil.sign rfl
  have hbehind : Forall₂ LineSpells ((sorted m).flatMap entryLines ++ ["\x7d"])
      ((sorted m).flatMap lineSigns ++ [[.closing]]) :=
    rel_append (spells_flatMap hsorted) (.cons hclosing .nil)
  have hreturn : moduleText m = "return" ++
      "\n".intercalate (" \x7b" :: ((sorted m).flatMap entryLines ++ ["\x7d"])) := by
    rw [← String.intercalate_cons_append]
    rfl
  have hsigns := Spells.lines (.cons hopening hbehind) []
  rw [append_nil] at hsigns
  rw [returned?, hreturn, String.toList_append]
  change signs? .between ("\n".intercalate _).toList = _
  rw [hsigns]
  simp [signs?]

/-! ### Fields of the written text -/

def Wording.node : Wording → Node
  | .text s => .text s
  | .spoken es => .table ((sorted es).map fun e => (e.1, .text e.2))

variable {around : List (List (String × Node) × String)} {before : List (String × Node)}

theorem fields?_entry (e : String × String) (rest : List Sign) :
    fields? around before true (entrySigns e ++ rest) =
      fields? around (before ++ [(e.1, .text e.2)]) true rest := by
  simp [entrySigns, fields?, decode?_escaped]

theorem fields?_entries (rest : List Sign) : ∀ (es : List (String × String))
    (before : List (String × Node)),
    fields? around before true ((es.map entrySigns).flatten ++ rest) =
      fields? around (before ++ es.map fun e => (e.1, .text e.2)) true rest
  | [], before => by simp
  | e :: es, before => by
    rw [map_cons, flatten_cons, append_assoc, fields?_entry, fields?_entries rest es]
    simp

theorem fields?_lineSigns (e : String × Wording) (rest : List Sign) :
    fields? around before true ((lineSigns e).flatten ++ rest) =
      fields? around (before ++ [(e.1, e.2.node)]) true rest := by
  obtain ⟨key, wording⟩ := e
  cases wording with
  | text s => simpa [lineSigns, Wording.node] using fields?_entry (key, s) rest
  | spoken es =>
    have hopening : ∀ signs : List Sign, fields? around before true
        ([.left, .literal (escaped key), .right, .equals, .opening] ++ signs) =
          fields? ((before, key) :: around) [] true signs := by
      intro signs
      simp [fields?, decode?_escaped]
    simp only [lineSigns, flatten_append, append_assoc]
    rw [flatten_cons, flatten_nil, append_nil, hopening, fields?_entries]
    simp [fields?, Wording.node]

theorem fields?_flatMap (rest : List Sign) : ∀ (m : Table) (before : List (String × Node)),
    fields? around before true ((m.flatMap lineSigns).flatten ++ rest) =
      fields? around (before ++ m.map fun e => (e.1, e.2.node)) true rest
  | [], before => by simp
  | e :: m, before => by
    rw [flatMap_cons, flatten_append, append_assoc, fields?_lineSigns, fields?_flatMap rest m]
    simp

theorem returnedFields?_moduleText (h : ∀ e ∈ m, e.2.PlainNames) :
    returnedFields? (moduleText m) = some ((sorted m).map fun e => (e.1, e.2.node)) := by
  rw [returnedFields?, returned?_moduleText h, Option.bind_some]
  change fields? [] [] true _ = _
  rw [fields?_flatMap]
  simp [fields?]

/-! ### The table -/

/-- A value stands for a wording: it is its text, or the table of its texts by character. -/
inductive Denotes : Node → Wording → Prop where
  | text (s : String) : Denotes (.text s) (.text s)
  | spoken {fields : List (String × Node)} {es : List (String × String)}
      (keys : (fields.map (·.1)).Nodup)
      (texts : ∀ c, fields.lookup c = (es.lookup c).map .text) :
      Denotes (.table fields) (.spoken es)

/-- Every key of a table is there once, and so is every character under each of them. -/
structure Table.IsMap (m : Table) : Prop where
  keys : (m.map (·.1)).Nodup
  characters : ∀ {key es}, (key, .spoken es) ∈ m → (es.map (·.1)).Nodup

section Lookup

variable {α β : Type}

theorem lookup_sorted {es : List (String × α)} (h : (es.map (·.1)).Nodup) (k : String) :
    (sorted es).lookup k = es.lookup k :=
  (Places.lookup_eq_of_perm h (sorted_perm es).symm k).symm

theorem lookup_map_snd (f : α → β) (es : List (String × α)) (k : String) :
    (es.map fun e => (e.1, f e.2)).lookup k = (es.lookup k).map f := by
  induction es with
  | nil => rfl
  | cons e es ih =>
    rw [map_cons, lookup_cons, lookup_cons, ih]
    split <;> rfl

theorem nodup_sorted_map (f : α → β) {es : List (String × α)} (h : (es.map (·.1)).Nodup) :
    (((sorted es).map fun e => (e.1, f e.2)).map (·.1)).Nodup := by
  rw [map_map]
  exact ((sorted_perm es).map _).nodup_iff.mpr h

end Lookup

theorem denotes_node {w : Wording} (h : ∀ es, w = .spoken es → (es.map (·.1)).Nodup) :
    Denotes w.node w := by
  cases w with
  | text s => exact .text s
  | spoken es =>
    have hes := h es rfl
    refine .spoken (nodup_sorted_map _ hes) fun c => ?_
    rw [lookup_map_snd, lookup_sorted hes]

variable {body : List Char}

theorem mem_literals {signs : List Sign}
    (h : body ∈ signs.filterMap fun | .literal body => some body | _ => none) :
    .literal body ∈ signs := by
  obtain ⟨s, hs, hbody⟩ := mem_filterMap.mp h
  cases s <;> simp_all

theorem exists_of_literal_mem_entrySigns {e : String × String} (h : .literal body ∈ entrySigns e) :
    ∃ s, body = escaped s := by
  have hbody : body = escaped e.1 ∨ body = escaped e.2 := by simpa [entrySigns] using h
  rcases hbody with rfl | rfl
  · exact ⟨e.1, rfl⟩
  · exact ⟨e.2, rfl⟩

theorem exists_of_literal_mem (h : .literal body ∈ (m.flatMap lineSigns).flatten) :
    ∃ s, body = escaped s := by
  obtain ⟨signs, hsigns, hbody⟩ := mem_flatten.mp h
  obtain ⟨⟨key, wording⟩, -, he⟩ := mem_flatMap.mp hsigns
  cases wording with
  | text s =>
    rw [lineSigns, mem_singleton] at he
    rw [he] at hbody
    exact exists_of_literal_mem_entrySigns hbody
  | spoken es =>
    rw [lineSigns, mem_append, mem_append, mem_singleton, mem_singleton] at he
    rcases he with (rfl | he) | rfl
    · exact ⟨key, by simpa using hbody⟩
    · obtain ⟨e, -, rfl⟩ := mem_map.mp he
      exact exists_of_literal_mem_entrySigns hbody
    · simp at hbody

/-- For every table: reading its module gives back exactly its keys and what they stand for, and no
literal of the module has a line break in it. Only the names of the characters must be such that
they can stand in a literal as they are. -/
theorem moduleText_denotes_table (m : Table) (hmap : m.IsMap)
    (hplain : ∀ e ∈ m, e.2.PlainNames) :
    (∃ fields, returnedFields? (moduleText m) = some fields ∧ (fields.map (·.1)).Nodup ∧
      ∀ key, Option.Rel Denotes (fields.lookup key) (m.lookup key)) ∧
    ∃ bodies, literals? (moduleText m) = some bodies ∧
      ∀ body ∈ bodies, '\n' ∉ body ∧ '\r' ∉ body := by
  refine ⟨⟨_, returnedFields?_moduleText hplain, nodup_sorted_map _ hmap.keys, fun key => ?_⟩, ?_⟩
  · rw [lookup_map_snd, lookup_sorted hmap.keys]
    cases hkey : m.lookup key with
    | none => exact .none
    | some w =>
      refine .some (denotes_node fun es hes => ?_)
      subst hes
      exact hmap.characters (Places.mem_of_lookup_eq_some hkey)
  · rw [literals?, returned?_moduleText hplain]
    refine ⟨_, rfl, fun body hbody => ?_⟩
    have hmem := mem_literals hbody
    simp only [List.mem_cons, reduceCtorEq, List.mem_append, List.not_mem_nil, or_false, false_or]
      at hmem
    obtain ⟨s, rfl⟩ := exists_of_literal_mem hmem
    exact not_mem_escaped s

/-- Quotes, backslashes and line breaks in keys and texts come back as they were. -/
theorem moduleText_denotes_table_with_breaks :
    ∃ fields, returnedFields? (moduleText [("say \"\\n\"", .text "a\nb\r\\"),
        ("C:\\", .spoken [("WX78", "\\\""), ("wilson", "]] = \n")])]) = some fields ∧
      fields.lookup "say \"\\n\"" = some (.text "a\nb\r\\") := by
  have hnames : (Wording.spoken [("WX78", "\\\""), ("wilson", "]] = \n")]).PlainNames := by
    unfold Wording.PlainNames
    simp [isSpecial]
  obtain ⟨⟨fields, hfields, -, hall⟩, -⟩ := moduleText_denotes_table
    [("say \"\\n\"", .text "a\nb\r\\"),
      ("C:\\", .spoken [("WX78", "\\\""), ("wilson", "]] = \n")])]
    ⟨by decide, by simp⟩
    (List.forall_mem_cons.mpr ⟨trivial, List.forall_mem_singleton.mpr hnames⟩)
  refine ⟨fields, hfields, ?_⟩
  have hkey := hall "say \"\\n\""
  rw [List.lookup_cons_self] at hkey
  cases hlookup : fields.lookup "say \"\\n\"" with
  | none =>
    rw [hlookup] at hkey
    cases hkey
  | some node =>
    rw [hlookup] at hkey
    cases hkey with
    | some h =>
      cases h
      rfl

end WikiFeed.Catalog

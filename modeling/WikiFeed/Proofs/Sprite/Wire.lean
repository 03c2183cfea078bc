import WikiFeed.Proofs.Decimal.Single
import WikiFeed.Proofs.Sprite.Names
import WikiFeed.Proofs.Text.Utf8
import WikiFeed.Sprite.BankFile

/-! # What fields are written as, and what they are read as

`Reads r bs a` says that a reader takes the bytes `bs` off the front, whatever follows, and gives
`a`. `Writes d w fits a out` says what writing does to a draft: if the values fit their fields, it
adds `out`, that is bytes, names and counts, and otherwise it stops at a field. Both are closed
under what writers and readers are made of (`Reads.bind`, `Writes.bind`, `reads_several`,
`writes_forM`), so that a record is handled field by field. -/

namespace WikiFeed.Sprite

open List Reading
open Decimal (Single)
open Outcome (ok_bind)

/-! ### Reading -/

section Reading

variable {α β : Type}

def Reads (r : Reading α) (bs : Bytes) (a : α) : Prop := ∀ rest, r (bs ++ rest) = .ok (a, rest)

theorem reading_bind (r : Reading α) (f : α → Reading β) (bs : Bytes) :
    (r >>= f) bs = r bs >>= fun p => f p.1 p.2 := rfl

theorem reads_pure (a : α) : Reads (pure a) [] a := fun _ => rfl

theorem Reads.bind {r : Reading α} {f : α → Reading β} {as bs : Bytes} {a : α} {b : β}
    (hr : Reads r as a) (hf : Reads (f a) bs b) : Reads (r >>= f) (as ++ bs) b := by
  intro rest
  rw [append_assoc, reading_bind, hr, ok_bind]
  exact hf rest

theorem Reads.map {r : Reading α} {bs : Bytes} {a : α} (hr : Reads r bs a) (f : α → β) :
    Reads (do return f (← r)) bs (f a) := by
  intro rest
  rw [reading_bind, hr, ok_bind]
  rfl

/-- A reader takes bytes off the front and gives a value, and it stops at a field if the last ones
are missing. -/
structure Exact (r : Reading α) (bs : Bytes) (a : α) : Prop where
  reads : Reads r bs a
  cut : ∀ {p}, p <+: bs → p ≠ bs → r p = .error .field

theorem exact_pure (a : α) : Exact (pure a) [] a :=
  ⟨reads_pure a, fun hp hne => absurd (prefix_nil.mp hp) hne⟩

variable {bs : Bytes} {r : Reading α}

theorem bind_of_field (h : r bs = .error .field) (f : α → Reading β) :
    (r >>= f) bs = .error .field := by
  rw [reading_bind, h]
  rfl

theorem prefix_append_cases {p as : Bytes} (h : p <+: as ++ bs) :
    p <+: as ∧ p ≠ as ∨ ∃ q, p = as ++ q ∧ q <+: bs := by
  rcases prefix_or_prefix_of_prefix h (prefix_append as bs) with hp | ⟨q, rfl⟩
  · by_cases heq : p = as
    · exact .inr ⟨[], by rw [heq, append_nil], nil_prefix⟩
    · exact .inl ⟨hp, heq⟩
  · exact .inr ⟨q, rfl, (prefix_append_right_inj as).mp h⟩

variable {f : α → Reading β} {a : α}

theorem Exact.bind {as : Bytes} {b : β} (hr : Exact r as a) (hf : Exact (f a) bs b) :
    Exact (r >>= f) (as ++ bs) b := by
  refine ⟨hr.reads.bind hf.reads, fun {p} hp hne => ?_⟩
  rcases prefix_append_cases hp with ⟨hp, hne⟩ | ⟨q, rfl, hq⟩
  · exact bind_of_field (hr.cut hp hne) f
  · rw [reading_bind, hr.reads, ok_bind]
    exact hf.cut hq fun heq => hne (heq ▸ rfl)

theorem Exact.map (hr : Exact r bs a) (f : α → β) : Exact (do return f (← r)) bs (f a) := by
  refine ⟨hr.reads.map f, fun hp hne => bind_of_field (hr.cut hp hne) _⟩

/-! ### Fields -/

theorem toNat_toUInt32 {n : Nat} (h : n < 2 ^ 32) : n.toUInt32.toNat = n :=
  UInt32.toNat_ofNat_of_lt' h

theorem reads_word (n : UInt32) : Reads word (wordBytes n) n := by
  intro rest
  have hn : wordOf n.toNat.toUInt8 (n.toNat / 2 ^ 8).toUInt8 (n.toNat / 2 ^ 16).toUInt8
      (n.toNat / 2 ^ 24).toUInt8 = n := by
    have := n.toNat_lt
    refine UInt32.toNat_inj.mp ?_
    simp [wordOf]
    omega
  change Except.ok (_, rest) = _
  rw [hn]

theorem word_of_short : ∀ {bs : Bytes}, bs.length < 4 → word bs = .error .field
  | [], _ | [_], _ | [_, _], _ | [_, _, _], _ => rfl
  | _ :: _ :: _ :: _ :: _, h => by
    simp only [length_cons] at h
    omega

theorem length_lt_of_cut {p : Bytes} (hp : p <+: bs) (hne : p ≠ bs) : p.length < bs.length :=
  lt_of_le_of_ne hp.length_le fun heq => hne (hp.eq_of_length heq)

theorem exact_word (n : UInt32) : Exact word (wordBytes n) n :=
  ⟨reads_word n, fun hp hne => word_of_short (length_lt_of_cut hp hne)⟩

theorem exact_byte (b : UInt8) : Exact byte [b] b := by
  refine ⟨fun _ => rfl, fun {p} hp hne => ?_⟩
  have hlen := length_lt_of_cut hp hne
  rw [length_eq_zero_iff.mp (Nat.lt_one_iff.mp hlen)]
  rfl

theorem exact_single (s : Single) : Exact single (wordBytes s) s.toFloat :=
  (exact_word s).map Single.toFloat

theorem exact_bytes (bs : Bytes) : Exact (bytes bs.length) bs bs := by
  refine ⟨fun rest => ?_, fun hp hne => if_pos (length_lt_of_cut hp hne)⟩
  unfold bytes
  rw [if_neg (by rw [length_append]; omega), take_left, drop_left]

theorem exact_singles : ∀ ss : List Single,
    Exact (singles ss.length) (ss.flatMap wordBytes) (ss.map Single.toFloat)
  | [] => exact_pure []
  | s :: ss => (exact_single s).bind ((exact_singles ss).map fun xs => s.toFloat :: xs)

/-! ### Rows -/

/-- A reader of rows, without the records that it keeps before a fault. -/
def strict (rows : Bytes → List α × Result Bytes) : Reading (List α) := fun bs =>
  match rows bs with
  | (as, .ok rest) => .ok (as, rest)
  | (_, .error e) => .error e

variable {rows rows' : Bytes → List α × Result Bytes} {as : List α} {rest : Bytes} {e : Fault}

theorem strict_of_ok (h : rows bs = (as, .ok rest)) : strict rows bs = .ok (as, rest) := by
  rw [strict, h]

theorem strict_of_error (h : rows bs = (as, .error e)) : strict rows bs = .error e := by
  rw [strict, h]

theorem strict_eq_ok (h : strict rows bs = .ok (as, rest)) : rows bs = (as, .ok rest) := by
  cases hrows : rows bs with
  | mk as' r =>
    cases r with
    | ok rest' =>
      rw [strict_of_ok hrows] at h
      cases h
      rfl
    | error e =>
      rw [strict_of_error hrows] at h
      cases h

theorem strict_cons (h : rows bs = (a :: (rows' rest).1, (rows' rest).2)) :
    strict rows bs = strict rows' rest >>= fun p => pure (a :: p.1, p.2) := by
  unfold strict
  rw [h]
  rcases rows' rest with ⟨as, _ | _⟩ <;> rfl

theorem strict_several_succ (record : Reading α) (n : Nat) :
    strict (several record (n + 1)) = do
      let a ← record
      let as ← strict (several record n)
      return a :: as := by
  funext bs
  rw [reading_bind]
  cases hrecord : record bs with
  | error e => exact strict_of_error (by rw [several, hrecord])
  | ok p =>
    rw [ok_bind, reading_bind]
    exact strict_cons (by rw [several, hrecord])

theorem reads_several {record : Reading β} {bytesOf : α → Bytes} {valueOf : α → β} :
    ∀ {as : List α}, (∀ a ∈ as, Reads record (bytesOf a) (valueOf a)) →
      Reads (strict (several record as.length)) (as.flatMap bytesOf) (as.map valueOf)
  | [], _ => reads_pure []
  | a :: as, h => by
    rw [length_cons, strict_several_succ]
    exact (h a mem_cons_self).bind
      ((reads_several fun b hb => h b (mem_cons_of_mem _ hb)).map (valueOf a :: ·))

theorem several_eq {record : Reading β} {bytesOf : α → Bytes} {valueOf : α → β} {as : List α}
    (h : ∀ a ∈ as, Reads record (bytesOf a) (valueOf a)) (rest : Bytes) :
    several record as.length (as.flatMap bytesOf ++ rest) = (as.map valueOf, .ok rest) :=
  strict_eq_ok (reads_several h rest)

section Nested

variable {η ι γ : Type} (head : Reading η) (item : Reading ι) (count : η → UInt32)
  (mk : η → List ι → α)

def nested : Reading α := do
  let a ← head
  let xs ← strict (several item (count a).toNat)
  return mk a xs

theorem strict_severalNested : ∀ n, strict (severalNested head item count mk n) =
    strict (several (nested head item count mk) n)
  | 0 => rfl
  | n + 1 => by
    funext bs
    rw [strict_several_succ, ← strict_severalNested n, reading_bind, nested, reading_bind]
    cases hbs : head bs with
    | error e => exact strict_of_error (by rw [severalNested, hbs])
    | ok p =>
      obtain ⟨a, rest⟩ := p
      rw [ok_bind, reading_bind]
      rcases hxs : several item (count a).toNat rest with ⟨xs, e | rest'⟩
      · rw [strict_of_error hxs]
        exact strict_of_error (e := e) (show _ = ([mk a xs], _) by
          simp only [severalNested, hbs, hxs])
      · rw [strict_of_ok hxs]
        exact strict_cons (by simp only [severalNested, hbs, hxs])

variable {head item count mk}

theorem severalNested_eq {bytesOf : γ → Bytes} {valueOf : γ → α} {as : List γ}
    (h : ∀ a ∈ as, Reads (nested head item count mk) (bytesOf a) (valueOf a)) (rest : Bytes) :
    severalNested head item count mk as.length (as.flatMap bytesOf ++ rest) =
      (as.map valueOf, .ok rest) := by
  refine strict_eq_ok ?_
  rw [strict_severalNested]
  exact reads_several h rest

end Nested

end Reading

/-! ### Numbers -/

@[irreducible]
def packed (s : Single) : Single := (Single.ofFloat? s.toFloat).getD 0

theorem narrowed_toFloat (s : Single) : Writing.narrowed s.toFloat = .ok (packed s) := by
  obtain ⟨s', hs', -⟩ := Single.ofFloat?_toFloat s
  unfold Writing.narrowed packed
  rw [hs']
  rfl

theorem toFloat_packed (s : Single) : (packed s).toFloat = s.toFloat := by
  obtain ⟨s', hs', hfloat⟩ := Single.ofFloat?_toFloat s
  unfold packed
  rw [hs']
  exact hfloat

@[irreducible]
def packedWhole (n : Int) : Single := ((Decimal.ofInt? n).bind Single.ofFloat?).getD 0

variable {n : Int}

theorem packedWhole_spec (h : Single.IsWhole n) :
    ∃ x, Decimal.ofInt? n = some x ∧ Writing.narrowed x = .ok (packedWhole n) ∧
      (Number.float (packedWhole n).toFloat).truncate = .ok n := by
  obtain ⟨x, s, hx, hs, htrunc⟩ := h.exists_single
  have hpacked : packedWhole n = s := by
    unfold packedWhole
    rw [hx, Option.bind_some, hs]
    rfl
  refine ⟨x, hx, ?_, ?_⟩
  · unfold Writing.narrowed
    rw [hs, hpacked]
  · unfold Number.truncate
    simp only [hpacked, htrunc]

theorem reads_whole (h : Single.IsWhole n) : Reads (whole (packedWhole n).toFloat) [] n := by
  intro rest
  obtain ⟨-, -, -, hn⟩ := packedWhole_spec h
  rw [whole, hn, nil_append]

def singlesBytes (ss : List Single) : Bytes := ss.flatMap fun s => wordBytes (packed s)

theorem reads_packed (s : Single) : Reads single (wordBytes (packed s)) s.toFloat := by
  rw [← toFloat_packed s]
  exact (exact_single _).reads

theorem reads_singles : ∀ ss : List Single,
    Reads (singles ss.length) (singlesBytes ss) (ss.map Single.toFloat)
  | [] => reads_pure []
  | s :: ss => (reads_packed s).bind ((reads_singles ss).map fun xs => s.toFloat :: xs)

theorem mapM_narrowed (ss : List Single) :
    (ss.map Single.toFloat).mapM Writing.narrowed = .ok (ss.map packed) := by
  rw [mapM_map]
  exact Outcome.mapM_eq_ok fun s _ => narrowed_toFloat s

/-- A datum is a number in 32 bits: a double, or an integer of the same value. -/
def IsSingle (v : Datum) (s : Single) : Prop :=
  v = .float s.toFloat ∨ ∃ n, v = .int n ∧ Single.IsWhole n ∧ Decimal.ofInt? n = some s.toFloat

theorem isSingle_float {x : Float} {s : Single} (h : x = s.toFloat) : IsSingle (.float x) s :=
  .inl (congrArg _ h)

theorem isSingle_int {s : Single} (hn : n.natAbs ≤ 2 ^ 24) (h : Decimal.ofInt? n = some s.toFloat) :
    IsSingle (.int n) s :=
  .inr ⟨n, rfl, Single.isWhole_of_natAbs_le hn, h⟩

theorem IsSingle.doubleOf_eq {v : Datum} {s : Single} (h : IsSingle v s) :
    doubleOf v = .ok s.toFloat := by
  rcases h with rfl | ⟨n, rfl, -, hn⟩
  · rfl
  · change calculated (Number.toFloat (.int n)) = _
    rw [Number.toFloat, hn]
    rfl

def HasSingles (d : Datum) (names : List String) (ss : List Single) : Prop :=
  Forall₂ (fun n s => ∃ v, named d n = .ok v ∧ IsSingle v s) names ss

theorem doublesOf_eq {d : Datum} : ∀ {names : List String} {ss : List Single},
    HasSingles d names ss → doublesOf d names = .ok (ss.map Single.toFloat)
  | [], [], .nil => rfl
  | n :: names, s :: ss, .cons ⟨v, hn, hv⟩ hrest => by
    have hfirst : (do doubleOf (← named d n) : Result Float) = .ok s.toFloat := by
      rw [hn, ok_bind, hv.doubleOf_eq]
    have hothers := doublesOf_eq hrest
    unfold doublesOf at hothers ⊢
    rw [mapM_cons, hfirst, ok_bind, hothers]
    rfl

/-! ### Texts -/

def asciiOf (s : String) : Bytes := s.toList.map fun c => c.toNat.toUInt8

def textBytes (s : String) : Bytes := wordBytes (asciiOf s).length.toUInt32 ++ asciiOf s

theorem length_asciiOf (s : String) : (asciiOf s).length = s.length := by
  rw [asciiOf, length_map, String.length_toList]

variable {s : String}

theorem asciiBytes_eq (h : IsAscii s) : Writing.asciiBytes s = .ok (asciiOf s) := by
  refine if_pos (all_eq_true.mpr fun c hc => ?_)
  exact decide_eq_true (h c hc)

theorem encode_ascii (h : IsAscii s) : Text.encode s = asciiOf s := by
  rw [Text.encode, asciiOf, map_eq_flatMap]
  refine flatMap_congr fun c hc => ?_
  rw [Text.utf8EncodeChar_eq, if_pos (Nat.le_of_lt_succ (h c hc))]

theorem decode?_ascii (h : IsAscii s) : Text.decode? (asciiOf s) = some s := by
  rw [← encode_ascii h, Text.decode?_encode]

theorem exact_textOfLength (h : IsAscii s) :
    Exact (textOfLength (asciiOf s).length) (asciiOf s) s := by
  have hnothing : Exact (textOfLength (asciiOf s).length) (asciiOf s ++ []) s := by
    refine (exact_bytes (asciiOf s)).bind ?_
    rw [decode?_ascii h]
    exact exact_pure s
  rwa [append_nil] at hnothing

theorem exact_longText (h : IsAscii s) (hlen : s.length < 2 ^ 31) :
    Exact longText (textBytes s) s := by
  rw [← length_asciiOf] at hlen
  refine (exact_word _).bind ?_
  rw [toNat_toUInt32 (hlen.trans (by omega))]
  exact exact_textOfLength h

theorem exact_text (h : IsAscii s) (hlen : s.length < 2 ^ 31) : Exact text (textBytes s) s := by
  rw [← length_asciiOf] at hlen
  refine (exact_word _).bind ?_
  rw [toNat_toUInt32 (hlen.trans (by omega)), if_pos hlen]
  exact exact_textOfLength h

def entryBytes (e : UInt32 × String) : Bytes := wordBytes e.1 ++ textBytes e.2

theorem exact_nameEntry {e : UInt32 × String} (h : IsAscii e.2) (hlen : e.2.length < 2 ^ 31) :
    Exact nameEntry (entryBytes e) e :=
  (exact_word e.1).bind ((exact_text h hlen).map fun s => (e.1, s))

/-! ### Writing -/

/-- What writing adds to a draft: bytes, names that become known, and counts. -/
structure Output where
  bytes : Bytes
  names : List String
  tally : Tally

namespace Output

def ofBytes (bs : Bytes) : Output := ⟨bs, [], ⟨0, 0, 0⟩⟩

def none : Output := ofBytes []

def append (o p : Output) : Output :=
  ⟨o.bytes ++ p.bytes, o.names ++ p.names, ⟨o.tally.animations + p.tally.animations,
    o.tally.frames + p.tally.frames, o.tally.symbols + p.tally.symbols⟩⟩

instance : Append Output := ⟨append⟩

theorem append_eq (o p : Output) : o ++ p =
    ⟨o.bytes ++ p.bytes, o.names ++ p.names, ⟨o.tally.animations + p.tally.animations,
      o.tally.frames + p.tally.frames, o.tally.symbols + p.tally.symbols⟩⟩ := rfl

theorem ofBytes_append (as bs : Bytes) : ofBytes as ++ ofBytes bs = ofBytes (as ++ bs) := rfl

def join (os : List Output) : Output := os.foldr (· ++ ·) none

theorem join_map {α : Type} (out : α → Output) : ∀ as : List α, join (as.map out) =
    ⟨as.flatMap fun a => (out a).bytes, as.flatMap fun a => (out a).names,
      ⟨(as.map fun a => (out a).tally.animations).sum, (as.map fun a => (out a).tally.frames).sum,
        (as.map fun a => (out a).tally.symbols).sum⟩⟩
  | [] => rfl
  | a :: as => by
    change out a ++ join (as.map out) = _
    rw [join_map out as]
    simp [append_eq]

theorem join_ofBytes {α : Type} (f : α → Bytes) (as : List α) :
    join (as.map fun a => ofBytes (f a)) = ofBytes (as.flatMap f) := by
  rw [join_map]
  simp [ofBytes]

end Output

structure Draft.Extends (d d' : Draft) (out : Output) : Prop where
  bytes : d'.bytes = d.bytes ++ out.bytes
  names : d'.names = d.names.learn out.names
  tally : d'.tally = ⟨d.tally.animations + out.tally.animations,
    d.tally.frames + out.tally.frames, d.tally.symbols + out.tally.symbols⟩

variable {o : Output} {d' : Draft}

theorem Draft.Extends.trans {d d'' : Draft} {p : Output} (h : d.Extends d' o)
    (h' : d'.Extends d'' p) : d.Extends d'' (o ++ p) := by
  refine ⟨?_, ?_, ?_⟩
  · rw [h'.bytes, h.bytes, append_assoc]
    rfl
  · rw [h'.names, h.names, ← NameTable.learn_append]
    rfl
  · rw [h'.tally, h.tally]
    simp only [Nat.add_assoc]
    rfl

theorem Draft.Extends.refl (d : Draft) : d.Extends d .none :=
  ⟨(append_nil _).symm, rfl, rfl⟩

/-- What writing does to a draft: it adds an output if the values fit, and stops at a field if they
do not. -/
structure Writes {α : Type} (d : Draft) (w : Writing α) (fits : Prop) (a : α) (out : Output) :
    Prop where
  done : fits → ∃ d', w d = .ok a d' ∧ d.Extends d' out
  stops : ¬ fits → ∃ d', w d = .error .field d'

variable {p q : Prop} {o' : Output}

section Writing

variable {α β : Type} {d : Draft}

theorem writes_pure (a : α) : Writes d (pure a) True a .none :=
  ⟨fun _ => ⟨d, rfl, .refl d⟩, fun h => absurd trivial h⟩

variable {w : Writing α} {a : α}

theorem Writes.congr (h : Writes d w p a o) (hpq : p ↔ q) (ho : o = o') : Writes d w q a o' :=
  ⟨fun hq => ho ▸ h.done (hpq.mpr hq), fun hq => h.stops fun hp => hq (hpq.mp hp)⟩

theorem bind_of_ok (h : w d = .ok a d') (f : α → Writing β) : (w >>= f) d = f a d' := by
  change EStateM.bind w f d = _
  rw [EStateM.bind, h]

theorem bind_of_error {e : Fault} (h : w d = .error e d') (f : α → Writing β) :
    (w >>= f) d = .error e d' := by
  change EStateM.bind w f d = _
  rw [EStateM.bind, h]

variable {b : β}

theorem Writes.bind {f : α → Writing β} (hw : Writes d w p a o)
    (hf : ∀ d', d'.names = d.names.learn o.names → Writes d' (f a) q b o') :
    Writes d (w >>= f) (p ∧ q) b (o ++ o') := by
  refine ⟨fun ⟨hp, hq⟩ => ?_, fun hnot => ?_⟩
  · obtain ⟨d', hd', hext⟩ := hw.done hp
    obtain ⟨d'', hd'', hext'⟩ := (hf d' hext.names).done hq
    exact ⟨d'', (bind_of_ok hd' f).trans hd'', hext.trans hext'⟩
  · by_cases hp : p
    · obtain ⟨d', hd', hext⟩ := hw.done hp
      obtain ⟨d'', hd''⟩ := (hf d' hext.names).stops fun hq => hnot ⟨hp, hq⟩
      exact ⟨d'', (bind_of_ok hd' f).trans hd''⟩
    · obtain ⟨d', hd'⟩ := hw.stops hp
      exact ⟨d', bind_of_error hd' f⟩

theorem Writes.map (hw : Writes d w p a o) (f : α → β) :
    Writes d (do return f (← w)) p (f a) o := by
  have hsteps : Writes d (do return f (← w)) (p ∧ True) (f a) (o ++ .none) :=
    hw.bind fun _ _ => writes_pure (f a)
  exact hsteps.congr (by simp) (by simp [Output.append_eq, Output.none, Output.ofBytes])

theorem Writes.seq {w : Writing Unit} {w' : Writing β} (hw : Writes d w p () o)
    (hw' : ∀ d', d'.names = d.names.learn o.names → Writes d' w' q b o') :
    Writes d (do w; w') (p ∧ q) b (o ++ o') :=
  hw.bind hw'

theorem writes_get {f : Draft → Writing β} (h : Writes d (f d) p b o) :
    Writes d (get >>= f) p b o := ⟨h.done, h.stops⟩

theorem lift_ok_bind (a : α) (f : α → Writing β) : (Writing.lift (.ok a) >>= f) = f a := by
  funext d
  rfl

theorem writes_put (bs : Bytes) : Writes d (Writing.put bs) True () (.ofBytes bs) := by
  refine ⟨fun _ => ⟨_, rfl, ?_, rfl, rfl⟩, fun h => absurd trivial h⟩
  change (bs :: d.pieces).reverse.flatten = d.pieces.reverse.flatten ++ bs
  simp

theorem writes_word (n : UInt32) : Writes d (Writing.word n) True () (.ofBytes (wordBytes n)) :=
  writes_put _

theorem writes_count (n : Nat) :
    Writes d (Writing.count n) (n < 2 ^ 32) () (.ofBytes (wordBytes n.toUInt32)) := by
  unfold Writing.count
  split_ifs with h
  · exact (writes_word _).congr (iff_of_true trivial h) rfl
  · exact ⟨fun h' => absurd h' h, fun _ => ⟨d, rfl⟩⟩

theorem writes_whole (n : UInt32) :
    Writes d (Writing.whole (.int n.toNat)) True () (.ofBytes (wordBytes n)) := by
  have hn := n.toNat_lt
  unfold Writing.whole
  simp only
  rw [if_pos (by omega), Int.toNat_natCast, show n.toNat.toUInt32 = n by simp]
  exact writes_word n

theorem writes_text (h : IsAscii s) :
    Writes d (Writing.text s) (s.length < 2 ^ 31) () (.ofBytes (textBytes s)) := by
  unfold Writing.text
  rw [asciiBytes_eq h, lift_ok_bind, length_asciiOf]
  split_ifs with hlen
  · refine (writes_put _).congr (iff_of_true trivial hlen) ?_
    rw [textBytes, length_asciiOf]
  · exact ⟨fun h' => absurd h' hlen, fun _ => ⟨d, rfl⟩⟩

theorem code_eq_ok (h : nameCode s = .ok (codeOf s)) (d : Draft) :
    Writing.code (.str s) d = .ok (codeOf s) { d with names := d.names.put (codeOf s) s } := by
  have hrecord : NameTable.record d.names s = .ok (codeOf s, d.names.put (codeOf s) s) := by
    unfold NameTable.record
    rw [h]
    rfl
  change (Writing.lift (NameTable.record d.names s) >>= fun p => do
    modify fun d => { d with names := p.2 }
    return p.1 : Writing UInt32) d = _
  rw [hrecord]
  rfl

theorem writes_code (h : IsAscii s) :
    Writes d (Writing.code (.str s)) True (codeOf s) ⟨[], [s], ⟨0, 0, 0⟩⟩ :=
  ⟨fun _ => ⟨_, code_eq_ok (nameCode_eq h) d, (append_nil _).symm, rfl, rfl⟩,
    fun h => absurd trivial h⟩

theorem writes_name (h : IsAscii s) :
    Writes d (Writing.name (.str s)) True () ⟨wordBytes (codeOf s), [s], ⟨0, 0, 0⟩⟩ :=
  ((writes_code h).bind fun _ _ => writes_word (codeOf s)).congr (by simp) rfl

theorem writes_tally (step : Tally → Tally) (t : Tally)
    (h : ∀ u, step u = ⟨u.animations + t.animations, u.frames + t.frames, u.symbols + t.symbols⟩) :
    Writes d (Writing.tally step) True () ⟨[], [], t⟩ :=
  ⟨fun _ => ⟨_, rfl, (append_nil _).symm, rfl, h _⟩, fun h => absurd trivial h⟩

theorem writes_singles (ss : List Single) :
    Writes d (Writing.singles (ss.map Single.toFloat)) True () (.ofBytes (singlesBytes ss)) := by
  unfold Writing.singles
  rw [mapM_narrowed, lift_ok_bind, flatMap_map]
  exact writes_put _

variable {f : α → Writing Unit} {R : α → β → Prop} {fits : β → Prop}

variable {out : β → Output}

/-- A row of records. The names that are known when a record is written may matter, so what is known
of them is kept up along the row. -/
theorem writes_forM (inv : NameTable → Prop) (hinv : ∀ b t, inv t → inv (t.learn (out b).names))
    (h : ∀ a b, R a b → ∀ d, inv d.names → Writes d (f a) (fits b) () (out b)) :
    ∀ {as : List α} {bs : List β}, Forall₂ R as bs → ∀ {d : Draft}, inv d.names →
      Writes d (as.forM f) (∀ b ∈ bs, fits b) () (.join (bs.map out))
  | [], [], .nil, d, _ => (writes_pure ()).congr (by simp) rfl
  | a :: as, b :: bs, .cons hab hrest, d, hd => by
    have htail : ∀ d', d'.names = d.names.learn (out b).names →
        Writes d' (as.forM f) (∀ b ∈ bs, fits b) () (.join (bs.map out)) := fun d' hd' =>
      writes_forM inv hinv h hrest (hd' ▸ hinv b _ hd)
    refine ((h a b hab d hd).bind htail).congr ?_ rfl
    rw [forall_mem_cons]

variable {bs : List β} {as : List α}

theorem writes_forM_any (h : ∀ a b, R a b → ∀ d, Writes d (f a) (fits b) () (out b))
    (hab : Forall₂ R as bs) : Writes d (as.forM f) (∀ b ∈ bs, fits b) () (.join (bs.map out)) :=
  writes_forM (fun _ => True) (fun _ _ _ => trivial) (fun a b hR d _ => h a b hR d) hab trivial

theorem writes_forM_bytes {bytesOf : β → Bytes}
    (h : ∀ a b, R a b → ∀ d, Writes d (f a) (fits b) () (.ofBytes (bytesOf b)))
    (hab : Forall₂ R as bs) :
    Writes d (as.forM f) (∀ b ∈ bs, fits b) () (.ofBytes (bs.flatMap bytesOf)) := by
  rw [← Output.join_ofBytes]
  exact writes_forM_any h hab

def tableBytes (t : NameTable) : Bytes := wordBytes t.length.toUInt32 ++ t.flatMap entryBytes

theorem writes_nameTable (h : ∀ e ∈ d.names, IsAscii e.2) :
    Writes d Writing.nameTable (d.names.length < 2 ^ 32 ∧ ∀ e ∈ d.names, e.2.length < 2 ^ 31) ()
      (.ofBytes (tableBytes d.names)) := by
  have hentries : ∀ d', Writes d' (d.names.forM fun e => do Writing.word e.1; Writing.text e.2)
      (∀ e ∈ d.names, e.2.length < 2 ^ 31) () (.ofBytes (d.names.flatMap entryBytes)) := by
    intro d'
    refine writes_forM_bytes (R := fun e e' => e = e' ∧ e' ∈ d.names) ?_ ?_
    · rintro e _ ⟨rfl, he⟩ d''
      exact ((writes_word e.1).bind fun _ _ => writes_text (h e he)).congr (by simp) rfl
    · exact forall₂_same.mpr fun e he => ⟨rfl, he⟩
  exact writes_get ((writes_count _).seq fun d' _ => hentries d')

theorem several_nameEntry {t : NameTable} (h : ∀ e ∈ t, IsAscii e.2)
    (hlen : ∀ e ∈ t, e.2.length < 2 ^ 31) (rest : Bytes) :
    several nameEntry t.length (t.flatMap entryBytes ++ rest) = (t, .ok rest) := by
  have hread : ∀ e ∈ t, Reads nameEntry (entryBytes e) (id e) := fun e he =>
    (exact_nameEntry (h e he) (hlen e he)).reads
  rw [several_eq hread, map_id]

end Writing

end WikiFeed.Sprite

import WikiFeed.Proofs.Sprite.BankFile
import WikiFeed.Proofs.Sprite.Growth

/-! # Bank files that are cut off

A bank file is read in three parts (`bankParts`): the number of its animations, these, and the names
for the codes in them. What could be written is read exactly (`exact_bankFile`), provided that the
rates of the animations are finite, since these lose their fractions when they are read. All codes
that stand in the file have names in it, so that names are found for all of them
(`resolve_of_known`). -/

namespace WikiFeed.Sprite

open List Reading
open Decimal (Single)
open Outcome (ok_bind bind_eq_ok exists_of_bind_eq_ok)

/-! ### Codes that are known -/

def Element.Known (cs : List UInt32) (e : Element) : Prop :=
  (∃ n ∈ cs, e.name = .code n) ∧ ∃ n ∈ cs, e.layer = .code n

def Frame.Known (cs : List UInt32) (f : Frame) : Prop := ∀ e ∈ f.elements, e.Known cs

def Animation.Known (cs : List UInt32) (a : Animation) : Prop := ∀ f ∈ a.frames, f.Known cs

theorem Element.Known.mono {cs cs' : List UInt32} {e : Element} (h : cs ⊆ cs') (he : e.Known cs) :
    e.Known cs' := by
  obtain ⟨⟨n, hn, hname⟩, m, hm, hlayer⟩ := he
  exact ⟨⟨n, h hn, hname⟩, m, h hm, hlayer⟩

theorem Frame.Known.mono {cs cs' : List UInt32} {f : Frame} (h : cs ⊆ cs') (hf : f.Known cs) :
    f.Known cs' := fun e he => (hf e he).mono h

theorem Animation.Known.mono {cs cs' : List UInt32} {a : Animation} (h : cs ⊆ cs')
    (ha : a.Known cs) : a.Known cs' := fun f hf => (ha f hf).mono h

theorem resolveAll_of_none {α : Type} {resolve : α → α × Option Fault} :
    ∀ {as : List α}, (∀ a ∈ as, (resolve a).2 = none) → (resolveAll resolve as).2 = none
  | [], _ => rfl
  | a :: as, h => by
    have ha := h a mem_cons_self
    have has := resolveAll_of_none fun b hb => h b (mem_cons_of_mem a hb)
    cases hresolve : resolve a with
    | mk a' e =>
      rw [hresolve] at ha
      cases ha
      rw [resolveAll, hresolve]
      exact has

theorem Element.resolve_of_known {t : NameTable} {e : Element} (h : e.Known (t.map (·.1))) :
    (e.resolve t).2 = none := by
  obtain ⟨⟨n, hn, hname⟩, m, hm, hlayer⟩ := h
  obtain ⟨s, hs⟩ := Option.isSome_iff_exists.mp (isSome_name?.mpr hn)
  obtain ⟨l, hl⟩ := Option.isSome_iff_exists.mp (isSome_name?.mpr hm)
  unfold Element.resolve
  simp only [hname, hs, hlayer, hl]

theorem Frame.resolve_of_known {t : NameTable} {f : Frame} (h : f.Known (t.map (·.1))) :
    (f.resolve t).2 = none :=
  resolveAll_of_none fun e he => Element.resolve_of_known (h e he)

theorem Animation.resolve_of_known {t : NameTable} {a : Animation} (h : a.Known (t.map (·.1))) :
    (a.resolve t).2 = none :=
  resolveAll_of_none fun f hf => Frame.resolve_of_known (h f hf)

theorem codes_foldl_put : ∀ (es t : NameTable),
    t.map (·.1) ⊆ (es.foldl (fun t e => t.put e.1 e.2) t).map (·.1) ∧
      es.map (·.1) ⊆ (es.foldl (fun t e => t.put e.1 e.2) t).map (·.1)
  | [], t => ⟨List.Subset.refl _, nil_subset _⟩
  | e :: es, t => by
    obtain ⟨hold, hnew⟩ := codes_put t e.1 e.2
    obtain ⟨hput, hrest⟩ := codes_foldl_put es (t.put e.1 e.2)
    exact ⟨List.Subset.trans hold hput, cons_subset.mpr ⟨hput hnew, hrest⟩⟩

/-! ### Records of bank files -/

theorem lays_element (total : Nat) (e : Datum × Nat) (index : Nat) :
    Lays (Writing.element total e) (element index) Element.Known := by
  refine lays_lift fun _ _ => (lays_name _).seq fun _ n hn => lays_lift fun _ _ =>
    (lays_whole _).seq fun _ k _ => lays_lift fun _ _ => (lays_name _).seq fun _ m hm =>
    lays_lift fun xs hxs d d' h => ?_
  obtain ⟨ss, hss, hput⟩ := grows_singles h
  have hlen : ss.length = 7 := by
    rw [length_of_narrowed hss, length_append, length_of_doublesOf hxs]
    rfl
  -- six numbers are the transformation, the last one is the depth
  obtain ⟨ts, z, rfl⟩ : ∃ ts z, ss = ts ++ [z] :=
    eq_nil_or_concat' ss |>.resolve_left fun h => by rw [h] at hlen; cases hlen
  have hsix : ts.length = 6 := by simpa using hlen
  have hts := exact_singles ts
  rw [hsix] at hts
  rw [flatMap_append] at hput
  exact ⟨_, _, hput, hts.bind <| (exact_single z).bind <| exact_pure _,
    fun hm' _ hn' => ⟨⟨n, hn' hn, rfl⟩, m, hm' hm, rfl⟩⟩

theorem lays_elements (total : Nat) : ∀ (es : List (Datum × Nat)) (index : Nat),
    Lays (es.forM (Writing.element total)) (elements es.length index)
      fun cs vs => ∀ v ∈ vs, v.Known cs
  | [], _ => lays_pure fun _ _ hv => absurd hv not_mem_nil
  | e :: es, index => (lays_element total e index).seq fun _ _ hv =>
    (lays_elements total es (index + 1)).map fun _ _ hvs hcs =>
      forall_mem_cons.mpr ⟨hv.mono hcs, hvs⟩

theorem lays_frame (f : Datum) : Lays (Writing.frame f) frame Frame.Known := by
  refine lays_lift fun items _ => Lays.tally (lays_lift fun sorted _ => lays_lift fun xs hxs =>
    (lays_singles (length_of_doublesOf hxs)).seq fun _ bounds _ =>
    (lays_count 0).seq fun _ events hevents => ?_) fun _ => rfl
  -- there are no events
  rw [hevents]
  refine Lays.skip (exact_bytes []) ((lays_count _).seq fun _ n hn => ?_)
  rw [hn, ← length_zipIdx (l := sorted) (i := 0)]
  exact (lays_elements items.length sorted.zipIdx 0).map fun _ _ hvs _ _ _ => hvs

theorem strict_animations (n : Nat) :
    strict (animations n) = strict (several animationRecord n) :=
  strict_severalNested _ _ _ _ n

theorem lays_animation {bank : Datum} {a : Datum × Datum}
    (hfinite : ∀ v, named a.2 "framerate" = .ok v → FiniteDouble v) :
    Lays (Writing.animation bank a) animationRecord Animation.Known := by
  unfold animationRecord nested animationHead
  simp only [bind_assoc, pure_bind]
  refine lays_lift fun n hn => Lays.tally (lays_lift fun name _ => ?_) fun _ => rfl
  obtain ⟨frames, hframes, hn⟩ := exists_of_bind_eq_ok hn
  obtain ⟨items, hitems, rfl⟩ := exists_items_of_size hn
  generalize splitFacing name = split
  obtain ⟨facing, stem⟩ := split
  refine (lays_text exact_text).seq fun _ _ _ => (lays_byte facing).seq fun _ _ _ =>
    (lays_name bank).seq fun _ code _ => lays_lift fun x hx => (lays_single x).seq fun _ y hy => ?_
  obtain ⟨rate, hrate, hx⟩ := exists_of_bind_eq_ok hx
  obtain ⟨s, hs, rfl⟩ := hy
  obtain ⟨k, hwhole⟩ := exact_whole (hfinite rate hrate x hx) hs
  refine Lays.skip hwhole ((lays_count _).seq fun _ n hn => lays_lift fun items' hitems' => ?_)
  rw [hframes, ok_bind, hitems] at hitems'
  cases hitems'
  rw [hn]
  exact (lays_row (fun f _ => lays_frame f) fun _ _ _ => Frame.Known.mono).map
    fun _ _ hvs _ _ _ _ _ => hvs

/-! ### Bank files -/

theorem strict_several_add {α : Type} (record : Reading α) : ∀ m n : Nat,
    strict (several record (m + n)) = do
      let as ← strict (several record m)
      let bs ← strict (several record n)
      return as ++ bs
  | 0, n => by
    have hzero : strict (several record 0) = pure [] := rfl
    simp only [hzero, Nat.zero_add, pure_bind, nil_append, bind_pure]
  | m + 1, n => by
    rw [Nat.succ_add, strict_several_succ, strict_several_succ, strict_several_add record m n]
    simp only [bind_assoc, pure_bind]
    rfl

def FiniteRates (data : Datum) : Prop :=
  ∀ banks entries, named data "banks" = .ok banks → entriesOf banks = .ok entries →
    ∀ b ∈ entries, ∀ animations, entriesOf b.2 = .ok animations →
      ∀ a ∈ animations, ∀ v, named a.2 "framerate" = .ok v → FiniteDouble v

theorem size_of_entries {v : Datum} {entries : Members} {n : Nat} (h : entriesOf v = .ok entries)
    (hn : sizeOfItems v = .ok n) : n = entries.length := by
  cases v with
  | dict es =>
    cases h
    cases hn
    exact length_map ..
  | null | bool _ | int _ | float _ | str _ | list _ | tuple _ | other _ => cases h

def FiniteBank (b : Datum × Datum) : Prop :=
  ∀ animations, entriesOf b.2 = .ok animations →
    ∀ a ∈ animations, ∀ v, named a.2 "framerate" = .ok v → FiniteDouble v

/-- A draft with some animations behind it, which are read exactly. -/
def Draft.Animates (d d' : Draft) (n : Nat) (bs : Bytes) (vs : List Animation) : Prop :=
  d'.bytes = d.bytes ++ bs ∧ d.codes ⊆ d'.codes ∧
    d'.tally.animations = d.tally.animations + n ∧
    Exact (strict (several animationRecord n)) bs vs ∧ ∀ v ∈ vs, v.Known d'.codes

theorem lays_bank {b : Datum × Datum} {d d' : Draft} (hfinite : FiniteBank b)
    (h : Writing.bank b d = .ok () d') : ∃ n bs vs, d.Animates d' n bs vs := by
  obtain ⟨n, hn, h⟩ := lift_bind_eq_ok.mp h
  obtain ⟨d₁, htally, h⟩ := seq_eq_ok.mp h
  obtain ⟨entries, hentries, hrow⟩ := lift_bind_eq_ok.mp h
  cases size_of_entries hentries hn
  cases htally
  obtain ⟨bs, vs, hgrows, hexact, hvs⟩ := lays_row
    (fun a ha => lays_animation (hfinite entries hentries a ha))
    (fun _ _ _ => Animation.Known.mono) hrow
  exact ⟨entries.length, bs, vs, hgrows.bytes, hgrows.codes, hgrows.animations, hexact, hvs⟩

theorem lays_banks : ∀ {banks : Members} {d d' : Draft}, (∀ b ∈ banks, FiniteBank b) →
    banks.forM Writing.bank d = .ok () d' → ∃ n bs vs, d.Animates d' n bs vs
  | [], d, _, _, h => by
    cases h
    exact ⟨0, [], [], (append_nil _).symm, List.Subset.refl _, rfl, exact_pure [],
      fun _ hv => absurd hv not_mem_nil⟩
  | b :: banks, d, d', hfinite, h => by
    obtain ⟨d₁, hb, hbanks⟩ := seq_eq_ok.mp h
    obtain ⟨hfirst, hrest⟩ := forall_mem_cons.mp hfinite
    obtain ⟨m, as, vs, hbytes, hcodes, hcount, hexact, hvs⟩ := lays_bank hfirst hb
    obtain ⟨n, bs, ws, hbytes', hcodes', hcount', hexact', hws⟩ := lays_banks hrest hbanks
    refine ⟨m + n, as ++ bs, vs ++ ws, ?_, List.Subset.trans hcodes hcodes', ?_, ?_, ?_⟩
    · rw [hbytes', hbytes, append_assoc]
    · rw [hcount', hcount, Nat.add_assoc]
    · rw [strict_several_add]
      exact hexact.bind (hexact'.map fun ws => vs ++ ws)
    · exact forall_mem_append.mpr ⟨fun v hv => (hvs v hv).mono hcodes', hws⟩

def bankStart : Reading UInt32 := fun content => Reading.word (content.drop 20)

def bankParts : Reading (List Animation × NameTable) := do
  let n ← bankStart
  let as ← strict (Reading.animations n.toNat)
  let names ← counted Reading.nameEntry
  return (as, names)

theorem exact_bankHead (t : Tally) :
    Exact bankStart (Writing.bankHead t) t.animations.toUInt32 := by
  obtain ⟨first, hfirst, hhead⟩ : ∃ first : Bytes, first.length = 20 ∧
      Writing.bankHead t = first ++ wordBytes t.animations.toUInt32 :=
    ⟨[0x41, 0x4E, 0x49, 0x4D] ++ [bankVersion, t.symbols.toUInt32, t.frames.toUInt32, 0].flatMap
      wordBytes, rfl, rfl⟩
  rw [hhead]
  constructor
  · intro rest
    rw [bankStart, append_assoc, drop_left' hfirst]
    exact reads_word _ rest
  · intro p hp hne
    have hshort := length_lt_of_cut hp hne
    have hlen : (wordBytes t.animations.toUInt32).length = 4 := rfl
    rw [length_append, hfirst, hlen] at hshort
    exact word_of_short (by rw [length_drop]; omega)

theorem exact_bankFile {data : Datum} {d : Draft} (hfinite : FiniteRates data)
    (h : Writing.bankFile data .empty = .ok () d) : ∃ as names,
      Exact bankParts d.bytes (as, names) ∧ ∀ a ∈ as, a.Known (names.map (·.1)) := by
  obtain ⟨entries, hentries, h⟩ := lift_bind_eq_ok.mp h
  obtain ⟨banks, hbanks, hentries⟩ := exists_of_bind_eq_ok hentries
  obtain ⟨d₁, hrows, h⟩ := seq_eq_ok.mp h
  obtain ⟨d₂, htable, h⟩ := seq_eq_ok.mp h
  obtain ⟨d₃, d₄, hget, h⟩ := bind_eq_ok.mp h
  cases hget
  obtain ⟨n, as, vs, hbytes, -, hcount, hexact, hvs⟩ :=
    lays_banks (hfinite banks entries hbanks hentries) hrows
  obtain ⟨ts, htabled, hts⟩ := lays_nameTable htable
  split_ifs at h with hfits
  · cases h
    have hn : d₂.tally.animations = n := by
      rw [htabled.animations, hcount]
      exact Nat.zero_add n
    have hall : (d₂.pieces ++ [Writing.bankHead d₂.tally]).reverse.flatten =
        Writing.bankHead d₂.tally ++ (as ++ ts) := by
      rw [reverse_append, reverse_singleton, singleton_append, flatten_cons]
      change _ ++ d₂.bytes = _
      rw [htabled.bytes, hbytes]
      rfl
    rw [← hn, ← toNat_toUInt32 hfits.1, ← strict_animations] at hexact
    refine ⟨vs, d₁.names, ?_, hvs⟩
    rw [Draft.bytes, hall]
    exact (exact_bankHead d₂.tally).bind <| hexact.bind <| hts.map fun names => (vs, names)
  · cases h

/-- The data of what a bank file holds, and a fault if a code in it has no name. -/
def bankData (as : List Animation) (names : NameTable) : Members × Option Fault :=
  let table := names.foldl (fun t e => NameTable.put t e.1 e.2) []
  let (as, e) := resolveAll (Animation.resolve table) as
  (banksData (names.foldl (fun bs e => relabel bs e.1 e.2) (groupBanks as)), e)

theorem bankData_of_known {as : List Animation} {names : NameTable}
    (h : ∀ a ∈ as, a.Known (names.map (·.1))) : (bankData as names).2 = none :=
  resolveAll_of_none fun a ha =>
    Animation.resolve_of_known ((h a ha).mono (codes_foldl_put names []).2)

theorem readBankFile_of_ok {content rest : Bytes} {as : List Animation} {names : NameTable}
    (h : bankParts content = .ok ((as, names), rest)) :
    readBankFile content = bankData as names := by
  obtain ⟨n, rest₁, hn, h⟩ := exists_of_reading_ok h
  obtain ⟨as', rest₂, has, h⟩ := exists_of_reading_ok h
  obtain ⟨names', rest₃, hnames, h⟩ := exists_of_reading_ok h
  cases h
  obtain ⟨m, mid, hm, hrow⟩ := exists_of_counted_ok hnames
  have hn : word (content.drop 20) = .ok (n, rest₁) := hn
  simp only [readBankFile, hn, strict_eq_ok has, hm, hrow]
  rfl

theorem readBankFile_of_error {content : Bytes} {e : Fault} (h : bankParts content = .error e) :
    (readBankFile content).2 = some e := by
  rcases cases_of_reading_error h with hn | ⟨n, rest₁, hn, h⟩
  · have hn : word (content.drop 20) = .error e := hn
    simp only [readBankFile, hn]
  have hn : word (content.drop 20) = .ok (n, rest₁) := hn
  rcases cases_of_reading_error h with has | ⟨as, rest₂, has, h⟩
  · obtain ⟨as, hrow⟩ := strict_eq_error has
    simp only [readBankFile, hn, hrow]
  rcases cases_of_reading_error h with hnames | ⟨names, rest₃, hnames, h⟩
  · rcases cases_of_counted_error hnames with hm | ⟨m, mid, names, hm, hrow⟩
    · simp only [readBankFile, hn, strict_eq_ok has, hm]
    · simp only [readBankFile, hn, strict_eq_ok has, hm, hrow]
  cases h

end WikiFeed.Sprite

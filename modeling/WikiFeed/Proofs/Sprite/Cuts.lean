import WikiFeed.Proofs.Sprite.Wire
import WikiFeed.Sprite.BuildFile

/-! # Readers that notice every cut

How a reader ended tells what it did: a reader made of steps took all of them, or it stopped at the
first fault. A reader of rows, which keeps the records before a fault, is looked at without them
(`strict`). -/

namespace WikiFeed.Sprite

open Reading
open Decimal (Single)
open Outcome (ok_bind exists_of_bind_eq_ok)

variable {α β : Type} {bs rest : Bytes} {r : Reading α} {f : α → Reading β} {a : α}

theorem exists_of_reading_ok {b : β} (h : (r >>= f) bs = .ok (b, rest)) :
    ∃ a mid, r bs = .ok (a, mid) ∧ f a mid = .ok (b, rest) := by
  obtain ⟨p, hp, hf⟩ := exists_of_bind_eq_ok h
  exact ⟨p.1, p.2, hp, hf⟩

variable {e : Fault}

theorem cases_of_reading_error (h : (r >>= f) bs = .error e) :
    r bs = .error e ∨ ∃ a mid, r bs = .ok (a, mid) ∧ f a mid = .error e := by
  rw [reading_bind] at h
  cases hr : r bs with
  | error e' =>
    rw [hr] at h
    cases h
    exact .inl rfl
  | ok p =>
    rw [hr] at h
    exact .inr ⟨p.1, p.2, rfl, h⟩

theorem word_cases : ∀ bs : Bytes,
    word bs = .error .field ∨ ∃ n rest, word bs = .ok (n, rest)
  | [] | [_] | [_, _] | [_, _, _] => .inl rfl
  | _ :: _ :: _ :: _ :: _ => .inr ⟨_, _, rfl⟩

/-! ### Rows -/

def counted (record : Reading α) : Reading (List α) := do
  strict (Reading.several record (← Reading.word).toNat)

variable {as : List α}

variable {rows : Bytes → List α × Result Bytes}

theorem strict_eq_error (h : strict rows bs = .error e) : ∃ as, rows bs = (as, .error e) := by
  cases hrows : rows bs with
  | mk as r =>
    cases r with
    | ok rest =>
      rw [strict_of_ok hrows] at h
      cases h
    | error e' =>
      rw [strict_of_error hrows] at h
      cases h
      exact ⟨as, rfl⟩

variable {record : Reading α}

theorem exists_of_counted_ok (h : counted record bs = .ok (as, rest)) :
    ∃ n mid, word bs = .ok (n, mid) ∧
      several record n.toNat mid = (as, .ok rest) := by
  obtain ⟨n, mid, hn, hrow⟩ := exists_of_reading_ok h
  exact ⟨n, mid, hn, strict_eq_ok hrow⟩

theorem cases_of_counted_error (h : counted record bs = .error e) : word bs = .error e ∨
      ∃ n mid as, word bs = .ok (n, mid) ∧
        several record n.toNat mid = (as, .error e) := by
  rcases cases_of_reading_error h with hn | ⟨n, mid, hn, hrow⟩
  · exact .inl hn
  · obtain ⟨as, has⟩ := strict_eq_error hrow
    exact .inr ⟨n, mid, as, hn, has⟩

end WikiFeed.Sprite

import Mathlib.Tactic.Linarith
import WikiFeed.Lua.Arith

/-! # Counting loops

A counting loop makes laps, each with the number behind that of the lap before (`Laps`), until the
number is beyond the last one in the direction of the step (`Passed`). For a step that is not zero
there is a first such number (`exists_rounds`), so that laps which can always be made lead there
(`Laps.exists_of_forall`). In a lap the body of the loop is visited and the variable goes on by the
step (`Lap`); a run of the loop goes on behind the laps that it has made (`Laps.run_eq`). -/

namespace WikiFeed.Lua

/-- A number is beyond the last one of a loop, in the direction of its step. -/
def Passed (stop step i : Int) : Prop := if step < 0 then i < stop else stop < i

instance (stop step i : Int) : Decidable (Passed stop step i) :=
  inferInstanceAs (Decidable (if step < 0 then i < stop else stop < i))

/-- A number of laps from one state to another, the first one with a given number. -/
inductive Laps {σ : Type} (lap : Int → σ → σ → Prop) (step : Int) : Nat → Int → σ → σ → Prop where
  | none {i : Int} {m : σ} : Laps lap step 0 i m m
  | next {k : Nat} {i : Int} {m m' n : σ} : lap i m m' → Laps lap step k (i + step) m' n →
      Laps lap step (k + 1) i m n

section Laps

variable {σ : Type} {lap : Int → σ → σ → Prop} {step i : Int} {k : Nat} {m n n' : σ}

theorem Laps.snoc (h : Laps lap step k i m n) (hlap : lap (i + k * step) n n') :
    Laps lap step (k + 1) i m n' := by
  induction h with
  | none =>
    rw [Nat.cast_zero, zero_mul, add_zero] at hlap
    exact .next hlap .none
  | next hfirst _ ih =>
    refine .next hfirst (ih ?_)
    rwa [add_assoc, ← one_add_mul, add_comm 1, ← Nat.cast_succ]

theorem Laps.exists_of_forall : ∀ {k : Nat},
    (∀ j < k, ∀ n, Laps lap step j i m n → ∃ n', lap (i + j * step) n n') →
      ∃ n, Laps lap step k i m n
  | 0, _ => ⟨m, .none⟩
  | k + 1, h => by
    obtain ⟨n, hn⟩ := Laps.exists_of_forall fun j hj => h j (Nat.lt_succ_of_lt hj)
    obtain ⟨n', hn'⟩ := h k (Nat.lt_succ_self k) n hn
    exact ⟨n', hn.snoc hn'⟩

theorem Laps.run_eq {ρ : Type} {run : Nat → σ → ρ} (h : Laps lap step k i m n)
    (hlap : ∀ j < k, ∀ {n n'}, lap (i + j * step) n n' → ∀ fuel, run (fuel + 1) n = run fuel n')
    (fuel : Nat) : run (fuel + k) m = run fuel n := by
  induction h with
  | none => rfl
  | @next k i m m' n hfirst _ ih =>
    rw [← Nat.add_assoc, hlap 0 (Nat.succ_pos k) (by simpa using hfirst)]
    refine ih fun j hj n n' hn => hlap (j + 1) (Nat.succ_lt_succ hj) ?_
    rwa [Nat.cast_succ, add_one_mul, add_comm (_ * step), ← add_assoc]

end Laps

section Lap

variable {σ ε : Type} {own : σ → Value} {set : σ → Value → σ} {visit : EStateM ε σ Unit}
  {step i : Int} {k : Nat} {m n : σ}

/-- A lap with a number: a visit of the body that leaves the variable of the loop at the number,
which then goes on by the step. -/
def Lap (own : σ → Value) (set : σ → Value → σ) (visit : EStateM ε σ Unit) (step i : Int)
    (m n : σ) : Prop :=
  own m = .int i ∧ ∃ k, visit m = .ok () k ∧ own k = .int i ∧ n = set k (.int (i + step))

theorem Laps.own_eq (h : Laps (Lap own set visit step) step k i m n) (hi : own m = .int i)
    (hset : ∀ {m : σ} {i : Int}, own m = .int i → ∀ v, own (set m v) = v) :
    own n = .int (i + k * step) := by
  induction h with
  | none => rw [hi, Nat.cast_zero, zero_mul, add_zero]
  | next hlap _ ih =>
    obtain ⟨-, k', -, hk', rfl⟩ := hlap
    rw [ih (hset hk' _), Nat.cast_succ, add_one_mul, add_comm (_ * step), ← add_assoc]

end Lap

/-! ### The number of laps -/

section Rounds

variable {start stop step : Int}

theorem Passed.mono {j k : Nat} (h : Passed stop step (start + j * step)) (hjk : j ≤ k) :
    Passed stop step (start + k * step) := by
  have hle : (j : Int) ≤ k := Nat.cast_le.mpr hjk
  unfold Passed at *
  split_ifs at * with hneg
  · nlinarith
  · nlinarith

theorem passed_of_distance (hstep : step ≠ 0) :
    Passed stop step (start + ((stop - start).natAbs + 1 : Nat) * step) := by
  have hfar : |stop - start| < ((stop - start).natAbs + 1 : Nat) := by
    rw [Nat.cast_succ, Int.natCast_natAbs]
    exact Int.lt_add_one_iff.mpr le_rfl
  obtain ⟨hlow, hhigh⟩ := abs_lt.mp hfar
  unfold Passed
  split_ifs with hneg
  · nlinarith
  · nlinarith [lt_of_le_of_ne (not_lt.mp hneg) hstep.symm]

theorem exists_rounds (start stop : Int) (hstep : step ≠ 0) : ∃ rounds : Nat,
    rounds ≤ (stop - start).natAbs + 1 ∧
      ∀ k : Nat, k < rounds ↔ ¬ Passed stop step (start + k * step) := by
  have hexists : ∃ k : Nat, Passed stop step (start + k * step) := ⟨_, passed_of_distance hstep⟩
  refine ⟨Nat.find hexists, Nat.find_min' hexists (passed_of_distance hstep), fun k => ?_⟩
  refine ⟨Nat.find_min hexists, fun hk => Nat.lt_of_not_le fun hle => hk ?_⟩
  exact (Nat.find_spec hexists).mono hle

end Rounds

/-! ### Whole numbers as values -/

theorem Value.order_int (op : BinOp) (a b : Int) :
    (Value.int a).order op (.int b) = .ok (holds op (some (compare a b))) := rfl

theorem Value.order_le (a b : Int) : (Value.int a).order .le (.int b) = .ok (decide (a ≤ b)) := by
  rw [order_int]
  cases h : compare a b with
  | lt => simp [holds, (compare_lt_iff_lt.mp h).le]
  | eq => simp [holds, (compare_eq_iff_eq.mp h).le]
  | gt => simp [holds, compare_gt_iff_gt.mp h]

theorem Value.order_ge (a b : Int) : (Value.int a).order .ge (.int b) = .ok (decide (b ≤ a)) := by
  rw [order_int]
  cases h : compare a b with
  | lt => simp [holds, compare_lt_iff_lt.mp h]
  | eq => simp [holds, (compare_eq_iff_eq.mp h).ge]
  | gt => simp [holds, (compare_gt_iff_gt.mp h).le]

theorem Value.order_lt (a b : Int) : (Value.int a).order .lt (.int b) = .ok (decide (a < b)) := by
  rw [order_int]
  cases h : compare a b with
  | lt => simp [holds, compare_lt_iff_lt.mp h]
  | eq => simp [holds, compare_eq_iff_eq.mp h]
  | gt => simp [holds, (compare_gt_iff_gt.mp h).le]

end WikiFeed.Lua

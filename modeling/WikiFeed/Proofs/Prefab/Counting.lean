import WikiFeed.Proofs.Lua.Counting
import WikiFeed.Proofs.Outcome
import WikiFeed.Proofs.Prefab.Blocks

/-! # Counting loops of prefab scripts

A counting loop goes on as long as its number is at most the last one, whatever the sign of its
step, and it does not end a break. So a loop that counts up makes its laps, but a break in its body
goes on to what is around the loop; a loop that counts down makes no lap if it should make some, and
laps without end if it should make none (`countingLoop_counts_up`). -/

namespace WikiFeed.Prefab

open Lua
open Outcome (bind_of_eq_ok bind_eq_error)

def Machine.own (scope : ScopeId) (name : String) (m : Machine) : Value :=
  (varsOf m.scopes scope).get (.str name)

def Machine.set (scope : ScopeId) (name : String) (m : Machine) (v : Value) : Machine :=
  { m with scopes := define m.scopes scope (.str name) v }

theorem Machine.own_set {m : Machine} {scope : ScopeId} {name : String} {i : Int}
    (h : m.own scope name = .int i) (v : Value) : (m.set scope name v).own scope name = v := by
  have hscope : scope < m.scopes.size := by
    refine Nat.lt_of_not_le fun hle => ?_
    rw [Machine.own, varsOf, Places.getD_of_size_le hle] at h
    cases h
  unfold Machine.own Machine.set
  rw [Scoped.varsOf_define, if_pos ⟨rfl, hscope⟩, Table.get_put_str, if_pos rfl]

def visitBody (rec : Visitor) (body : Block) : Eval Unit := inBlock do
  let _ ← rec (.block body)

abbrev LoopLaps (rec : Visitor) (scope : ScopeId) (var : String) (body : Block) (step : Int) :
    Nat → Int → Machine → Machine → Prop :=
  Laps (Lap (Machine.own scope var) (Machine.set scope var) (visitBody rec body) step) step

/-- The scope around a loop, its first and its last number and its step. The variable, which lives
in that scope, gets the first number. -/
def header (rec : Visitor) (target : String) (start stop : Expr) (step : Option Expr) :
    Eval (ScopeId × Value × Value × Value) := do
  let scope ← here
  let first ← rec (.expr start)
  modifyScopes fun ss => define ss scope (.str target) first
  let last ← rec (.expr stop)
  let by_ ← match step with
    | some e => rec (.expr e)
    | none => rec (.value (.int 1))
  return (scope, first, last, by_)

section Loops

variable {rec : Visitor} {scope : ScopeId} {var : String} {body : Block} {stop step i : Int}
  {k : Nat} {m m₀ n : Machine}

theorem visitFornum_eq (target : String) (start stop : Expr) (step : Option Expr) :
    visitFornum rec target start stop step body = do
      let h ← header rec target start stop step
      countRounds rec h.1 (.str target) h.2.2.1 h.2.2.2 body (maxRounds + h.2.1.distance h.2.2.1)
      return .nil := by
  unfold visitFornum header
  cases step <;> simp only [bind_assoc, pure_bind]

theorem compare_counter (stop i : Int) :
    compareWith .ge (.int stop) (.int i) = .ok (decide (i ≤ stop)) := Value.order_ge stop i

theorem countRounds_of_lap
    (hlap : Lap (Machine.own scope var) (Machine.set scope var) (visitBody rec body) step i m n)
    (hi : i ≤ stop) (fuel : Nat) :
    countRounds rec scope (.str var) (.int stop) (.int step) body (fuel + 1) m =
      countRounds rec scope (.str var) (.int stop) (.int step) body fuel n := by
  obtain ⟨hm, k, hvisit, hk, rfl⟩ := hlap
  change (lift (compareWith .ge (.int stop) (m.own scope var)) >>= _ : Eval Unit) m = _
  rw [hm, compare_counter, decide_eq_true hi]
  refine (bind_of_eq_ok hvisit).trans ?_
  change (lift (arithmetic k.store .add (k.own scope var) (.int step)) >>= _ : Eval Unit) k = _
  rw [hk]
  rfl

theorem countRounds_of_passed (hm : m.own scope var = .int i) (hi : stop < i) (step : Value)
    (fuel : Nat) :
    countRounds rec scope (.str var) (.int stop) step body (fuel + 1) m = .ok () m := by
  change (lift (compareWith .ge (.int stop) (m.own scope var)) >>= _ : Eval Unit) m = _
  rw [hm, compare_counter, decide_eq_false (not_le.mpr hi)]
  rfl

theorem countRounds_of_break (hm : m.own scope var = .int i) (hi : i ≤ stop)
    (hvisit : visitBody rec body m = .error .brk n) (step : Value) (fuel : Nat) :
    countRounds rec scope (.str var) (.int stop) step body (fuel + 1) m = .error .brk n := by
  change (lift (compareWith .ge (.int stop) (m.own scope var)) >>= _ : Eval Unit) m = _
  rw [hm, compare_counter, decide_eq_true hi]
  exact bind_eq_error.mpr (.inr ⟨true, m, rfl, bind_eq_error.mpr (.inl hvisit)⟩)

theorem countRounds_of_laps (h : LoopLaps rec scope var body step k i m n)
    (hgo : ∀ j < k, i + j * step ≤ stop) (fuel : Nat) :
    countRounds rec scope (.str var) (.int stop) (.int step) body (fuel + k) m =
      countRounds rec scope (.str var) (.int stop) (.int step) body fuel n :=
  h.run_eq (fun j hj _ _ hlap => countRounds_of_lap hlap (hgo j hj)) fuel

theorem visitFornum_of_laps {start stop : Expr} {step : Option Expr} {a b s : Int}
    (hheader : header rec var start stop step m = .ok (scope, .int a, .int b, .int s) m₀)
    (hn : LoopLaps rec scope var body s k a m₀ n) (hgo : ∀ j < k, a + j * s ≤ b)
    (hk : k ≤ (b - a).natAbs + 1) : ∃ fuel,
      visitFornum rec var start stop step body m = (do
        countRounds rec scope (.str var) (.int b) (.int s) body (fuel + 1)
        return .nil : Eval Value) n := by
  obtain ⟨fuel, hfuel⟩ : ∃ fuel, maxRounds + (b - a).natAbs = fuel + 1 + k :=
    ⟨maxRounds + (b - a).natAbs - 1 - k, by rw [maxRounds]; omega⟩
  refine ⟨fuel, ?_⟩
  rw [visitFornum_eq, bind_of_eq_ok hheader]
  change (countRounds rec scope (.str var) (.int b) (.int s) body (maxRounds + (b - a).natAbs) >>=
    fun _ => pure .nil : Eval Value) m₀ = _
  change EStateM.bind _ _ _ = EStateM.bind _ _ _
  rw [hfuel, EStateM.bind, EStateM.bind, countRounds_of_laps hn hgo]

end Loops

/-- **A counting loop counts up, whatever its step.** Suppose that the header of a loop gives whole
numbers and that each visit of the body that the loop comes to leaves the variable at its number, or
breaks.

* If the first number is beyond the last one, the body is not visited, also if the step is negative.
* With a positive step the loop makes one lap for each number `a + k * s` that is at most `b`, in
  order, and ends, unless a visit breaks: then the whole loop ends in that break.
* With a negative step and no break, a loop whose first number is at most the last one makes any
  number of laps and is not at its end. -/
theorem countingLoop_counts_up {rec : Visitor} {target : String} {start stop : Expr}
    {step : Option Expr} {body : Block} {m m₀ : Machine} {scope : ScopeId} {a b s : Int}
    (hheader : header rec target start stop step m = .ok (scope, .int a, .int b, .int s) m₀)
    (hvar : m₀.own scope target = .int a)
    (hbody : ∀ k n, LoopLaps rec scope target body s k a m₀ n → a + k * s ≤ b →
      (∃ n', visitBody rec body n = .ok () n' ∧ n'.own scope target = n.own scope target) ∨
        ∃ n', visitBody rec body n = .error .brk n') :
    (b < a → visitFornum rec target start stop step body m = .ok .nil m₀) ∧
    (0 < s →
      (∃ rounds n, (∀ k : Nat, k < rounds ↔ a + k * s ≤ b) ∧
        LoopLaps rec scope target body s rounds a m₀ n ∧
        visitFornum rec target start stop step body m = .ok .nil n) ∨
      ∃ (k : Nat) (n n' : Machine), a + k * s ≤ b ∧ LoopLaps rec scope target body s k a m₀ n ∧
        visitBody rec body n = .error .brk n' ∧
        visitFornum rec target start stop step body m = .error .brk n') ∧
    (s < 0 → a ≤ b →
      (∀ k n n', LoopLaps rec scope target body s k a m₀ n →
        visitBody rec body n ≠ .error .brk n') →
      ∀ rounds, ∃ n, LoopLaps rec scope target body s rounds a m₀ n ∧
        countRounds rec scope (.str target) (.int b) (.int s) body rounds m₀ =
          .error (.fault .tooDeep) n) := by
  have hown {k : Nat} {n : Machine} (hn : LoopLaps rec scope target body s k a m₀ n) :
      n.own scope target = .int (a + k * s) := hn.own_eq hvar Machine.own_set
  have hlap (k : Nat) (n : Machine) (hn : LoopLaps rec scope target body s k a m₀ n)
      (hk : a + k * s ≤ b) (hbreak : ∀ n', visitBody rec body n ≠ .error .brk n') :
      ∃ n', Lap (Machine.own scope target) (Machine.set scope target) (visitBody rec body) s
        (a + k * s) n n' := by
    rcases hbody k n hn hk with ⟨n', hvisit, hsame⟩ | ⟨n', hvisit⟩
    · exact ⟨_, hown hn, n', hvisit, hsame.trans (hown hn), rfl⟩
    · exact absurd hvisit (hbreak n')
  refine ⟨fun hba => ?_, fun hs => ?_, fun hs hab hbreak rounds => ?_⟩
  · have hnone : LoopLaps rec scope target body s 0 a m₀ m₀ := .none
    obtain ⟨fuel, hrun⟩ := visitFornum_of_laps hheader hnone
      (fun _ hj => absurd hj (Nat.not_lt_zero _)) (Nat.zero_le _)
    rw [hrun]
    exact bind_of_eq_ok (countRounds_of_passed hvar hba _ fuel)
  · obtain ⟨rounds, hfew, hrounds⟩ := exists_rounds a b hs.ne'
    have hup (k : Nat) : k < rounds ↔ a + k * s ≤ b := by
      rw [hrounds, Passed, if_neg (not_lt.mpr hs.le), not_lt]
    have hresume {k : Nat} {n : Machine} (hn : LoopLaps rec scope target body s k a m₀ n)
        (hk : k ≤ rounds) := visitFornum_of_laps hheader hn
          (fun j hj => (hup j).mp (hj.trans_le hk)) (hk.trans hfew)
    by_cases hbreak : ∃ (k : Nat) (n n' : Machine), a + k * s ≤ b ∧
        LoopLaps rec scope target body s k a m₀ n ∧ visitBody rec body n = .error .brk n'
    · obtain ⟨k, n, n', hk, hn, hvisit⟩ := hbreak
      obtain ⟨fuel, hrun⟩ := hresume hn ((hup k).mpr hk).le
      refine .inr ⟨k, n, n', hk, hn, hvisit, ?_⟩
      rw [hrun]
      exact bind_eq_error.mpr (.inl (countRounds_of_break (hown hn) hk hvisit _ fuel))
    · obtain ⟨n, hn⟩ : ∃ n, LoopLaps rec scope target body s rounds a m₀ n := by
        refine Laps.exists_of_forall fun k hk n hn =>
          hlap k n hn ((hup k).mp hk) fun n' hvisit => ?_
        exact hbreak ⟨k, n, n', (hup k).mp hk, hn, hvisit⟩
      obtain ⟨fuel, hrun⟩ := hresume hn le_rfl
      have hpassed : b < a + rounds * s := lt_of_not_ge fun h => lt_irrefl _ ((hup rounds).mpr h)
      refine .inl ⟨rounds, n, hup, hn, ?_⟩
      rw [hrun]
      exact bind_of_eq_ok (countRounds_of_passed (hown hn) hpassed _ fuel)
  · have hlow (k : Nat) : a + k * s ≤ b := by nlinarith [Int.natCast_nonneg k]
    obtain ⟨n, hn⟩ : ∃ n, LoopLaps rec scope target body s rounds a m₀ n :=
      Laps.exists_of_forall fun k _ n hn => hlap k n hn (hlow k) fun n' => hbreak k n n' hn
    refine ⟨n, hn, ?_⟩
    have hcount := countRounds_of_laps hn (fun j _ => hlow j) 0
    rwa [Nat.zero_add] at hcount

def oneScope : Machine :=
  { (default : Machine) with scopes := #[⟨none, some 0, 0, .empty⟩], evaluators := #[default] }

theorem countingLoop_counts_up_break :
    let visits := visitUpTo 4
    let m := oneScope.set 0 "i" (.int 1)
    header visits "i" (.number (.int 1)) (.number (.int 2)) none oneScope =
        .ok (0, .int 1, .int 2, .int 1) m ∧
      m.own 0 "i" = .int 1 ∧ ∃ n,
        visitFornum visits "i" (.number (.int 1)) (.number (.int 2)) none [.break] oneScope =
          .error .brk n := by
  intro visits m
  have hheader : header visits "i" (.number (.int 1)) (.number (.int 2)) none oneScope =
      .ok (0, .int 1, .int 2, .int 1) m := rfl
  have hvar : m.own 0 "i" = .int 1 := rfl
  have hbreak : visitBody (visitUpTo 4) [.break] (oneScope.set 0 "i" (.int 1)) =
      .error .brk (finalState
        (visitBody (visitUpTo 4) [.break] (oneScope.set 0 "i" (.int 1)))) := by
    with_unfolding_all rfl
  have hno (i : Int) (k : Machine) : ¬ Lap (Machine.own 0 "i") (Machine.set 0 "i")
      (visitBody visits [.break]) 1 i m k := by
    rintro ⟨-, k', hvisit, -⟩
    rw [hbreak] at hvisit
    cases hvisit
  have hcounts := (countingLoop_counts_up hheader hvar fun k n hn _ => by
    cases hn with
    | none => exact .inr ⟨_, hbreak⟩
    | next hlap => exact absurd hlap (hno _ _)).2.1 (by decide)
  refine ⟨hheader, hvar, ?_⟩
  rcases hcounts with ⟨rounds, n, hrounds, hn, -⟩ | ⟨k, n, n', -, -, -, hrun⟩
  · cases hn with
    | none => exact absurd ((hrounds 0).mpr (by decide)) (Nat.lt_irrefl 0)
    | next hlap => exact absurd hlap (hno _ _)
  · exact ⟨n', hrun⟩

/-- Counting down from 3 to 1, a loop that should add 3, 2 and 1 to `x` adds nothing. -/
theorem countdown_visits_nothing :
    let body : Block := [.assign [.name "x"] [.binary .add (.name "x") (.name "i")]]
    let step : Expr := .unary .neg (.number (.int 1))
    (finalState (visitUpTo 9 (.chunk [.assign [.name "x"] [.number (.int 0)],
      .fornum "i" (.number (.int 3)) (.number (.int 1)) (some step) body]) oneScope)).own 0 "x" =
        .int 0 := by
  with_unfolding_all rfl

end WikiFeed.Prefab

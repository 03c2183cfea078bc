import WikiFeed.Proofs.Lua.Chains
import WikiFeed.Proofs.Lua.Counting
import WikiFeed.Proofs.Outcome
import WikiFeed.Record.Visit

/-! # Counting loops of record scripts

A counting loop evaluates its header once and then makes laps: it visits the body in a scope of its
own and moves its variable, which lives in the scope around the loop, on by the step. If each visit
comes to its end and leaves the variable alone, the loop makes a lap for each number from the first
one on that is not beyond the last one, in the direction of the step, and then ends
(`countingLoop_makes_laps`). -/

namespace WikiFeed.Record

open Lua
open Outcome (bind_of_eq_ok)

def Machine.own (name : String) (m : Machine) : Value := (varsOf m.scopes m.here).get (.str name)

def Machine.set (name : String) (m : Machine) (v : Value) : Machine :=
  { m with scopes := define m.scopes m.here (.str name) v }

theorem Machine.here_lt {m : Machine} {name : String} {i : Int} (h : m.own name = .int i) :
    m.here < m.scopes.size := by
  refine Nat.lt_of_not_le fun hle => ?_
  rw [Machine.own, varsOf, Places.getD_of_size_le hle] at h
  cases h

theorem Machine.own_set {m : Machine} {name : String} {i : Int} (h : m.own name = .int i)
    (v : Value) : (m.set name v).own name = v := by
  unfold Machine.own Machine.set
  rw [Scoped.varsOf_define, if_pos ⟨rfl, here_lt h⟩, Table.get_put_str, if_pos rfl]

def visitBody (rec : Visitor) (body : Block) : Eval Unit := inBlock do
  let _ ← rec (.block body)

abbrev LoopLaps (rec : Visitor) (var : String) (body : Block) (step : Int) :
    Nat → Int → Machine → Machine → Prop :=
  Laps (Lap (Machine.own var) (Machine.set var) (visitBody rec body) step) step

/-- The first and the last number of a loop and its step. The variable gets the first number. -/
def header (rec : Visitor) (target : String) (start stop : Expr) (step : Option Expr) :
    Eval (Value × Value × Value) := do
  let first ← rec (.expr start)
  defineHere target first
  let last ← rec (.expr stop)
  let by_ ← match step with
    | some e => rec (.expr e)
    | none => pure (.int 1)
  return (first, last, by_)

section Loops

variable {rec : Visitor} {var : String} {body : Block} {op : BinOp} {stop step i : Int}
  {m n : Machine}

theorem visitFornum_eq (target : String) (start stop : Expr) (step : Option Expr) :
    visitFornum rec target start stop step body = do
      let h ← header rec target start stop step
      let up ← lift (h.2.2.order .ge (.int 0))
      countRounds rec target (if up then .le else .ge) h.2.1 h.2.2 body
        (maxRounds + h.1.distance h.2.1)
      return .nil := by
  unfold visitFornum header
  cases step <;> simp only [bind_assoc, pure_bind]

theorem countRounds_of_lap
    (hlap : Lap (Machine.own var) (Machine.set var) (visitBody rec body) step i m n)
    (hgo : (Value.int i).order op (.int stop) = .ok true) (fuel : Nat) :
    countRounds rec var op (.int stop) (.int step) body (fuel + 1) m =
      countRounds rec var op (.int stop) (.int step) body fuel n := by
  obtain ⟨hi, k, hvisit, hk, rfl⟩ := hlap
  change (lift ((m.own var).order op (.int stop)) >>= _ : Eval Unit) m = _
  rw [hi, hgo]
  refine (bind_of_eq_ok hvisit).trans ?_
  change (lift (arithmetic k.store .add (k.own var) (.int step)) >>= _ : Eval Unit) k = _
  rw [hk]
  rfl

theorem countRounds_of_passed (h : (m.own var).order op (.int stop) = .ok false) (step : Value)
    (fuel : Nat) : countRounds rec var op (.int stop) step body (fuel + 1) m = .ok () m := by
  change (lift ((m.own var).order op (.int stop)) >>= _ : Eval Unit) m = _
  rw [h]
  rfl

theorem order_direction (stop step i : Int) :
    (Value.int i).order (if decide (0 ≤ step) then .le else .ge) (.int stop) =
      .ok (decide (¬ Passed stop step i)) := by
  unfold Passed
  by_cases hstep : 0 ≤ step
  · simp [hstep, not_lt.mpr hstep, Value.order_le]
  · simp [hstep, not_le.mp hstep, Value.order_ge]

end Loops

/-- **A counting loop visits its body once for each number.** Suppose that the header of a loop
gives whole numbers, of which the step is not zero, and that each visit of the body that the loop
comes to ends without a fault and leaves the variable of the loop at its number. Then the loop ends.
It makes one lap for each number `a + k * s` that is not beyond `b`, in order, and none if `a` is
beyond `b` already. -/
theorem countingLoop_makes_laps {rec : Visitor} {target : String} {start stop : Expr}
    {step : Option Expr} {body : Block} {m m₀ : Machine} {a b s : Int}
    (hheader : header rec target start stop step m = .ok (.int a, .int b, .int s) m₀)
    (hvar : m₀.own target = .int a) (hs : s ≠ 0)
    (hbody : ∀ k n, LoopLaps rec target body s k a m₀ n → ¬ Passed b s (a + k * s) →
      ∃ n', visitBody rec body n = .ok () n' ∧ n'.own target = n.own target) :
    ∃ rounds n, (∀ k : Nat, k < rounds ↔ ¬ Passed b s (a + k * s)) ∧
      LoopLaps rec target body s rounds a m₀ n ∧
      visitFornum rec target start stop step body m = .ok .nil n := by
  obtain ⟨rounds, hfew, hrounds⟩ := exists_rounds a b hs
  have hown {k : Nat} {n : Machine} (hn : LoopLaps rec target body s k a m₀ n) :
      n.own target = .int (a + k * s) := hn.own_eq hvar Machine.own_set
  obtain ⟨n, hn⟩ : ∃ n, LoopLaps rec target body s rounds a m₀ n := by
    refine Laps.exists_of_forall fun k hk n hn => ?_
    obtain ⟨n', hvisit, hsame⟩ := hbody k n hn ((hrounds k).mp hk)
    exact ⟨_, hown hn, n', hvisit, hsame.trans (hown hn), rfl⟩
  refine ⟨rounds, n, hrounds, hn, ?_⟩
  have hend : (n.own target).order (if decide (0 ≤ s) then .le else .ge) (.int b) = .ok false := by
    have hpassed : ¬ ¬ Passed b s (a + rounds * s) := fun h => lt_irrefl _ ((hrounds _).mpr h)
    rw [hown hn, order_direction, decide_eq_false hpassed]
  obtain ⟨fuel, hfuel⟩ : ∃ fuel, maxRounds + (b - a).natAbs = fuel + 1 + rounds :=
    ⟨maxRounds + (b - a).natAbs - 1 - rounds, by rw [maxRounds]; omega⟩
  have hcount := (hn.run_eq (fun j hj _ _ hlap => countRounds_of_lap hlap <|
    (order_direction b s (a + j * s)).trans (congrArg Except.ok
      (decide_eq_true ((hrounds j).mp hj)))) (fuel + 1)).trans (countRounds_of_passed hend _ fuel)
  rw [← hfuel] at hcount
  rw [visitFornum_eq, bind_of_eq_ok hheader, Value.order_ge]
  exact bind_of_eq_ok hcount

theorem countingLoop_makes_laps_down :
    let visits := visitUpTo 4
    let body : Block := [.local ["x"] [.number (.int 5)]]
    let step : Option Expr := some (.unary .neg (.number (.int 2)))
    let m := (default : Machine).set "i" (.int 5)
    header visits "i" (.number (.int 5)) (.number (.int 1)) step default =
        .ok (.int 5, .int 1, .int (-2)) m ∧
      m.own "i" = .int 5 ∧ ∃ n, LoopLaps visits "i" body (-2) 3 5 m n ∧
        visitFornum visits "i" (.number (.int 5)) (.number (.int 1)) step body default =
          .ok .nil n := by
  intro visits body step m
  have hheader : header visits "i" (.number (.int 5)) (.number (.int 1)) step default =
      .ok (.int 5, .int 1, .int (-2)) m := rfl
  have hvar : m.own "i" = .int 5 := rfl
  obtain ⟨rounds, n, hrounds, hn, hrun⟩ :=
    countingLoop_makes_laps hheader hvar (by decide)
        fun k n (hn : LoopLaps visits "i" body (-2) k 5 m n) _ => by
      -- the body makes two scopes, and defines its own variable in the inner one
      have hhere := Machine.here_lt (hn.own_eq hvar Machine.own_set)
      have hne : n.here ≠ n.scopes.size + 1 := (Nat.lt_succ_of_lt hhere).ne
      refine ⟨_, rfl, ?_⟩
      simp only [Machine.own, Machine.leaveBlock, Machine.enter, varsOf, define, Places.getD_modify,
        Places.getD_push, Array.size_push]
      simp [hhere.ne, hne, hne.symm]
  have hthree : rounds = 3 := by
    have hlt := (hrounds 2).mpr (by decide)
    have hle := mt (hrounds 3).mp (by decide)
    omega
  exact ⟨hheader, hvar, n, hthree ▸ hn, hrun⟩

end WikiFeed.Record

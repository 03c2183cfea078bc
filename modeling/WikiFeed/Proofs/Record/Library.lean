import Mathlib
import WikiFeed.Proofs.Record.Steps

/-! # Library functions leave scopes alone

Members, traversals and library functions change objects and print lines. They bind no names and
return from no function (`Minor`), so they perform under every permit (`performs_of_minor`). -/

namespace WikiFeed.Record

open Std.Do
open Lua

set_option mvcgen.warning false

/-- The state in which a computation starts. -/
class Origin where
  state : Machine

section Minor

variable {α : Type} [Origin]

/-- Scopes, closures and the value of the last return are what they were at the start. -/
def Machine.Near (m : Machine) : Prop := Origin.state.Alike m

/-- A computation stays near the start and does not end in a return. -/
abbrev Minor (x : Eval α) : Prop :=
  ⦃fun m => ⌜m.Near⌝⦄ x ⦃post⟨fun _ m => ⌜m.Near⌝, fun s m => ⌜s.ending = .failed ∧ m.Near⌝⟩⦄

/-! ### Basic steps -/

theorem Machine.Near.change {m : Machine} (h : m.Near) (store : Store)
    (recipes : List (Value × Recipe)) (out : String) :
    Machine.Near { m with store, recipes, out } := by
  obtain ⟨_, _, _, rfl⟩ := h
  exact ⟨store, recipes, out, rfl⟩

@[spec]
theorem minor_fail (f : Fault) : Minor (fail f : Eval α) := fun _ h => ⟨rfl, h⟩

@[spec]
theorem minor_lift (r : Result α) : Minor (lift r) := by
  unfold lift
  mvcgen

@[spec]
theorem minor_modifyStore (f : Store → Store) : Minor (modifyStore f) :=
  fun m h => h.change _ m.recipes m.out

@[spec]
theorem minor_alloc (c : Cell) : Minor (alloc c) := fun m h => h.change _ m.recipes m.out

@[spec]
theorem minor_printLine (s : String) : Minor (printLine s) :=
  fun m h => h.change m.store m.recipes _

@[spec]
theorem minor_modifyTable (r : Ref) (f : Table → Table) : Minor (modifyTable r f) :=
  minor_modifyStore _

@[spec]
theorem minor_tableOf (r : Ref) : Minor (tableOf r) := by
  unfold tableOf
  mvcgen

@[spec]
theorem minor_forM {β : Type} {f : β → Eval Unit} (h : ∀ b, Minor (f b)) :
    ∀ bs : List β, Minor (bs.forM f)
  | [] => by
    rw [List.forM_eq_forM, List.forM_nil]
    mvcgen
  | b :: bs => by
    have hrest := minor_forM h bs
    rw [List.forM_eq_forM, List.forM_cons]
    mvcgen [h, hrest]

@[spec]
theorem minor_valueOf (name : String) : Minor (valueOf name) := by
  unfold valueOf
  mvcgen

/-! ### Members -/

@[spec]
theorem minor_itemAt (xs : List α) (k : Value) : Minor (itemAt xs k) := by
  unfold itemAt
  mvcgen

@[spec]
theorem minor_stubMember (r : Ref) (k : Value) : Minor (stubMember r k) := by
  unfold stubMember
  mvcgen

@[spec]
theorem minor_member (v k : Value) : Minor (member v k) := by
  unfold member
  mvcgen

@[spec]
theorem minor_setMember (o k v : Value) : Minor (setMember o k v) := by
  unfold setMember
  mvcgen

@[spec]
theorem minor_ownMember (v : Value) (name : String) : Minor (ownMember v name) := by
  unfold ownMember
  mvcgen

/-! ### Traversals -/

@[spec]
theorem minor_pairsOf (v : Value) : Minor (pairsOf v) := by
  unfold pairsOf
  mvcgen

@[spec]
theorem minor_plainItems (v : Value) : Minor (plainItems v) := by
  unfold plainItems
  mvcgen

@[spec]
theorem minor_items (v : Value) : Minor (items v) := by
  unfold items
  mvcgen

/-! ### Library functions -/

@[spec]
theorem minor_insertFrom (r : Ref) (v : Value) : ∀ n k, Minor (insertFrom r v n k)
  | 0, _ => minor_fail _
  | n + 1, _ => by
    have hrest := minor_insertFrom r v n
    unfold insertFrom
    mvcgen [hrest]

@[spec]
theorem minor_tableInsert (t v position : Value) : Minor (tableInsert t v position) := by
  unfold tableInsert
  mvcgen

@[spec]
theorem minor_tableContains (t v : Value) : Minor (tableContains t v) := by
  unfold tableContains
  mvcgen

@[spec]
theorem minor_callTextMethod (name s : String) (args : List Value) :
    Minor (callTextMethod name s args) := by
  unfold callTextMethod
  mvcgen

@[spec]
theorem minor_lockText (number : Nat) : Minor (lockText number) := by
  unfold lockText
  mvcgen

@[spec]
theorem minor_makeLock (number : Nat) (extra notRoot : Value) :
    Minor (makeLock number extra notRoot) := by
  unfold makeLock
  mvcgen

@[spec]
theorem minor_callSkillFunction (name : String) (args : List Value) :
    Minor (callSkillFunction name args) := by
  unfold callSkillFunction
  mvcgen

@[spec]
theorem minor_callNative (name : String) (args : List Value) : Minor (callNative name args) := by
  unfold callNative
  mvcgen

@[spec]
theorem minor_callValue (f : Value) (args : List Value) : Minor (callValue f args) := by
  unfold callValue
  mvcgen

end Minor

variable [Policy] {α : Type} {p : Permit}

theorem performs_of_minor {x : Eval α} (h : [Origin] → Minor x) : Performs p x := by
  intro m
  let origin : Origin := ⟨m⟩
  have hrun := h m (.refl m)
  simp only [wp, PredTrans.apply, EStateM.run] at hrun
  cases hx : x m with
  | ok a n =>
    rw [hx] at hrun
    exact .alike hrun
  | error s n =>
    rw [hx] at hrun
    obtain ⟨hs, hn⟩ := hrun
    change Steps p m s.ending n
    rw [hs]
    exact .trans (.alike hn) .fault

/-! ### Loops over items -/

theorem performs_forItems {body : Value → Eval Unit} (h : ∀ v, Performs p (body v))
    (vs : List Value) : Performs p (forItems body vs) := by
  induction vs with
  | nil => exact performs_pure _
  | cons v vs ih => exact (h v).bind fun _ => ih

theorem performs_tableOf (r : Ref) : Performs p (tableOf r) := performs_of_minor (minor_tableOf r)

theorem performs_forEntries {r : Ref} {size : Nat} {body : Entry → Eval Unit}
    (h : ∀ e, Performs p (body e)) : ∀ left moment, Performs p (forEntries r size body left moment)
  | 0, moment => by
    exact (performs_tableOf _).bind fun _ => Performs.ite (performs_fail _) (performs_pure _)
  | left + 1, moment => by
    refine (performs_tableOf _).bind fun t => ?_
    extract_lets rest
    have hrest : Performs p (rest ⟨⟩) := by
      unfold rest
      split
      · exact performs_pure _
      · exact (h _).bind fun _ => performs_forEntries h left _
    exact Performs.ite ((performs_fail _).bind fun _ => hrest) hrest

theorem performs_forEach (v : Value) {body : Value → Eval Unit} (h : ∀ w, Performs p (body w)) :
    Performs p (forEach v body) := by
  unfold forEach
  extract_lets entries
  have hentries (r item) : Performs p (entries r item) :=
    (performs_tableOf r).bind fun _ => performs_forEntries (fun e => h (item e)) _ _
  split
  iterate 5 · exact hentries _ _
  · exact (performs_of_minor (minor_plainItems _)).bind fun _ => performs_forItems h _

end WikiFeed.Record

import Mathlib
import WikiFeed.Lua.Reader

/-! # Labels and names of functions

Reading labels the functions of a text from a given label on and says which label is free behind
them. It never goes back (`le_of_readChunk`), so labels that were given out before stay with their
functions. -/

namespace WikiFeed.Lua

open Std.Do
open Reader

set_option mvcgen.warning false

/-- A label that is free, with all labels behind it. -/
class Mark where
  label : Nat

section Labels

variable {α : Type} [Mark]

/-- The labels that are still to be given out are free. -/
def Cursor.Ahead (c : Cursor) : Prop := Mark.label ≤ c.label

/-- A reader does not go back behind the mark. -/
abbrev Advances (x : Reader α) : Prop :=
  ⦃fun c => ⌜c.Ahead⌝⦄ x ⦃post⟨fun _ c => ⌜c.Ahead⌝, fun _ => ⌜True⌝⟩⦄

@[spec]
theorem advances_throw (e : ReadError) : Advances (throw e : Reader α) := fun _ _ => trivial

@[spec]
theorem advances_fail : Advances (Reader.fail : Reader α) := advances_throw _

@[spec]
theorem advances_peek : Advances peek := by
  mvcgen

@[spec]
theorem advances_advance : Advances advance := by
  mvcgen

@[spec]
theorem advances_remaining : Advances remaining := by
  mvcgen

@[spec]
theorem advances_atSign (s : String) : Advances (atSign s) := by
  unfold atSign
  mvcgen

@[spec]
theorem advances_atWord (s : String) : Advances (atWord s) := by
  unfold atWord
  mvcgen

@[spec]
theorem advances_acceptSign (s : String) : Advances (acceptSign s) := by
  unfold acceptSign
  mvcgen

@[spec]
theorem advances_acceptWord (s : String) : Advances (acceptWord s) := by
  unfold acceptWord
  mvcgen

@[spec]
theorem advances_expectSign (s : String) : Advances (expectSign s) := by
  unfold expectSign
  mvcgen

@[spec]
theorem advances_expectWord (s : String) : Advances (expectWord s) := by
  unfold expectWord
  mvcgen

@[spec]
theorem advances_name : Advances name := by
  unfold name
  mvcgen

@[spec]
theorem advances_freshLabel : Advances freshLabel := by
  unfold freshLabel
  mvcgen
  exact Nat.le_succ_of_le ‹_›

@[spec]
theorem advances_repeatUpTo {step : α → Reader (Option α)} (h : ∀ a, Advances (step a)) :
    ∀ n a, Advances (repeatUpTo step n a)
  | 0, _ => by
    unfold repeatUpTo
    mvcgen
  | n + 1, _ => by
    have hrest := advances_repeatUpTo h n
    unfold repeatUpTo
    mvcgen [h, hrest]

@[spec]
theorem advances_repeated {step : α → Reader (Option α)} (h : ∀ a, Advances (step a))
    (a : α) : Advances (repeated step a) := by
  unfold repeated
  mvcgen
  exact h _

@[spec]
theorem advances_commaSeparated {item : Reader α} (h : Advances item) :
    Advances (commaSeparated item) := by
  unfold commaSeparated
  mvcgen [h]

/-! ### Expressions -/

@[spec]
theorem advances_acceptUnary : Advances acceptUnary := by
  unfold acceptUnary
  mvcgen

@[spec]
theorem advances_params : Advances params := by
  unfold params
  mvcgen

@[spec]
theorem advances_accept (l : Level) : Advances l.accept := by
  have htaken (found : Option BinOp) : Advances (do
      if found.isSome then advance
      return found) := by mvcgen
  unfold Level.accept
  mvcgen
  exact htaken _

@[spec]
theorem advances_levelRead (l : Level) {operand : Reader Expr} (h : Advances operand) :
    Advances (l.read operand) := by
  unfold Level.read
  mvcgen [h]

/-- What is nested does not go back behind a mark. -/
class NestedAdvances (n : Nested) : Prop where
  expr : Advances n.expr
  block : Advances n.block

section Nested

variable {n : Nested} [NestedAdvances n]

@[spec]
theorem advances_expr : Advances n.expr := NestedAdvances.expr

@[spec]
theorem advances_block : Advances n.block := NestedAdvances.block

@[spec]
theorem advances_functionBody (head : Head) : Advances (functionBody n head) := by
  unfold functionBody
  mvcgen

@[spec]
theorem advances_tableField (count : Nat) : Advances (tableField n count) := by
  unfold tableField
  mvcgen

@[spec]
theorem advances_tableBody : Advances (tableBody n) := by
  unfold tableBody
  mvcgen

@[spec]
theorem advances_argumentList : Advances (argumentList n) := by
  unfold argumentList
  mvcgen

@[spec]
theorem advances_arguments : Advances (arguments? n) := by
  unfold arguments?
  mvcgen

@[spec]
theorem advances_link (left : Expr) : Advances (link n left) := by
  unfold link
  mvcgen

@[spec]
theorem advances_chain : Advances (chain n) := by
  unfold chain
  mvcgen

@[spec]
theorem advances_atom : Advances (atom n) := by
  unfold atom
  mvcgen [-Spec.throw_StateT, -Spec.throw_MonadExcept]

@[spec]
theorem advances_power : Advances (power n) := by
  unfold power
  mvcgen

@[spec]
theorem advances_unary : Advances (unary n) := by
  unfold unary
  mvcgen

theorem advances_levels : ∀ ls : List Level,
    Advances (ls.foldr (fun l operand => l.read operand) (unary n))
  | [] => advances_unary
  | l :: ls => advances_levelRead l (advances_levels ls)

@[spec]
theorem advances_expression : Advances (expression n) := advances_levels levels

/-! ### Statements -/

@[spec]
theorem advances_orelse : ∀ j, Advances (orelse n j)
  | 0 => advances_fail
  | j + 1 => by
    have hrest := advances_orelse j
    unfold orelse
    mvcgen [hrest]

@[spec]
theorem advances_doBlock : Advances (doBlock n) := by
  unfold doBlock
  mvcgen

@[spec]
theorem advances_functionTarget : Advances functionTarget := by
  unfold functionTarget
  mvcgen

@[spec]
theorem advances_forLoop : Advances (forLoop n) := by
  unfold forLoop
  mvcgen

@[spec]
theorem advances_localDeclaration : Advances (localDeclaration n) := by
  unfold localDeclaration
  mvcgen

@[spec]
theorem advances_assignmentOrChain : Advances (assignmentOrChain n) := by
  unfold assignmentOrChain
  mvcgen

@[spec]
theorem advances_wordStatement (word : String) : Advances (wordStatement n word) := by
  unfold wordStatement
  mvcgen

@[spec]
theorem advances_statement : Advances (statement? n) := by
  unfold statement?
  mvcgen

@[spec]
theorem advances_returnStatement : Advances (returnStatement n) := by
  unfold returnStatement
  mvcgen

theorem advances_blockOf : Advances (block n) := by
  unfold block
  mvcgen

end Nested

theorem nestedAdvances : ∀ depth, NestedAdvances ⟨expressionUpTo depth, blockUpTo depth⟩
  | 0 => ⟨advances_fail, advances_fail⟩
  | depth + 1 => by
    have hnested := nestedAdvances depth
    exact ⟨advances_expression, advances_blockOf⟩

theorem Advances.ahead {x : Reader α} (h : Advances x) {c d : Cursor} {a : α} (hc : c.Ahead)
    (hx : x.run c = .ok (a, d)) : d.Ahead := by
  have hrun : (wp⟦x.run c⟧ (fun p => ⌜p.2.Ahead⌝, fun _ => ⌜True⌝, ())).down := h c hc
  rw [hx] at hrun
  exact hrun

end Labels

theorem le_of_readChunk {label next : Nat} {source : String} {b : Block}
    (h : readChunk label source = .ok (b, next)) : label ≤ next := by
  let mark : Mark := ⟨label⟩
  unfold readChunk readAll at h
  dsimp only at h
  split at h
  · nomatch h
  case h_2 b' c hread =>
    split at h
    · cases h
      have hstart : Cursor.Ahead ⟨tokens source, label⟩ := Nat.le_refl label
      exact (nestedAdvances ((tokens source).length + 1)).block.ahead hstart hread
    · nomatch h

/-- A name with names behind points: nothing has to be evaluated to find what it stands for. -/
def isDotted : Expr → Bool
  | .name _ => true
  | .index (.name _) value true => isDotted value
  | _ => false

end WikiFeed.Lua

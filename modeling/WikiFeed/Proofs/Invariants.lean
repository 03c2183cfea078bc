import Mathlib

/-! # What computations keep

`Keeps P x` says that a property `P` of states that holds before a run of `x` holds after it too,
however the run ends. It is a triple, so that the conditions for a computation made of parts are
generated from what is known of the parts. -/

namespace WikiFeed

open Std.Do

set_option mvcgen.warning false

/-- A property of states that holds before a run holds after it, however the run ends. -/
abbrev Keeps {ε σ α : Type} (P : σ → Prop) (x : EStateM ε σ α) : Prop :=
  ⦃fun s => ⌜P s⌝⦄ x ⦃post⟨fun _ s => ⌜P s⌝, fun _ s => ⌜P s⌝⟩⦄

section Rules

variable {ε σ α β : Type} {P : σ → Prop}

theorem keeps_iff {x : EStateM ε σ α} : Keeps P x ↔
    ∀ s, P s → (∀ a t, x s = .ok a t → P t) ∧ ∀ e t, x s = .error e t → P t := by
  constructor
  · intro h s hs
    have hrun := h s hs
    simp only [wp, PredTrans.apply, EStateM.run] at hrun
    exact ⟨fun a t hx => by rwa [hx] at hrun, fun e t hx => by rwa [hx] at hrun⟩
  · intro h s hs
    simp only [wp, PredTrans.apply, EStateM.run]
    cases hx : x s with
    | ok a t => exact (h s hs).1 a t hx
    | error e t => exact (h s hs).2 e t hx

theorem Keeps.forM {f : α → EStateM ε σ PUnit} :
    ∀ {as : List α}, (∀ a ∈ as, Keeps P (f a)) → Keeps P (as.forM f)
  | [], _ => by
    rw [List.forM_eq_forM, List.forM_nil]
    mvcgen
  | a :: as, h => by
    have hfirst := h a List.mem_cons_self
    have hrest := Keeps.forM fun b hb => h b (List.mem_cons_of_mem _ hb)
    rw [List.forM_eq_forM, List.forM_cons]
    mvcgen [hfirst, hrest]

end Rules

end WikiFeed

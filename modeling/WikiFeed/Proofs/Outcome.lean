import Mathlib.Data.List.Forall2

/-! # Outcomes of steps and loops

A step gives a value or a fault. A row of steps that all give values gives the row of these
values. A step with a state also gives the state that it leaves. -/

namespace WikiFeed.Outcome

open List

variable {ε α β : Type}

theorem ok_bind (a : α) (f : α → Except ε β) : (Except.ok a >>= f) = f a := rfl

variable {f : α → Except ε β} {R : α → β → Prop}

theorem exists_mapM_eq_ok :
    ∀ {as : List α}, (∀ a ∈ as, ∃ b, f a = .ok b ∧ R a b) →
      ∃ bs, as.mapM f = .ok bs ∧ Forall₂ R as bs
  | [], _ => ⟨[], rfl, .nil⟩
  | a :: as, h => by
    obtain ⟨b, hb, hr⟩ := h a mem_cons_self
    obtain ⟨bs, hbs, hrs⟩ := exists_mapM_eq_ok fun c hc => h c (mem_cons_of_mem _ hc)
    refine ⟨b :: bs, ?_, .cons hr hrs⟩
    rw [mapM_cons, hb, ok_bind, hbs, ok_bind]
    rfl

variable {p : α → Except ε Bool} {q : α → Bool}

theorem filterAuxM_eq_ok : ∀ {as done : List α},
    (∀ a ∈ as, p a = .ok (q a)) → as.filterAuxM p done = .ok ((as.filter q).reverse ++ done)
  | [], _, _ => rfl
  | a :: as, done, h => by
    rw [filterAuxM, h a mem_cons_self, ok_bind,
      filterAuxM_eq_ok fun b hb => h b (mem_cons_of_mem _ hb), filter_cons]
    cases q a <;> simp

variable {as : List α}

theorem filterM_eq_ok (h : ∀ a ∈ as, p a = .ok (q a)) : as.filterM p = .ok (as.filter q) := by
  rw [filterM, filterAuxM_eq_ok h, ok_bind, append_nil, reverse_reverse]
  rfl

theorem exists_of_bind_eq_ok {x : Except ε α} {b : β}
    (h : (x >>= f) = .ok b) : ∃ a, x = .ok a ∧ f a = .ok b := by
  cases x with
  | error e => cases h
  | ok a => exact ⟨a, rfl, h⟩

theorem forall₂_of_mapM_eq_ok :
    ∀ {as : List α} {bs : List β}, as.mapM f = .ok bs → Forall₂ (fun a b => f a = .ok b) as bs
  | [], _, h => by
    cases h
    exact .nil
  | a :: as, _, h => by
    rw [mapM_cons] at h
    obtain ⟨b, hb, h⟩ := exists_of_bind_eq_ok h
    obtain ⟨bs, hbs, h⟩ := exists_of_bind_eq_ok h
    cases h
    exact .cons hb (forall₂_of_mapM_eq_ok hbs)

theorem mapM_eq_ok_of_forall₂ :
    ∀ {as : List α} {bs : List β}, Forall₂ (fun a b => f a = .ok b) as bs → as.mapM f = .ok bs
  | [], [], .nil => rfl
  | a :: as, b :: bs, .cons h hrest => by
    rw [mapM_cons, h, ok_bind, mapM_eq_ok_of_forall₂ hrest]
    rfl

theorem mapM_eq_ok {g : α → β} (h : ∀ a ∈ as, f a = .ok (g a)) : as.mapM f = .ok (as.map g) :=
  mapM_eq_ok_of_forall₂ (forall₂_map_right_iff.mpr (forall₂_same.mpr h))

variable {σ : Type} {step : σ → α → Except ε σ}

theorem exists_foldlM_eq_ok {I : σ → Prop} :
    ∀ {as : List α} {s : σ}, (∀ a ∈ as, ∀ s, I s → ∃ t, step s a = .ok t ∧ I t) → I s →
      ∃ t, as.foldlM step s = .ok t ∧ I t
  | [], s, _, hs => ⟨s, rfl, hs⟩
  | a :: as, s, h, hs => by
    obtain ⟨t, ht, hi⟩ := h a mem_cons_self s hs
    rw [foldlM_cons, ht, ok_bind]
    exact exists_foldlM_eq_ok (fun b hb => h b (mem_cons_of_mem _ hb)) hi

/-- A loop goes along with another one if each of its steps does. -/
theorem exists_foldlM_of_forall₂ {τ : Type} {I : σ → τ → Prop} {g : τ → β → τ}
    (h : ∀ a b s t, R a b → I s t → ∃ s', step s a = .ok s' ∧ I s' (g t b)) :
    ∀ {as : List α} {bs : List β} {s : σ} {t : τ}, Forall₂ R as bs → I s t →
      ∃ s', as.foldlM step s = .ok s' ∧ I s' (bs.foldl g t)
  | [], [], s, _, .nil, hs => ⟨s, rfl, hs⟩
  | a :: as, b :: bs, s, t, .cons hab hrest, hs => by
    obtain ⟨s', hs', hi⟩ := h a b s t hab hs
    rw [foldlM_cons, hs', ok_bind, foldl_cons]
    exact exists_foldlM_of_forall₂ h hrest hi

theorem foldlM_eq_ok {g : σ → β → σ}
    {bs : List β} (h : Forall₂ (fun a b => ∀ s, step s a = .ok (g s b)) as bs) (s : σ) :
    as.foldlM step s = .ok (bs.foldl g s) := by
  obtain ⟨t, ht, rfl⟩ := exists_foldlM_of_forall₂ (I := Eq)
    (fun _ b s _ hab hs => ⟨_, hab s, congrArg (g · b) hs⟩) h rfl
  exact ht

/-! ### Steps with a state -/

section State

variable {σ : Type} {x : EStateM ε σ α} {f : α → EStateM ε σ β} {s t : σ}

theorem bind_of_eq_ok {a : α} (h : x s = .ok a t) : (x >>= f) s = f a t := by
  change EStateM.bind x f s = _
  rw [EStateM.bind, h]

theorem bind_eq_ok {b : β} : (x >>= f) s = .ok b t ↔ ∃ a u, x s = .ok a u ∧ f a u = .ok b t := by
  change EStateM.bind x f s = _ ↔ _
  unfold EStateM.bind
  constructor
  · intro h
    cases hx : x s with
    | ok a u => exact ⟨a, u, rfl, by rwa [hx] at h⟩
    | error e u => exact nomatch hx ▸ h
  · rintro ⟨a, u, hx, hf⟩
    rw [hx]
    exact hf

theorem bind_eq_error {e : ε} :
    (x >>= f) s = .error e t ↔
      x s = .error e t ∨ ∃ a u, x s = .ok a u ∧ f a u = .error e t := by
  change EStateM.bind x f s = _ ↔ _
  unfold EStateM.bind
  constructor
  · intro h
    cases hx : x s with
    | ok a u => exact .inr ⟨a, u, rfl, by rwa [hx] at h⟩
    | error e' u =>
      rw [hx] at h
      cases h
      exact .inl rfl
  · rintro (hx | ⟨a, u, hx, hf⟩)
    · rw [hx]
    · rw [hx]
      exact hf

end State

end WikiFeed.Outcome

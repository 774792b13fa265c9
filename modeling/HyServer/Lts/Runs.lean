import Mathlib.Data.Option.Basic

/-!
# Lts — runs of a step function

A system given by a partial step function on labelled steps: `step s a` is `none` when `a` is not
possible in `s`. A run takes a list of steps, in order. Three rules: what holds at the start and is
kept by every step holds after every run; a relation that every step keeps, up to an abstract step
or none, takes every run to an abstract run; and a system that can follow another one step by step
can follow its runs.
-/

namespace Lts

variable {σ τ α β : Type}

def run (step : σ → α → Option σ) (s : σ) : List α → Option σ
  | [] => some s
  | a :: as => (step s a).bind fun s' => run step s' as

theorem run_cons_eq_some {step : σ → α → Option σ} {s s' : σ} {a : α} {as : List α} :
    run step s (a :: as) = some s' ↔ ∃ s₁, step s a = some s₁ ∧ run step s₁ as = some s' :=
  Option.bind_eq_some_iff

theorem run_append {step : σ → α → Option σ} {s s₁ s' : σ} {as bs : List α}
    (has : run step s as = some s₁) (hbs : run step s₁ bs = some s') :
    run step s (as ++ bs) = some s' := by
  induction as generalizing s with
  | nil =>
    cases has
    exact hbs
  | cons a as ih =>
    obtain ⟨s₂, hs₂, has⟩ := run_cons_eq_some.mp has
    exact run_cons_eq_some.mpr ⟨s₂, hs₂, ih has⟩

/-- **Invariants.** Induction on the run. -/
theorem run_invariant {step : σ → α → Option σ} {P : σ → Prop}
    (hstep : ∀ s a s', P s → step s a = some s' → P s') {as : List α} :
    ∀ {s s' : σ}, P s → run step s as = some s' → P s' := by
  induction as with
  | nil =>
    intro s s' hs hrun
    cases hrun
    exact hs
  | cons a as ih =>
    intro s s' hs hrun
    obtain ⟨s₁, hs₁, hrun⟩ := run_cons_eq_some.mp hrun
    exact ih (hstep s a s₁ hs hs₁) hrun

/-- **Simulation.** Every concrete step is an abstract step or none at all. -/
theorem run_simulation {step : σ → α → Option σ} {step' : τ → β → Option τ} {sim : σ → τ → Prop}
    (hstep : ∀ s t a s', sim s t → step s a = some s' →
      ∃ t', (t' = t ∨ ∃ b, step' t b = some t') ∧ sim s' t') {as : List α} :
    ∀ {s s' : σ} {t : τ}, sim s t → run step s as = some s' →
      ∃ bs t', run step' t bs = some t' ∧ sim s' t' := by
  induction as with
  | nil =>
    intro s s' t hst hrun
    cases hrun
    exact ⟨[], t, rfl, hst⟩
  | cons a as ih =>
    intro s s' t hst hrun
    obtain ⟨s₁, hs₁, hrun⟩ := run_cons_eq_some.mp hrun
    obtain ⟨t₁, hstep₁, hst₁⟩ := hstep s t a s₁ hst hs₁
    obtain ⟨bs, t', hrun', hst'⟩ := ih hst₁ hrun
    rcases hstep₁ with rfl | ⟨b, hb⟩
    · exact ⟨bs, t', hrun', hst'⟩
    · exact ⟨b :: bs, t', run_cons_eq_some.mpr ⟨t₁, hb, hrun'⟩, hst'⟩

/-- **Following.** A system that can take every step of another one's run can take the run. -/
theorem run_follows {step : σ → α → Option σ} {step' : τ → α → Option τ} {sim : σ → τ → Prop}
    {as : List α} (hstep : ∀ s t, ∀ a ∈ as, ∀ s', sim s t → step s a = some s' →
      ∃ t', step' t a = some t' ∧ sim s' t') :
    ∀ {s s' : σ} {t : τ}, sim s t → run step s as = some s' →
      ∃ t', run step' t as = some t' ∧ sim s' t' := by
  induction as with
  | nil =>
    intro s s' t hst hrun
    cases hrun
    exact ⟨t, rfl, hst⟩
  | cons a as ih =>
    intro s s' t hst hrun
    obtain ⟨s₁, hs₁, hrun⟩ := run_cons_eq_some.mp hrun
    obtain ⟨t₁, ht₁, hst₁⟩ := hstep s t a (List.mem_cons_self ..) s₁ hst hs₁
    have hrest := fun s t b hb => hstep s t b (List.mem_cons_of_mem a hb)
    obtain ⟨t', hrun', hst'⟩ := ih hrest hst₁ hrun
    exact ⟨t', run_cons_eq_some.mpr ⟨t₁, ht₁, hrun'⟩, hst'⟩

end Lts

import HyServer.Lts.Runs
import Mathlib.Data.List.Count

/-!
# Lts — how long a run can be

A measure of what is left to be done: steps of one kind take it down, and no step takes it up. Then
no run has more steps of that kind than the measure says at its start, and if every step is of that
kind, some run goes on until no step is left.
-/

namespace Lts

variable {σ α : Type} {step : σ → α → Option σ} {μ : σ → Nat}

/-- Induction on the run. -/
theorem run_countP_add_le {f : α → Bool}
    (hstep : ∀ s a s', step s a = some s' → (if f a = true then 1 else 0) + μ s' ≤ μ s)
    {as : List α} :
    ∀ {s s' : σ}, run step s as = some s' → as.countP f + μ s' ≤ μ s := by
  induction as with
  | nil =>
    intro s s' hrun
    cases hrun
    exact Nat.le_of_eq (Nat.zero_add _)
  | cons a as ih =>
    intro s s' hrun
    obtain ⟨s₁, hs₁, hrun⟩ := run_cons_eq_some.mp hrun
    have hfirst := hstep s a s₁ hs₁
    have hrest := ih hrun
    rw [List.countP_cons]
    omega

/-- Every step counts. -/
theorem run_length_add_le (hstep : ∀ s a s', step s a = some s' → μ s' < μ s) {as : List α}
    {s s' : σ} (hrun : run step s as = some s') : as.length + μ s' ≤ μ s := by
  have hcount : as.countP (fun _ => true) + μ s' ≤ μ s :=
    run_countP_add_le (fun s a s' h => by rw [if_pos rfl]; have := hstep s a s' h; omega) hrun
  rwa [List.countP_true] at hcount

/-- **Completion.** Induction on the measure. -/
theorem exists_run_stuck (hstep : ∀ s a s', step s a = some s' → μ s' < μ s) (s : σ) :
    ∃ as s', run step s as = some s' ∧ ∀ a, step s' a = none := by
  induction hn : μ s using Nat.strongRecOn generalizing s with
  | ind n ih =>
    by_cases hstuck : ∀ a, step s a = none
    · exact ⟨[], s, rfl, hstuck⟩
    · obtain ⟨a, ha⟩ := not_forall.mp hstuck
      obtain ⟨s₁, hs₁⟩ := Option.ne_none_iff_exists'.mp ha
      obtain ⟨as, s', hrun, hend⟩ := ih (μ s₁) (hn ▸ hstep s a s₁ hs₁) s₁ rfl
      exact ⟨a :: as, s', run_cons_eq_some.mpr ⟨s₁, hs₁, hrun⟩, hend⟩

end Lts

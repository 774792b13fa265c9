import Mathlib.Data.List.Basic

/-!
# Lts — sessions of a client that adapts

A client makes calls one after the other and decides on the next one by the responses so far. A
session is what comes of a client and of a relation that says what a call may do.

* `Session.simulates` — a session over one relation is one over another, when every call is.
* `exists_session` — a client that stops after a number of calls has a session.
-/

namespace Lts

variable {σ τ α ρ : Type}

/-- The next call after some responses, or none. -/
abbrev Client (α ρ : Type) := List ρ → Option α

/-- From the responses `rs` on, in the state `s`, up to the responses `rs'`, in the state `s'`. -/
inductive Session (call : σ → α → σ → ρ → Prop) (client : Client α ρ) :
    List ρ → σ → List ρ → σ → Prop where
  | stop {rs : List ρ} {s : σ} (h : client rs = none) : Session call client rs s rs s
  | call {rs rs' : List ρ} {s s₁ s' : σ} {a : α} {r : ρ} (h : client rs = some a)
      (hcall : call s a s₁ r) (hrest : Session call client (rs ++ [r]) s₁ rs' s') :
      Session call client rs s rs' s'

variable {call : σ → α → σ → ρ → Prop} {call' : τ → α → τ → ρ → Prop} {client : Client α ρ}
  {rs rs' : List ρ} {s s' : σ}

/-- Induction on the session. -/
theorem Session.simulates {R : σ → τ → Prop}
    (hR : ∀ s t a s' r, R s t → call s a s' r → ∃ t', call' t a t' r ∧ R s' t')
    (h : Session call client rs s rs' s') :
    ∀ {t : τ}, R s t → ∃ t', Session call' client rs t rs' t' ∧ R s' t' := by
  induction h with
  | stop hstop =>
    intro t ht
    exact ⟨t, .stop hstop, ht⟩
  | call hnext hcall _ ih =>
    intro t ht
    obtain ⟨t₁, hcall', ht₁⟩ := hR _ _ _ _ _ ht hcall
    obtain ⟨t', hrest, ht'⟩ := ih ht₁
    exact ⟨t', .call hnext hcall' hrest, ht'⟩

/-- What holds of every response. -/
theorem Session.forall_response {P : ρ → Prop} (hP : ∀ s a s' r, call s a s' r → P r)
    (h : Session call client rs s rs' s') (hrs : ∀ r ∈ rs, P r) : ∀ r ∈ rs', P r := by
  induction h with
  | stop => exact hrs
  | call _ hcall _ ih =>
    apply ih
    intro r hr
    rcases List.mem_append.mp hr with hr | hr
    · exact hrs r hr
    · obtain rfl := List.mem_singleton.mp hr
      exact hP _ _ _ _ hcall

theorem exists_session {P : σ → Prop} (hP : ∀ s a, P s → ∃ s' r, call s a s' r ∧ P s') (n : Nat) :
    ∀ (rs : List ρ) (s : σ), P s → (∀ rs', rs.length + n ≤ rs'.length → client rs' = none) →
      ∃ rs' s', Session call client rs s rs' s' := by
  -- on the number of calls that may still come
  induction n with
  | zero =>
    intro rs s _ hstop
    exact ⟨rs, s, .stop (hstop rs (by omega))⟩
  | succ n ih =>
    intro rs s hs hstop
    cases hnext : client rs with
    | none => exact ⟨rs, s, .stop hnext⟩
    | some a =>
      obtain ⟨s₁, r, hcall, hs₁⟩ := hP s a hs
      have hlen : (rs ++ [r]).length = rs.length + 1 := by
        rw [List.length_append, List.length_singleton]
      obtain ⟨rs', s', hrest⟩ := ih (rs ++ [r]) s₁ hs₁ fun rs' hrs' => hstop rs' (by omega)
      exact ⟨rs', s', .call hnext hcall hrest⟩

end Lts

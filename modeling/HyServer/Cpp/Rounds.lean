import Mathlib.Data.Option.Basic

/-!
# Cpp — loops, round by round

The body of a loop takes the state before a round to the state before the next one, or out of the
loop with a result. It is partial: a body may call something that has not returned. `rounds body n`
is what is known after `n` rounds; a loop leaves with `r` when some number of rounds does.

* `rounds_invariant` — the loop rule: an invariant that counts the rounds.
* `Leaves` — leaving after some number of rounds, and its rules for one round.
* `rounds_mono`, `rounds_of_le` — more from the body, or more rounds, never change a result.
* `rounds_map` — a body that only keeps more than another one does the same.
-/

namespace Cpp

variable {σ ρ : Type}

inductive Round (σ ρ : Type) where
  | again (s : σ)
  | leave (r : ρ)

def rounds (body : σ → Option (Round σ ρ)) : Nat → σ → Option (Round σ ρ)
  | 0, s => some (.again s)
  | n + 1, s => (body s).bind fun
    | .again s' => rounds body n s'
    | .leave r => some (.leave r)

variable {body body' : σ → Option (Round σ ρ)} {s s' : σ} {r : ρ} {n m : Nat}

theorem rounds_succ_again (h : body s = some (.again s')) :
    rounds body (n + 1) s = rounds body n s' := by
  rw [rounds, h, Option.bind_some]

theorem rounds_succ_leave (h : body s = some (.leave r)) :
    rounds body (n + 1) s = some (.leave r) := by
  rw [rounds, h, Option.bind_some]

/-- A result stays with more rounds. -/
theorem rounds_of_le (hleave : rounds body n s = some (.leave r)) (hnm : n ≤ m) :
    rounds body m s = some (.leave r) := by
  induction n generalizing m s with
  | zero => cases hleave
  | succ n ih =>
    obtain ⟨m, rfl⟩ : ∃ m', m = m' + 1 := ⟨m - 1, by omega⟩
    obtain ⟨x, hbody, hx⟩ := Option.bind_eq_some_iff.mp hleave
    cases x with
    | again s' =>
      rw [rounds_succ_again hbody]
      exact ih hx (by omega)
    | leave r' =>
      cases hx
      exact rounds_succ_leave hbody

/-- What a body gives stays with a body that gives more. -/
theorem rounds_mono (hbody : ∀ s x, body s = some x → body' s = some x) {x : Round σ ρ}
    (hx : rounds body n s = some x) : rounds body' n s = some x := by
  induction n generalizing s with
  | zero => exact hx
  | succ n ih =>
    obtain ⟨y, hy, hx⟩ := Option.bind_eq_some_iff.mp hx
    cases y with
    | again s' =>
      rw [rounds_succ_again (hbody s _ hy)]
      exact ih hx
    | leave r =>
      cases hx
      exact rounds_succ_leave (hbody s _ hy)

theorem rounds_isSome (hbody : ∀ s, ∃ x, body s = some x) (n : Nat) (s : σ) :
    ∃ x, rounds body n s = some x := by
  induction n generalizing s with
  | zero => exact ⟨_, rfl⟩
  | succ n ih =>
    obtain ⟨x, hx⟩ := hbody s
    cases x with
    | again s' => rw [rounds_succ_again hx]; exact ih s'
    | leave r => exact ⟨_, rounds_succ_leave hx⟩

def Round.map {σ' ρ' : Type} (f : σ → σ') (g : ρ → ρ') : Round σ ρ → Round σ' ρ'
  | .again s => .again (f s)
  | .leave r => .leave (g r)

/-- A loop, and one that keeps more. -/
theorem rounds_map {σ' ρ' : Type} {f : σ → σ'} {g : ρ → ρ'} {body' : σ' → Option (Round σ' ρ')}
    (hbody : ∀ s, body' (f s) = (body s).map (Round.map f g)) (n : Nat) (s : σ) :
    rounds body' n (f s) = (rounds body n s).map (Round.map f g) := by
  induction n generalizing s with
  | zero => rfl
  | succ n ih =>
    cases hs : body s with
    | none => rw [rounds, rounds, hbody, hs]; rfl
    | some x =>
      have hfs : body' (f s) = some (x.map f g) := by rw [hbody, hs]; rfl
      cases x with
      | again s' => rw [rounds_succ_again hs, rounds_succ_again hfs, ih]
      | leave r => rw [rounds_succ_leave hs, rounds_succ_leave hfs]; rfl

/-- **The loop rule.** `I n` holds before round `n`, and `Q n` of a result of round `n`. -/
theorem rounds_invariant {I : Nat → σ → Prop} {Q : Nat → ρ → Prop}
    (hagain : ∀ n s s', I n s → body s = some (.again s') → I (n + 1) s')
    (hleave : ∀ n s r, I n s → body s = some (.leave r) → Q (n + 1) r) :
    ∀ n k s, I k s →
      (∀ s', rounds body n s = some (.again s') → I (k + n) s') ∧
      (∀ r, rounds body n s = some (.leave r) → ∃ m ≤ n, Q (k + m) r) := by
  -- on the rounds to go, from any round `k`
  intro n
  induction n with
  | zero =>
    intro k s hI
    refine ⟨?_, ?_⟩
    · intro s' hs'
      cases hs'
      exact hI
    · intro r hr
      cases hr
  | succ n ih =>
    intro k s hI
    cases hbody : body s with
    | none =>
      refine ⟨?_, ?_⟩ <;>
        · intro x hx
          rw [rounds, hbody] at hx
          cases hx
    | some x =>
      cases x with
      | again s₁ =>
        obtain ⟨hI', hQ'⟩ := ih (k + 1) s₁ (hagain k s s₁ hI hbody)
        rw [rounds_succ_again hbody]
        refine ⟨?_, ?_⟩
        · intro s' hs'
          have hI'' := hI' s' hs'
          rwa [show k + 1 + n = k + (n + 1) by omega] at hI''
        · intro r hr
          obtain ⟨m, hm, hQ⟩ := hQ' r hr
          refine ⟨m + 1, by omega, ?_⟩
          rwa [show k + 1 + m = k + (m + 1) by omega] at hQ
      | leave r₁ =>
        rw [rounds_succ_leave hbody]
        refine ⟨?_, ?_⟩
        · intro s' hs'
          cases hs'
        · intro r hr
          cases hr
          exact ⟨1, by omega, hleave k s r₁ hI hbody⟩

/-! ## Leaving -/

def Leaves (body : σ → Option (Round σ ρ)) (s : σ) (r : ρ) : Prop :=
  ∃ n, rounds body n s = some (.leave r)

theorem Leaves.now (h : body s = some (.leave r)) : Leaves body s r := ⟨1, rounds_succ_leave h⟩

theorem Leaves.later (h : body s = some (.again s')) (hr : Leaves body s' r) : Leaves body s r := by
  obtain ⟨n, hn⟩ := hr
  exact ⟨n + 1, (rounds_succ_again h).trans hn⟩

/-- What is left to do after a round leaves with `r`. -/
def Round.LeavesWith (body : σ → Option (Round σ ρ)) (r : ρ) : Round σ ρ → Prop
  | .again s => Leaves body s r
  | .leave r' => r' = r

theorem leaves_iff_of_eq {x : Round σ ρ} (hx : body s = some x) :
    Leaves body s r ↔ x.LeavesWith body r := by
  constructor
  · rintro ⟨n, hn⟩
    cases n with
    | zero => cases hn
    | succ n =>
      cases x with
      | again s' =>
        rw [rounds_succ_again hx] at hn
        exact ⟨n, hn⟩
      | leave r' =>
        rw [rounds_succ_leave hx] at hn
        cases hn
        rfl
  · intro hr
    cases x with
    | again s' => exact .later hx hr
    | leave r' =>
      cases hr
      exact .now hx

theorem Leaves.exists_round (h : Leaves body s r) :
    ∃ x, body s = some x ∧ x.LeavesWith body r := by
  cases hbody : body s with
  | none =>
    obtain ⟨n, hn⟩ := h
    cases n with
    | zero => cases hn
    | succ n =>
      rw [rounds, hbody] at hn
      cases hn
  | some x => exact ⟨x, rfl, (leaves_iff_of_eq hbody).mp h⟩

theorem Leaves.mono (hbody : ∀ s x, body s = some x → body' s = some x) (h : Leaves body s r) :
    Leaves body' s r := by
  obtain ⟨n, hn⟩ := h
  exact ⟨n, rounds_mono hbody hn⟩

end Cpp

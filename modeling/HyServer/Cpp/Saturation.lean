import Mathlib.Algebra.BigOperators.Group.List.Basic
import Mathlib.Algebra.Order.Monoid.Defs
import Mathlib.Order.Bounds.Basic

/-!
# Saturating accumulators

A number to which changes of either sign are added in turn, and which is stopped at a bound after
each of them. What the bound took away does not come back, so where the number ends depends on the
order of the changes, and not on their sum alone.

* `stopped` — the number after the changes.
* `isLeast_stopped` — a closed form: the least of what the changes make of the start, and of what
  each end of them makes of the bound.
-/

namespace Cpp

variable {α : Type*} [AddCommGroup α] [LinearOrder α] {bound start : α}

def stopped (bound start : α) (changes : List α) : α :=
  changes.foldl (fun x c => min (x + c) bound) start

/-- Where the number is without a bound, and where it is from each time at the bound on. -/
def Unstopped (bound start : α) (changes : List α) : Set α :=
  {x | x = start + changes.sum ∨ ∃ rest, rest <:+ changes ∧ x = bound + rest.sum}

@[simp] theorem stopped_cons (c : α) (changes : List α) :
    stopped bound start (c :: changes) = stopped bound (min (start + c) bound) changes := rfl

/-- The first change is made by the start or by the bound. -/
theorem unstopped_of_min {x c : α} {changes : List α}
    (hx : x ∈ Unstopped bound (min (start + c) bound) changes) :
    x ∈ Unstopped bound start (c :: changes) := by
  rcases hx with rfl | ⟨rest, hrest, rfl⟩
  · rcases min_choice (start + c) bound with hmin | hmin
    · rw [hmin]
      exact .inl (by rw [List.sum_cons, add_assoc])
    · rw [hmin]
      exact .inr ⟨changes, List.suffix_cons c changes, rfl⟩
  · exact .inr ⟨rest, hrest.trans (List.suffix_cons c changes), rfl⟩

variable [IsOrderedAddMonoid α]

/-- Induction on the changes, from every start. -/
theorem isLeast_stopped (hstart : start ≤ bound) (changes : List α) :
    IsLeast (Unstopped bound start changes) (stopped bound start changes) := by
  induction changes generalizing start with
  | nil =>
    refine ⟨.inl (by simp [stopped]), ?_⟩
    rintro x (rfl | ⟨rest, hrest, rfl⟩)
    · simp [stopped]
    · rw [List.suffix_nil.mp hrest]
      simpa [stopped] using hstart
  | cons c changes ih =>
    obtain ⟨hmem, hleast⟩ := ih (min_le_right (start + c) bound)
    -- stopping the first sum makes it no greater
    have hfirst : stopped bound (min (start + c) bound) changes
        ≤ start + (c :: changes).sum := by
      calc stopped bound (min (start + c) bound) changes
          ≤ min (start + c) bound + changes.sum := hleast (.inl rfl)
        _ ≤ start + c + changes.sum := add_le_add_left (min_le_left ..) _
        _ = start + (c :: changes).sum := by rw [List.sum_cons, add_assoc]
    refine ⟨unstopped_of_min hmem, ?_⟩
    rintro x (rfl | ⟨rest, hrest, rfl⟩)
    · exact hfirst
    · -- all the changes are an end of them too, and `bound` is no smaller than the start
      rcases List.suffix_cons_iff.mp hrest with rfl | hrest
      · exact hfirst.trans (add_le_add_left hstart _)
      · exact hleast (.inr ⟨rest, hrest, rfl⟩)

/-- The number ends at the bound when no end of the changes leads away from it. -/
theorem stopped_eq_bound_iff (hstart : start ≤ bound) (changes : List α) :
    stopped bound start changes = bound ↔
      bound ≤ start + changes.sum ∧ ∀ rest, rest <:+ changes → 0 ≤ rest.sum := by
  obtain ⟨hmem, hleast⟩ := isLeast_stopped hstart changes
  have hle : stopped bound start changes ≤ bound := by
    have hbound := hleast (.inr ⟨[], List.nil_suffix, rfl⟩)
    rwa [List.sum_nil, add_zero] at hbound
  constructor
  · intro heq
    rw [heq] at hleast
    refine ⟨hleast (.inl rfl), fun rest hrest => ?_⟩
    exact le_add_iff_nonneg_right bound |>.mp (hleast (.inr ⟨rest, hrest, rfl⟩))
  · intro h
    refine le_antisymm hle ?_
    rcases hmem with hmem | ⟨rest, hrest, hmem⟩
    · rw [hmem]
      exact h.1
    · rw [hmem]
      exact le_add_of_nonneg_right (h.2 rest hrest)

/-- Smaller changes from a smaller start end at a smaller number. -/
theorem stopped_mono {start' : α} {changes changes' : List α} (hstart : start' ≤ start)
    (hchanges : List.Forall₂ (· ≤ ·) changes' changes) :
    stopped bound start' changes' ≤ stopped bound start changes := by
  induction hchanges generalizing start start' with
  | nil => exact hstart
  | cons hc _ ih => exact ih (min_le_min_right bound (add_le_add hstart hc))

end Cpp

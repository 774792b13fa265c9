import Mathlib.Logic.Function.Basic
import Mathlib.Logic.Equiv.Basic

/-!
# Lts — exclusive ownership

Owners that each own at most one resource. `Exclusive own S` says that the resources in `S` are
exactly the owned ones and that no two owners own the same. It is kept when an owner is granted a
resource that nobody owns, when an owner gives up its resource, or does both at once (`replace`),
and when the owners trade places. `Conserved` keeps the account of a whole history.
-/

namespace Lts

section Owners

variable {ι ρ : Type} {own : ι → Option ρ} {S : ρ → Prop}

structure Exclusive (own : ι → Option ρ) (S : ρ → Prop) : Prop where
  owned : ∀ r, S r → ∃ i, own i = some r
  mem : ∀ {i r}, own i = some r → S r
  inj : ∀ {i j r}, own i = some r → own j = some r → i = j

theorem Exclusive.existsUnique (h : Exclusive own S) {r : ρ} (hr : S r) : ∃! i, own i = some r := by
  obtain ⟨i, hi⟩ := h.owned r hr
  exact ⟨i, hi, fun j hj => h.inj hj hi⟩

theorem exclusive_empty : Exclusive (fun _ : ι => (none : Option ρ)) (fun _ => False) where
  owned _ h := h.elim
  mem h := by cases h
  inj h _ := by cases h

theorem Exclusive.congr {S' : ρ → Prop} (h : Exclusive own S) (hS : ∀ r, S' r ↔ S r) :
    Exclusive own S' where
  owned r hr := h.owned r ((hS r).mp hr)
  mem hi := (hS _).mpr (h.mem hi)
  inj := h.inj

/-- An owner without a resource is given one that nobody owns. -/
theorem Exclusive.grant [DecidableEq ι] (h : Exclusive own S) {i : ι} {r : ρ}
    (hi : own i = none) (hr : ¬ S r) :
    Exclusive (Function.update own i (some r)) (fun k => k = r ∨ S k) where
  owned k hk := by
    rcases hk with rfl | hk
    · exact ⟨i, Function.update_self ..⟩
    · obtain ⟨j, hj⟩ := h.owned k hk
      refine ⟨j, ?_⟩
      rw [Function.update_of_ne, hj]
      rintro rfl
      rw [hi] at hj
      cases hj
  mem {j k} hj := by
    by_cases hji : j = i
    · rw [hji, Function.update_self] at hj
      exact .inl (Option.some.inj hj).symm
    · rw [Function.update_of_ne hji] at hj
      exact .inr (h.mem hj)
  inj {j j' k} hj hj' := by
    by_cases hji : j = i
    · by_cases hji' : j' = i
      · rw [hji, hji']
      · -- the granted resource was nobody's
        rw [hji, Function.update_self] at hj
        rw [Function.update_of_ne hji', ← hj] at hj'
        exact absurd (h.mem hj') hr
    · by_cases hji' : j' = i
      · rw [hji', Function.update_self] at hj'
        rw [Function.update_of_ne hji, ← hj'] at hj
        exact absurd (h.mem hj) hr
      · rw [Function.update_of_ne hji] at hj
        rw [Function.update_of_ne hji'] at hj'
        exact h.inj hj hj'

/-- An owner gives up its resource. -/
theorem Exclusive.drop [DecidableEq ι] (h : Exclusive own S) {i : ι} {r : ρ} (hi : own i = some r) :
    Exclusive (Function.update own i none) (fun k => k ≠ r ∧ S k) where
  owned k hk := by
    obtain ⟨j, hj⟩ := h.owned k hk.2
    refine ⟨j, ?_⟩
    rw [Function.update_of_ne, hj]
    rintro rfl
    exact hk.1 (Option.some.inj (hj.symm.trans hi))
  mem {j k} hj := by
    by_cases hji : j = i
    · rw [hji, Function.update_self] at hj
      cases hj
    · rw [Function.update_of_ne hji] at hj
      refine ⟨?_, h.mem hj⟩
      rintro rfl
      exact hji (h.inj hj hi)
  inj {j j' k} hj hj' := by
    by_cases hji : j = i
    · rw [hji, Function.update_self] at hj
      cases hj
    · by_cases hji' : j' = i
      · rw [hji', Function.update_self] at hj'
        cases hj'
      · rw [Function.update_of_ne hji] at hj
        rw [Function.update_of_ne hji'] at hj'
        exact h.inj hj hj'

/-- The owners trade places. -/
theorem Exclusive.perm (h : Exclusive own S) (e : Equiv.Perm ι) : Exclusive (own ∘ e) S where
  owned r hr := by
    obtain ⟨i, hi⟩ := h.owned r hr
    exact ⟨e.symm i, by simp [hi]⟩
  mem hi := h.mem hi
  inj hi hj := e.injective (h.inj hi hj)

/-- Giving up nothing. -/
theorem Exclusive.dropNone [DecidableEq ι] (h : Exclusive own S) {i : ι} (hi : own i = none) :
    Exclusive (Function.update own i none) S := by
  rw [Function.update_eq_self_iff.mpr hi.symm]
  exact h

/-- An owner gives up what it owns, and is granted a resource that nobody owns, or none. -/
theorem Exclusive.replace [DecidableEq ι] (h : Exclusive own S) (i : ι) {r : Option ρ}
    (hr : ∀ k, r = some k → ¬ S k) :
    Exclusive (Function.update own i r) (fun k => (S k ∨ r = some k) ∧ own i ≠ some k) := by
  -- first it gives up what it owns
  have hdropped : Exclusive (Function.update own i none) fun k => S k ∧ own i ≠ some k := by
    cases hi : own i with
    | none => exact (h.dropNone hi).congr fun k => by simp
    | some r' => exact (h.drop hi).congr fun k => by simp [and_comm, eq_comm]
  cases r with
  | none => exact hdropped.congr fun k => by simp
  | some r =>
    have hgranted := hdropped.grant (i := i) (r := r) (Function.update_self ..)
      fun hS => hr r rfl hS.1
    rw [Function.update_idem] at hgranted
    refine hgranted.congr fun k => ?_
    have hfresh : own i ≠ some r := fun hi => hr r rfl (h.mem hi)
    constructor
    · intro ⟨hk, hne⟩
      rcases hk with hS | heq
      · exact .inr ⟨hS, hne⟩
      · exact .inl (Option.some.inj heq).symm
    · intro hk
      rcases hk with rfl | hS
      · exact ⟨.inr rfl, hfresh⟩
      · exact ⟨.inl hS.1, hS.2⟩

/-! ## Accounts -/

/-- The account of a history that began with the resources in `S`: what it brought in and what it
dropped, and the owners it led to. Each resource is owned or was dropped, and was dropped once. -/
structure Conserved (S : ρ → Prop) (brought dropped : List ρ) (own : ι → Option ρ) : Prop where
  exclusive : Exclusive own fun r => (S r ∨ r ∈ brought) ∧ r ∉ dropped
  mem : ∀ r ∈ dropped, S r ∨ r ∈ brought
  nodup : dropped.Nodup

theorem Exclusive.conserved (h : Exclusive own S) : Conserved S [] [] own where
  exclusive := h.congr fun r => by simp
  mem r hr := by cases hr
  nodup := List.nodup_nil

/-- One step before a history, which dropped something that was there. What was there is not brought
in again. -/
theorem Conserved.cons {b d : Option ρ} {brought dropped : List ρ}
    (h : Conserved (fun r => (S r ∨ b = some r) ∧ d ≠ some r) brought dropped own)
    (hd : ∀ r, d = some r → S r) (hS : ∀ r, S r → r ∉ brought) :
    Conserved S (b.toList ++ brought) (d.toList ++ dropped) own := by
  -- what is dropped here is neither there for the history nor brought in by it
  have hdropped : ∀ r, d = some r → r ∉ dropped := by
    intro r hr hmem
    rcases h.mem r hmem with ⟨-, hne⟩ | hbrought
    · exact hne hr
    · exact hS r (hd r hr) hbrought
  refine ⟨h.exclusive.congr fun r => ?_, fun r hr => ?_, ?_⟩
  · simp only [List.mem_append, Option.mem_toList, not_or, ne_eq]
    constructor
    · intro ⟨hr, hnd, hndropped⟩
      refine ⟨?_, hndropped⟩
      rcases hr with hr | hr | hr
      · exact .inl ⟨.inl hr, hnd⟩
      · exact .inl ⟨.inr hr, hnd⟩
      · exact .inr hr
    · intro ⟨hr, hndropped⟩
      rcases hr with ⟨hr, hnd⟩ | hr
      · exact ⟨hr.imp_right .inl, hnd, hndropped⟩
      · exact ⟨.inr (.inr hr), fun hdr => hS r (hd r hdr) hr, hndropped⟩
  · simp only [List.mem_append, Option.mem_toList] at hr ⊢
    rcases hr with hr | hr
    · exact .inl (hd r hr)
    · rcases h.mem r hr with ⟨hr, -⟩ | hr
      · exact hr.imp_right .inl
      · exact .inr (.inr hr)
  · rw [List.nodup_append]
    refine ⟨?_, h.nodup, ?_⟩
    · cases d <;> simp
    · intro r hr r' hr' heq
      subst heq
      exact hdropped r (Option.mem_toList.mp hr) hr'

end Owners

end Lts

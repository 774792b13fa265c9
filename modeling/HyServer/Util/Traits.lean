import Mathlib.Data.List.MinMax

/-!
# hy::MaxType

The metafunction compares the first two types of its list and goes on without the smaller one; of
two types of one size it keeps the first. Types are the elements of any type here, with their sizes
in `sizeof`.

* `argmax_eq_MaxType` — it computes `List.argmax`.
* `exists_index_MaxType` — where its result stands in the list.
-/

namespace Hy.Util

section

variable {τ : Type} (sizeof : τ → Nat)

/-- `MaxType<T, Ts...>::type` -/
def MaxType (T : τ) : List τ → τ
  | [] => T
  | T2 :: Ts => if sizeof T ≥ sizeof T2 then MaxType T Ts else MaxType T2 Ts

variable (T T2 : τ) (Ts : List τ)

/-- One step: the type that is left out is not the first largest one. -/
theorem argmax_cons_cons :
    (T :: T2 :: Ts).argmax sizeof =
      ((if sizeof T ≥ sizeof T2 then T else T2) :: Ts).argmax sizeof := by
  show Ts.foldl _ (if sizeof T < sizeof T2 then some T2 else some T) = Ts.foldl _ (some _)
  by_cases hge : sizeof T ≥ sizeof T2
  · rw [if_pos hge, if_neg (Nat.not_lt.mpr hge)]
  · rw [if_neg hge, if_pos (Nat.lt_of_not_ge hge)]

/-- The winner of each comparison is carried along at the front of the list. -/
theorem argmax_eq_MaxType : (T :: Ts).argmax sizeof = some (MaxType sizeof T Ts) := by
  induction Ts generalizing T with
  | nil => rfl
  | cons T2 Ts ih =>
    rw [argmax_cons_cons, MaxType]
    split
    next => exact ih T
    next => exact ih T2

theorem idxOf_le_of_getElem? [DecidableEq τ] {Us : List τ} {U : τ} {j : Nat}
    (h : Us[j]? = some U) : Us.idxOf U ≤ j := by
  obtain ⟨hlt, hget⟩ := List.getElem?_eq_some_iff.mp h
  apply Nat.le_of_not_lt
  intro hj
  have hne := List.not_of_lt_findIdx hj
  rw [hget, beq_self_eq_true] at hne
  cases hne

/-- **The first of the largest types**: none is larger, and none before it is as large. -/
theorem exists_index_MaxType :
    ∃ i : Nat, (T :: Ts)[i]? = some (MaxType sizeof T Ts) ∧
      ∀ (j : Nat) (U : τ), (T :: Ts)[j]? = some U →
        sizeof U ≤ sizeof (MaxType sizeof T Ts) ∧
          (sizeof U = sizeof (MaxType sizeof T Ts) → i ≤ j) := by
  classical
  have hmax := argmax_eq_MaxType sizeof T Ts
  refine ⟨(T :: Ts).idxOf (MaxType sizeof T Ts), List.getElem?_idxOf (List.argmax_mem hmax), ?_⟩
  intro j U hj
  have hmem : U ∈ T :: Ts := List.mem_of_getElem? hj
  constructor
  · exact List.le_of_mem_argmax hmem hmax
  · intro heq
    calc (T :: Ts).idxOf (MaxType sizeof T Ts)
        ≤ (T :: Ts).idxOf U := List.index_of_argmax hmax hmem (Nat.le_of_eq heq.symm)
      _ ≤ j := idxOf_le_of_getElem? hj

/-- Two of the largest size: the first of them. -/
example : MaxType Prod.snd ("char", 1) [("int", 4), ("unsigned", 4), ("long", 8), ("double", 8)] =
    ("long", 8) := by decide

end

end Hy.Util

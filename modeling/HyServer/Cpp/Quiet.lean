import HyServer.Cpp.Logic

/-!
# Cpp — programs that throw only when an element operation does

A program is quiet if, on the schedule on which no element operation throws, neither it throws nor
it meets a `noexcept` with an exception. Every program without a `throw` of its own is, since the
combinators keep it so. What `wp` says of throws can then be left out (`Quiet.wp`).
-/

namespace Cpp

section Programs

variable {σ ℓ α β T : Type}

/-- It returned, with no throw left, or it broke the lifetime rules. -/
def Outcome.Quiet : Outcome σ ℓ α → Prop
  | .returned _ m => m.throws = []
  | .threw _ => False
  | .terminated _ => False
  | .fault _ => True

theorem Outcome.Quiet.cases {o : Outcome σ ℓ α} (h : o.Quiet) :
    (∃ a m, o = .returned a m ∧ m.throws = []) ∨ ∃ e, o = .fault e := by
  cases o with
  | returned a m => exact .inl ⟨a, m, rfl, h⟩
  | threw m => exact h.elim
  | terminated m => exact h.elim
  | fault e => exact .inr ⟨e, rfl⟩

def Quiet (p : Prog σ ℓ α) : Prop :=
  ∀ m : Machine σ ℓ, m.throws = [] → (p m).Quiet

namespace Quiet

variable {p : Prog σ ℓ α}

/-- Without throws there is nothing to prove about throws. -/
theorem wp (hp : Quiet p) {m : Machine σ ℓ} (hthrows : m.throws = [])
    {Q : α → Machine σ ℓ → Prop} {R K : Machine σ ℓ → Prop} (h : Cpp.wp p Q R K m) :
    Cpp.wp p Q (fun _ => False) (fun _ => False) m := by
  unfold Cpp.wp at *
  rcases (hp m hthrows).cases with ⟨a, m', hm, -⟩ | ⟨e, hm⟩
  · rw [hm] at h ⊢
    exact h
  · rw [hm] at h
    exact h.elim

/-! ## The combinators -/

theorem bind {x : Prog σ ℓ β} {f : β → Prog σ ℓ α} (hx : Quiet x) (hf : ∀ b, Quiet (f b)) :
    Quiet (x >>= f) := by
  intro m hthrows
  simp only [Bind.bind]
  rcases (hx m hthrows).cases with ⟨b, m', hm, hthrows'⟩ | ⟨e, hm⟩
  · rw [hm]
    exact hf b m' hthrows'
  · rw [hm]
    trivial

theorem look (f : σ → α) : Quiet (look f : Prog σ ℓ α) :=
  fun _ hthrows => hthrows

theorem update (f : σ → σ) : Quiet (update f : Prog σ ℓ Unit) :=
  fun _ hthrows => hthrows

theorem emit (e : Event (Option ℓ)) : Quiet (emit e : Prog σ ℓ Unit) :=
  fun _ hthrows => hthrows

theorem faulty (f : Fault) : Quiet (faulty f : Prog σ ℓ α) :=
  fun _ _ => trivial

theorem require (f : Fault) (p : σ → Bool) : Quiet (require f p : Prog σ ℓ Unit) := by
  intro m hthrows
  unfold Cpp.require
  split
  · exact hthrows
  · trivial

theorem ite {c : Prop} [Decidable c] {x y : Prog σ ℓ α} (hx : Quiet x) (hy : Quiet y) :
    Quiet (if c then x else y) := by
  split
  · exact hx
  · exact hy

/-- The handler is never run. -/
theorem tryRethrow (hp : Quiet p) (handler : Prog σ ℓ Unit) : Quiet (tryRethrow p handler) := by
  intro m hthrows
  unfold Cpp.tryRethrow
  rcases (hp m hthrows).cases with ⟨a, m', hm, hthrows'⟩ | ⟨e, hm⟩
  · rw [hm]
    exact hthrows'
  · rw [hm]
    trivial

theorem unwindLocal (hp : Quiet p) : Quiet (unwindLocal p) := by
  intro m hthrows
  unfold Cpp.unwindLocal
  rcases (hp m hthrows).cases with ⟨a, m', hm, hthrows'⟩ | ⟨e, hm⟩
  · rw [hm]
    exact hthrows'
  · rw [hm]
    trivial

/-! ## Element operations -/

theorem eval (i : Init σ T) (nothrow : Bool) : Quiet (i.eval nothrow : Prog σ ℓ T) := by
  intro m hthrows
  unfold Init.eval
  cases i.run m.mem with
  | none => trivial
  | some r => cases nothrow <;> simp [mayThrow, hthrows, Outcome.Quiet]

theorem constructAt (c : Cell σ ℓ T) (i : Init σ T) : Quiet (constructAt c i) :=
  bind (eval _ _) fun _ => bind (require _ _) fun _ => bind (update _) fun _ => emit _

theorem destroyAt (c : Cell σ ℓ T) : Quiet (destroyAt c) :=
  bind (require _ _) fun _ => bind (update _) fun _ => emit _

theorem assignAt (c : Cell σ ℓ T) (i : Init σ T) : Quiet (assignAt c i) :=
  bind (require _ _) fun _ => bind (eval _ _) fun _ => update _

theorem withLocal {i : Init σ T} {body : T → Prog σ ℓ α} (hbody : ∀ t, Quiet (body t)) :
    Quiet (withLocal i body) :=
  bind (eval _ _) fun t => bind (emit _) fun _ => unwindLocal (hbody t)

theorem swapElems (ty : ElemType T) (a b : Cell σ ℓ T) : Quiet (swapElems ty a b) :=
  withLocal fun _ => bind (assignAt _ _) fun _ => assignAt _ _

end Quiet

end Programs

end Cpp

import Mathlib.Control.Monad.Basic

/-!
# Railway — two-track computations

Computations on a sum `A ⊕ B` that act on one side of it and pass the other through, with effects in
any lawful monad.

* `onLeft`, `onRight` — the side is replaced by the outcome of a computation, which may be on the
  other side. `mapLeft`, `mapRight` — it stays on its side.
* `onLeft` is associative with the left injection as its unit; the maps compose, and a map of one
  side commutes with one of the other, since at most one of the two runs.
* `Ledger`, `invoke` — callables that are called at numbered places, and the record of their calls.
  `Calls i b p p₀` says that `p` does what `p₀` does and calls the one at place `i` exactly when
  `b`.
* `Alike S R p p'` — from states related by `S`, two computations, which may be over different data,
  end in related states, with results related by `R`.
-/

namespace Railway

/-! ## The two sides -/

section Tracks

variable {M : Type → Type} {A B C D : Type} [Monad M]

def onLeft (f : A → M (C ⊕ B)) : A ⊕ B → M (C ⊕ B)
  | .inl a => f a
  | .inr b => pure (.inr b)

def onRight (f : B → M (A ⊕ D)) : A ⊕ B → M (A ⊕ D)
  | .inl a => pure (.inl a)
  | .inr b => f b

def mapLeft (f : A → M C) : A ⊕ B → M (C ⊕ B) :=
  onLeft fun a => .inl <$> f a

def mapRight (f : B → M D) : A ⊕ B → M (A ⊕ D) :=
  onRight fun b => .inr <$> f b

/-! ## Their algebra -/

theorem onLeft_pure (x : A ⊕ B) : onLeft (fun a => (pure (.inl a) : M (A ⊕ B))) x = pure x := by
  cases x <;> rfl

variable [LawfulMonad M]

theorem onLeft_bind (f : A → M (C ⊕ B)) (g : C → M (D ⊕ B)) (x : A ⊕ B) :
    onLeft f x >>= onLeft g = onLeft (fun a => f a >>= onLeft g) x := by
  cases x with
  | inl a => rfl
  | inr b =>
    show pure (.inr b) >>= onLeft g = pure (.inr b)
    rw [pure_bind]
    rfl

theorem mapLeft_bind (f : A → M C) (g : C → M D) (x : A ⊕ B) :
    mapLeft f x >>= mapLeft g = mapLeft (fun a => f a >>= g) x := by
  unfold mapLeft
  rw [onLeft_bind]
  congr 1
  funext a
  show (Sum.inl <$> f a) >>= onLeft (fun c => Sum.inl <$> g c) = Sum.inl <$> (f a >>= g)
  rw [bind_map_left, map_bind]
  rfl

theorem mapRight_bind (f : B → M C) (g : C → M D) (x : A ⊕ B) :
    mapRight f x >>= mapRight g = mapRight (fun b => f b >>= g) x := by
  cases x with
  | inl a =>
    show pure (.inl a) >>= mapRight g = pure (.inl a)
    rw [pure_bind]
    rfl
  | inr b =>
    show (Sum.inr <$> f b) >>= mapRight g = Sum.inr <$> (f b >>= g)
    rw [bind_map_left, map_bind]
    rfl

/-- Only one of the two runs, so their order does not matter, whatever their effects are. -/
theorem mapLeft_mapRight (f : A → M C) (g : B → M D) (x : A ⊕ B) :
    mapLeft f x >>= mapRight g = mapRight g x >>= mapLeft f := by
  cases x with
  | inl a =>
    show (Sum.inl <$> f a) >>= mapRight g = pure (.inl a) >>= mapLeft f
    rw [bind_map_left, pure_bind]
    show (f a >>= fun c => pure (Sum.inl c)) = Sum.inl <$> f a
    rw [map_eq_pure_bind]
  | inr b =>
    show pure (.inr b) >>= mapRight g = (Sum.inr <$> g b) >>= mapLeft f
    rw [bind_map_left, pure_bind]
    show Sum.inr <$> g b = g b >>= fun d => pure (Sum.inr d)
    rw [map_eq_pure_bind]

end Tracks

/-! ## Calls -/

section Calls

variable {ω A B : Type}

/-- What callables see and change, and the places they have been called at. -/
structure Ledger (ω : Type) where
  state : ω
  calls : List Nat

/-- The callable `f` called at place `i`. -/
def invoke (i : Nat) (f : A → StateM ω B) (a : A) : StateM (Ledger ω) B := fun w =>
  ((f a w.state).1, ⟨(f a w.state).2, w.calls ++ [i]⟩)

def Calls (i : Nat) (b : Bool) (p : StateM (Ledger ω) A) (p₀ : StateM ω A) : Prop :=
  ∀ w, p w = ((p₀ w.state).1, ⟨(p₀ w.state).2, w.calls ++ if b then [i] else []⟩)

variable {C : Type} {i : Nat} {b : Bool}

theorem calls_invoke (f : A → StateM ω B) (a : A) : Calls i true (invoke i f a) (f a) :=
  fun _ => rfl

theorem calls_pure (a : A) : Calls (ω := ω) i false (pure a) (pure a) := by
  intro w
  show (a, w) = (a, ⟨w.state, w.calls ++ []⟩)
  rw [List.append_nil]

theorem Calls.map {p : StateM (Ledger ω) A} {p₀ : StateM ω A} (h : Calls i b p p₀) (g : A → B) :
    Calls i b (g <$> p) (g <$> p₀) := by
  intro w
  show (g (p w).1, (p w).2) = _
  rw [h w]
  rfl

end Calls

/-! ## Related computations -/

section Alike

variable {ω ω' A A' B B' : Type} {S : ω → ω' → Prop} {R : A → A' → Prop} {Q : B → B' → Prop}

def Alike (S : ω → ω' → Prop) (R : A → A' → Prop) (p : StateM ω A) (p' : StateM ω' A') : Prop :=
  ∀ w w', S w w' → R (p w).1 (p' w').1 ∧ S (p w).2 (p' w').2

theorem Alike.pure {a : A} {a' : A'} (ha : R a a') :
    Alike S R (Pure.pure a : StateM ω A) (Pure.pure a' : StateM ω' A') :=
  fun _ _ hw => ⟨ha, hw⟩

theorem Alike.map {p : StateM ω A} {p' : StateM ω' A'} {f : A → B} {f' : A' → B'}
    (hp : Alike S R p p') (hf : ∀ a a', R a a' → Q (f a) (f' a')) :
    Alike S Q (f <$> p) (f' <$> p') :=
  fun w w' hw => (hp w w' hw).imp (hf _ _) id

end Alike

end Railway

import HyServer.Cpp.Logic

/-!
# Cpp — defaulted special members

The copy and move operations of a class that leaves them to its base classes. A defaulted one runs
the base classes' own in the order of the bases, and is deleted when one of those is deleted.

* `defaulted` — what a class with the given bases gets.
* `overriding` — a base class that has one special member of its own and defaults the others.
* `defaulted_overriding_self`, `defaulted_overriding_of_ne` — such a base is noticed in its own
  special member and in no other.
-/

namespace Cpp

inductive SpecialMember where
  | copyConstructor
  | moveConstructor
  | copyAssignment
  | moveAssignment
  deriving DecidableEq, Repr

namespace SpecialMember

def isConstructor : SpecialMember → Bool
  | .copyConstructor => true
  | .moveConstructor => true
  | .copyAssignment => false
  | .moveAssignment => false

/-- The category its argument comes with. -/
def category : SpecialMember → ValueCategory
  | .copyConstructor => .lvalue
  | .moveConstructor => .rvalue
  | .copyAssignment => .lvalue
  | .moveAssignment => .rvalue

end SpecialMember

variable {σ ℓ α : Type}

/-- A base class: its part in each special member, where `none` is a deleted one, and its
destructor. -/
structure BaseClass (σ ℓ : Type) where
  special : SpecialMember → Option (Prog σ ℓ Unit)
  destroy : Prog σ ℓ Unit

/-- `= default`. A constructor that throws destroys the bases that are there already. -/
def defaulted (sm : SpecialMember) : List (BaseClass σ ℓ) → Option (Prog σ ℓ Unit)
  | [] => some (pure ())
  | base :: bases => do
    let own ← base.special sm
    let rest ← defaulted sm bases
    return do
      own
      if sm.isConstructor then tryRethrow rest base.destroy else rest

/-- A base class without data that defines one special member itself, or deletes it. -/
def overriding (sm : SpecialMember) (own : Option (Prog σ ℓ Unit)) : BaseClass σ ℓ where
  special sm' := if sm' = sm then own else some (pure ())
  destroy := pure ()

/-! ## Laws -/

/-- A handler that does nothing. -/
theorem tryRethrow_pure (body : Prog σ ℓ α) : tryRethrow body (pure ()) = body := by
  funext m
  unfold tryRethrow
  cases body m <;> rfl

theorem bind_pure_unit (p : Prog σ ℓ Unit) : (p >>= fun _ => pure ()) = p := by
  funext m
  cases h : p m <;> simp [bind, pure, h]

theorem defaulted_cons (sm : SpecialMember) (base : BaseClass σ ℓ) (bases : List (BaseClass σ ℓ)) :
    defaulted sm (base :: bases) = (base.special sm).bind fun own =>
      (defaulted sm bases).map fun rest => own >>= fun _ =>
        if sm.isConstructor then tryRethrow rest base.destroy else rest := by
  show (base.special sm).bind _ = _
  cases base.special sm with
  | none => rfl
  | some own => cases defaulted sm bases <;> rfl

/-- A base that has no part in a special member. -/
theorem defaulted_overriding_of_ne {sm sm' : SpecialMember} (hne : sm' ≠ sm)
    (own : Option (Prog σ ℓ Unit)) (bases : List (BaseClass σ ℓ)) :
    defaulted sm' (overriding sm own :: bases) = defaulted sm' bases := by
  have hspecial : (overriding sm own).special sm' = some (pure ()) := if_neg hne
  have hrest : ∀ rest : Prog σ ℓ Unit,
      (if sm'.isConstructor then tryRethrow rest (overriding sm own).destroy else rest) = rest := by
    intro rest
    split
    · exact tryRethrow_pure rest
    · rfl
  rw [defaulted_cons, hspecial]
  simp only [hrest]
  cases defaulted sm' bases <;> rfl

/-- The special member that the last base with a part in it overrides. -/
theorem defaulted_overriding_self (sm : SpecialMember) (own : Option (Prog σ ℓ Unit))
    {bases : List (BaseClass σ ℓ)} (hrest : defaulted sm bases = some (pure ())) :
    defaulted sm (overriding sm own :: bases) = own := by
  have hspecial : (overriding sm own).special sm = own := if_pos rfl
  have hpure : (if sm.isConstructor then tryRethrow (pure ()) (overriding sm own).destroy
      else (pure () : Prog σ ℓ Unit)) = pure () := by
    split
    · exact tryRethrow_pure _
    · rfl
  rw [defaulted_cons, hspecial, hrest]
  simp only [Option.map_some, hpure, bind_pure_unit]
  cases own <;> rfl

end Cpp

import HyServer.Cpp.SpecialMembers
import HyServer.Folly.Storage

/-!
# hy::expected after folly — the bases behind the special members

The special members of `ExpectedStorage<Value, Error, eUnion>` are defaulted, so what they do is put
together from five base classes. `ExpectedUnion` has the members and copies none of them; each of
the other four calls `assign` of the derived class in one special member and defaults the rest.

* `bases` — the five of them, over any `assign` and for any traits of `Value` and `Error`.
* `defaulted_bases` — in every special member `assign` is called in one place only, if it is not
  deleted.
* `special_eq` — the special members are the operations of `Storage`.
-/

namespace Hy.Folly

open Cpp

section Bases

variable {σ ℓ V E : Type} (assign : ValueCategory → Prog σ ℓ Unit)

/-! ## The base classes -/

/-- `ExpectedUnion`: its constructors leave it empty, whatever they are given, and its assignments
and its destructor have empty bodies. -/
def expectedUnion (o : Nat) : BaseClass (Heap V E) Place where
  special sm := some (if sm.isConstructor then constructEmpty o else pure ())
  destroy := update (Objects.setExist o false)

/-- A base class that calls `assign` of the derived class in one special member. The second template
argument tells whether it may, the third whether that member is `noexcept`. -/
def assigning (sm : SpecialMember) (enabled nothrow : Bool) : BaseClass σ ℓ :=
  overriding sm (if enabled then some (noexceptIf nothrow (assign sm.category)) else none)

def copyConstructible (enabled nothrow : Bool) : BaseClass σ ℓ :=
  assigning assign .copyConstructor enabled nothrow

def moveConstructible (enabled nothrow : Bool) : BaseClass σ ℓ :=
  assigning assign .moveConstructor enabled nothrow

def copyAssignable (enabled nothrow : Bool) : BaseClass σ ℓ :=
  assigning assign .copyAssignment enabled nothrow

def moveAssignable (enabled nothrow : Bool) : BaseClass σ ℓ :=
  assigning assign .moveAssignment enabled nothrow

/-- The bases of `ExpectedStorage`, in their order. -/
def bases (union : BaseClass σ ℓ) (enabled nothrow : SpecialMember → Bool) :
    List (BaseClass σ ℓ) :=
  [union,
    copyConstructible assign (enabled .copyConstructor) (nothrow .copyConstructor),
    moveConstructible assign (enabled .moveConstructor) (nothrow .moveConstructor),
    copyAssignable assign (enabled .copyAssignment) (nothrow .copyAssignment),
    moveAssignable assign (enabled .moveAssignment) (nothrow .moveAssignment)]

variable {enabled nothrow : SpecialMember → Bool} {sm : SpecialMember}

/-- The four bases that call `assign`: the others are not noticed. -/
theorem defaulted_tail (union : BaseClass σ ℓ) (henabled : enabled sm = true) :
    defaulted sm (bases assign union enabled nothrow).tail
      = some (noexceptIf (nothrow sm) (assign sm.category)) := by
  have hown : (if enabled sm then some (noexceptIf (nothrow sm) (assign sm.category)) else none)
      = some (noexceptIf (nothrow sm) (assign sm.category)) := if_pos henabled
  show defaulted sm [overriding _ _, overriding _ _, overriding _ _, overriding _ _] = _
  cases sm with
  | copyConstructor =>
    refine (defaulted_overriding_self _ _ ?_).trans hown
    rw [defaulted_overriding_of_ne (by decide), defaulted_overriding_of_ne (by decide),
      defaulted_overriding_of_ne (by decide)]
    rfl
  | moveConstructor =>
    rw [defaulted_overriding_of_ne (by decide)]
    refine (defaulted_overriding_self _ _ ?_).trans hown
    rw [defaulted_overriding_of_ne (by decide), defaulted_overriding_of_ne (by decide)]
    rfl
  | copyAssignment =>
    rw [defaulted_overriding_of_ne (by decide), defaulted_overriding_of_ne (by decide)]
    refine (defaulted_overriding_self _ _ ?_).trans hown
    rw [defaulted_overriding_of_ne (by decide)]
    rfl
  | moveAssignment =>
    rw [defaulted_overriding_of_ne (by decide), defaulted_overriding_of_ne (by decide),
      defaulted_overriding_of_ne (by decide)]
    exact (defaulted_overriding_self _ _ rfl).trans hown

/-- **The bases together.** Of the calls of `assign` one is left. -/
theorem defaulted_bases (union : BaseClass σ ℓ) (henabled : enabled sm = true) :
    defaulted sm (bases assign union enabled nothrow) = (union.special sm).map fun own =>
      own >>= fun _ =>
        if sm.isConstructor
        then tryRethrow (noexceptIf (nothrow sm) (assign sm.category)) union.destroy
        else noexceptIf (nothrow sm) (assign sm.category) := by
  have htail : defaulted sm (bases assign union enabled nothrow).tail
      = some (noexceptIf (nothrow sm) (assign sm.category)) := defaulted_tail assign union henabled
  have hbases : bases assign union enabled nothrow
      = union :: (bases assign union enabled nothrow).tail := rfl
  rw [hbases, defaulted_cons, htail]
  cases union.special sm <;> rfl

/-- The number of calls of `assign` in a special member: run over a memory that only counts them. -/
def assignCalls (enabled nothrow : SpecialMember → Bool) (sm : SpecialMember) : Option Nat :=
  (defaulted sm (bases (fun _ => update (· + 1)) (⟨fun _ => some (pure ()), pure ()⟩ :
    BaseClass Nat Place) enabled nothrow)).bind fun special =>
      match special ⟨0, [], []⟩ with
      | .returned _ m => some m.mem
      | _ => none

theorem assignCalls_eq (henabled : enabled sm = true) :
    assignCalls enabled nothrow sm = some 1 := by
  unfold assignCalls
  rw [defaulted_bases _ _ henabled]
  cases nothrow sm <;> cases sm <;> rfl

end Bases

/-! ## The special members -/

section Special

variable {V E : Type} (tv : PayloadType V) (te : PayloadType E)

/-- The third template argument of the four bases. -/
def nothrowSpecial : SpecialMember → Bool
  | .copyConstructor => tv.nothrowCopyConstructible && te.nothrowCopyConstructible
  | .moveConstructor => tv.nothrowMoveConstructible && te.nothrowMoveConstructible
  | .copyAssignment =>
    (tv.nothrowCopyConstructible && tv.nothrowCopyAssignable)
      && (te.nothrowCopyConstructible && te.nothrowCopyAssignable)
  | .moveAssignment =>
    (tv.nothrowMoveConstructible && tv.nothrowMoveAssignable)
      && (te.nothrowMoveConstructible && te.nothrowMoveAssignable)

/-- A defaulted special member of `ExpectedStorage` on the object `o`, from the object `rhs`. -/
def special (enabled : SpecialMember → Bool) (o rhs : Nat) (sm : SpecialMember) :
    Option (Prog (Heap V E) Place Unit) :=
  defaulted sm (bases (assign tv te o rhs) (expectedUnion o) enabled (nothrowSpecial tv te))

/-- The operation that a special member is. -/
def specialOp (o rhs : Nat) : SpecialMember → Prog (Heap V E) Place Unit
  | .copyConstructor => constructCopy tv te o rhs
  | .moveConstructor => constructMove tv te o rhs
  | .copyAssignment => assignCopy tv te o rhs
  | .moveAssignment => assignMove tv te o rhs

/-- **The special members are the operations of the storage.** -/
theorem special_eq {enabled : SpecialMember → Bool} {sm : SpecialMember} (o rhs : Nat)
    (henabled : enabled sm = true) :
    special tv te enabled o rhs sm = some (specialOp tv te o rhs sm) := by
  unfold special
  rw [defaulted_bases _ _ henabled]
  cases sm <;> rfl

end Special

end Hy.Folly

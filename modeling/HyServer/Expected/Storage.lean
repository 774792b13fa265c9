import HyServer.Cpp.Lifetime

/-!
# hy::expected — the storage operators of `Expected_Tiny.hpp`

The three specializations of `details::ExpectedStorage` carry the same assignment operators and
the same `reinit_expected`, word for word, over different storages. They are written here once,
over a `Layout`: the tag `has_val_` and the two members `val_` and `unex_`. The primary template
(`eUnion`) calls `reinit_expected` without declaring it and names `other.val` and `other.unex`;
it is read with the `reinit_expected` of the two specializations and with `other.val_` and
`other.unex_`.

`noexcept(noexcept(e))` on the move assignment tests the boolean expression `e`, which never
throws, so that operator is `noexcept` whatever the element types are.
-/

namespace Hy.Tiny

open Cpp

/-- `has_val_`, `val_` and `unex_` of one object in a memory. -/
structure Layout (σ ℓ V E : Type) where
  hasVal : σ → Bool
  setHasVal : Bool → σ → σ
  val : Cell σ ℓ V
  unex : Cell σ ℓ E

section Operators

variable {σ ℓ V E : Type}

/-! ## `reinit_expected` -/

def reinitExpected {N O : Type} (newVal : Cell σ ℓ N) (oldVal : Cell σ ℓ O) (newType : ElemType N)
    (oldType : ElemType O) (args : Init σ N) : Prog σ ℓ Unit :=
  if args.nothrowConstruct then do
    destroyAt oldVal
    constructAt newVal args
  else if newType.nothrowMoveConstructible then
    withLocal args fun temp => do
      destroyAt oldVal
      constructAt newVal (Init.moveLocal newType temp)
  else
    withLocal (Init.move oldType oldVal) fun temp => do
      destroyAt oldVal
      tryRethrow (constructAt newVal args) (constructAt oldVal (Init.moveLocal oldType temp))

namespace Layout

variable (self other : Layout σ ℓ V E) (tv : ElemType V) (te : ElemType E)

/-! ## Assignment -/

/-- `a = b`. Both `operator=(const ExpectedStorage&)` of the general storage are templates, and a
template is never a copy assignment operator. So it is the implicit one that runs, which copies
`has_val_` and the bytes of the union; it is deleted where one of the members has a copy assignment
that is not trivial. -/
def assignCopy : Prog σ ℓ Unit := do
  let otherHasVal ← look other.hasVal
  update (self.setHasVal otherHasVal)
  copyBytesAt tv self.val other.val
  copyBytesAt te self.unex other.unex

/-- The template `operator=(const ExpectedStorage&)`, which runs when it is called by its name and
with template arguments, as in `a.operator=<>(b)`. The inner test of the first branch is on `this`
again, not on `other`. -/
def assignCopyTemplate : Prog σ ℓ Unit := do
  if ← look self.hasVal then
    if ← look self.hasVal then
      assignAt self.val (Init.copy tv other.val)
    else
      reinitExpected self.unex self.val te tv (Init.copy te other.unex)
  else
    if ← look other.hasVal then
      reinitExpected self.val self.unex tv te (Init.copy tv other.val)
    else
      assignAt self.unex (Init.copy te other.unex)
  let otherHasVal ← look other.hasVal
  update (self.setHasVal otherHasVal)

/-- The body of `operator=(ExpectedStorage&&)`. This one is a template as well, but for an rvalue it
is the better match. -/
def assignMoveBody : Prog σ ℓ Unit := do
  if ← look self.hasVal then
    if ← look other.hasVal then
      assignAt self.val (Init.move tv other.val)
    else
      reinitExpected self.unex self.val te tv (Init.move te other.unex)
  else
    if ← look other.hasVal then
      reinitExpected self.val self.unex tv te (Init.move tv other.val)
    else
      assignAt self.unex (Init.move te other.unex)
  let otherHasVal ← look other.hasVal
  update (self.setHasVal otherHasVal)

def assignMove : Prog σ ℓ Unit :=
  noexceptIf true (assignMoveBody self other tv te)

/-- `a = std::move(b)`: the move assignment where its `enable_if` admits it, and the implicit copy
assignment where it does not. -/
def assignRvalue : Prog σ ℓ Unit :=
  if tv.nothrowMoveConstructible || te.nothrowMoveConstructible then assignMove self other tv te
  else assignCopy self other tv te

/-- `operator=(U&&)`, from what `std::forward<U>(v)` makes of the argument. -/
def assignValue (v : Init σ V) : Prog σ ℓ Unit := do
  if ← look self.hasVal then
    assignAt self.val v
  else
    reinitExpected self.val self.unex tv te v
    update (self.setHasVal false)

/-- `operator=(const unexpected<G>&)` and `operator=(unexpected<G>&&)`, which differ in what they
forward. From a value they rebuild `val_` out of the forwarded `g`, so the operator needs both
what `E` and what `V` makes of it. -/
def assignUnexpected (g : Init σ E) (gAsVal : Init σ V) : Prog σ ℓ Unit := do
  if ← look self.hasVal then
    reinitExpected self.val self.unex tv te gAsVal
    update (self.setHasVal false)
  else
    assignAt self.unex g

/-! ## Swap -/

/-- The last branch of `swap`: `this` holds a value and `other` an error. -/
def swapMixed : Prog σ ℓ Unit := do
  if te.nothrowMoveConstructible then
    withLocal (Init.move te other.unex) fun temp => do
      destroyAt other.unex
      tryRethrow
        (do constructAt other.val (Init.move tv self.val)
            destroyAt self.val
            constructAt self.unex (Init.moveLocal te temp))
        (constructAt other.unex (Init.moveLocal te temp))
  else
    withLocal (Init.move tv self.val) fun temp => do
      destroyAt self.val
      tryRethrow
        (do constructAt self.unex (Init.move te other.unex)
            destroyAt other.unex
            constructAt other.val (Init.moveLocal tv temp))
        (constructAt self.val (Init.moveLocal tv temp))
  update (self.setHasVal false)
  update (other.setHasVal true)

/-- `swap` with a bound on its recursion `other.swap(*this)`. -/
def swapBody : Nat → Layout σ ℓ V E → Layout σ ℓ V E → Prog σ ℓ Unit
  | 0, _, _ => faulty .recursionBound
  | depth + 1, self, other => do
    let selfHas ← look self.hasVal
    let otherHas ← look other.hasVal
    if selfHas && otherHas then
      swapElems tv self.val other.val
    else if !selfHas && !otherHas then
      swapElems te self.unex other.unex
    else if !selfHas && otherHas then
      swapBody depth other self
    else
      swapMixed self other tv te

/-- `swap`. The call it makes with the roles exchanged makes no further one. -/
def swap : Prog σ ℓ Unit :=
  noexceptIf
    (tv.nothrowMoveConstructible && tv.nothrowSwappable && te.nothrowMoveConstructible
      && te.nothrowSwappable)
    (swapBody tv te 2 self other)

end Layout

end Operators

/-! ## Arguments from outside -/

/-- The payload of an `unexpected<G>`, as the `E` and as the `V` it makes. -/
structure UnexpectedArg (V E : Type) where
  error : ForwardArg E
  value : ForwardArg V

end Hy.Tiny

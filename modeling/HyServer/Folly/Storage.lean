import HyServer.Cpp.Slots

/-!
# hy::expected after folly — objects with the general storage (`eUnion`)

`ExpectedStorage<Value, Error, eUnion>` of `Expected_folly.hpp`: a memory of any number of objects,
whose tag is `which_` and whose slots are `value_` and `error_`. An object exists from the
construction of its `ExpectedUnion` base, which comes first, to the destruction of that base, which
comes last and does nothing.

The `ErrorTag` constructor of the base is declared `noexcept(Error(...))`; it is read as the
`noexcept(noexcept(Error(...)))` that its siblings have.
-/

namespace Hy.Folly

open Cpp

inductive Which where
  | eEmpty
  | eValue
  | eError
  deriving DecidableEq, Repr

/-- An element type, and whether `t = T(us...)` is well-formed for it, which is what selects the
overload of `doEmplaceAssign`. -/
structure PayloadType (T : Type) extends ElemType T where
  assignable : Bool

abbrev Heap (V E : Type) := Objects Which V E

/-! ## `doEmplaceAssign` -/

section Emplace

variable {σ ℓ T : Type}

/-- `doEmplaceAssign(int, T&, Us&&...)`: `t = T(us...)`. -/
def doEmplaceAssignInt (ty : PayloadType T) (t : Cell σ ℓ T) (us : Init σ T) : Prog σ ℓ Unit :=
  noexceptIf (us.nothrowConstruct && ty.nothrowMoveAssignable)
    (withLocal us fun temp => assignAt t (Init.moveLocal ty.toElemType temp))

/-- `doEmplaceAssign(long, T&, Us&&...)`: destroy, then construct in place. -/
def doEmplaceAssignLong (t : Cell σ ℓ T) (us : Init σ T) : Prog σ ℓ Unit := do
  destroyAt t
  constructAt t us

def doEmplaceAssign (ty : PayloadType T) (t : Cell σ ℓ T) (us : Init σ T) : Prog σ ℓ Unit :=
  if ty.assignable then doEmplaceAssignInt ty t us else doEmplaceAssignLong t us

end Emplace

/-! ## The storage -/

section Storage

variable {T V E : Type}

abbrev value (o : Nat) : Cell (Heap V E) Place V :=
  Objects.leftCell o

abbrev error (o : Nat) : Cell (Heap V E) Place E :=
  Objects.rightCell o

def which (o : Nat) (h : Heap V E) : Which :=
  (h.obj o).tag

def clear (o : Nat) : Prog (Heap V E) Place Unit := do
  match ← look (which o) with
  | .eValue => destroyAt (value o)
  | .eError => destroyAt (error o)
  | .eEmpty => pure ()
  update (Objects.setTag o .eEmpty)

/-- `assignValue` and `assignError`, which differ in the alternative `w` and its member. -/
def assignMember (ty : PayloadType T) (w : Which) (member : Cell (Heap V E) Place T) (o : Nat)
    (us : Init (Heap V E) T) : Prog (Heap V E) Place Unit := do
  if (← look (which o)) = w then
    doEmplaceAssign ty member us
  else
    clear o
    constructAt member us
    update (Objects.setTag o w)

def assignValue (tv : PayloadType V) (o : Nat) (vs : Init (Heap V E) V) :
    Prog (Heap V E) Place Unit :=
  assignMember tv .eValue (value o) o vs

def assignError (te : PayloadType E) (o : Nat) (es : Init (Heap V E) E) :
    Prog (Heap V E) Place Unit :=
  assignMember te .eError (error o) o es

/-- A member of another object, forwarded with the category of that object. -/
def forwardMember (ty : PayloadType T) (member : Cell (Heap V E) Place T) :
    ValueCategory → Init (Heap V E) T
  | .lvalue => Init.copy ty.toElemType member
  | .rvalue => Init.move ty.toElemType member

/-- `assign(Other&&)` from an object of the same type. -/
def assign (tv : PayloadType V) (te : PayloadType E) (o rhs : Nat) (cat : ValueCategory) :
    Prog (Heap V E) Place Unit :=
  if o = rhs then
    pure ()
  else do
    match ← look (which rhs) with
    | .eValue => assignValue tv o (forwardMember tv (value rhs) cat)
    | .eError => assignError te o (forwardMember te (error rhs) cat)
    | .eEmpty => clear o

/-- A storage of other types, as `assign` sees it: its `which_`, and what `Value` or `Error` makes
of its member. -/
inductive Foreign (V E : Type) where
  | eEmpty
  | eValue (v : ForwardArg V)
  | eError (e : ForwardArg E)

/-- `assign(Other&&)` from an object of another type. -/
def assignForeign (tv : PayloadType V) (te : PayloadType E) (o : Nat) (rhs : Foreign V E)
    (cat : ValueCategory) : Prog (Heap V E) Place Unit :=
  match rhs with
  | .eValue v => assignValue tv o (v.as cat)
  | .eError e => assignError te o (e.as cat)
  | .eEmpty => clear o

/-! ## Special members -/

def constructEmpty (o : Nat) : Prog (Heap V E) Place Unit := do
  update (Objects.setTag o .eEmpty)
  update (Objects.setExist o true)

/-- `ExpectedUnion(ValueTag, Vs&&...)`. A constructor that throws leaves no object. -/
def constructValue (o : Nat) (vs : Init (Heap V E) V) : Prog (Heap V E) Place Unit := do
  constructAt (value o) vs
  update (Objects.setTag o .eValue)
  update (Objects.setExist o true)

/-- `ExpectedUnion(ErrorTag, Es&&...)`, which is also what the default constructor calls. -/
def constructError (o : Nat) (es : Init (Heap V E) E) : Prog (Heap V E) Place Unit := do
  constructAt (error o) es
  update (Objects.setTag o .eError)
  update (Objects.setExist o true)

/-- The defaulted copy and move constructors: of the five bases, `ExpectedUnion` starts out empty
and one of the others calls `assign`. When that throws, the empty-handed `~ExpectedUnion()` is all
that runs. -/
def constructFrom (tv : PayloadType V) (te : PayloadType E) (o rhs : Nat) (cat : ValueCategory)
    (nothrow : Bool) : Prog (Heap V E) Place Unit := do
  constructEmpty o
  tryRethrow (noexceptIf nothrow (assign tv te o rhs cat)) (update (Objects.setExist o false))

def constructCopy (tv : PayloadType V) (te : PayloadType E) (o rhs : Nat) :
    Prog (Heap V E) Place Unit :=
  constructFrom tv te o rhs .lvalue (tv.nothrowCopyConstructible && te.nothrowCopyConstructible)

def constructMove (tv : PayloadType V) (te : PayloadType E) (o rhs : Nat) :
    Prog (Heap V E) Place Unit :=
  constructFrom tv te o rhs .rvalue (tv.nothrowMoveConstructible && te.nothrowMoveConstructible)

/-- `operator=(const ExpectedStorage&)`, whose work is done by the `CopyAssignable` base. -/
def assignCopy (tv : PayloadType V) (te : PayloadType E) (o rhs : Nat) :
    Prog (Heap V E) Place Unit :=
  noexceptIf
    ((tv.nothrowCopyConstructible && tv.nothrowCopyAssignable)
      && (te.nothrowCopyConstructible && te.nothrowCopyAssignable))
    (assign tv te o rhs .lvalue)

/-- `operator=(ExpectedStorage&&)`, whose work is done by the `MoveAssignable` base. -/
def assignMove (tv : PayloadType V) (te : PayloadType E) (o rhs : Nat) :
    Prog (Heap V E) Place Unit :=
  noexceptIf
    ((tv.nothrowMoveConstructible && tv.nothrowMoveAssignable)
      && (te.nothrowMoveConstructible && te.nothrowMoveAssignable))
    (assign tv te o rhs .rvalue)

/-- `~ExpectedStorage()` -/
def destroy (o : Nat) : Prog (Heap V E) Place Unit := do
  clear o
  update (Objects.setExist o false)

/-! ## Operations as data -/

inductive Op (V E : Type) where
  | constructEmpty (o : Nat)
  | constructValue (o : Nat) (vs : ForwardArg V) (cat : ValueCategory)
  | constructError (o : Nat) (es : ForwardArg E) (cat : ValueCategory)
  | constructCopy (o rhs : Nat)
  | constructMove (o rhs : Nat)
  | assignValue (o : Nat) (vs : ForwardArg V) (cat : ValueCategory)
  | assignError (o : Nat) (es : ForwardArg E) (cat : ValueCategory)
  | assign (o rhs : Nat) (cat : ValueCategory)
  | assignForeign (o : Nat) (rhs : Foreign V E) (cat : ValueCategory)
  | assignCopy (o rhs : Nat)
  | assignMove (o rhs : Nat)
  | clear (o : Nat)
  | destroy (o : Nat)

namespace Op

/-- The objects an operation is called on exist, and the one it constructs does not yet. -/
def Usable (h : Heap V E) : Op V E → Prop
  | .constructEmpty o => h.exist o = false
  | .constructValue o _ _ => h.exist o = false
  | .constructError o _ _ => h.exist o = false
  | .constructCopy o rhs => h.exist o = false ∧ h.exist rhs = true
  | .constructMove o rhs => h.exist o = false ∧ h.exist rhs = true
  | .assignValue o _ _ => h.exist o = true
  | .assignError o _ _ => h.exist o = true
  | .assign o rhs _ => h.exist o = true ∧ h.exist rhs = true
  | .assignForeign o _ _ => h.exist o = true
  | .assignCopy o rhs => h.exist o = true ∧ h.exist rhs = true
  | .assignMove o rhs => h.exist o = true ∧ h.exist rhs = true
  | .clear o => h.exist o = true
  | .destroy o => h.exist o = true

def exec (tv : PayloadType V) (te : PayloadType E) : Op V E → Prog (Heap V E) Place Unit
  | .constructEmpty o => Folly.constructEmpty o
  | .constructValue o vs cat => Folly.constructValue o (vs.as cat)
  | .constructError o es cat => Folly.constructError o (es.as cat)
  | .constructCopy o rhs => Folly.constructCopy tv te o rhs
  | .constructMove o rhs => Folly.constructMove tv te o rhs
  | .assignValue o vs cat => Folly.assignValue tv o (vs.as cat)
  | .assignError o es cat => Folly.assignError te o (es.as cat)
  | .assign o rhs cat => Folly.assign tv te o rhs cat
  | .assignForeign o rhs cat => Folly.assignForeign tv te o rhs cat
  | .assignCopy o rhs => Folly.assignCopy tv te o rhs
  | .assignMove o rhs => Folly.assignMove tv te o rhs
  | .clear o => Folly.clear o
  | .destroy o => Folly.destroy o

end Op

/-- The machines a client can reach, from no object at all, by operations that meet `ok` in the
heap and with the schedule they run on. An operation that terminated the process leads nowhere. -/
inductive Reachable (tv : PayloadType V) (te : PayloadType E)
    (ok : Op V E → Heap V E → List Bool → Prop) : Machine (Heap V E) Place → Prop where
  | start : Reachable tv te ok ⟨Objects.empty .eEmpty, [], []⟩
  | step {m m' : Machine (Heap V E) Place} (op : Op V E) (throws : List Bool)
      (hm : Reachable tv te ok m) (husable : op.Usable m.mem) (hok : ok op m.mem throws)
      (hexec : (op.exec tv te { m with throws := throws }).after = some m') :
      Reachable tv te ok m'

end Storage

end Hy.Folly

import HyServer.Cpp.Slots
import HyServer.Expected.Storage

/-!
# hy::expected — objects with the general storage (`eUnion`)

A memory of any number of `ExpectedStorage<V, E, eUnion>` objects. An object exists from the end of
its constructor to the end of its destructor.
-/

namespace Hy.Tiny

open Cpp

/-- The tag is `has_val_`, the slots are `val_` and `unex_`. -/
abbrev Heap (V E : Type) := Objects Bool V E

namespace Heap

variable {V E : Type}

abbrev setHasVal (o : Nat) (b : Bool) : Heap V E → Heap V E :=
  Objects.setTag o b

abbrev valCell (o : Nat) : Cell (Heap V E) Place V :=
  Objects.leftCell o

abbrev unexCell (o : Nat) : Cell (Heap V E) Place E :=
  Objects.rightCell o

def layout (o : Nat) : Layout (Heap V E) Place V E where
  hasVal h := (h.obj o).tag
  setHasVal := setHasVal o
  val := valCell o
  unex := unexCell o

end Heap

/-! ## Construction and destruction -/

section Operations

variable {V E : Type}

/-- `ExpectedStorage(U&&)`: `has_val_{true}, val_{std::forward<U>(v)}`. A constructor that throws
leaves no object. -/
def constructValue (o : Nat) (v : Init (Heap V E) V) : Prog (Heap V E) Place Unit := do
  update (Heap.setHasVal o true)
  constructAt (Heap.valCell o) v
  update (Objects.setExist o true)

/-- `ExpectedStorage(const unexpected<G>&)` and `ExpectedStorage(unexpected<G>&&)`. -/
def constructUnexpected (o : Nat) (g : Init (Heap V E) E) : Prog (Heap V E) Place Unit := do
  update (Heap.setHasVal o false)
  constructAt (Heap.unexCell o) g
  update (Objects.setExist o true)

/-- A copy. Here too the constructors for it are templates, and the implicit copy constructor runs,
which copies `has_val_` and the bytes of the union. It is deleted where one of the members has a
copy constructor that is not trivial. -/
def constructCopy (tv : ElemType V) (te : ElemType E) (o rhs : Nat) :
    Prog (Heap V E) Place Unit := do
  (Heap.layout o).assignCopy (Heap.layout rhs) tv te
  update (Objects.setExist o true)

/-- The template `ExpectedStorage(const ExpectedStorage&)`, which makes no copy, as the implicit
constructor is the better match. -/
def constructCopyTemplate (tv : ElemType V) (te : ElemType E) (o rhs : Nat) :
    Prog (Heap V E) Place Unit := do
  let rhsHasVal ← look (Heap.layout rhs).hasVal
  update (Heap.setHasVal o rhsHasVal)
  if ← look (Heap.layout o).hasVal then
    constructAt (Heap.valCell o) (Init.copy tv (Heap.valCell rhs))
  else
    constructAt (Heap.unexCell o) (Init.copy te (Heap.unexCell rhs))
  update (Objects.setExist o true)

/-- `~ExpectedStorage()` -/
def destroy (o : Nat) : Prog (Heap V E) Place Unit := do
  if ← look (Heap.layout o).hasVal then
    destroyAt (Heap.valCell o)
  else
    destroyAt (Heap.unexCell o)
  update (Objects.setExist o false)

/-! ## Operations as data -/

/-- One operation of a client. `cat` says which of the two `unexpected` overloads is called. -/
inductive Op (V E : Type) where
  | constructValue (o : Nat) (v : ForwardArg V) (cat : ValueCategory)
  | constructUnexpected (o : Nat) (g : ForwardArg E) (cat : ValueCategory)
  | assignValue (o : Nat) (v : ForwardArg V) (cat : ValueCategory)
  | assignUnexpected (o : Nat) (g : UnexpectedArg V E) (cat : ValueCategory)
  | assignCopy (o p : Nat)
  | assignMove (o p : Nat)
  | swap (o p : Nat)
  | destroy (o : Nat)

namespace Op

/-- The objects an operation is called on exist, and the one it constructs does not yet. -/
def Usable (h : Heap V E) : Op V E → Prop
  | .constructValue o _ _ => h.exist o = false
  | .constructUnexpected o _ _ => h.exist o = false
  | .assignValue o _ _ => h.exist o = true
  | .assignUnexpected o _ _ => h.exist o = true
  | .assignCopy o p => h.exist o = true ∧ h.exist p = true
  | .assignMove o p => h.exist o = true ∧ h.exist p = true
  | .swap o p => h.exist o = true ∧ h.exist p = true
  | .destroy o => h.exist o = true

/-- What the `enable_if` of an operation asks of the `noexcept` traits; the implicit copy assignment
asks that the members' are trivial. -/
def Enabled (tv : ElemType V) (te : ElemType E) : Op V E → Prop
  | .constructValue _ _ _ => True
  | .constructUnexpected _ _ _ => True
  | .assignValue _ v cat =>
    (v.nothrowConstruct cat || tv.nothrowMoveConstructible || te.nothrowMoveConstructible) = true
  | .assignUnexpected _ g cat =>
    (g.error.nothrowConstruct cat || tv.nothrowMoveConstructible
      || te.nothrowMoveConstructible) = true
  | .assignCopy _ _ => (tv.trivialCopyAssignment && te.trivialCopyAssignment) = true
  | .assignMove _ _ => (tv.nothrowMoveConstructible || te.nothrowMoveConstructible) = true
  | .swap _ _ => (tv.nothrowMoveConstructible || te.nothrowMoveConstructible) = true
  | .destroy _ => True

def exec (tv : ElemType V) (te : ElemType E) : Op V E → Prog (Heap V E) Place Unit
  | .constructValue o v cat => Tiny.constructValue o (v.asBraced cat)
  | .constructUnexpected o g cat => Tiny.constructUnexpected o (g.asBraced cat)
  | .assignValue o v cat => (Heap.layout o).assignValue tv te (v.as cat)
  | .assignUnexpected o g cat =>
    (Heap.layout o).assignUnexpected tv te (g.error.as cat) (g.value.as cat)
  | .assignCopy o p => (Heap.layout o).assignCopy (Heap.layout p) tv te
  | .assignMove o p => (Heap.layout o).assignMove (Heap.layout p) tv te
  | .swap o p => (Heap.layout o).swap (Heap.layout p) tv te
  | .destroy o => Tiny.destroy o

end Op

/-- The machines a client can reach, from no object at all, by operations that meet `ok` in the
heap and with the schedule they run on. An operation that terminated the process leads nowhere. -/
inductive Reachable (tv : ElemType V) (te : ElemType E)
    (ok : Op V E → Heap V E → List Bool → Prop) : Machine (Heap V E) Place → Prop where
  | start : Reachable tv te ok ⟨Objects.empty false, [], []⟩
  | step {m m' : Machine (Heap V E) Place} (op : Op V E) (throws : List Bool)
      (hm : Reachable tv te ok m) (husable : op.Usable m.mem) (henabled : op.Enabled tv te)
      (hok : ok op m.mem throws)
      (hexec : (op.exec tv te { m with throws := throws }).after = some m') :
      Reachable tv te ok m'

end Operations

end Hy.Tiny

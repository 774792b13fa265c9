import HyServer.Cpp.ObjectBytes
import HyServer.Folly.Storage

/-!
# hy::expected after folly — objects with the two POD storages

`ExpectedStorage<Value, Error, ePODUnion>` and `ExpectedStorage<Value, Error, ePODStruct>` of
`Expected_folly.hpp`, whose code is the same but for the constructors: the union initialises its
members in braces, the struct in parentheses. The members have no lifetimes to keep: their
destructors do nothing, and any of them may be written at any time. `clear` is empty, and copying
and moving an object is left to the compiler.

* `PodStorage` — how the code reaches the members of the objects in a memory.
* `PodUnions` — the members of an object share their bytes.
* `PodStructs` — an object has both members, which the constructors always initialise.
* `PodStorage.view` — what an observer sees of an object, and `PodStorage.Lawful` the rules by which
  it changes.
-/

namespace Hy.Folly

open Cpp

/-! ## The code -/

/-- The objects of a POD storage in a memory, and whether `t = T(us...)` is well-formed for each of
the two element types. -/
structure PodStorage (σ V E : Type) where
  which : Nat → σ → Which
  setWhich : Nat → Which → σ → σ
  value : Nat → Cell σ Place V
  error : Nat → Cell σ Place E
  /-- What the constructor for an alternative does to the members it has no argument for. -/
  initOthers : Nat → Which → σ → σ
  /-- The first object becomes a copy of the second one. -/
  copyObject : Nat → Nat → σ → σ
  /-- Whether the constructors initialise a member with `{us...}`, instead of `(us...)`. -/
  braces : Bool
  valueAssignable : Bool
  errorAssignable : Bool

namespace PodStorage

variable {σ T V E : Type} (L : PodStorage σ V E)

def clear : Prog σ Place Unit := pure ()

/-- `assignValue` and `assignError`, which differ in the alternative `w` and its member. -/
def assignMember (assignable : Bool) (w : Which) (member : Cell σ Place T) (o : Nat)
    (us : Init σ T) : Prog σ Place Unit := do
  doEmplaceAssign ⟨.trivial T, assignable⟩ member us
  update (L.setWhich o w)

def assignValue (o : Nat) (vs : Init σ V) : Prog σ Place Unit :=
  L.assignMember L.valueAssignable .eValue (L.value o) o vs

def assignError (o : Nat) (es : Init σ E) : Prog σ Place Unit :=
  L.assignMember L.errorAssignable .eError (L.error o) o es

/-- `assign(Other&&)` from an object of the same type. To a member of a trivially copyable type it
does not matter with which category it is forwarded. -/
def assign (o rhs : Nat) : Prog σ Place Unit := do
  match ← look (L.which rhs) with
  | .eValue => L.assignValue o (Init.copy (.trivial V) (L.value rhs))
  | .eError => L.assignError o (Init.copy (.trivial E) (L.error rhs))
  | .eEmpty => clear

/-- `assign(Other&&)` from an object of another type. -/
def assignForeign (o : Nat) (rhs : Foreign V E) (cat : ValueCategory) : Prog σ Place Unit :=
  match rhs with
  | .eValue v => L.assignValue o (v.as cat)
  | .eError e => L.assignError o (e.as cat)
  | .eEmpty => clear

def constructEmpty (o : Nat) : Prog σ Place Unit := do
  update (L.initOthers o .eEmpty)
  update (L.setWhich o .eEmpty)

/-- The argument as the constructors initialise a member with it. -/
def initMember (us : ForwardArg T) (cat : ValueCategory) : Init σ T :=
  if L.braces then us.asBraced cat else us.as cat

/-- The constructors for a `ValueTag` and an `ErrorTag`; the latter is also what the default
constructor does. Both are `noexcept` as `T(us...)` is, in braces or not. -/
def constructMember (w : Which) (member : Cell σ Place T) (o : Nat) (us : ForwardArg T)
    (cat : ValueCategory) : Prog σ Place Unit :=
  noexceptIf (us.nothrowConstruct cat) do
    update (L.initOthers o w)
    constructAt member (L.initMember us cat)
    update (L.setWhich o w)

def constructValue (o : Nat) (vs : ForwardArg V) (cat : ValueCategory) : Prog σ Place Unit :=
  L.constructMember .eValue (L.value o) o vs cat

def constructError (o : Nat) (es : ForwardArg E) (cat : ValueCategory) : Prog σ Place Unit :=
  L.constructMember .eError (L.error o) o es cat

/-- The implicit constructors and the implicit `operator=`, where they are not deleted. -/
def copyFrom (o rhs : Nat) : Prog σ Place Unit :=
  update (L.copyObject o rhs)

def exec : Op V E → Prog σ Place Unit
  | .constructEmpty o => L.constructEmpty o
  | .constructValue o vs cat => L.constructValue o vs cat
  | .constructError o es cat => L.constructError o es cat
  | .constructCopy o rhs => L.copyFrom o rhs
  | .constructMove o rhs => L.copyFrom o rhs
  | .assignValue o vs cat => L.assignValue o (vs.as cat)
  | .assignError o es cat => L.assignError o (es.as cat)
  | .assign o rhs _ => L.assign o rhs
  | .assignForeign o rhs cat => L.assignForeign o rhs cat
  | .assignCopy o rhs => L.copyFrom o rhs
  | .assignMove o rhs => L.copyFrom o rhs
  | .clear _ => clear
  | .destroy _ => pure ()

end PodStorage

/-! ## `ePODUnion` -/

/-- The tags and the shared bytes of the objects. `padding` supplies what ends up in padding bytes,
one block of bytes for each store. -/
structure PodUnions where
  which : Nat → Which
  bytes : Nat → Nat → UInt8
  padding : Nat → Nat → UInt8

namespace PodUnions

variable {T V E : Type}

def store (ty : PodType T) (o : Nat) (t : T) (h : PodUnions) : PodUnions :=
  { h with
    bytes := Function.update h.bytes o (ty.store (h.padding 0) t (h.bytes o))
    padding := fun n => h.padding (n + 1) }

def cell (ty : PodType T) (o : Nat) (k : Slot) : Cell PodUnions Place T where
  loc := (o, k)
  alive _ := true
  vacant _ := true
  read h := ty.decode (h.bytes o)
  write := store ty o
  erase := id

/-- `ch_{0}` in the constructor for an `EmptyTag`; the others construct one member of the union and
leave the rest of it. -/
def initOthers (o : Nat) (w : Which) (h : PodUnions) : PodUnions :=
  match w with
  | .eEmpty => { h with bytes := Function.update h.bytes o (Function.update (h.bytes o) 0 0) }
  | .eValue => h
  | .eError => h

def storage (pv : PodType V) (pe : PodType E) (av ae : Bool) : PodStorage PodUnions V E where
  which o h := h.which o
  setWhich o w h := { h with which := Function.update h.which o w }
  value o := cell pv o .left
  error o := cell pe o .right
  initOthers := initOthers
  copyObject o rhs h :=
    { h with
      which := Function.update h.which o (h.which rhs)
      bytes := Function.update h.bytes o (h.bytes rhs) }
  braces := true
  valueAssignable := av
  errorAssignable := ae

end PodUnions

/-! ## `ePODStruct` -/

/-- The tags and the two members of the objects. -/
structure PodStructs (V E : Type) where
  which : Nat → Which
  error : Nat → E
  value : Nat → V

namespace PodStructs

variable {V E : Type}

def setError (o : Nat) (e : E) (h : PodStructs V E) : PodStructs V E :=
  { h with error := Function.update h.error o e }

def setValue (o : Nat) (v : V) (h : PodStructs V E) : PodStructs V E :=
  { h with value := Function.update h.value o v }

def valueCell (o : Nat) : Cell (PodStructs V E) Place V where
  loc := (o, .left)
  alive _ := true
  vacant _ := true
  read h := some (h.value o)
  write := setValue o
  erase := id

def errorCell (o : Nat) : Cell (PodStructs V E) Place E where
  loc := (o, .right)
  alive _ := true
  vacant _ := true
  read h := some (h.error o)
  write := setError o
  erase := id

/-- `error_{}` and `value_{}`, where `v₀` and `e₀` are the value-initialised elements. -/
def initOthers (v₀ : V) (e₀ : E) (o : Nat) (w : Which) (h : PodStructs V E) : PodStructs V E :=
  match w with
  | .eEmpty => setValue o v₀ (setError o e₀ h)
  | .eValue => setError o e₀ h
  | .eError => setValue o v₀ h

def storage (v₀ : V) (e₀ : E) (av ae : Bool) : PodStorage (PodStructs V E) V E where
  which o h := h.which o
  setWhich o w h := { h with which := Function.update h.which o w }
  value := valueCell
  error := errorCell
  initOthers := initOthers v₀ e₀
  copyObject o rhs h :=
    { which := Function.update h.which o (h.which rhs)
      error := Function.update h.error o (h.error rhs)
      value := Function.update h.value o (h.value rhs) }
  braces := false
  valueAssignable := av
  errorAssignable := ae

end PodStructs

/-! ## What an observer sees -/

section Laws

variable {σ ℓ T V E : Type}

/-- A place where an element may be written at any time, and which destruction does not touch. -/
structure Bare (c : Cell σ ℓ T) : Prop where
  alive : ∀ s, c.alive s = true
  vacant : ∀ s, c.vacant s = true
  erase : ∀ s, c.erase s = s

namespace PodStorage

variable (L : PodStorage σ V E)

/-- `which_` of an object, and what its members read as. -/
def view (o : Nat) (h : σ) : Tagged Which V E :=
  ⟨L.which o h, (L.value o).read h, (L.error o).read h⟩

/-- How the views change. What is done to one object is not seen in another one. -/
structure Lawful : Prop where
  value : ∀ o, Bare (L.value o)
  error : ∀ o, Bare (L.error o)
  view_setWhich : ∀ o w h, L.view o (L.setWhich o w h) = { L.view o h with tag := w }
  left_write : ∀ o v h, (L.view o ((L.value o).write v h)).left = some v
  right_write : ∀ o e h, (L.view o ((L.error o).write e h)).right = some e
  view_copyObject : ∀ o rhs h, L.view o (L.copyObject o rhs h) = L.view rhs h
  view_setWhich_of_ne : ∀ {o p} w h, p ≠ o → L.view p (L.setWhich o w h) = L.view p h
  view_writeValue_of_ne : ∀ {o p} v h, p ≠ o → L.view p ((L.value o).write v h) = L.view p h
  view_writeError_of_ne : ∀ {o p} e h, p ≠ o → L.view p ((L.error o).write e h) = L.view p h
  view_initOthers_of_ne : ∀ {o p} w h, p ≠ o → L.view p (L.initOthers o w h) = L.view p h
  view_copyObject_of_ne : ∀ {o p} rhs h, p ≠ o → L.view p (L.copyObject o rhs h) = L.view p h

end PodStorage

theorem PodUnions.lawful (pv : PodType V) (pe : PodType E) (av ae : Bool) :
    (PodUnions.storage pv pe av ae).Lawful where
  value _ := ⟨fun _ => rfl, fun _ => rfl, fun _ => rfl⟩
  error _ := ⟨fun _ => rfl, fun _ => rfl, fun _ => rfl⟩
  view_setWhich o w h := by simp [PodStorage.view, storage, cell]
  left_write o v h := by simp [PodStorage.view, storage, cell, store]
  right_write o e h := by simp [PodStorage.view, storage, cell, store]
  view_copyObject o rhs h := by simp [PodStorage.view, storage, cell]
  view_setWhich_of_ne w h hp := by simp [PodStorage.view, storage, cell, hp]
  view_writeValue_of_ne v h hp := by simp [PodStorage.view, storage, cell, store, hp]
  view_writeError_of_ne e h hp := by simp [PodStorage.view, storage, cell, store, hp]
  view_initOthers_of_ne w h hp := by
    cases w <;> simp [PodStorage.view, storage, cell, initOthers, hp]
  view_copyObject_of_ne rhs h hp := by simp [PodStorage.view, storage, cell, hp]

theorem PodStructs.lawful (v₀ : V) (e₀ : E) (av ae : Bool) :
    (PodStructs.storage v₀ e₀ av ae).Lawful where
  value _ := ⟨fun _ => rfl, fun _ => rfl, fun _ => rfl⟩
  error _ := ⟨fun _ => rfl, fun _ => rfl, fun _ => rfl⟩
  view_setWhich o w h := by simp [PodStorage.view, storage, valueCell, errorCell]
  left_write o v h := by simp [PodStorage.view, storage, valueCell, setValue]
  right_write o e h := by simp [PodStorage.view, storage, errorCell, setError]
  view_copyObject o rhs h := by simp [PodStorage.view, storage, valueCell, errorCell]
  view_setWhich_of_ne w h hp := by simp [PodStorage.view, storage, valueCell, errorCell, hp]
  view_writeValue_of_ne v h hp := by
    simp [PodStorage.view, storage, valueCell, errorCell, setValue, hp]
  view_writeError_of_ne e h hp := by
    simp [PodStorage.view, storage, valueCell, errorCell, setError, hp]
  view_initOthers_of_ne w h hp := by
    cases w <;>
      simp [PodStorage.view, storage, valueCell, errorCell, initOthers, setValue, setError, hp]
  view_copyObject_of_ne rhs h hp := by
    simp [PodStorage.view, storage, valueCell, errorCell, hp]

end Laws

end Hy.Folly

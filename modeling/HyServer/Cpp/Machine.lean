import Mathlib.Logic.Function.Basic

/-!
# Cpp — element operations of a C++ program, with throw points and lifetimes

A small machine for C++ code that creates, assigns and destroys elements by hand. A program is a
`Prog σ ℓ α`: it runs on a memory of type `σ`, touches element places named by `ℓ`, and ends in an
`Outcome`.

* **Throw points.** Every element operation that is not declared `noexcept` asks the schedule
  `throws` whether it throws now. A schedule is a finite list of answers and an exhausted one says
  "no", so the schedules together are exactly the choices of throwing operations of a finite run.
* **Lifetimes.** A program faults when it reads, assigns to or destroys an element that is not
  there, and when it constructs over one that is (that element would never be destroyed). Each
  construction and destruction is also logged, so the lifetimes can be replayed from the log.
* **Locals.** An automatic variable is destroyed on every way out of its scope that unwinds the
  stack; its place in the log is `none`.
-/

namespace Cpp

/-- A step that breaks the lifetime rules. -/
inductive Fault where
  | deadRead
  | deadAssign
  | deadDestroy
  | liveOverwrite
  /-- A recursion bound of the model was reached; the program itself would recurse on. -/
  | recursionBound
  deriving DecidableEq, Repr

/-- What the log says of an element place: an element began or ended its life there. -/
inductive Event (ℓ : Type) where
  | born (l : ℓ)
  | died (l : ℓ)
  deriving DecidableEq, Repr

/-- The memory, what the next throw points answer, and the log of constructions and
destructions, oldest first. Locals are logged at the place `none`. -/
structure Machine (σ ℓ : Type) where
  mem : σ
  throws : List Bool
  log : List (Event (Option ℓ))

/-- The ways a program ends. `terminated` is `std::terminate`: an exception met a `noexcept`. -/
inductive Outcome (σ ℓ α : Type) where
  | returned (a : α) (m : Machine σ ℓ)
  | threw (m : Machine σ ℓ)
  | terminated (m : Machine σ ℓ)
  | fault (f : Fault)

/-- The machine after an operation that gave control back, by returning or by throwing. -/
def Outcome.after {σ ℓ α : Type} : Outcome σ ℓ α → Option (Machine σ ℓ)
  | .returned _ m => some m
  | .threw m => some m
  | .terminated _ => none
  | .fault _ => none

def Prog (σ ℓ α : Type) : Type := Machine σ ℓ → Outcome σ ℓ α

section Programs

variable {σ ℓ α β T : Type}

instance : Monad (Prog σ ℓ) where
  pure a := fun m => .returned a m
  bind x f := fun m =>
    match x m with
    | .returned a m' => f a m'
    | .threw m' => .threw m'
    | .terminated m' => .terminated m'
    | .fault e => .fault e

/-! ## Memory access -/

/-- Read something off the memory. -/
def look (f : σ → α) : Prog σ ℓ α := fun m => .returned (f m.mem) m

/-- Update the memory. -/
def update (f : σ → σ) : Prog σ ℓ Unit := fun m => .returned () { m with mem := f m.mem }

def emit (e : Event (Option ℓ)) : Prog σ ℓ Unit :=
  fun m => .returned () { m with log := m.log ++ [e] }

/-- Fault unless the memory satisfies `p`. -/
def require (f : Fault) (p : σ → Bool) : Prog σ ℓ Unit :=
  fun m => if p m.mem then .returned () m else .fault f

/-- Stop with a fault. -/
def faulty (f : Fault) : Prog σ ℓ α := fun _ => .fault f

/-! ## Exceptions -/

/-- The answer of a schedule at a throw point of an operation: a `noexcept` operation does not
ask. -/
def throwsNext (nothrow : Bool) (throws : List Bool) : Bool :=
  !nothrow && throws.head?.getD false

/-- A throw point. -/
def mayThrow (nothrow : Bool) : Prog σ ℓ Unit := fun m =>
  let m' := if nothrow then m else { m with throws := m.throws.tail }
  if throwsNext nothrow m.throws then .threw m' else .returned () m'

/-- `throw e;` -/
def raise : Prog σ ℓ α := fun m => .threw m

/-- `try { body } catch (...) { handler; throw; }` -/
def tryRethrow (body : Prog σ ℓ α) (handler : Prog σ ℓ Unit) : Prog σ ℓ α := fun m =>
  match body m with
  | .threw m' =>
    match handler m' with
    | .returned _ m'' => .threw m''
    | .threw m'' => .threw m''
    | .terminated m'' => .terminated m''
    | .fault e => .fault e
  | o => o

/-- A function declared `noexcept(cond)`. -/
def noexceptIf (cond : Bool) (body : Prog σ ℓ α) : Prog σ ℓ α := fun m =>
  match body m with
  | .threw m' => if cond then .terminated m' else .threw m'
  | o => o

/-! ## Elements -/

/-- The value category of a forwarded argument: `const T&` (or `T&`) against `T&&`. -/
inductive ValueCategory where
  | lvalue
  | rvalue
  deriving DecidableEq, Repr

/-- The special members of an element type: which of them are `noexcept`, which are trivial, and
what a completed move leaves in its source. -/
structure ElemType (T : Type) where
  nothrowMoveConstructible : Bool
  nothrowMoveAssignable : Bool
  nothrowCopyConstructible : Bool
  nothrowCopyAssignable : Bool
  trivialCopyConstructor : Bool
  trivialCopyAssignment : Bool
  trivialDestructor : Bool
  movedFrom : T → T

/-- A type whose special members copy bytes and never throw, as those of a POD type do. -/
def ElemType.trivial (T : Type) : ElemType T where
  nothrowMoveConstructible := true
  nothrowMoveAssignable := true
  nothrowCopyConstructible := true
  nothrowCopyAssignable := true
  trivialCopyConstructor := true
  trivialCopyAssignment := true
  trivialDestructor := true
  movedFrom := id

/-- `is_nothrow_swappable` of a type that `std::swap` swaps. -/
def ElemType.nothrowSwappable {T : Type} (ty : ElemType T) : Bool :=
  ty.nothrowMoveConstructible && ty.nothrowMoveAssignable

/-- An initializer or a right-hand side of type `T`: whether construction and assignment from it
are `noexcept`, and the value it gives with its effect on the memory it is taken from. `run` is
`none` when it reads an element that is not there. -/
structure Init (σ T : Type) where
  nothrowConstruct : Bool
  nothrowAssign : Bool
  run : σ → Option (T × σ)

/-- An element place of type `T` in the memory: whether an element is there, whether a
construction there would lose none, and how it is read, written and erased. -/
structure Cell (σ ℓ T : Type) where
  loc : ℓ
  alive : σ → Bool
  vacant : σ → Bool
  read : σ → Option T
  write : T → σ → σ
  erase : σ → σ

/-- What is written can be read back. -/
structure Cell.Lawful {σ ℓ T : Type} (c : Cell σ ℓ T) : Prop where
  alive_write : ∀ t s, c.alive (c.write t s) = true
  read_write : ∀ t s, c.read (c.write t s) = some t

/-- An argument from outside the memory, already converted. -/
def Init.ofArg (nothrowConstruct nothrowAssign : Bool) (t : T) : Init σ T where
  nothrowConstruct := nothrowConstruct
  nothrowAssign := nothrowAssign
  run s := some (t, s)

/-- The element of a cell as a `const T&`. -/
def Init.copy (ty : ElemType T) (c : Cell σ ℓ T) : Init σ T where
  nothrowConstruct := ty.nothrowCopyConstructible
  nothrowAssign := ty.nothrowCopyAssignable
  run s := (c.read s).map fun t => (t, s)

/-- `std::move` of the element of a cell. -/
def Init.move (ty : ElemType T) (c : Cell σ ℓ T) : Init σ T where
  nothrowConstruct := ty.nothrowMoveConstructible
  nothrowAssign := ty.nothrowMoveAssignable
  run s := (c.read s).map fun t => (t, c.write (ty.movedFrom t) s)

/-- `std::move` of a local, which nothing reads afterwards. -/
def Init.moveLocal (ty : ElemType T) (t : T) : Init σ T :=
  Init.ofArg ty.nothrowMoveConstructible ty.nothrowMoveAssignable t

/-- A forwarded argument from outside the memory: the element `T(std::forward<U>(u))` that it makes,
the element `T{std::forward<U>(u)}`, which is another one where a constructor from an
`std::initializer_list` comes first, and which of the element's constructors and assignments from it
are `noexcept`, by the category it is forwarded with. -/
structure ForwardArg (T : Type) where
  made : T
  braced : T
  nothrowConstruct : ValueCategory → Bool
  nothrowBraced : ValueCategory → Bool
  nothrowAssign : ValueCategory → Bool

def ForwardArg.as (u : ForwardArg T) (c : ValueCategory) : Init σ T :=
  Init.ofArg (u.nothrowConstruct c) (u.nothrowAssign c) u.made

/-- The argument in braces, as an initializer. -/
def ForwardArg.asBraced (u : ForwardArg T) (c : ValueCategory) : Init σ T :=
  Init.ofArg (u.nothrowBraced c) (u.nothrowAssign c) u.braced

/-- An argument of the element type itself, where that type is trivial. -/
def ForwardArg.trivial (t : T) : ForwardArg T where
  made := t
  braced := t
  nothrowConstruct _ := true
  nothrowBraced _ := true
  nothrowAssign _ := true

/-- An argument that is converted to the element type, which may throw. -/
def ForwardArg.mayThrow (t : T) : ForwardArg T where
  made := t
  braced := t
  nothrowConstruct _ := false
  nothrowBraced _ := false
  nothrowAssign _ := false

/-- Evaluate an initializer. A throw leaves the source as it was, so the effect on the memory
comes after the throw point. -/
def Init.eval (i : Init σ T) (nothrow : Bool) : Prog σ ℓ T := fun m =>
  match i.run m.mem with
  | none => .fault .deadRead
  | some (t, s) =>
    match (mayThrow nothrow m : Outcome σ ℓ Unit) with
    | .returned _ m' => .returned t { m' with mem := s }
    | .threw m' => .threw m'
    | .terminated m' => .terminated m'
    | .fault e => .fault e

/-- `construct_at(addressof(c), i)` -/
def constructAt (c : Cell σ ℓ T) (i : Init σ T) : Prog σ ℓ Unit := do
  let t ← i.eval i.nothrowConstruct
  require .liveOverwrite c.vacant
  update (c.write t)
  emit (.born (some c.loc))

/-- `destroy_at(addressof(c))`. Destructors do not throw. -/
def destroyAt (c : Cell σ ℓ T) : Prog σ ℓ Unit := do
  require .deadDestroy c.alive
  update c.erase
  emit (.died (some c.loc))

/-- `c = i`. An assignment that throws is taken to leave its target as it was. -/
def assignAt (c : Cell σ ℓ T) (i : Init σ T) : Prog σ ℓ Unit := do
  require .deadAssign c.alive
  let t ← i.eval i.nothrowAssign
  update (c.write t)

/-- The bytes of `src` over those of `c`, as where the copies of a union are trivial: afterwards `c`
holds what `src` holds. No destructor runs. An element whose place is taken by none has ended its
life all the same, but it has been destroyed only if its destructor is trivial. -/
def copyBytesAt (ty : ElemType T) (c src : Cell σ ℓ T) : Prog σ ℓ Unit := do
  let there ← look c.alive
  match ← look src.read with
  | some t =>
    update (c.write t)
    if there then pure () else emit (.born (some c.loc))
  | none =>
    update c.erase
    if there && ty.trivialDestructor then emit (.died (some c.loc)) else pure ()

/-- Run `body`, then log the end of the innermost local, also when `body` threw. -/
def unwindLocal (body : Prog σ ℓ α) : Prog σ ℓ α := fun m =>
  match body m with
  | .returned a m' => .returned a { m' with log := m'.log ++ [.died none] }
  | .threw m' => .threw { m' with log := m'.log ++ [.died none] }
  | o => o

/-- `T temp(i); body` in a scope of its own. -/
def withLocal (i : Init σ T) (body : T → Prog σ ℓ α) : Prog σ ℓ α := do
  let t ← i.eval i.nothrowConstruct
  emit (.born none)
  unwindLocal (body t)

/-- `std::swap` of two elements. -/
def swapElems (ty : ElemType T) (a b : Cell σ ℓ T) : Prog σ ℓ Unit :=
  withLocal (Init.move ty a) fun tmp => do
    assignAt a (Init.move ty b)
    assignAt b (Init.moveLocal ty tmp)

end Programs

end Cpp

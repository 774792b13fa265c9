import HyServer.Expected.PodSwap
import HyServer.Expected.Transfer

/-!
# hy::expected — the three storages, over whole histories

What a client of `expected` is told: an object holds a value or an error, and each operation says
which of them it then holds. The storages bring this about in three ways, with members that are
constructed and destroyed, with members that share their bytes, and with both members at once. Here
they are driven by one history of operations on any number of objects.

* `Call` — the operations: those of `Op`, and the constructors from another object.
* `Kind.exec` — what a storage does on each of them, and `Kind.Admits` what it asks for it.
* `States` — what the objects hold, and `Call.effect` what an operation means for it.
* `Kind.Sim` — the objects of a storage are in the states meant; what each operation on one object
  does keeps it so.
-/

namespace Hy.Tiny

open Cpp

/-! ## Operations -/

/-- One operation of a client. `constructOther` is given what an `expected<U, G>` holds, as the
element that is made of it. -/
inductive Call (V E : Type) where
  | op (op : Op V E)
  | constructCopy (o rhs : Nat)
  | constructMove (o rhs : Nat)
  | constructOther (o : Nat) (other : ForwardArg V ⊕ ForwardArg E) (cat : ValueCategory)

/-- What makes an operation of the general storage compile. The implicit copy constructor asks that
the members' are trivial. -/
def Call.Enabled {V E : Type} (tv : ElemType V) (te : ElemType E) : Call V E → Prop
  | .op basic => basic.Enabled tv te
  | .constructCopy _ _ => (tv.trivialCopyConstructor && te.trivialCopyConstructor) = true
  | .constructMove _ _ => True
  | .constructOther _ _ _ => True

section General

variable {V E : Type}

/-- `ExpectedStorage(ExpectedStorage&&)` of the general storage. Its `noexcept(noexcept(e))` tests
the boolean expression `e`, which never throws. -/
def constructMove (tv : ElemType V) (te : ElemType E) (o rhs : Nat) :
    Prog (Heap V E) Place Unit :=
  noexceptIf true do
    let rhsHasVal ← look (Heap.layout rhs).hasVal
    update (Heap.setHasVal o rhsHasVal)
    if ← look (Heap.layout o).hasVal then
      constructAt (Heap.valCell o) (Init.move tv (Heap.valCell rhs))
    else
      constructAt (Heap.unexCell o) (Init.move te (Heap.unexCell rhs))
    update (Objects.setExist o true)

end General

/-- In the POD storages the copies and the moves are defaulted, and copy the bytes of an object. -/
def PodUnions.copyObject (o rhs : Nat) (h : PodUnions) : PodUnions :=
  { h with
    hasVal := Function.update h.hasVal o (h.hasVal rhs)
    bytes := Function.update h.bytes o (h.bytes rhs) }

def PodStructs.copyObject {V E : Type} (o rhs : Nat) (h : PodStructs V E) : PodStructs V E where
  hasVal := Function.update h.hasVal o (h.hasVal rhs)
  val := Function.update h.val o (h.val rhs)
  unex := Function.update h.unex o (h.unex rhs)

namespace Kind

variable {V E T : Type}

/-- The end of a constructor or destructor. The POD storages keep no account of their objects. -/
def setExist : (k : Kind V E) → Nat → Bool → k.Mem → k.Mem
  | .eUnion _ _, o, b, h => Objects.setExist o b h
  | .ePODUnion _ _, _, _, h => h
  | .ePODStruct, _, _, h => h

section Code

variable (k : Kind V E)

/-- `ExpectedStorage(U&&)`, and so the default constructor and the two for `std::in_place_t`. All of
them initialize the member with braces. -/
def constructValue (o : Nat) (v : Init k.Mem V) : Prog k.Mem Place Unit := do
  update ((k.layout o).setHasVal true)
  constructAt (k.layout o).val v
  update (k.setExist o true)

/-- `ExpectedStorage(const unexpected<G>&)` and `ExpectedStorage(unexpected<G>&&)`, and so the two
for `unexpect_t`. -/
def constructUnexpected (o : Nat) (g : Init k.Mem E) : Prog k.Mem Place Unit := do
  update ((k.layout o).setHasVal false)
  constructAt (k.layout o).unex g
  update (k.setExist o true)

/-- How the constructors from another `expected` fill a member: `construct_at(addressof(val_), …)`,
and `val_ = …` in the POD storages. -/
def fill (member : Cell k.Mem Place T) (arg : Init k.Mem T) : Prog k.Mem Place Unit :=
  match k with
  | .eUnion _ _ => constructAt member arg
  | .ePODUnion _ _ => assignAt member arg
  | .ePODStruct => assignAt member arg

/-- `ExpectedStorage(const expected<U, G>&)` and `ExpectedStorage(expected<U, G>&&)` -/
def constructOther (o : Nat) (other : ForwardArg V ⊕ ForwardArg E) (cat : ValueCategory) :
    Prog k.Mem Place Unit := do
  update ((k.layout o).setHasVal other.isLeft)
  match other with
  | .inl v => k.fill (k.layout o).val (v.as cat)
  | .inr g => k.fill (k.layout o).unex (g.as cat)
  update (k.setExist o true)

end Code

/-- The copy and the move constructor. -/
def constructFrom : (k : Kind V E) → Nat → Nat → ValueCategory → Prog k.Mem Place Unit
  | .eUnion tv te, o, rhs, .lvalue => constructCopy tv te o rhs
  | .eUnion tv te, o, rhs, .rvalue => constructMove tv te o rhs
  | .ePODUnion _ _, o, rhs, _ => update (PodUnions.copyObject o rhs)
  | .ePODStruct, o, rhs, _ => update (PodStructs.copyObject o rhs)

/-- The copy and the move assignment. -/
def assignFrom : (k : Kind V E) → Nat → Nat → ValueCategory → Prog k.Mem Place Unit
  | .eUnion tv te, o, rhs, .lvalue => (Heap.layout o).assignCopy (Heap.layout rhs) tv te
  | .eUnion tv te, o, rhs, .rvalue => (Heap.layout o).assignMove (Heap.layout rhs) tv te
  | .ePODUnion _ _, o, rhs, _ => update (PodUnions.copyObject o rhs)
  | .ePODStruct, o, rhs, _ => update (PodStructs.copyObject o rhs)

def swap : (k : Kind V E) → Nat → Nat → Prog k.Mem Place Unit
  | .eUnion tv te, o, p => (Heap.layout o).swap (Heap.layout p) tv te
  | .ePODUnion pv pe, o, p => PodUnions.swap pv pe o p
  | .ePODStruct, o, p => PodStructs.swap o p

/-- `~ExpectedStorage()` -/
def destroy : (k : Kind V E) → Nat → Prog k.Mem Place Unit
  | .eUnion _ _, o => Tiny.destroy o
  | .ePODUnion _ _, _ => pure ()
  | .ePODStruct, _ => pure ()

def exec (k : Kind V E) : Call V E → Prog k.Mem Place Unit
  | .op (.constructValue o v cat) => k.constructValue o (v.asBraced cat)
  | .op (.constructUnexpected o g cat) => k.constructUnexpected o (g.asBraced cat)
  | .op (.assignValue o v cat) => (k.layout o).assignValue k.valType k.unexType (v.as cat)
  | .op (.assignUnexpected o g cat) =>
    (k.layout o).assignUnexpected k.valType k.unexType (g.error.as cat) (g.value.as cat)
  | .op (.assignCopy o p) => k.assignFrom o p .lvalue
  | .op (.assignMove o p) => k.assignFrom o p .rvalue
  | .op (.swap o p) => k.swap o p
  | .op (.destroy o) => k.destroy o
  | .constructCopy o rhs => k.constructFrom o rhs .lvalue
  | .constructMove o rhs => k.constructFrom o rhs .rvalue
  | .constructOther o other cat => k.constructOther o other cat

/-- What a storage asks for an operation: the general storage, what makes it compile; and where the
members share their bytes, `swap` asks that the smaller of them lies inside the larger one. -/
def Admits : Kind V E → Call V E → Prop
  | .eUnion tv te, call => call.Enabled tv te
  | .ePODUnion pv pe, .op (.swap _ _) =>
    (pv.size > pe.size → Inside pe pv) ∧ (¬ pv.size > pe.size → Inside pv pe)
  | _, _ => True

theorem exec_eUnion (tv : ElemType V) (te : ElemType E) (op : Op V E) :
    (Kind.eUnion tv te).exec (.op op) = op.exec tv te := by
  cases op <;> rfl

/-- An operation during which no element operation throws, where it returns. -/
def step (k : Kind V E) (h : k.Mem) (call : Call V E) : Option k.Mem :=
  match k.exec call ⟨h, [], []⟩ with
  | .returned _ m => some m.mem
  | _ => none

theorem step_of_wp {k : Kind V E} {h : k.Mem} {call : Call V E} {P : k.Mem → Prop}
    (hwp : wp (k.exec call) (fun _ m => P m.mem) (fun _ => False) (fun _ => False) ⟨h, [], []⟩) :
    ∃ h', k.step h call = some h' ∧ P h' := by
  obtain ⟨_, m', hrun, hP⟩ := wp_returns hwp
  exact ⟨m'.mem, by rw [step, hrun], hP⟩

end Kind

/-! ## What the operations mean -/

/-- What the objects hold: a value or an error, or nothing where there is no object. -/
abbrev States (V E : Type) := Nat → Option (V ⊕ E)

theorem States.ne_of_eq_none {V E : Type} {a : States V E} {o p : Nat} (ho : a o = none)
    (hp : (a p).isSome = true) : o ≠ p := by
  rintro rfl
  rw [ho] at hp
  cases hp

def holdsValue {V E : Type} : Option (V ⊕ E) → Bool
  | some (.inl _) => true
  | _ => false

def holdsError {V E : Type} : Option (V ⊕ E) → Bool
  | some (.inr _) => true
  | _ => false

namespace Call

variable {V E : Type}

/-- The objects it is called on exist, the one it constructs does not yet, and it is none of the
assignments that the storages do not carry out: a value over an error, and an error over a value. An
object is not moved to itself, as that is for its element type to say. -/
def Allowed (a : States V E) : Call V E → Bool
  | .op (.constructValue o _ _) => (a o).isNone
  | .op (.constructUnexpected o _ _) => (a o).isNone
  | .op (.assignValue o _ _) => holdsValue (a o)
  | .op (.assignUnexpected o _ _) => holdsError (a o)
  | .op (.assignCopy o p) => (a o).isSome && (a p).isSome
  | .op (.assignMove o p) => (a o).isSome && (a p).isSome && o != p
  | .op (.swap o p) => (a o).isSome && (a p).isSome
  | .op (.destroy o) => (a o).isSome
  | .constructCopy o rhs => (a o).isNone && (a rhs).isSome
  | .constructMove o rhs => (a o).isNone && (a rhs).isSome
  | .constructOther o _ _ => (a o).isNone

/-- What an `expected` made of another one holds. -/
def made : ForwardArg V ⊕ ForwardArg E → V ⊕ E :=
  Sum.map ForwardArg.made ForwardArg.made

/-- The target takes what the source holds, and the source keeps what is left of it. -/
def carry (leaves : V ⊕ E → V ⊕ E) (a : States V E) (o p : Nat) : States V E :=
  Function.update (Function.update a p ((a p).map leaves)) o (a p)

def effect (leaves : V ⊕ E → V ⊕ E) (a : States V E) : Call V E → States V E
  | .op (.constructValue o v _) => Function.update a o (some (.inl v.braced))
  | .op (.constructUnexpected o g _) => Function.update a o (some (.inr g.braced))
  | .op (.assignValue o v _) => Function.update a o (some (.inl v.made))
  | .op (.assignUnexpected o g _) => Function.update a o (some (.inr g.error.made))
  | .op (.assignCopy o p) => Function.update a o (a p)
  | .op (.assignMove o p) => carry leaves a o p
  | .op (.swap o p) => exchanged a o p
  | .op (.destroy o) => Function.update a o none
  | .constructCopy o rhs => Function.update a o (a rhs)
  | .constructMove o rhs => carry leaves a o rhs
  | .constructOther o other _ => Function.update a o (some (made other))

end Call

/-- A step of a client that keeps to what is allowed. -/
def States.step {V E : Type} (leaves : V ⊕ E → V ⊕ E) (a : States V E) (call : Call V E) :
    Option (States V E) :=
  if call.Allowed a then some (call.effect leaves a) else none

/-! ## Objects in a state -/

namespace Kind

variable {V E T : Type} {k : Kind V E} {o p q : Nat} {h h' : k.Mem}

/-- All that a storage has for one object is the same in two memories. -/
def Same : (k : Kind V E) → Nat → k.Mem → k.Mem → Prop
  | .eUnion _ _, o, h, h' =>
    Objects.exist h o = Objects.exist h' o ∧ Objects.obj h o = Objects.obj h' o
  | .ePODUnion _ _, o, h, h' =>
    PodUnions.hasVal h o = PodUnions.hasVal h' o ∧ PodUnions.bytes h o = PodUnions.bytes h' o
  | .ePODStruct, o, h, h' =>
    PodStructs.hasVal h o = PodStructs.hasVal h' o ∧ PodStructs.val h o = PodStructs.val h' o ∧
      PodStructs.unex h o = PodStructs.unex h' o

/-- An object of the general storage that was not constructed has no member that is alive. In the
POD storages its bytes may be anything. -/
def Is : (k : Kind V E) → Nat → Option (V ⊕ E) → k.Mem → Prop
  | .eUnion _ _, o, none, h =>
    Objects.exist h o = false ∧ (Objects.obj h o).left = none ∧ (Objects.obj h o).right = none
  | .eUnion _ _, o, some x, h => Objects.exist h o = true ∧ Objects.obj h o = stored x
  | .ePODUnion _ _, _, none, _ => True
  | .ePODUnion pv pe, o, some x, h => (PodUnions.layout pv pe o).Holds h x
  | .ePODStruct, _, none, _ => True
  | .ePODStruct, o, some x, h => (PodStructs.layout o).Holds h x

theorem Is.holds {x : V ⊕ E} (hx : k.Is o (some x) h) : (k.layout o).Holds h x := by
  cases k with
  | eUnion tv te =>
    obtain ⟨-, hobj⟩ := hx
    show (Heap.layout o).Holds h x
    cases x <;>
      simp [Layout.Holds, Heap.layout, Objects.leftCell, Objects.rightCell, hobj, stored]
  | ePODUnion pv pe => exact hx
  | ePODStruct => exact hx

/-- The state of an object is read off what the storage has for it. -/
theorem Is.same {x : Option (V ⊕ E)} (hx : k.Is o x h) (hsame : k.Same o h h') : k.Is o x h' := by
  cases k with
  | eUnion tv te =>
    obtain ⟨hexist, hobj⟩ := hsame
    cases x with
    | none => simpa only [Is, hexist, hobj] using hx
    | some x => simpa only [Is, hexist, hobj] using hx
  | ePODUnion pv pe =>
    obtain ⟨htag, hbytes⟩ := hsame
    rcases x with - | v | e
    · trivial
    · simpa only [Is, Layout.Holds, PodUnions.layout, PodUnions.cell, htag, hbytes] using hx
    · simpa only [Is, Layout.Holds, PodUnions.layout, PodUnions.cell, htag, hbytes] using hx
  | ePODStruct =>
    obtain ⟨htag, hval, hunex⟩ := hsame
    rcases x with - | v | e
    · trivial
    · simpa only [Is, Layout.Holds, PodStructs.layout, PodStructs.valCell, PodStructs.unexCell,
        htag, hval, hunex] using hx
    · simpa only [Is, Layout.Holds, PodStructs.layout, PodStructs.valCell, PodStructs.unexCell,
        htag, hval, hunex] using hx

theorem Same.refl (k : Kind V E) (o : Nat) (h : k.Mem) : k.Same o h h := by
  cases k with
  | eUnion tv te => exact ⟨rfl, rfl⟩
  | ePODUnion pv pe => exact ⟨rfl, rfl⟩
  | ePODStruct => exact ⟨rfl, rfl, rfl⟩

theorem Same.trans {h'' : k.Mem} (hsame : k.Same o h h') (hsame' : k.Same o h' h'') :
    k.Same o h h'' := by
  cases k with
  | eUnion tv te => exact ⟨hsame.1.trans hsame'.1, hsame.2.trans hsame'.2⟩
  | ePODUnion pv pe => exact ⟨hsame.1.trans hsame'.1, hsame.2.trans hsame'.2⟩
  | ePODStruct =>
    exact ⟨hsame.1.trans hsame'.1, hsame.2.1.trans hsame'.2.1, hsame.2.2.trans hsame'.2.2⟩

/-! What is done to one object is not seen in another one. -/

theorem same_setHasVal (hp : p ≠ o) (b : Bool) (h : k.Mem) :
    k.Same p h ((k.layout o).setHasVal b h) := by
  cases k with
  | eUnion tv te => simp [Same, layout, Heap.layout, Objects.setTag, Objects.modify, hp]
  | ePODUnion pv pe => simp [Same, layout, PodUnions.layout, PodUnions.setHasVal, hp]
  | ePODStruct => simp [Same, layout, PodStructs.layout, PodStructs.setHasVal, hp]

theorem same_writeVal (hp : p ≠ o) (v : V) (h : k.Mem) :
    k.Same p h ((k.layout o).val.write v h) := by
  cases k with
  | eUnion tv te => simp [Same, layout, Heap.layout, Objects.leftCell, Objects.modify, hp]
  | ePODUnion pv pe => simp [Same, layout, PodUnions.layout, PodUnions.cell, PodUnions.store, hp]
  | ePODStruct => simp [Same, layout, PodStructs.layout, PodStructs.valCell, hp]

theorem same_writeUnex (hp : p ≠ o) (e : E) (h : k.Mem) :
    k.Same p h ((k.layout o).unex.write e h) := by
  cases k with
  | eUnion tv te => simp [Same, layout, Heap.layout, Objects.rightCell, Objects.modify, hp]
  | ePODUnion pv pe => simp [Same, layout, PodUnions.layout, PodUnions.cell, PodUnions.store, hp]
  | ePODStruct => simp [Same, layout, PodStructs.layout, PodStructs.unexCell, hp]

theorem same_setExist (hp : p ≠ o) (b : Bool) (h : k.Mem) : k.Same p h (k.setExist o b h) := by
  cases k with
  | eUnion tv te => simp [Same, setExist, Objects.setExist, hp]
  | ePODUnion pv pe => exact Same.refl (.ePODUnion pv pe) p h
  | ePODStruct => exact Same.refl .ePODStruct p h

/-! Members that are made, in a new object and in an old one. -/

theorem Is.vacant (hnone : k.Is o none h) (b : Bool) :
    (k.layout o).val.vacant ((k.layout o).setHasVal b h) = true ∧
    (k.layout o).unex.vacant ((k.layout o).setHasVal b h) = true := by
  cases k with
  | eUnion tv te =>
    obtain ⟨-, hleft, hright⟩ := hnone
    simp [layout, Heap.layout, Objects.leftCell, Objects.rightCell, Objects.setTag, Objects.modify,
      hleft, hright]
  | ePODUnion pv pe => exact ⟨rfl, rfl⟩
  | ePODStruct => exact ⟨rfl, rfl⟩

theorem Is.construct_value (hnone : k.Is o none h) (v : V) :
    k.Is o (some (.inl v))
      (k.setExist o true ((k.layout o).val.write v ((k.layout o).setHasVal true h))) := by
  cases k with
  | eUnion tv te =>
    obtain ⟨-, hleft, hright⟩ := hnone
    simp [Is, setExist, Objects.setExist, layout, Heap.layout, Objects.leftCell, Objects.setTag,
      Objects.modify, stored, hright]
  | ePODUnion pv pe =>
    simp [Is, setExist, layout, Layout.Holds, PodUnions.layout, PodUnions.cell, PodUnions.store,
      PodUnions.setHasVal]
  | ePODStruct =>
    simp [Is, setExist, layout, Layout.Holds, PodStructs.layout, PodStructs.valCell,
      PodStructs.unexCell, PodStructs.setHasVal]

theorem Is.construct_error (hnone : k.Is o none h) (e : E) :
    k.Is o (some (.inr e))
      (k.setExist o true ((k.layout o).unex.write e ((k.layout o).setHasVal false h))) := by
  cases k with
  | eUnion tv te =>
    obtain ⟨-, hleft, hright⟩ := hnone
    simp [Is, setExist, Objects.setExist, layout, Heap.layout, Objects.rightCell, Objects.setTag,
      Objects.modify, stored, hleft]
  | ePODUnion pv pe =>
    simp [Is, setExist, layout, Layout.Holds, PodUnions.layout, PodUnions.cell, PodUnions.store,
      PodUnions.setHasVal]
  | ePODStruct =>
    simp [Is, setExist, layout, Layout.Holds, PodStructs.layout, PodStructs.valCell,
      PodStructs.unexCell, PodStructs.setHasVal]

theorem Is.write_value {w : V} (hw : k.Is o (some (.inl w)) h) (v : V) :
    k.Is o (some (.inl v)) ((k.layout o).val.write v h) := by
  cases k with
  | eUnion tv te =>
    obtain ⟨hexist, hobj⟩ := hw
    simp [Is, layout, Heap.layout, Objects.leftCell, Objects.modify, stored, hexist, hobj]
  | ePODUnion pv pe =>
    obtain ⟨htag, -⟩ := hw
    exact ⟨htag, rfl, (PodUnions.lawful pv pe o).val.read_write v h, rfl⟩
  | ePODStruct =>
    obtain ⟨htag, -⟩ := hw
    exact ⟨htag, rfl, (PodStructs.lawful o).val.read_write v h, rfl⟩

theorem Is.write_error {f : E} (hf : k.Is o (some (.inr f)) h) (e : E) :
    k.Is o (some (.inr e)) ((k.layout o).unex.write e h) := by
  cases k with
  | eUnion tv te =>
    obtain ⟨hexist, hobj⟩ := hf
    simp [Is, layout, Heap.layout, Objects.rightCell, Objects.modify, stored, hexist, hobj]
  | ePODUnion pv pe =>
    obtain ⟨htag, -⟩ := hf
    exact ⟨htag, rfl, (PodUnions.lawful pv pe o).unex.read_write e h, rfl⟩
  | ePODStruct =>
    obtain ⟨htag, -⟩ := hf
    exact ⟨htag, rfl, (PodStructs.lawful o).unex.read_write e h, rfl⟩

/-! ## Storages against the meaning -/

/-- Every object is in its state. -/
def Sim (k : Kind V E) (h : k.Mem) (a : States V E) : Prop :=
  ∀ o, k.Is o (a o) h

variable {a : States V E}

/-- Two objects that were changed, or one. -/
theorem Sim.pair (hsim : k.Sim h a) {x y : Option (V ⊕ E)} (ho : k.Is o x h') (hp : k.Is p y h')
    (hothers : ∀ q, q ≠ o → q ≠ p → k.Same q h h') :
    k.Sim h' (Function.update (Function.update a p y) o x) := by
  intro q
  by_cases hqo : q = o
  · subst hqo
    rw [Function.update_self]
    exact ho
  · rw [Function.update_of_ne hqo]
    by_cases hqp : q = p
    · subst hqp
      rw [Function.update_self]
      exact hp
    · rw [Function.update_of_ne hqp]
      exact (hsim q).same (hothers q hqo hqp)

theorem Sim.set (hsim : k.Sim h a) {x : Option (V ⊕ E)} (ho : k.Is o x h')
    (hothers : ∀ q, q ≠ o → k.Same q h h') : k.Sim h' (Function.update a o x) := by
  intro q
  by_cases hqo : q = o
  · subst hqo
    rw [Function.update_self]
    exact ho
  · rw [Function.update_of_ne hqo]
    exact (hsim q).same (hothers q hqo)

/-! The constructors. -/

theorem sim_construct_value (hsim : k.Sim h a) (hnone : a o = none) (v : V) :
    k.Sim (k.setExist o true ((k.layout o).val.write v ((k.layout o).setHasVal true h)))
      (Function.update a o (some (.inl v))) := by
  refine hsim.set (Is.construct_value (hnone ▸ hsim o) v) fun q hq => ?_
  exact ((same_setHasVal hq _ h).trans (same_writeVal hq v _)).trans (same_setExist hq _ _)

theorem sim_construct_error (hsim : k.Sim h a) (hnone : a o = none) (e : E) :
    k.Sim (k.setExist o true ((k.layout o).unex.write e ((k.layout o).setHasVal false h)))
      (Function.update a o (some (.inr e))) := by
  refine hsim.set (Is.construct_error (hnone ▸ hsim o) e) fun q hq => ?_
  exact ((same_setHasVal hq _ h).trans (same_writeUnex hq e _)).trans (same_setExist hq _ _)

theorem wp_constructValue (hsim : k.Sim h a) (hnone : a o = none) (v : ForwardArg V)
    (cat : ValueCategory) :
    wp (k.constructValue o (v.asBraced cat))
      (fun _ m => k.Sim m.mem (Function.update a o (some (.inl v.braced)))) (fun _ => False)
      (fun _ => False) ⟨h, [], []⟩ := by
  unfold constructValue ForwardArg.asBraced
  rw [wp_bind, wp_update, wp_bind, wp_constructAt (run_ofArg ..), if_neg (by simp)]
  exact ⟨(Is.vacant (hnone ▸ hsim o) true).1, sim_construct_value hsim hnone v.braced⟩

theorem wp_constructUnexpected (hsim : k.Sim h a) (hnone : a o = none) (g : ForwardArg E)
    (cat : ValueCategory) :
    wp (k.constructUnexpected o (g.asBraced cat))
      (fun _ m => k.Sim m.mem (Function.update a o (some (.inr g.braced)))) (fun _ => False)
      (fun _ => False) ⟨h, [], []⟩ := by
  unfold constructUnexpected ForwardArg.asBraced
  rw [wp_bind, wp_update, wp_bind, wp_constructAt (run_ofArg ..), if_neg (by simp)]
  exact ⟨(Is.vacant (hnone ▸ hsim o) false).2, sim_construct_error hsim hnone g.braced⟩

/-- Outside the general storage a member may be assigned to at any time. -/
def AlwaysAlive (k : Kind V E) (member : Cell k.Mem Place T) : Prop :=
  (∃ tv te, k = .eUnion tv te) ∨ ∀ h, member.alive h = true

theorem alwaysAlive (k : Kind V E) (o : Nat) :
    k.AlwaysAlive (k.layout o).val ∧ k.AlwaysAlive (k.layout o).unex := by
  cases k with
  | eUnion tv te => exact ⟨.inl ⟨tv, te, rfl⟩, .inl ⟨tv, te, rfl⟩⟩
  | ePODUnion pv pe => exact ⟨.inr fun _ => rfl, .inr fun _ => rfl⟩
  | ePODStruct => exact ⟨.inr fun _ => rfl, .inr fun _ => rfl⟩

theorem wp_fill {member : Cell k.Mem Place T} (halive : k.AlwaysAlive member) {t : T} {b c : Bool}
    {m : Machine k.Mem Place} {Q : Unit → Machine k.Mem Place → Prop}
    {R K : Machine k.Mem Place → Prop} (hthrows : m.throws = [])
    (hvacant : member.vacant m.mem = true)
    (hQ : ∀ m', m'.mem = member.write t m.mem → Q () m') :
    wp (k.fill member (Init.ofArg b c t)) Q R K m := by
  have hassign :
      (∀ h, member.alive h = true) → wp (assignAt member (Init.ofArg b c t)) Q R K m := by
    intro hall
    rw [wp_assignAt (run_ofArg ..), hthrows, if_neg (by simp)]
    exact ⟨hall _, hQ _ rfl⟩
  cases k with
  | eUnion tv te =>
    show wp (constructAt member (Init.ofArg b c t)) Q R K m
    rw [wp_constructAt (run_ofArg ..), hthrows, if_neg (by simp)]
    exact ⟨hvacant, hQ _ rfl⟩
  | ePODUnion pv pe => exact hassign (halive.resolve_left (by simp))
  | ePODStruct => exact hassign (halive.resolve_left (by simp))

theorem wp_constructOther (hsim : k.Sim h a) (hnone : a o = none)
    (other : ForwardArg V ⊕ ForwardArg E) (cat : ValueCategory) :
    wp (k.constructOther o other cat)
      (fun _ m => k.Sim m.mem (Function.update a o (some (Call.made other)))) (fun _ => False)
      (fun _ => False) ⟨h, [], []⟩ := by
  have hvacant := Is.vacant (hnone ▸ hsim o)
  unfold constructOther
  cases other with
  | inl v =>
    simp only [wp_bind, wp_update, Sum.isLeft_inl]
    refine wp_fill (k.alwaysAlive o).1 rfl (hvacant true).1 fun m hmem => ?_
    rw [wp_update, hmem]
    exact sim_construct_value hsim hnone v.made
  | inr g =>
    simp only [wp_bind, wp_update, Sum.isLeft_inr]
    refine wp_fill (k.alwaysAlive o).2 rfl (hvacant false).2 fun m hmem => ?_
    rw [wp_update, hmem]
    exact sim_construct_error hsim hnone g.made

/-! Assignment over a member that is alive. -/

theorem wp_assignValue (hsim : k.Sim h a) {w : V} (hw : a o = some (.inl w)) (v : ForwardArg V)
    (cat : ValueCategory) :
    wp ((k.layout o).assignValue k.valType k.unexType (v.as cat))
      (fun _ m => k.Sim m.mem (Function.update a o (some (.inl v.made)))) (fun _ => False)
      (fun _ => False) ⟨h, [], []⟩ := by
  have hin : k.Is o (some (.inl w)) h := hw ▸ hsim o
  obtain ⟨htag, halive, -, -⟩ := hin.holds
  unfold Layout.assignValue
  simp only [wp_bind, wp_look, htag, ↓reduceIte]
  rw [ForwardArg.as, wp_assignAt (run_ofArg ..), if_neg (by simp)]
  exact ⟨halive, hsim.set (hin.write_value v.made) fun q hq => same_writeVal hq _ _⟩

theorem wp_assignUnexpected (hsim : k.Sim h a) {f : E} (hf : a o = some (.inr f))
    (g : UnexpectedArg V E) (cat : ValueCategory) :
    wp ((k.layout o).assignUnexpected k.valType k.unexType (g.error.as cat) (g.value.as cat))
      (fun _ m => k.Sim m.mem (Function.update a o (some (.inr g.error.made)))) (fun _ => False)
      (fun _ => False) ⟨h, [], []⟩ := by
  have hin : k.Is o (some (.inr f)) h := hf ▸ hsim o
  obtain ⟨htag, halive, -, -⟩ := hin.holds
  unfold Layout.assignUnexpected
  simp only [wp_bind, wp_look, htag, Bool.false_eq_true, ↓reduceIte]
  rw [ForwardArg.as, wp_assignAt (run_ofArg ..), if_neg (by simp)]
  exact ⟨halive, hsim.set (hin.write_error g.error.made) fun q hq => same_writeUnex hq _ _⟩

end Kind

end Hy.Tiny

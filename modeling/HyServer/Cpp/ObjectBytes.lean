import Mathlib.Data.Option.Basic

/-!
# Cpp — object representations of POD types

The bytes of an object of a POD type: some make up its value, the others are padding. Storing a
value writes the former and leaves anything in the latter; reading consults only the former, and
fails on bytes that represent no value. Two objects may lie over one another, and then a copy of the
one (`copyValue`) may or may not carry the other along (`Survives`).
-/

namespace Cpp

structure PodType (T : Type) where
  size : Nat
  /-- Whether the byte at an offset belongs to the value; the others are padding. -/
  inValue : Nat → Bool
  encode : T → Nat → UInt8
  decode : (Nat → UInt8) → Option T
  decode_encode : ∀ t, decode (encode t) = some t
  decode_congr : ∀ {b b' : Nat → UInt8},
    (∀ i, i < size → inValue i = true → b i = b' i) → decode b = decode b'

namespace PodType

variable {T : Type}

/-- The bytes after `t` has been stored at their start, with `pad` in the padding. -/
def store (ty : PodType T) (pad : Nat → UInt8) (t : T) (bytes : Nat → UInt8) : Nat → UInt8 :=
  fun i =>
    if i < ty.size then
      if ty.inValue i then ty.encode t i else pad i
    else bytes i

@[simp] theorem decode_store (ty : PodType T) (pad : Nat → UInt8) (t : T) (bytes : Nat → UInt8) :
    ty.decode (ty.store pad t bytes) = some t := by
  rw [← ty.decode_encode t]
  refine ty.decode_congr fun i hi hv => ?_
  unfold store
  rw [if_pos hi, if_pos hv]

/-- The bytes at `dst` after the object at their start has been overwritten with the value bytes of
the one at `src`, with `pad` in the padding. -/
def copyValue (ty : PodType T) (pad src dst : Nat → UInt8) : Nat → UInt8 :=
  fun i =>
    if i < ty.size then
      if ty.inValue i then src i else pad i
    else dst i

@[simp] theorem decode_copyValue (ty : PodType T) (pad src dst : Nat → UInt8) :
    ty.decode (ty.copyValue pad src dst) = ty.decode src := by
  refine ty.decode_congr fun i hi hv => ?_
  unfold copyValue
  rw [if_pos hi, if_pos hv]

section Overlaid

variable {U : Type}

/-- The object of type `live` in these bytes outlives a copy as a `moved`: it reads the same
whatever the copy leaves in the padding. -/
def Survives (live : PodType T) (moved : PodType U) (bytes : Nat → UInt8) : Prop :=
  ∀ pad, live.decode (moved.copyValue pad bytes bytes) = live.decode bytes

theorem survives_self (ty : PodType T) (bytes : Nat → UInt8) : ty.Survives ty bytes :=
  fun pad => ty.decode_copyValue pad bytes bytes

/-- It is enough that every value byte of the one is a value byte of the other. -/
theorem survives_of_inValue {live : PodType T} {moved : PodType U}
    (h : ∀ i, i < live.size → live.inValue i = true → i < moved.size → moved.inValue i = true)
    (bytes : Nat → UInt8) : live.Survives moved bytes := by
  intro pad
  refine live.decode_congr fun i hi hv => ?_
  unfold copyValue
  split
  · next hlt => rw [if_pos (h i hi hv hlt)]
  · rfl

/-- Bytes behind the copied object do not matter to one that is no longer. -/
theorem decode_copyValue_of_le {live : PodType T} {moved : PodType U}
    (hsize : live.size ≤ moved.size) (pad src dst : Nat → UInt8) :
    live.decode (moved.copyValue pad src dst) = live.decode (moved.copyValue pad src src) := by
  refine live.decode_congr fun i hi _ => ?_
  have hlt : i < moved.size := by omega
  unfold copyValue
  rw [if_pos hlt, if_pos hlt]

end Overlaid

/-- A single byte, without padding. -/
def byte : PodType UInt8 where
  size := 1
  inValue _ := true
  encode t _ := t
  decode bytes := some (bytes 0)
  decode_encode _ := rfl
  decode_congr h := congrArg some (h 0 Nat.one_pos rfl)

end PodType

end Cpp

import HyServer.Cpp.ObjectBytes
import HyServer.Expected.EUnion

/-!
# hy::expected — objects with the two POD storages, and the three kinds as one

Memories of any number of `ePODUnion` and of `ePODStruct` objects. The members of a POD storage
have no lifetimes to keep: their destructors do nothing and any member may be written at any time.
What such a storage can get wrong is to read a member that holds no value of its type.

* `PodUnions` — the members of an object share their bytes, so writing one changes what the other
  reads as.
* `PodStructs` — each object has both members, one of which may be indeterminate.
* `Kind` — which of the three storages an `expected` has, with its memory and its `Layout`.
-/

namespace Hy.Tiny

open Cpp

/-! ## `ePODUnion` -/

/-- The tags and the shared bytes of the objects. `padding` supplies what ends up in padding
bytes, one block of bytes for each store. -/
structure PodUnions where
  hasVal : Nat → Bool
  bytes : Nat → Nat → UInt8
  padding : Nat → Nat → UInt8

namespace PodUnions

variable {T V E : Type}

def setHasVal (o : Nat) (b : Bool) (h : PodUnions) : PodUnions :=
  { h with hasVal := Function.update h.hasVal o b }

def store (ty : PodType T) (o : Nat) (t : T) (h : PodUnions) : PodUnions :=
  { h with
    bytes := Function.update h.bytes o (ty.store (h.padding 0) t (h.bytes o))
    padding := fun n => h.padding (n + 1) }

def cell (ty : PodType T) (o : Nat) (k : Slot) : Cell PodUnions Place T where
  loc := (o, k)
  alive _ := true
  vacant _ := true
  read h := ty.decode (h.bytes o)
  write := store ty o
  erase := id

def layout (pv : PodType V) (pe : PodType E) (o : Nat) : Layout PodUnions Place V E where
  hasVal h := h.hasVal o
  setHasVal := setHasVal o
  val := cell pv o .left
  unex := cell pe o .right

end PodUnions

/-! ## `ePODStruct` -/

/-- The tags and the two members of the objects; `none` is an indeterminate member. -/
structure PodStructs (V E : Type) where
  hasVal : Nat → Bool
  val : Nat → Option V
  unex : Nat → Option E

namespace PodStructs

variable {V E : Type}

def setHasVal (o : Nat) (b : Bool) (h : PodStructs V E) : PodStructs V E :=
  { h with hasVal := Function.update h.hasVal o b }

def valCell (o : Nat) : Cell (PodStructs V E) Place V where
  loc := (o, .left)
  alive _ := true
  vacant _ := true
  read h := h.val o
  write v h := { h with val := Function.update h.val o (some v) }
  erase := id

def unexCell (o : Nat) : Cell (PodStructs V E) Place E where
  loc := (o, .right)
  alive _ := true
  vacant _ := true
  read h := h.unex o
  write e h := { h with unex := Function.update h.unex o (some e) }
  erase := id

def layout (o : Nat) : Layout (PodStructs V E) Place V E where
  hasVal h := h.hasVal o
  setHasVal := setHasVal o
  val := valCell o
  unex := unexCell o

end PodStructs

/-! ## The three kinds -/

/-- `ExpectedStorageType`, with what each kind knows of its element types. -/
inductive Kind (V E : Type) where
  | eUnion (tv : ElemType V) (te : ElemType E)
  | ePODUnion (pv : PodType V) (pe : PodType E)
  | ePODStruct

namespace Kind

variable {V E : Type}

def Mem : Kind V E → Type
  | .eUnion _ _ => Heap V E
  | .ePODUnion _ _ => PodUnions
  | .ePODStruct => PodStructs V E

def layout : (k : Kind V E) → (o : Nat) → Layout k.Mem Place V E
  | .eUnion _ _, o => Heap.layout o
  | .ePODUnion pv pe, o => PodUnions.layout pv pe o
  | .ePODStruct, o => PodStructs.layout o

def valType : Kind V E → ElemType V
  | .eUnion tv _ => tv
  | _ => .trivial V

def unexType : Kind V E → ElemType E
  | .eUnion _ te => te
  | _ => .trivial E

end Kind

/-! ## What the operators may rely on -/

section Laws

variable {σ ℓ V E : Type}

/-- The tag and the two members of an object can be set one by one. -/
structure Layout.Lawful (L : Layout σ ℓ V E) : Prop where
  val : L.val.Lawful
  unex : L.unex.Lawful
  hasVal_set : ∀ b s, L.hasVal (L.setHasVal b s) = b
  hasVal_writeVal : ∀ v s, L.hasVal (L.val.write v s) = L.hasVal s
  hasVal_writeUnex : ∀ e s, L.hasVal (L.unex.write e s) = L.hasVal s
  unex_vacant_writeVal : ∀ v s, L.unex.vacant (L.val.write v s) = L.unex.vacant s
  val_vacant_writeUnex : ∀ e s, L.val.vacant (L.unex.write e s) = L.val.vacant s
  val_vacant_eraseUnex : ∀ s, L.val.vacant (L.unex.erase s) = L.val.vacant s
  unex_read_set : ∀ b s, L.unex.read (L.setHasVal b s) = L.unex.read s

theorem Heap.lawful (o : Nat) : (Heap.layout o : Layout (Heap V E) Place V E).Lawful where
  val := ⟨by simp [layout, Objects.leftCell], by simp [layout, Objects.leftCell]⟩
  unex := ⟨by simp [layout, Objects.rightCell], by simp [layout, Objects.rightCell]⟩
  hasVal_set := by simp [layout, Objects.setTag]
  hasVal_writeVal := by simp [layout, Objects.leftCell]
  hasVal_writeUnex := by simp [layout, Objects.rightCell]
  unex_vacant_writeVal := by simp [layout, Objects.leftCell, Objects.rightCell]
  val_vacant_writeUnex := by simp [layout, Objects.leftCell, Objects.rightCell]
  val_vacant_eraseUnex := by simp [layout, Objects.leftCell, Objects.rightCell]
  unex_read_set := by simp [layout, Objects.rightCell, Objects.setTag]

theorem PodUnions.lawful (pv : PodType V) (pe : PodType E) (o : Nat) :
    (PodUnions.layout pv pe o).Lawful where
  val := ⟨fun _ _ => rfl, by simp [layout, cell, store]⟩
  unex := ⟨fun _ _ => rfl, by simp [layout, cell, store]⟩
  hasVal_set := by simp [layout, setHasVal]
  hasVal_writeVal _ _ := rfl
  hasVal_writeUnex _ _ := rfl
  unex_vacant_writeVal _ _ := rfl
  val_vacant_writeUnex _ _ := rfl
  val_vacant_eraseUnex _ := rfl
  unex_read_set _ _ := rfl

theorem PodStructs.lawful (o : Nat) :
    (PodStructs.layout o : Layout (PodStructs V E) Place V E).Lawful where
  val := ⟨fun _ _ => rfl, by simp [layout, valCell]⟩
  unex := ⟨fun _ _ => rfl, by simp [layout, unexCell]⟩
  hasVal_set := by simp [layout, setHasVal]
  hasVal_writeVal _ _ := rfl
  hasVal_writeUnex _ _ := rfl
  unex_vacant_writeVal _ _ := rfl
  val_vacant_writeUnex _ _ := rfl
  val_vacant_eraseUnex _ := rfl
  unex_read_set _ _ := rfl

theorem Kind.lawful (k : Kind V E) (o : Nat) : (k.layout o).Lawful := by
  cases k with
  | eUnion tv te => exact Heap.lawful o
  | ePODUnion pv pe => exact PodUnions.lawful pv pe o
  | ePODStruct => exact PodStructs.lawful o

end Laws

end Hy.Tiny

import HyServer.Cpp.Layout

/-!
# hy::expected — the selection of the storage

`expected` of either header is built on one of three storages, and each header has its own selector.
`doc/Expected.md` gives one rule for POD types: two members side by side when their sizes are at
most two pointers together, a union when they are more. The one selector adds the sizes, the other
takes the size of a `std::tuple`, whose members may be laid out in either order.

* `documented` — the rule.
* `getStorageType_eq_documented` — the selector of `Expected_folly.hpp` follows it, padding or not.
* `getExpectedStorageType_eq_documented_iff` — where the one of `Expected_Tiny.hpp` does.
* `followDocumented_iff` — where both do.
-/

open Cpp

namespace Hy

/-- `sizeof(void*)` -/
def sizeofPointer : Nat := 8

namespace Folly

inductive StorageType where
  | ePODStruct
  | ePODUnion
  | eUnion
  deriving DecidableEq, Repr

/-- In which order the members of a tuple are laid out. -/
inductive TupleOrder where
  | declared
  | reversed
  deriving DecidableEq, Repr

def TupleOrder.members : TupleOrder → ObjectType → ObjectType → List ObjectType
  | .declared, Value, Error => [Value, Error]
  | .reversed, Value, Error => [Error, Value]

variable (order : TupleOrder) (Value Error : ObjectType)

/-- `sizeof(std::tuple<Value, Error>)`, `none` when there can be no such class. -/
def sizeofTuple : Option Nat :=
  if structSize (order.members Value Error) < 2 ^ 64 then
    some (structSize (order.members Value Error))
  else none

/-- `none` when there is no tuple, whose size is named whatever the traits are. `sizeof(void* [2])`
is twice the size of a pointer. -/
def getStorageType : Option StorageType := do
  let size ← sizeofTuple order Value Error
  return if Value.isTriviallyCopyable ∧ Error.isTriviallyCopyable then
    if size ≤ 2 * sizeofPointer ∧ Value.isTrivial ∧ Error.isTrivial then .ePODStruct
    else .ePODUnion
  else .eUnion

end Folly

namespace Tiny

inductive ExpectedStorageType where
  | ePODStruct
  | ePODUnion
  | eUnion
  deriving DecidableEq, Repr

/-- The sum is one in `size_t`. -/
def getExpectedStorageType (V E : ObjectType) : ExpectedStorageType :=
  if V.isPod ∧ E.isPod then
    if 2 * sizeofPointer > (V.size + E.size) % 2 ^ 64 then .ePODUnion else .ePODStruct
  else .eUnion

/-- The enumerator of the same name. -/
def ExpectedStorageType.toStorageType : ExpectedStorageType → Folly.StorageType
  | .ePODStruct => .ePODStruct
  | .ePODUnion => .ePODUnion
  | .eUnion => .eUnion

end Tiny

open Folly Tiny

/-- The rule, for POD types. -/
def documented (V E : ObjectType) : StorageType :=
  if V.size + E.size ≤ 2 * sizeofPointer then .ePODStruct else .ePODUnion

/-- Both selectors give the documented kind, and so the same. -/
structure FollowDocumented (order : TupleOrder) (V E : ObjectType) : Prop where
  tiny : (getExpectedStorageType V E).toStorageType = documented V E
  folly : getStorageType order V E = some (documented V E)

section

variable {order : TupleOrder} {V E : ObjectType}

theorem documented_eq_ePODStruct_iff :
    documented V E = .ePODStruct ↔ V.size + E.size ≤ 2 * sizeofPointer := by
  unfold documented
  split
  next h => exact iff_of_true rfl h
  next h => exact iff_of_false (by decide) h

theorem documented_eq_ePODUnion_iff :
    documented V E = .ePODUnion ↔ 2 * sizeofPointer < V.size + E.size := by
  unfold documented
  split
  next h => exact iff_of_false (by decide) (Nat.not_lt.mpr h)
  next h => exact iff_of_true rfl (Nat.lt_of_not_ge h)

/-! ## The tuple -/

theorem structSize_members :
    structSize (order.members V E) = structSize [V, E] := by
  cases order with
  | declared => rfl
  | reversed => exact structSize_pair_comm E V

theorem sizeofTuple_eq_some {size : Nat} (h : sizeofTuple order V E = some size) :
    size = structSize [V, E] ∧ size < 2 ^ 64 := by
  unfold sizeofTuple at h
  rw [structSize_members] at h
  split at h
  next hlt =>
    cases h
    exact ⟨rfl, hlt⟩
  next => cases h

theorem sizeofTuple_of_lt (h : structSize [V, E] < 2 ^ 64) :
    sizeofTuple order V E = some (structSize [V, E]) := by
  rw [sizeofTuple, structSize_members, if_pos h]

/-- Comparing the size of the tuple is comparing the sum of the sizes. -/
theorem structSize_le_two_pointers_iff :
    structSize [V, E] ≤ 2 * sizeofPointer ↔ V.size + E.size ≤ 2 * sizeofPointer :=
  structSize_pair_le_iff V E 4

/-! ## The selectors -/

section

variable (hV : V.isPod) (hE : E.isPod)
include hV hE

theorem getStorageType_eq_documented {size : Nat} (hsize : sizeofTuple order V E = some size) :
    getStorageType order V E = some (documented V E) := by
  obtain ⟨rfl, -⟩ := sizeofTuple_eq_some hsize
  have htrivial : V.isTrivial ∧ E.isTrivial :=
    ⟨ObjectType.isTrivial_of_isPod hV, ObjectType.isTrivial_of_isPod hE⟩
  have hcopyable : V.isTriviallyCopyable ∧ E.isTriviallyCopyable :=
    ⟨ObjectType.isTriviallyCopyable_of_isPod hV, ObjectType.isTriviallyCopyable_of_isPod hE⟩
  rw [getStorageType, hsize]
  show some (ite _ _ _) = _
  rw [if_pos hcopyable, documented]
  by_cases hle : V.size + E.size ≤ 2 * sizeofPointer
  · rw [if_pos hle, if_pos ⟨structSize_le_two_pointers_iff.mpr hle, htrivial⟩]
  · rw [if_neg hle, if_neg fun h => hle (structSize_le_two_pointers_iff.mp h.1)]

/-- The comparison is the other way round, so it follows the rule on the limit only, and when the
sum wraps. -/
theorem getExpectedStorageType_eq_documented_iff :
    (getExpectedStorageType V E).toStorageType = documented V E ↔
      V.size + E.size = 2 * sizeofPointer ∨
        (2 ^ 64 ≤ V.size + E.size ∧ V.size + E.size < 2 ^ 64 + 2 * sizeofPointer) := by
  have hVlt := V.size_lt
  have hElt := E.size_lt
  have hpointer : sizeofPointer = 8 := rfl
  rw [getExpectedStorageType, if_pos ⟨hV, hE⟩]
  by_cases hgt : 2 * sizeofPointer > (V.size + E.size) % 2 ^ 64
  · rw [if_pos hgt]
    show StorageType.ePODUnion = _ ↔ _
    rw [eq_comm, documented_eq_ePODUnion_iff]
    omega
  · rw [if_neg hgt]
    show StorageType.ePODStruct = _ ↔ _
    rw [eq_comm, documented_eq_ePODStruct_iff]
    omega

/-- **Both selectors follow the rule on the limit, and nowhere else.** -/
theorem followDocumented_iff :
    FollowDocumented order V E ↔ V.size + E.size = 2 * sizeofPointer := by
  have hadd := add_size_le_structSize_pair V E
  have hpointer : sizeofPointer = 8 := rfl
  constructor
  · rintro ⟨htiny, hfolly⟩
    rcases (getExpectedStorageType_eq_documented_iff hV hE).mp htiny with heq | ⟨hwraps, -⟩
    · exact heq
    · -- of that size there is no tuple
      obtain ⟨size, hsize, -⟩ := Option.bind_eq_some_iff.mp hfolly
      obtain ⟨rfl, hlt⟩ := sizeofTuple_eq_some hsize
      omega
  · intro heq
    have hle : structSize [V, E] ≤ 2 * sizeofPointer :=
      structSize_le_two_pointers_iff.mpr (Nat.le_of_eq heq)
    exact ⟨(getExpectedStorageType_eq_documented_iff hV hE).mpr (.inl heq),
      getStorageType_eq_documented hV hE (sizeofTuple_of_lt (by omega))⟩

end

end

/-! ## Integers -/

/-- The unsigned integer type of `2 ^ k` bytes. -/
def unsignedOf (k : Nat) (hk : k < 64) : ObjectType where
  size := 2 ^ k
  align := 2 ^ k
  align_isPowerOfTwo := ⟨k, rfl⟩
  align_dvd_size := Nat.dvd_refl _
  size_pos := Nat.two_pow_pos k
  size_lt := Nat.pow_lt_pow_right (by decide) hk
  isTriviallyCopyable := true
  hasTrivialDefaultConstructor := true
  isStandardLayout := true

theorem followDocumented_words :
    FollowDocumented .reversed (unsignedOf 3 (by decide)) (unsignedOf 3 (by decide)) :=
  (followDocumented_iff rfl rfl).mpr rfl

/-- Two objects of four bytes each are at most two pointers together, and are put in a union. -/
theorem not_followDocumented_ints :
    (unsignedOf 2 (by decide)).isPod ∧
      ¬ FollowDocumented .declared (unsignedOf 2 (by decide)) (unsignedOf 2 (by decide)) := by
  refine ⟨rfl, ?_⟩
  intro hfollow
  have htiny := hfollow.tiny
  revert htiny
  decide

end Hy

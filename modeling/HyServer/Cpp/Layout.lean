import Mathlib.Algebra.Order.Floor.Div
import Mathlib.Algebra.Order.Ring.Int

/-!
# Cpp — sizes, alignments and padding

An object stands at a multiple of its type's alignment. The members of a class follow one another,
each at the next place that suits it, and the size of the class is rounded up, so that the next
object of an array suits it too.

* `alignUp` — the next multiple of an alignment.
* `ObjectType` — what a type has to be for its objects to be placed.
* `structSize` — the size of a class, from its members in the order of the layout.
* `structSize_pair` — two members are padded at the end only, in whatever order they stand.
* `structSize_pair_le_iff` — so padding never takes them over a power of two.
-/

namespace Cpp

/-! ## Rounding up -/

def alignUp (n a : Nat) : Nat := a * (n ⌈/⌉ a)

section

variable {n m a : Nat}

/-- It is the least multiple that is not below `n`. -/
theorem alignUp_le_iff (ha : 0 < a) (hm : a ∣ m) : alignUp n a ≤ m ↔ n ≤ m := by
  obtain ⟨k, rfl⟩ := hm
  rw [alignUp, Nat.mul_le_mul_left_iff ha, ceilDiv_le_iff_le_mul ha]

theorem dvd_alignUp (n a : Nat) : a ∣ alignUp n a := Nat.dvd_mul_right a _

theorem le_alignUp (ha : 0 < a) : n ≤ alignUp n a :=
  (alignUp_le_iff ha (dvd_alignUp n a)).mp (Nat.le_refl _)

theorem alignUp_eq_self (ha : 0 < a) (hn : a ∣ n) : alignUp n a = n :=
  Nat.le_antisymm ((alignUp_le_iff ha hn).mpr (Nat.le_refl n)) (le_alignUp ha)

/-- A multiple of the alignment does not change the padding. -/
theorem alignUp_add (ha : 0 < a) (hm : a ∣ m) : alignUp (n + m) a = alignUp n a + m := by
  apply Nat.le_antisymm
  · rw [alignUp_le_iff ha (Nat.dvd_add (dvd_alignUp n a) hm)]
    exact Nat.add_le_add_right (le_alignUp ha) m
  · -- what is left of the greater sum without `m` is a multiple that is not below `n`
    have hle : n + m ≤ alignUp (n + m) a := le_alignUp ha
    have hdvd : a ∣ alignUp (n + m) a - m := Nat.dvd_sub (dvd_alignUp _ a) hm
    have hrest : alignUp n a ≤ alignUp (n + m) a - m := (alignUp_le_iff ha hdvd).mpr (by omega)
    omega

end

/-! ## Types -/

/-- A type of objects that occupy storage also as members: complete, and no empty class. -/
structure ObjectType where
  /-- `sizeof` -/
  size : Nat
  /-- `alignof` -/
  align : Nat
  align_isPowerOfTwo : align.isPowerOfTwo
  align_dvd_size : align ∣ size
  size_pos : 0 < size
  size_lt : size < 2 ^ 64
  isTriviallyCopyable : Bool
  hasTrivialDefaultConstructor : Bool
  isStandardLayout : Bool

namespace ObjectType

variable (T U : ObjectType)

def isTrivial : Bool := T.isTriviallyCopyable && T.hasTrivialDefaultConstructor

def isPod : Bool := T.isTrivial && T.isStandardLayout

variable {T U}

theorem isTrivial_of_isPod (h : T.isPod) : T.isTrivial := (Bool.and_eq_true_iff.mp h).1

theorem isTriviallyCopyable_of_isPod (h : T.isPod) : T.isTriviallyCopyable :=
  (Bool.and_eq_true_iff.mp (isTrivial_of_isPod h)).1

variable (T U)

theorem align_pos : 0 < T.align := Nat.pos_of_isPowerOfTwo T.align_isPowerOfTwo

theorem align_le_size : T.align ≤ T.size := Nat.le_of_dvd T.size_pos T.align_dvd_size

end ObjectType

/-- The smaller of two powers of two divides the greater. -/
theorem dvd_of_isPowerOfTwo_of_le {a b : Nat} (ha : a.isPowerOfTwo) (hb : b.isPowerOfTwo)
    (hle : a ≤ b) : a ∣ b := by
  obtain ⟨i, rfl⟩ := ha
  obtain ⟨j, rfl⟩ := hb
  exact Nat.pow_dvd_pow 2 ((Nat.pow_le_pow_iff_right (by decide)).mp hle)

/-! ## Members -/

/-- Where a member ends that is placed at `offset` or behind it. -/
def place (offset : Nat) (T : ObjectType) : Nat := alignUp offset T.align + T.size

def structAlign (members : List ObjectType) : Nat :=
  members.foldl (fun a T => max a T.align) 1

def structSize (members : List ObjectType) : Nat :=
  alignUp (members.foldl place 0) (structAlign members)

section

variable (T U : ObjectType)

theorem structAlign_pair : structAlign [T, U] = max T.align U.align := by
  show max (max 1 T.align) U.align = _
  rw [Nat.max_eq_right T.align_pos]

theorem membersEnd_pair : [T, U].foldl place 0 = alignUp T.size U.align + U.size := by
  show alignUp (alignUp 0 T.align + T.size) U.align + U.size = _
  rw [alignUp_eq_self T.align_pos (Nat.dvd_zero _), Nat.zero_add]

/-- The padding of a pair is that of its total size. -/
theorem structSize_pair :
    structSize [T, U] = alignUp (T.size + U.size) (max T.align U.align) := by
  rw [structSize, structAlign_pair, membersEnd_pair]
  rcases Nat.le_total T.align U.align with hle | hle
  · -- what is put before `U` is as much as would be put behind it
    rw [Nat.max_eq_right hle, alignUp_add U.align_pos U.align_dvd_size,
      alignUp_add U.align_pos U.align_dvd_size,
      alignUp_eq_self U.align_pos (dvd_alignUp _ _)]
  · -- `T` ends where `U` can stand
    have hdvd : U.align ∣ T.size :=
      Nat.dvd_trans (dvd_of_isPowerOfTwo_of_le U.align_isPowerOfTwo T.align_isPowerOfTwo hle)
        T.align_dvd_size
    rw [alignUp_eq_self U.align_pos hdvd]

theorem structSize_pair_comm : structSize [T, U] = structSize [U, T] := by
  rw [structSize_pair, structSize_pair, Nat.add_comm, Nat.max_comm]

theorem add_size_le_structSize_pair : T.size + U.size ≤ structSize [T, U] := by
  rw [structSize_pair]
  apply le_alignUp
  have hpos := T.align_pos
  omega

/-- **Padding takes no pair over a power of two.** -/
theorem structSize_pair_le_iff (k : Nat) :
    structSize [T, U] ≤ 2 ^ k ↔ T.size + U.size ≤ 2 ^ k := by
  constructor
  · intro h
    exact Nat.le_trans (add_size_le_structSize_pair T U) h
  · intro h
    have hT := T.align_le_size
    have hU := U.align_le_size
    have hpos := T.align_pos
    -- the greater alignment is not over the limit, and so divides it
    have hpow : (max T.align U.align).isPowerOfTwo := by
      rcases Nat.le_total T.align U.align with hle | hle
      · rw [Nat.max_eq_right hle]
        exact U.align_isPowerOfTwo
      · rw [Nat.max_eq_left hle]
        exact T.align_isPowerOfTwo
    have hdvd : max T.align U.align ∣ 2 ^ k :=
      dvd_of_isPowerOfTwo_of_le hpow ⟨k, rfl⟩ (by omega)
    rw [structSize_pair, alignUp_le_iff (by omega) hdvd]
    exact h

end

end Cpp

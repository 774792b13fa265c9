import Mathlib.Algebra.Order.Ring.Int

/-!
# Cpp — integer types

The values of an integer type are integers, and arithmetic brings its result back into the type:
modulo `2 ^ bits`, from `0` for an unsigned type and balanced around `0` for a signed one. That is
what a conversion does; a signed addition that is out of range is undefined, and is taken to wrap
here.
-/

namespace Cpp

structure IntType where
  bits : Nat
  signed : Bool
  bits_pos : 0 < bits

/-- `size_t` -/
def sizeT : IntType := ⟨64, false, by decide⟩

/-- `ssize_t`, and `off_t` -/
def ssizeT : IntType := ⟨64, true, by decide⟩

namespace IntType

variable (ty : IntType)

def min : Int := if ty.signed then -2 ^ (ty.bits - 1) else 0

def max : Int := if ty.signed then 2 ^ (ty.bits - 1) - 1 else 2 ^ ty.bits - 1

def Representable (x : Int) : Prop := ty.min ≤ x ∧ x ≤ ty.max

instance (x : Int) : Decidable (ty.Representable x) := inferInstanceAs (Decidable (_ ∧ _))

/-- The value of the type that `x` is converted to. -/
def wrap (x : Int) : Int :=
  if ty.signed then x.bmod (2 ^ ty.bits) else x % (2 ^ ty.bits : Nat)

theorem two_pow_bits : (2 ^ ty.bits : Nat) = 2 * 2 ^ (ty.bits - 1) := by
  have hpos := ty.bits_pos
  have hbits : ty.bits = ty.bits - 1 + 1 := by omega
  calc 2 ^ ty.bits = 2 ^ (ty.bits - 1 + 1) := congrArg _ hbits
    _ = 2 * 2 ^ (ty.bits - 1) := by rw [Nat.pow_succ, Nat.mul_comm]

variable {ty}

theorem wrap_of_representable {x : Int} (hx : ty.Representable x) : ty.wrap x = x := by
  obtain ⟨hmin, hmax⟩ := hx
  cases hsigned : ty.signed with
  | true =>
    -- half of the values are negative, and `bmod` takes the balanced half
    simp only [min, max, hsigned, if_true] at hmin hmax
    simp only [wrap, hsigned, if_true]
    have hpow := ty.two_pow_bits
    apply Int.bmod_eq_of_le_mul_two
    · rw [hpow]; push_cast; omega
    · rw [hpow]; push_cast; omega
  | false =>
    simp only [min, max, hsigned, Bool.false_eq_true, if_false] at hmin hmax
    simp only [wrap, hsigned, Bool.false_eq_true, if_false]
    apply Int.emod_eq_of_lt hmin
    push_cast
    omega

/-- Converting the second operand first makes no difference. -/
@[simp] theorem wrap_add_wrap (x y : Int) : ty.wrap (x + ty.wrap y) = ty.wrap (x + y) := by
  unfold wrap
  split
  · exact Int.add_bmod_bmod
  · exact Int.add_emod_emod ..

/-- What lies between two values of the type is one. -/
theorem Representable.of_between {x y z : Int} (hx : ty.Representable x) (hz : ty.Representable z)
    (hxy : x ≤ y) (hyz : y ≤ z) : ty.Representable y :=
  ⟨Int.le_trans hx.1 hxy, Int.le_trans hyz hz.2⟩

end IntType

end Cpp

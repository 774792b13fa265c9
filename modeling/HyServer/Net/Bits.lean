import HyServer.Net.Conversions
import HyServer.Net.IPAddressV6
import Mathlib.Data.Nat.Bitwise

/-!
# hy::net — the bits of an address

`getNthMSBitImpl` takes the index apart into a byte and a bit of it. `getNthMSByte` is declared
only, so it is a parameter; it may be a computation of any monad, which is how the byte indices are
recorded that it is called with. `ip.bitCount` in the argument of `getNthMSBitImplThrow` is read as
the call.

* `getNthMSBitImpl_eq` — the bits of the big-endian number, counted from the most significant one.
* `lsIndex_toNat` — the index `getNthLSBit` goes on with, which is out of range again when its own
  is.
* `IPAddressV6.bits_exact` — both functions on every address, for every index.
-/

namespace Hy.Net

open Cpp

/-! ## detail -/

def AF_UNSPEC : SaFamily := 0

def AF_UNIX : SaFamily := 1

def AF_INET : SaFamily := 2

def AF_INET6 : SaFamily := 10

def familyNameStrDefault (family : SaFamily) : String := s!"sa_family_t({family})"

def familyNameStr (family : SaFamily) : String :=
  if family = AF_INET then "AF_INIT"
  else if family = AF_INET6 then "AF_INIT6"
  else if family = AF_UNSPEC then "AF_UNSPEC"
  else if family = AF_UNIX then "AF_UNIX"
  else familyNameStrDefault family

/-- `std::invalid_argument` -/
structure InvalidArgument where
  what : String
  deriving DecidableEq, Repr

section

variable {m : Type → Type} [Monad m]

def getNthMSBitImplThrow (bitCount : UInt64) (family : SaFamily) :
    ExceptT InvalidArgument m Bool :=
  throw ⟨s!"Bit index must be < {bitCount} for addresses of type: {familyNameStr family}"⟩

/-- `ip` by its `bitCount()` and its `getNthMSByte`. -/
def getNthMSBitImpl (bitCount : UInt64) (getNthMSByte : UInt64 → m UInt8) (bitIndex : UInt64)
    (family : SaFamily) : ExceptT InvalidArgument m Bool :=
  if bitIndex ≥ bitCount then getNthMSBitImplThrow bitCount family
  else do
    let byte ← getNthMSByte (bitIndex / 8)
    return byte.toNat &&& 0x80 >>> (bitIndex % 8).toNat != 0

end

/-! ## The functions -/

namespace IPAddressV4

def bitCount : UInt64 := 32

def getNthMSBit {m : Type → Type} [Monad m] (getNthMSByte : IPAddressV4 → UInt64 → m UInt8)
    (a : IPAddressV4) (bitIndex : UInt64) : ExceptT InvalidArgument m Bool :=
  getNthMSBitImpl bitCount (getNthMSByte a) bitIndex AF_INET

end IPAddressV4

namespace IPAddressV6

def bitCount : UInt64 := 128

section

variable {m : Type → Type} [Monad m] (getNthMSByte : IPAddressV6 → UInt64 → m UInt8)

def getNthMSBit (a : IPAddressV6) (bitIndex : UInt64) : ExceptT InvalidArgument m Bool :=
  getNthMSBitImpl bitCount (getNthMSByte a) bitIndex AF_INET6

def getNthLSBit (a : IPAddressV6) (bitIndex : UInt64) : ExceptT InvalidArgument m Bool :=
  getNthMSBit getNthMSByte a (bitCount - bitIndex - 1)

end

end IPAddressV6

/-! ## One bit -/

/-- The mask takes out one bit, counted from the most significant one. -/
theorem mask_ne_zero (b : UInt8) {j : Nat} (hj : j < 8) :
    (b.toNat &&& 0x80 >>> j != 0) = b.toNat.testBit (7 - j) := by
  have hmask : 0x80 >>> j = 2 ^ (7 - j) := by
    calc 0x80 >>> j = 2 ^ 7 / 2 ^ j := Nat.shiftRight_eq_div_pow 0x80 j
      _ = 2 ^ (7 - j) := Nat.pow_div (Nat.le_of_lt_succ hj) (by decide)
  rw [hmask, Nat.and_two_pow]
  cases b.toNat.testBit (7 - j) with
  | false => simp
  | true => simp

/-- A getter that writes down what it is asked for. -/
def logged (getNthMSByte : UInt64 → UInt8) (k : UInt64) : StateM (List UInt64) UInt8 := do
  modify (· ++ [k])
  return getNthMSByte k

section

variable {bitCount i : UInt64}

theorem getNthMSBitImpl_throws (h : bitCount ≤ i) (getNthMSByte : UInt64 → UInt8)
    (family : SaFamily) :
    ∃ e, (getNthMSBitImpl bitCount (logged getNthMSByte) i family).run [] = (.error e, []) := by
  rw [getNthMSBitImpl, if_pos h]
  exact ⟨_, rfl⟩

/-- **The bits of the number** that the bytes are from left to right. -/
theorem getNthMSBitImpl_eq {bytes : List UInt8} {n : Nat} (hlen : bytes.length = n)
    (hcount : bitCount.toNat = 8 * n) {getNthMSByte : UInt64 → UInt8}
    (hbyte : ∀ k, k.toNat < n → getNthMSByte k = byteAt bytes k.toNat) (h : i < bitCount)
    (family : SaFamily) :
    (getNthMSBitImpl bitCount (logged getNthMSByte) i family).run [] =
        (.ok ((bigEndian bytes).testBit (bitCount.toNat - 1 - i.toNat)), [i / 8]) ∧
      (i / 8).toNat < n := by
  have hi : i.toNat < bitCount.toNat := UInt64.lt_iff_toNat_lt.mp h
  have hdiv : (i / 8).toNat = i.toNat / 8 := UInt64.toNat_div i 8
  have hmod : (i % 8).toNat = i.toNat % 8 := UInt64.toNat_mod i 8
  have hk : (i / 8).toNat < n := by omega
  have hk' : (i / 8).toNat < bytes.length := by omega
  have hj : (i % 8).toNat < 8 := by omega
  -- counted from the other end, the byte and the bit in it
  have hplace : bitCount.toNat - 1 - i.toNat =
      8 * (bytes.length - 1 - (i / 8).toNat) + (7 - (i % 8).toNat) := by
    omega
  have hbit : ((getNthMSByte (i / 8)).toNat &&& 0x80 >>> (i % 8).toNat != 0) =
      (bigEndian bytes).testBit (bitCount.toNat - 1 - i.toNat) := by
    rw [mask_ne_zero _ hj, hbyte _ hk, hplace, testBit_bigEndian hk' (by omega)]
  rw [getNthMSBitImpl, if_neg (UInt64.not_le.mpr h), ← hbit]
  exact ⟨rfl, hk⟩

end

/-! ## IPAddressV6 -/

namespace IPAddressV6

theorem lsIndex_toNat {i : UInt64} (h : i < bitCount) :
    (bitCount - i - 1).toNat = 127 - i.toNat := by
  have hi : i.toNat < 128 := UInt64.lt_iff_toNat_lt.mp h
  rw [UInt64.toNat_sub, UInt64.toNat_sub]
  show (2 ^ 64 - 1 + (2 ^ 64 - i.toNat + 128) % 2 ^ 64) % 2 ^ 64 = _
  omega

/-- An index out of range wraps around to one out of range. -/
theorem bitCount_le_lsIndex {i : UInt64} (h : bitCount ≤ i) : bitCount ≤ bitCount - i - 1 := by
  have hi : 128 ≤ i.toNat := UInt64.le_iff_toNat_le.mp h
  have hlt := i.toNat_lt
  rw [UInt64.le_iff_toNat_le, UInt64.toNat_sub, UInt64.toNat_sub]
  show 128 ≤ (2 ^ 64 - 1 + (2 ^ 64 - i.toNat + 128) % 2 ^ 64) % 2 ^ 64
  omega

/-- What comes out for the index `i`, and what bytes were asked for. -/
structure BitExact (a : IPAddressV6) (i : UInt64) (bit : Nat)
    (result : Except InvalidArgument Bool × List UInt64) : Prop where
  throws_iff : (∃ e, result.1 = .error e) ↔ 128 ≤ i.toNat
  eq_testBit : i.toNat < 128 → result.1 = .ok ((bigEndian a.addr.toList).testBit bit)
  calls_lt : ∀ k ∈ result.2, k.toNat < 16

/-- Both functions, on one index. -/
structure BitsExact (getNthMSByte : IPAddressV6 → UInt64 → UInt8) (a : IPAddressV6) (i : UInt64) :
    Prop where
  ms : BitExact a i (127 - i.toNat) ((getNthMSBit (logged ∘ getNthMSByte) a i).run [])
  ls : BitExact a i i.toNat ((getNthLSBit (logged ∘ getNthMSByte) a i).run [])
  ls_eq_ms : i.toNat < 128 → getNthLSBit (logged ∘ getNthMSByte) a i =
    getNthMSBit (logged ∘ getNthMSByte) a (127 - i)

section

variable {getNthMSByte : IPAddressV6 → UInt64 → UInt8} {a : IPAddressV6}

theorem getNthMSBit_exact
    (hbyte : ∀ k, k.toNat < 16 → getNthMSByte a k = byteAt a.addr.toList k.toNat) (i : UInt64) :
    BitExact a i (127 - i.toNat) ((getNthMSBit (logged ∘ getNthMSByte) a i).run []) := by
  by_cases h : i < bitCount
  · have hi : i.toNat < 128 := UInt64.lt_iff_toNat_lt.mp h
    obtain ⟨hrun, hk⟩ := getNthMSBitImpl_eq a.addr.length_toList rfl hbyte h AF_INET6
    have hrun' : (getNthMSBit (logged ∘ getNthMSByte) a i).run [] = _ := hrun
    rw [hrun']
    refine ⟨⟨fun herror => ?_, fun hle => ?_⟩, fun _ => rfl, fun k hmem => ?_⟩
    · obtain ⟨e, herror⟩ := herror
      cases herror
    · omega
    · rwa [List.mem_singleton.mp hmem]
  · have hle : bitCount ≤ i := UInt64.not_lt.mp h
    have hi : 128 ≤ i.toNat := UInt64.le_iff_toNat_le.mp hle
    obtain ⟨e, hrun⟩ := getNthMSBitImpl_throws hle (getNthMSByte a) AF_INET6
    have hrun' : (getNthMSBit (logged ∘ getNthMSByte) a i).run [] = _ := hrun
    rw [hrun']
    refine ⟨⟨fun _ => hi, fun _ => ⟨e, rfl⟩⟩, fun hlt => ?_, fun k hmem => ?_⟩
    · omega
    · cases hmem

/-- **Bit indexing is exact**, for every index. -/
theorem bits_exact
    (hbyte : ∀ k, k.toNat < 16 → getNthMSByte a k = byteAt a.addr.toList k.toNat) (i : UInt64) :
    BitsExact getNthMSByte a i := by
  -- `getNthLSBit` is the other function at this index, in range or not
  have hls := getNthMSBit_exact hbyte (bitCount - i - 1)
  by_cases h : i < bitCount
  · have hi : i.toNat < 128 := UInt64.lt_iff_toNat_lt.mp h
    have hindex := lsIndex_toNat h
    have hback : 127 - (bitCount - i - 1).toNat = i.toNat := by omega
    rw [hback] at hls
    refine ⟨getNthMSBit_exact hbyte i, ⟨?_, fun _ => hls.eq_testBit (by omega), hls.calls_lt⟩, ?_⟩
    · exact hls.throws_iff.trans (by omega)
    · intro _
      have hsub : (127 - i).toNat = 127 - i.toNat := by
        rw [UInt64.toNat_sub]
        show (2 ^ 64 - i.toNat + 127) % 2 ^ 64 = _
        omega
      rw [getNthLSBit, UInt64.toNat_inj.mp (hindex.trans hsub.symm)]
  · have hle : bitCount ≤ i := UInt64.not_lt.mp h
    have hi : 128 ≤ i.toNat := UInt64.le_iff_toNat_le.mp hle
    have hout : 128 ≤ (bitCount - i - 1).toNat :=
      UInt64.le_iff_toNat_le.mp (bitCount_le_lsIndex hle)
    refine ⟨getNthMSBit_exact hbyte i, ⟨?_, fun hlt => ?_, hls.calls_lt⟩, fun hlt => ?_⟩
    · exact hls.throws_iff.trans (iff_of_true hout hi)
    · omega
    · omega

end

/-- `::1`, in its least significant bit and one index past the most significant one. -/
theorem bits_exact_one :
    BitsExact (fun a k => byteAt a.addr.toList k.toNat)
        ⟨#v[0, 0, 0, 0, 0, 0, 0, 0, 0, 0, 0, 0, 0, 0, 0, 1], 0⟩ 0 ∧
      BitsExact (fun a k => byteAt a.addr.toList k.toNat)
        ⟨#v[0, 0, 0, 0, 0, 0, 0, 0, 0, 0, 0, 0, 0, 0, 0, 1], 0⟩ 128 :=
  ⟨bits_exact (fun _ _ => rfl) 0, bits_exact (fun _ _ => rfl) 128⟩

end IPAddressV6

end Hy.Net

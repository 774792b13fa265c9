import HyServer.Net.Bits
import HyServer.Net.Order

/-!
# hy::net — bits and order

`getNthMSBit` numbers the bits of an address from the most significant one, so a client that
descends a tree by the bits of addresses takes them in their order. What it reads tells two
addresses apart, and at the first index where they differ, which of them comes first.

* `FirstBit` — at the first index that tells two readings apart, the first one has a 0.
* `bits_decide_order` — both address types.
-/

namespace Hy.Net

open Cpp

theorem toNat_index {k : Nat} (hk : k < 2 ^ 64) : (UInt64.ofNat k).toNat = k :=
  UInt64.toNat_ofNat_of_lt' hk

/-- What is returned for an index. -/
def bitRead (p : ExceptT InvalidArgument (StateM (List UInt64)) Bool) :
    Except InvalidArgument Bool :=
  (p.run []).1

/-- Up to some index both readings succeed with the same bit; there, they are 0 and 1. -/
def FirstBit (read read' : UInt64 → Except InvalidArgument Bool) : Prop :=
  ∃ i, (∀ j < i, ∃ bit, read j = .ok bit ∧ read' j = .ok bit) ∧ read i = .ok false ∧
    read' i = .ok true

/-- A reading of a number of `n` bits. Out of range it is the same error for every number. -/
structure Reads (n : Nat) (e : InvalidArgument) (x : Nat)
    (read : UInt64 → Except InvalidArgument Bool) : Prop where
  lt : x < 2 ^ n
  ok : ∀ i, i.toNat < n → read i = .ok (x.testBit (n - 1 - i.toNat))
  error : ∀ i, n ≤ i.toNat → read i = .error e

section

variable {n x y : Nat} {e : InvalidArgument} {read read' : UInt64 → Except InvalidArgument Bool}

/-- An index that is in range. -/
theorem Reads.lt_of_ok (h : Reads n e x read) {i : UInt64} {bit : Bool} (hi : read i = .ok bit) :
    i.toNat < n := by
  by_contra hle
  rw [h.error i (Nat.le_of_not_lt hle)] at hi
  cases hi

theorem Reads.firstBit_iff (hn : n < 2 ^ 64) (hx : Reads n e x read) (hy : Reads n e y read') :
    FirstBit read read' ↔ x < y := by
  rw [lt_iff_firstBit hx.lt hy.lt]
  constructor
  · rintro ⟨i, hbefore, hxi, hyi⟩
    -- a bit was read, so the index is not past the end
    have hi := hx.lt_of_ok hxi
    rw [hx.ok i hi] at hxi
    rw [hy.ok i hi] at hyi
    refine ⟨i.toNat, hi, fun j hj => ?_, Except.ok.inj hxi, Except.ok.inj hyi⟩
    have hjn : (UInt64.ofNat j).toNat = j := toNat_index (by omega)
    obtain ⟨bit, hxj, hyj⟩ := hbefore (.ofNat j) (UInt64.lt_iff_toNat_lt.mpr (by omega))
    rw [hx.ok _ (by omega), hjn] at hxj
    rw [hy.ok _ (by omega), hjn] at hyj
    rw [Except.ok.inj hxj, Except.ok.inj hyj]
  · rintro ⟨i, hi, hbefore, hxi, hyi⟩
    have hin : (UInt64.ofNat i).toNat = i := toNat_index (by omega)
    refine ⟨.ofNat i, fun j hj => ?_, ?_, ?_⟩
    · have hji := UInt64.lt_iff_toNat_lt.mp hj
      refine ⟨_, hx.ok j (by omega), ?_⟩
      rw [hy.ok j (by omega), hbefore j.toNat (by omega)]
    · rw [hx.ok _ (by omega), hin, hxi]
    · rw [hy.ok _ (by omega), hin, hyi]

theorem Reads.forall_eq_iff (hn : n < 2 ^ 64) (hx : Reads n e x read) (hy : Reads n e y read') :
    (∀ i, read i = read' i) ↔ x = y := by
  constructor
  · intro h
    refine Nat.eq_of_testBit_eq fun k => ?_
    by_cases hk : k < n
    · have hkn : (UInt64.ofNat (n - 1 - k)).toNat = n - 1 - k := toNat_index (by omega)
      have hplace : n - 1 - (n - 1 - k) = k := by omega
      -- bit `k` is at the index `n - 1 - k`
      have hsame := h (.ofNat (n - 1 - k))
      rw [hx.ok _ (by omega), hy.ok _ (by omega), hkn, hplace] at hsame
      exact Except.ok.inj hsame
    · have hpow : 2 ^ n ≤ 2 ^ k := Nat.pow_le_pow_right (by decide) (by omega)
      have hxlt := hx.lt
      have hylt := hy.lt
      rw [Nat.testBit_lt_two_pow (by omega), Nat.testBit_lt_two_pow (by omega)]
  · rintro rfl i
    by_cases hi : i.toNat < n
    · rw [hx.ok i hi, hy.ok i hi]
    · rw [hx.error i (by omega), hy.error i (by omega)]

end

/-- `getNthMSBitImpl`, for any type of address. -/
theorem reads_getNthMSBitImpl {bytes : List UInt8} {n : Nat} {bitCount : UInt64}
    (hlen : bytes.length = n) (hcount : bitCount.toNat = 8 * n) {getNthMSByte : UInt64 → UInt8}
    (hbyte : ∀ k, k.toNat < n → getNthMSByte k = byteAt bytes k.toNat) (family : SaFamily) :
    Reads (8 * n)
      ⟨s!"Bit index must be < {bitCount} for addresses of type: {familyNameStr family}"⟩
      (bigEndian bytes) fun i =>
        bitRead (getNthMSBitImpl bitCount (logged getNthMSByte) i family) where
  lt := by
    have hlt := bigEndian_lt bytes
    rw [hlen, show (256 : Nat) = 2 ^ 8 from rfl, ← Nat.pow_mul] at hlt
    exact hlt
  ok i hi := by
    have hlt : i < bitCount := UInt64.lt_iff_toNat_lt.mpr (by omega)
    rw [bitRead, (getNthMSBitImpl_eq hlen hcount hbyte hlt family).1, hcount]
  error i hi := by
    have hle : bitCount ≤ i := UInt64.le_iff_toNat_le.mpr (by omega)
    rw [getNthMSBitImpl, if_pos hle]
    rfl

/-- **The bits decide the order.** For IPv4 addresses on any host, by `toLongHBO`, and for IPv6
addresses of one scope, by `operator<`: the smaller address is the one with a 0 at the first index
at which `getNthMSBit` tells the two apart, and if it does so at no index, they are equal. -/
theorem bits_decide_order {host : Host} {get4 : IPAddressV4 → UInt64 → UInt8}
    {get6 : IPAddressV6 → UInt64 → UInt8}
    (h4 : ∀ a k, k.toNat < 4 → get4 a k = byteAt (a.toBinary host).toList k.toNat)
    (h6 : ∀ a k, k.toNat < 16 → get6 a k = byteAt a.addr.toList k.toNat) :
    (∀ a b : IPAddressV4,
      (FirstBit (fun i => bitRead (IPAddressV4.getNthMSBit (logged ∘ get4) a i))
        (fun i => bitRead (IPAddressV4.getNthMSBit (logged ∘ get4) b i)) ↔
          a.toLongHBO host < b.toLongHBO host) ∧
      ((∀ i, bitRead (IPAddressV4.getNthMSBit (logged ∘ get4) a i)
        = bitRead (IPAddressV4.getNthMSBit (logged ∘ get4) b i)) ↔ a.eq b = true)) ∧
    ∀ a b : IPAddressV6, a.scope = b.scope →
      (FirstBit (fun i => bitRead (IPAddressV6.getNthMSBit (logged ∘ get6) a i))
        (fun i => bitRead (IPAddressV6.getNthMSBit (logged ∘ get6) b i)) ↔ a.lt b = true) ∧
      ((∀ i, bitRead (IPAddressV6.getNthMSBit (logged ∘ get6) a i)
        = bitRead (IPAddressV6.getNthMSBit (logged ∘ get6) b i)) ↔ a.eq b = true) := by
  constructor
  · intro a b
    have hreads : ∀ c : IPAddressV4, Reads 32 _ (c.toLongHBO host).toNat fun i =>
        bitRead (IPAddressV4.getNthMSBit (logged ∘ get4) c i) := fun c => by
      rw [IPAddressV4.toLongHBO_toNat]
      exact reads_getNthMSBitImpl (c.toBinary host).length_toList rfl (h4 c) AF_INET
    refine ⟨?_, ?_⟩
    · rw [(hreads a).firstBit_iff (by decide) (hreads b), UInt32.lt_iff_toNat_lt]
    · rw [(hreads a).forall_eq_iff (by decide) (hreads b), IPAddressV4.eq_iff]
      exact (IPAddressV4.toLong_eq_iff host a b).symm
  · intro a b hscope
    have hlen : a.addr.toList.length = b.addr.toList.length := by
      rw [a.addr.length_toList, b.addr.length_toList]
    have hreads : ∀ c : IPAddressV6, Reads 128 _ (bigEndian c.addr.toList) fun i =>
        bitRead (IPAddressV6.getNthMSBit (logged ∘ get6) c i) := fun c =>
      reads_getNthMSBitImpl c.addr.length_toList rfl (h6 c) AF_INET6
    refine ⟨?_, ?_⟩
    · rw [(hreads a).firstBit_iff (by decide) (hreads b), IPAddressV6.lt_iff hscope,
        bigEndian_lt_iff hlen]
    · rw [(hreads a).forall_eq_iff (by decide) (hreads b), IPAddressV6.eq_iff hscope]
      exact ⟨bigEndian_inj hlen, congrArg bigEndian⟩

/-- `1.0.0.2` before `2.0.0.1`, on a little-endian host. -/
theorem bits_decide_order_1002_2001 :
    FirstBit
        (fun i => bitRead (IPAddressV4.getNthMSBit
          (logged ∘ fun a k => byteAt (a.toBinary .little).toList k.toNat)
          (.ofByteArray .little #v[1, 0, 0, 2]) i))
        (fun i => bitRead (IPAddressV4.getNthMSBit
          (logged ∘ fun a k => byteAt (a.toBinary .little).toList k.toNat)
          (.ofByteArray .little #v[2, 0, 0, 1]) i)) :=
  ((bits_decide_order (fun _ _ _ => rfl) fun (a : IPAddressV6) (k : UInt64) _ =>
    (rfl : byteAt a.addr.toList k.toNat = _)).1 _ _).1.mpr (by decide)

end Hy.Net

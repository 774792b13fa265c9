import HyServer.Cpp.ByteOrder
import HyServer.Net.IPAddressV4

/-!
# hy::net::IPAddressV4 — integers and bytes

The storage of an address is a union of an `in_addr`, whose `s_addr` is in network byte order, and
an array of four bytes. It is kept here as its `in_addr`; the array is what the host has in memory
for that. `htonl` and `ntohl` convert between the integer that the host reads in those bytes and the
one that is read from left to right.

* `byteSwap_toNat` — the conversion on a little-endian host reads the bytes of an integer in the
  other order.
* `toLongHBO_toNat` — on either host, `toLongHBO` is the number that the bytes are from left to
  right.
* `conversions_inverse` — the conversions are inverse to each other.
-/

namespace Hy.Net

open Cpp

/-! ## Integers in memory -/

/-- The bytes of an unsigned integer of `n` bytes. -/
def Host.toMemory : Host → Nat → Nat → List UInt8
  | .little => toLittleEndian
  | .big => toBigEndian

/-- The integer that the host reads in some bytes. -/
def Host.fromMemory : Host → List UInt8 → Nat
  | .little => littleEndian
  | .big => bigEndian

namespace Host

variable (host : Host)

theorem length_toMemory (n x : Nat) : (host.toMemory n x).length = n := by
  cases host with
  | little => exact length_toLittleEndian n x
  | big => exact length_toBigEndian n x

theorem fromMemory_lt (bytes : List UInt8) : host.fromMemory bytes < 256 ^ bytes.length := by
  cases host with
  | little => exact littleEndian_lt bytes
  | big => exact bigEndian_lt bytes

theorem fromMemory_toMemory {n x : Nat} (hx : x < 256 ^ n) :
    host.fromMemory (host.toMemory n x) = x := by
  cases host with
  | little => exact littleEndian_toLittleEndian hx
  | big => exact bigEndian_toBigEndian hx

theorem toMemory_fromMemory (bytes : List UInt8) :
    host.toMemory bytes.length (host.fromMemory bytes) = bytes := by
  cases host with
  | little => exact toLittleEndian_littleEndian bytes
  | big => exact toBigEndian_bigEndian bytes

end Host

/-! ## The members of the union -/

abbrev ByteArray4 := Vector UInt8 4

/-- `bytes_`, after `inAddr_` has been written. -/
def InAddr.toBytes (host : Host) (addr : InAddr) : ByteArray4 :=
  ⟨(host.toMemory 4 addr.s_addr.toNat).toArray, host.length_toMemory 4 _⟩

/-- `inAddr_`, after `bytes_` has been written. -/
def InAddr.ofBytes (host : Host) (bytes : ByteArray4) : InAddr :=
  ⟨.ofNat (host.fromMemory bytes.toList)⟩

theorem InAddr.toList_toBytes (host : Host) (addr : InAddr) :
    (addr.toBytes host).toList = host.toMemory 4 addr.s_addr.toNat := rfl

theorem InAddr.ofBytes_toBytes (host : Host) (addr : InAddr) :
    ofBytes host (addr.toBytes host) = addr := by
  have hlt : addr.s_addr.toNat < 256 ^ 4 := addr.s_addr.toNat_lt
  rw [ofBytes, toList_toBytes, host.fromMemory_toMemory hlt, UInt32.ofNat_toNat]

theorem InAddr.toBytes_ofBytes (host : Host) (bytes : ByteArray4) :
    (ofBytes host bytes).toBytes host = bytes := by
  have hlen : bytes.toList.length = 4 := bytes.length_toList
  have hlt : host.fromMemory bytes.toList < 2 ^ 32 := by
    have hlt := host.fromMemory_lt bytes.toList
    rwa [hlen] at hlt
  have hnat : (ofBytes host bytes).s_addr.toNat = host.fromMemory bytes.toList :=
    Nat.mod_eq_of_lt hlt
  have hmem := host.toMemory_fromMemory bytes.toList
  rw [hlen] at hmem
  apply Vector.toList_inj.mp
  rw [toList_toBytes, hnat, hmem]

/-! ## The functions -/

namespace IPAddressV4

section

variable (host : Host)

/-- `IPAddressV4(const ByteArray4&)` -/
def ofByteArray (addr : ByteArray4) : IPAddressV4 := ⟨InAddr.ofBytes host addr⟩

/-- `memcpy` of the storage. -/
def toBinary (a : IPAddressV4) : ByteArray4 := a.addr.toBytes host

def toLongHBO (a : IPAddressV4) : UInt32 := ntohl host a.toLong

end

end IPAddressV4

/-! ## Byte order -/

/-- The bytes of `x`, read from the other end. -/
theorem byteSwap_toNat (x : UInt32) :
    (byteSwap x).toNat = bigEndian (toLittleEndian 4 x.toNat) := by
  have hx : x.toNat < 2 ^ 32 := x.toNat_lt
  have hsum : x.toNat % 256 * 2 ^ 24 + x.toNat / 2 ^ 8 % 256 * 2 ^ 16 +
      x.toNat / 2 ^ 16 % 256 * 2 ^ 8 + x.toNat / 2 ^ 24 < 2 ^ 32 := by
    omega
  -- the four summands stay in 32 bits, so both sides are one sum of digits
  rw [byteSwap, UInt32.toNat_ofNat', Nat.mod_eq_of_lt hsum]
  simp only [toLittleEndian, bigEndian_cons, bigEndian_nil, List.length_cons, List.length_nil,
    UInt8.toNat_ofNat', Nat.mod_mod, Nat.reducePow, Nat.div_div_eq_div_mul,
    Nat.reduceMul]
  omega

theorem byteSwap_byteSwap (x : UInt32) : byteSwap (byteSwap x) = x := by
  have hx : x.toNat < 256 ^ 4 := x.toNat_lt
  -- reading in the other order reverses the bytes, and does so twice
  have hback := toLittleEndian_bigEndian (toLittleEndian 4 x.toNat)
  rw [length_toLittleEndian] at hback
  apply UInt32.toNat_inj.mp
  calc (byteSwap (byteSwap x)).toNat
      = bigEndian (toLittleEndian 4 (bigEndian (toLittleEndian 4 x.toNat))) := by
        rw [byteSwap_toNat, byteSwap_toNat]
    _ = bigEndian (toLittleEndian 4 x.toNat).reverse := by rw [hback]
    _ = littleEndian (toLittleEndian 4 x.toNat) := bigEndian_reverse _
    _ = x.toNat := littleEndian_toLittleEndian hx

section

variable (host : Host)

theorem htonl_ntohl (x : UInt32) : htonl host (ntohl host x) = x := by
  cases host with
  | little => exact byteSwap_byteSwap x
  | big => rfl

theorem ntohl_htonl (x : UInt32) : ntohl host (htonl host x) = x := by
  cases host with
  | little => exact byteSwap_byteSwap x
  | big => rfl

/-- `ntohl` gives the number that is in memory, from left to right. -/
theorem ntohl_toNat (x : UInt32) : (ntohl host x).toNat = bigEndian (host.toMemory 4 x.toNat) := by
  have hx : x.toNat < 256 ^ 4 := x.toNat_lt
  cases host with
  | little => exact byteSwap_toNat x
  | big => exact (bigEndian_toBigEndian hx).symm

namespace IPAddressV4

theorem toLongHBO_toNat (a : IPAddressV4) :
    (a.toLongHBO host).toNat = bigEndian (a.toBinary host).toList :=
  ntohl_toNat host a.addr.s_addr

/-- **The conversions are inverse to each other.** -/
theorem conversions_inverse (x : UInt32) (a : IPAddressV4) (bs : ByteArray4) :
    (fromLong x).toLong = x ∧
    (fromLongHBO host x).toLongHBO host = x ∧
    fromLong a.toLong = a ∧
    fromLongHBO host (a.toLongHBO host) = a ∧
    ofByteArray host (a.toBinary host) = a ∧
    (ofByteArray host bs).toBinary host = bs ∧
    (a.toLongHBO host).toNat = bigEndian (a.toBinary host).toList := by
  refine ⟨rfl, ntohl_htonl host x, rfl, ?_, ?_, ?_, toLongHBO_toNat host a⟩
  · rw [fromLongHBO, toLongHBO, htonl_ntohl, toLong]
  · rw [ofByteArray, toBinary, InAddr.ofBytes_toBytes]
  · rw [ofByteArray, toBinary, InAddr.toBytes_ofBytes]

end IPAddressV4

end

end Hy.Net

import HyServer.Net.Bits
import HyServer.Net.Order
import HyServer.Util.MemZero

/-!
# hy::net — addresses as keys

What a sorted container or a comparison of two addresses goes by, without any condition on the two.
The operators of each address type compare one string of bytes, from left to right. For an
`IPAddressV4` that is its bytes on a big-endian host, and its bytes from the last one to the first
one on a little-endian host. For an `IPAddressV6` it is its bytes and then its scope.

* `sortKey` — the string.
* `orders_lexicographic` — the operators, and the addresses that come first and last.
-/

namespace Hy.Net

open Cpp

/-- Four comparisons of the numbers that two strings of bytes are. -/
theorem comparesAs_of_numbers {lt le gt ge : Bool} {as bs : List UInt8}
    (hlen : as.length = bs.length) (hlt : lt = true ↔ bigEndian as < bigEndian bs)
    (hle : le = true ↔ bigEndian as ≤ bigEndian bs)
    (hgt : gt = true ↔ bigEndian bs < bigEndian as)
    (hge : ge = true ↔ bigEndian bs ≤ bigEndian as) : ComparesAs lt le gt ge as bs where
  lt_iff := hlt.trans (bigEndian_lt_iff hlen)
  gt_iff := hgt.trans (bigEndian_lt_iff hlen.symm)
  le_iff := by
    show _ ↔ ¬ bs < as
    rw [hle, ← bigEndian_lt_iff hlen.symm, Nat.not_lt]
  ge_iff := by
    show _ ↔ ¬ as < bs
    rw [hge, ← bigEndian_lt_iff hlen, Nat.not_lt]

/-! ## IPAddressV4 -/

namespace IPAddressV4

section

variable (host : Host) (a b : IPAddressV4)

/-- `INADDR_BROADCAST` -/
def INADDR_BROADCAST : UInt32 := 0xffffffff

def isLinkLocalBroadcast : Bool := INADDR_BROADCAST == a.toLongHBO host

def sortKey : List UInt8 :=
  match host with
  | .big => (a.toBinary .big).toList
  | .little => (a.toBinary .little).toList.reverse

theorem length_sortKey : (a.sortKey host).length = 4 := by
  cases host with
  | big => exact length_toBinary .big a
  | little => rw [sortKey, List.length_reverse, length_toBinary]

theorem bigEndian_sortKey : bigEndian (a.sortKey host) = a.toLong.toNat := by
  have hlt : a.toLong.toNat < 256 ^ 4 := a.toLong.toNat_lt
  cases host with
  | big => exact bigEndian_toBigEndian hlt
  | little =>
    rw [sortKey, bigEndian_reverse]
    exact littleEndian_toLittleEndian hlt

theorem comparesAs_sortKey :
    ComparesAs (lt a b) (le a b) (gt a b) (ge a b) (a.sortKey host) (b.sortKey host) := by
  have hlen : (a.sortKey host).length = (b.sortKey host).length := by
    rw [length_sortKey, length_sortKey]
  refine comparesAs_of_numbers hlen ?_ ?_ ?_ ?_
  · rw [bigEndian_sortKey, bigEndian_sortKey, lt_iff]
  · rw [bigEndian_sortKey, bigEndian_sortKey, le, Bool.or_eq_true, lt_iff, eq_iff]
    omega
  · rw [bigEndian_sortKey, bigEndian_sortKey, gt, lt_iff]
  · rw [bigEndian_sortKey, bigEndian_sortKey, ge, Bool.not_eq_true', ← Bool.not_eq_true, lt_iff]
    omega

theorem eq_iff_eq : eq a b = true ↔ a = b := by
  obtain ⟨⟨x⟩⟩ := a
  obtain ⟨⟨y⟩⟩ := b
  rw [eq, beq_iff_eq]
  constructor
  · intro h
    exact congrArg (fun z => (⟨⟨z⟩⟩ : IPAddressV4)) h
  · exact congrArg toLong

/-- `operator!=` -/
def ne : Bool := a.toLong != b.toLong

theorem ne_iff_ne : ne a b = true ↔ a ≠ b := by
  rw [← not_iff_not, not_not, ← eq_iff_eq, ne, eq, bne, Bool.not_eq_true', Bool.not_eq_false]

theorem le_iff : le a b = true ↔ a.toLong.toNat ≤ b.toLong.toNat := by
  rw [le, Bool.or_eq_true, lt_iff, eq_iff]
  omega

/-- Four zero bytes are the least address. -/
theorem empty_iff : a.empty host = true ↔ ∀ c, le a c = true := by
  have hzero : bigEndian (.replicate 4 0) = 0 := by decide
  have hbytes : a.empty host = true ↔ a.toLong.toNat = 0 := by
    rw [empty, beq_iff_eq, ← Vector.toList_inj, Vector.toList_replicate,
      ← bigEndian_sortKey host a]
    cases host with
    | big =>
      rw [sortKey]
      refine ⟨fun h => by rw [h, hzero], fun h => bigEndian_inj ?_ (h.trans hzero.symm)⟩
      rw [length_toBinary, List.length_replicate]
    | little =>
      rw [sortKey, ← List.reverse_inj, List.reverse_replicate]
      refine ⟨fun h => by rw [h, hzero], fun h => bigEndian_inj ?_ (h.trans hzero.symm)⟩
      rw [List.length_reverse, length_toBinary, List.length_replicate]
  rw [hbytes]
  constructor
  · intro h c
    rw [le_iff, h]
    exact Nat.zero_le _
  · intro h
    exact Nat.le_zero.mp ((le_iff a (fromLong 0)).mp (h _))

/-- Four bytes of ones are the greatest one. -/
theorem isLinkLocalBroadcast_iff :
    a.isLinkLocalBroadcast host = true ↔ ∀ c, le c a = true := by
  have hswap : htonl host INADDR_BROADCAST = INADDR_BROADCAST := by
    cases host <;> decide
  -- `ntohl` changes nothing in four equal bytes
  have hlong : a.isLinkLocalBroadcast host = true ↔ a.toLong = INADDR_BROADCAST := by
    rw [isLinkLocalBroadcast, beq_iff_eq, toLongHBO]
    constructor
    · intro h
      rw [← htonl_ntohl host a.toLong, ← h, hswap]
    · intro h
      rw [h, ← hswap, ntohl_htonl, hswap]
  have hmax : INADDR_BROADCAST.toNat = 2 ^ 32 - 1 := by decide
  rw [hlong]
  constructor
  · intro h c
    have hlt := c.toLong.toNat_lt
    rw [le_iff, h, hmax]
    omega
  · intro h
    have hle := (le_iff (fromLong INADDR_BROADCAST) a).mp (h _)
    have hlt := a.toLong.toNat_lt
    rw [← UInt32.toNat_inj]
    show a.toLong.toNat = INADDR_BROADCAST.toNat
    have hfrom : (fromLong INADDR_BROADCAST).toLong = INADDR_BROADCAST := rfl
    rw [hfrom, hmax] at hle
    omega

end

end IPAddressV4

/-! ## IPAddressV6 -/

namespace IPAddressV6

section

variable (a b : IPAddressV6)

/-- `toSockAddr()`: all bytes are zeroed before the three fields are set. -/
def toSockAddr : SockAddrIn6 where
  sin6_family := AF_INET6
  sin6_port := 0
  sin6_flowinfo := 0
  sin6_addr := a.addr
  sin6_scope_id := a.scope.toUInt32

def sortKey : List UInt8 := a.addr.toList ++ toBigEndian 2 a.scope.toNat

theorem length_sortKey : a.sortKey.length = 18 := by
  rw [sortKey, List.length_append, a.addr.length_toList, length_toBigEndian]

theorem bigEndian_sortKey :
    bigEndian a.sortKey = bigEndian a.addr.toList * 256 ^ 2 + a.scope.toNat := by
  have hlt : a.scope.toNat < 256 ^ 2 := a.scope.toNat_lt
  rw [sortKey, bigEndian_append, length_toBigEndian, bigEndian_toBigEndian hlt]

/-- The scope is the least digit. -/
theorem lt_iff_number : lt a b = true ↔ bigEndian a.sortKey < bigEndian b.sortKey := by
  have hlen : a.addr.toList.length = b.addr.toList.length := by
    rw [a.addr.length_toList, b.addr.length_toList]
  have ha := a.scope.toNat_lt
  have hb := b.scope.toNat_lt
  rw [bigEndian_sortKey, bigEndian_sortKey, lt, Bool.or_eq_true, Bool.and_eq_true,
    Bool.not_eq_true', decide_eq_false_iff_not, decide_eq_true_iff, decide_eq_true_iff,
    ← bigEndian_lt_iff hlen, ← bigEndian_lt_iff hlen.symm, UInt16.lt_iff_toNat_lt]
  omega

theorem eq_iff_eq : eq a b = true ↔ a = b := by
  cases a
  cases b
  simp [eq]

theorem sortKey_injective (h : bigEndian a.sortKey = bigEndian b.sortKey) : a = b := by
  have ha := a.scope.toNat_lt
  have hb := b.scope.toNat_lt
  rw [bigEndian_sortKey, bigEndian_sortKey] at h
  have haddr : bigEndian a.addr.toList = bigEndian b.addr.toList := by omega
  have hscope : a.scope.toNat = b.scope.toNat := by omega
  have hlist : a.addr.toList = b.addr.toList :=
    bigEndian_inj (by rw [a.addr.length_toList, b.addr.length_toList]) haddr
  cases a
  cases b
  rw [IPAddressV6.mk.injEq]
  exact ⟨Vector.toList_inj.mp hlist, UInt16.toNat_inj.mp hscope⟩

theorem eq_iff_number : eq a b = true ↔ bigEndian a.sortKey = bigEndian b.sortKey := by
  rw [eq_iff_eq]
  exact ⟨fun h => by rw [h], sortKey_injective a b⟩

theorem le_iff_number : le a b = true ↔ bigEndian a.sortKey ≤ bigEndian b.sortKey := by
  rw [le, Bool.or_eq_true, lt_iff_number, eq_iff_number]
  omega

theorem comparesAs_sortKey :
    ComparesAs (lt a b) (le a b) (gt a b) (ge a b) a.sortKey b.sortKey := by
  refine comparesAs_of_numbers ?_ (lt_iff_number a b) (le_iff_number a b) ?_ ?_
  · rw [length_sortKey, length_sortKey]
  · rw [gt, Bool.not_eq_true', ← Bool.not_eq_true, le_iff_number]
    omega
  · rw [ge, Bool.not_eq_true', ← Bool.not_eq_true, lt_iff_number]
    omega

/-- `empty()` does not look at the scope: the least address is the empty one with the scope 0. -/
theorem empty_iff : (a.empty = true ∧ a.scope = 0) ↔ ∀ c, le a c = true := by
  have hzero : bigEndian (.replicate 16 0) = 0 := by decide
  have hnumber : (a.empty = true ∧ a.scope = 0) ↔ bigEndian a.sortKey = 0 := by
    rw [bigEndian_sortKey, empty, beq_iff_eq, ← Vector.toList_inj, Vector.toList_replicate,
      ← UInt16.toNat_inj]
    constructor
    · rintro ⟨haddr, hscope⟩
      rw [haddr, hzero, hscope]
      rfl
    · intro h
      have haddr : bigEndian a.addr.toList = 0 := by omega
      have hscope : a.scope.toNat = 0 := by omega
      refine ⟨bigEndian_inj ?_ (haddr.trans hzero.symm), hscope⟩
      rw [a.addr.length_toList, List.length_replicate]
  rw [hnumber]
  constructor
  · intro h c
    rw [le_iff_number, h]
    exact Nat.zero_le _
  · intro h
    have hleast := (le_iff_number a ⟨.replicate 16 0, 0⟩).mp (h _)
    have hkey : bigEndian (sortKey ⟨.replicate 16 0, 0⟩) = 0 := by decide
    omega

theorem toSockAddr_injective (h : a.toSockAddr = b.toSockAddr) : a = b := by
  cases a
  cases b
  simp only [toSockAddr, SockAddrIn6.mk.injEq, true_and] at h
  rw [IPAddressV6.mk.injEq]
  refine ⟨h.1, ?_⟩
  have hscope := congrArg UInt32.toNat h.2
  rw [UInt16.toNat_toUInt32, UInt16.toNat_toUInt32] at hscope
  exact UInt16.toNat_inj.mp hscope

/-! An address is its bytes and its scope; what is made of the bytes alone has the scope 0. -/

def toBinary : ByteArray16 := a.addr

/-- `memcpy` of the bytes over an array of zeros. -/
def toByteArray : ByteArray16 := a.addr

def getScopeId : UInt16 := a.scope

def setScopeId (scope : UInt16) : IPAddressV6 := { a with scope := scope }

/-- `IPAddressV6(const ByteArray16&)`, and `IPAddressV6(const in6_addr&)`. -/
def ofByteArray (src : ByteArray16) : IPAddressV6 := ⟨src, 0⟩

/-- `operator!=` -/
def ne : Bool := !eq a b

theorem toBinary_ofByteArray (src : ByteArray16) : (ofByteArray src).toBinary = src := rfl

theorem setScopeId_ofByteArray : (ofByteArray a.toBinary).setScopeId a.getScopeId = a := rfl

/-- The bytes give the address back exactly when it has no scope. -/
theorem ofByteArray_toBinary_iff : ofByteArray a.toBinary = a ↔ a.getScopeId = 0 := by
  cases a
  simp [ofByteArray, toBinary, getScopeId, eq_comm]

theorem ne_iff : ne a b = true ↔ a.toBinary ≠ b.toBinary ∨ a.getScopeId ≠ b.getScopeId := by
  rw [ne, Bool.not_eq_true', ← Bool.not_eq_true, eq_iff_eq, ← not_and_or, not_iff_not]
  cases a
  cases b
  simp [toBinary, getScopeId]

end

end IPAddressV6

/-- **The order of addresses is lexicographic**, for all addresses of a type and on every host: the
operators compare sort keys. `==` tells all addresses apart, as the socket addresses made of them
do; the empty address comes first and the broadcast address last. -/
theorem orders_lexicographic :
    (∀ (host : Host) (a b : IPAddressV4),
      ComparesAs (a.lt b) (a.le b) (a.gt b) (a.ge b) (a.sortKey host) (b.sortKey host) ∧
      (a.eq b = true ↔ a = b) ∧
      (a.empty host = true ↔ ∀ c, a.le c = true) ∧
      (a.isLinkLocalBroadcast host = true ↔ ∀ c : IPAddressV4, c.le a = true)) ∧
    ∀ a b : IPAddressV6,
      ComparesAs (a.lt b) (a.le b) (a.gt b) (a.ge b) a.sortKey b.sortKey ∧
      (a.eq b = true ↔ a.toSockAddr = b.toSockAddr) ∧
      (a.empty = true ∧ a.scope = 0 ↔ ∀ c, a.le c = true) := by
  constructor
  · intro host a b
    exact ⟨a.comparesAs_sortKey host b, a.eq_iff_eq b, a.empty_iff host,
      a.isLinkLocalBroadcast_iff host⟩
  · intro a b
    refine ⟨a.comparesAs_sortKey b, ?_, a.empty_iff⟩
    rw [a.eq_iff_eq]
    exact ⟨congrArg _, a.toSockAddr_injective b⟩

end Hy.Net

import HyServer.Net.Conversions
import HyServer.Net.IPAddressV6

/-!
# hy::net — the order of addresses

`operator<` of `IPAddressV4` compares what `toLong` returns, the integer that the host reads in the
four bytes; the other three operators are derived from it and from `operator==`. That of
`IPAddressV6` compares the bytes, and then the scopes.

`OrdersAsBytes` says that the operators order two addresses as their bytes from left to right are
ordered.

* `ordersAsBytes_big`, `IPAddressV6.ordersAsBytes` — on a big-endian host they do, and for two IPv6
  addresses of one scope they do on any host.
* `ordersAsBytes_little_iff` — on a little-endian host they do for two addresses whose first and
  last differences are in one direction, and for no others.
-/

namespace Hy.Net

open Cpp

/-- Four comparisons of two values agree with the lexicographic order of two byte strings. -/
structure ComparesAs (lt le gt ge : Bool) (as bs : List UInt8) : Prop where
  lt_iff : lt = true ↔ as < bs
  le_iff : le = true ↔ as ≤ bs
  gt_iff : gt = true ↔ bs < as
  ge_iff : ge = true ↔ bs ≤ as

namespace IPAddressV4

/-! ## The operators -/

/-- `operator==` -/
def eq (a b : IPAddressV4) : Bool := a.toLong == b.toLong

/-- `operator<` -/
def lt (a b : IPAddressV4) : Bool := decide (a.toLong < b.toLong)

/-- `operator<=` -/
def le (a b : IPAddressV4) : Bool := lt a b || eq a b

/-- `operator>` -/
def gt (a b : IPAddressV4) : Bool := lt b a

/-- `operator>=` -/
def ge (a b : IPAddressV4) : Bool := !lt a b

/-- The operators order `a` and `b` as their bytes, and as `toLongHBO`. -/
structure OrdersAsBytes (host : Host) (a b : IPAddressV4) : Prop where
  comparesAs :
    ComparesAs (lt a b) (le a b) (gt a b) (ge a b) (a.toBinary host).toList (b.toBinary host).toList
  toLongHBO_iff : lt a b = true ↔ a.toLongHBO host < b.toLongHBO host

section

variable (host : Host) (a b : IPAddressV4)

theorem length_toBinary : (a.toBinary host).toList.length = 4 :=
  (a.toBinary host).length_toList

theorem eq_iff : eq a b = true ↔ a.toLong.toNat = b.toLong.toNat := by
  rw [eq, beq_iff_eq, UInt32.toNat_inj]

theorem lt_iff : lt a b = true ↔ a.toLong.toNat < b.toLong.toNat := by
  rw [lt, decide_eq_true_iff, UInt32.lt_iff_toNat_lt]

/-- The bytes of two addresses are ordered as `toLongHBO`, on every host. -/
theorem toBinary_lt_iff :
    (a.toBinary host).toList < (b.toBinary host).toList ↔
      (a.toLongHBO host).toNat < (b.toLongHBO host).toNat := by
  have hlen : (a.toBinary host).toList.length = (b.toBinary host).toList.length := by
    rw [length_toBinary, length_toBinary]
  rw [toLongHBO_toNat, toLongHBO_toNat, bigEndian_lt_iff hlen]

theorem toBinary_le_iff :
    (a.toBinary host).toList ≤ (b.toBinary host).toList ↔
      (a.toLongHBO host).toNat ≤ (b.toLongHBO host).toNat := by
  show ¬ (b.toBinary host).toList < (a.toBinary host).toList ↔ _
  rw [toBinary_lt_iff, Nat.not_lt]

theorem toLong_eq_iff :
    a.toLong.toNat = b.toLong.toNat ↔
      (a.toLongHBO host).toNat = (b.toLongHBO host).toNat := by
  rw [UInt32.toNat_inj, UInt32.toNat_inj]
  constructor
  · intro h
    rw [toLongHBO, toLongHBO, h]
  · intro h
    have hback := congrArg (htonl host) h
    rwa [toLongHBO, toLongHBO, htonl_ntohl, htonl_ntohl] at hback

/-- Everything follows from `operator<`. -/
theorem ordersAsBytes_iff_lt :
    OrdersAsBytes host a b ↔
      (lt a b = true ↔ (a.toBinary host).toList < (b.toBinary host).toList) := by
  have heq := toLong_eq_iff host a b
  constructor
  · intro h
    exact h.comparesAs.lt_iff
  · intro h
    have hlt := h
    -- both are orders of numbers that are equal together, so the rest is arithmetic
    rw [lt_iff, toBinary_lt_iff] at h
    refine ⟨⟨hlt, ?_, ?_, ?_⟩, ?_⟩
    · rw [le, Bool.or_eq_true, lt_iff, eq_iff, toBinary_le_iff]
      omega
    · rw [gt, lt_iff, toBinary_lt_iff]
      omega
    · rw [ge, Bool.not_eq_true', ← Bool.not_eq_true, lt_iff, toBinary_le_iff]
      omega
    · rw [lt_iff, UInt32.lt_iff_toNat_lt]
      exact h

theorem ordersAsBytes_big : OrdersAsBytes .big a b := by
  rw [ordersAsBytes_iff_lt, lt_iff, toBinary_lt_iff]
  rfl

/-- **On a little-endian host** two addresses are ordered as their bytes when and only when their
first and last differences are in one direction. -/
theorem ordersAsBytes_little_iff :
    OrdersAsBytes .little a b ↔
      EndsAgree (a.toBinary .little).toList (b.toBinary .little).toList := by
  have hlen : (a.toBinary .little).toList.length = (b.toBinary .little).toList.length := by
    rw [length_toBinary, length_toBinary]
  -- what `toLong` returns is what this host reads in the bytes
  have hread : ∀ c : IPAddressV4, c.toLong.toNat = littleEndian (c.toBinary .little).toList :=
    fun c => (littleEndian_toLittleEndian c.toLong.toNat_lt).symm
  rw [ordersAsBytes_iff_lt, lt_iff, hread a, hread b, orders_agree_iff hlen]

end

/-- `1.0.0.2` and `2.0.0.1`. -/
theorem not_ordersAsBytes_1002_2001 :
    (ofByteArray .little #v[1, 0, 0, 2]).toLongHBO .little <
        (ofByteArray .little #v[2, 0, 0, 1]).toLongHBO .little ∧
      lt (ofByteArray .little #v[1, 0, 0, 2]) (ofByteArray .little #v[2, 0, 0, 1]) = false ∧
      ¬ OrdersAsBytes .little (ofByteArray .little #v[1, 0, 0, 2])
          (ofByteArray .little #v[2, 0, 0, 1]) := by
  have hhbo : (ofByteArray .little #v[1, 0, 0, 2]).toLongHBO .little <
      (ofByteArray .little #v[2, 0, 0, 1]).toLongHBO .little := by decide
  have hlt : lt (ofByteArray .little #v[1, 0, 0, 2]) (ofByteArray .little #v[2, 0, 0, 1]) = false :=
    by decide
  -- `toLongHBO` says less, `operator<` does not
  refine ⟨hhbo, hlt, fun h => ?_⟩
  have htrue := h.toLongHBO_iff.mpr hhbo
  rw [hlt] at htrue
  cases htrue

end IPAddressV4

/-! ## IPAddressV6 -/

namespace IPAddressV6

/-- `operator==` -/
def eq (a b : IPAddressV6) : Bool := a.addr == b.addr && a.scope == b.scope

/-- `operator<`, of two `tie()`. -/
def lt (a b : IPAddressV6) : Bool :=
  decide (a.addr.toList < b.addr.toList) ||
    (!decide (b.addr.toList < a.addr.toList) && decide (a.scope < b.scope))

/-- `operator<=` -/
def le (a b : IPAddressV6) : Bool := lt a b || eq a b

/-- `operator>` -/
def gt (a b : IPAddressV6) : Bool := !le a b

/-- `operator>=` -/
def ge (a b : IPAddressV6) : Bool := !lt a b

section

variable {a b : IPAddressV6} (hscope : a.scope = b.scope)

include hscope

theorem lt_iff : lt a b = true ↔ a.addr.toList < b.addr.toList := by
  have hirrefl : ¬ b.scope < b.scope := UInt16.lt_irrefl _
  simp [lt, hscope, hirrefl]

theorem eq_iff : eq a b = true ↔ a.addr.toList = b.addr.toList := by
  rw [Vector.toList_inj]
  simp [eq, hscope]

/-- Two addresses of one scope are ordered as their bytes. -/
theorem ordersAsBytes :
    ComparesAs (lt a b) (le a b) (gt a b) (ge a b) a.addr.toList b.addr.toList := by
  have hlen : a.addr.toList.length = b.addr.toList.length := by
    rw [a.addr.length_toList, b.addr.length_toList]
  have hab := bigEndian_lt_iff hlen
  have hba := bigEndian_lt_iff hlen.symm
  have heq : a.addr.toList = b.addr.toList ↔
      bigEndian a.addr.toList = bigEndian b.addr.toList :=
    ⟨congrArg bigEndian, bigEndian_inj hlen⟩
  have hle : le a b = true ↔ ¬ b.addr.toList < a.addr.toList := by
    rw [le, Bool.or_eq_true, lt_iff hscope, eq_iff hscope, ← hab, ← hba, heq]
    omega
  refine ⟨lt_iff hscope, hle, ?_, ?_⟩
  · rw [gt, Bool.not_eq_true', ← Bool.not_eq_true, hle, Classical.not_not]
  · rw [ge, Bool.not_eq_true', ← Bool.not_eq_true, lt_iff hscope]
    rfl

end

end IPAddressV6

end Hy.Net

import HyServer.Cpp.Text

/-!
# hy::net::IPAddressV4 — the text entry points

The five functions that take an IPv4 address as text, each with its own call of `inet_pton` and its
own test of the result. `inet_pton(AF_INET, …)` is a parameter, on C strings: it stores an address
and returns `1`, or returns `0` or `-1`. So is the value of an `in_addr` that was not initialized,
and `fmt::format`. The unqualified `tryFromString` of the source file is read as the member.

`EntryPointsAgree` says that they accept the same texts, with the same address. They do so on no
text: `tryFromString` has a value whatever `inet_pton` returned, and `toLong` throws exactly when it
returned other than `0`.
-/

namespace Hy.Net

open Cpp

/-! ## Byte order -/

inductive Host where
  | little
  | big
  deriving DecidableEq, Repr

def byteSwap (x : UInt32) : UInt32 :=
  let n := x.toNat
  .ofNat (n % 256 * 2 ^ 24 + n / 2 ^ 8 % 256 * 2 ^ 16 + n / 2 ^ 16 % 256 * 2 ^ 8 + n / 2 ^ 24)

def htonl : Host → UInt32 → UInt32
  | .little, x => byteSwap x
  | .big, x => x

def ntohl : Host → UInt32 → UInt32
  | .little, x => byteSwap x
  | .big, x => x

/-! ## Addresses -/

abbrev SaFamily := UInt16

/-- `in_addr`; `s_addr` is in network byte order. -/
structure InAddr where
  s_addr : UInt32
  deriving DecidableEq, Repr

structure IPAddressV4 where
  addr : InAddr
  deriving DecidableEq, Repr

inductive IPAddressFormatError where
  | INVALID_IP
  | UNSUPPORTED_ADDR_FAMILY
  | NULL_SOCKADDR
  deriving DecidableEq, Repr

structure IPAddressFormatException where
  what : List UInt8
  deriving DecidableEq, Repr

/-- `fmt::format` of a text with one `{}`, and of what it is to quote there. -/
abbrev Format := String → List UInt8 → List UInt8

/-- `arg` in place of the first `{}` of a text. -/
def quoted (arg : List UInt8) : List UInt8 → List UInt8
  | 123 :: 125 :: rest => arg ++ rest
  | b :: rest => b :: quoted arg rest
  | [] => []

/-- As `fmt::format` does it. -/
def fmtFormat : Format := fun text arg => quoted arg text.toUTF8.toList

/-- What `inet_pton` did. -/
inductive Pton where
  | parsed (addr : InAddr)
  | unparsed
  | unsupported
  deriving DecidableEq, Repr

/-- What it returned. -/
def Pton.ret : Pton → Int
  | .parsed _ => 1
  | .unparsed => 0
  | .unsupported => -1

/-- What is in `dst` after it. -/
def Pton.dst (dst : InAddr) : Pton → InAddr
  | .parsed addr => addr
  | .unparsed => dst
  | .unsupported => dst

abbrev InetPton := List UInt8 → Pton

namespace IPAddressV4

section

variable (inetPton : InetPton) (format : Format) (junk : InAddr) (host : Host)

def fromLong (ip : UInt32) : IPAddressV4 := ⟨⟨ip⟩⟩

def fromLongHBO (ip : UInt32) : IPAddressV4 := ⟨⟨htonl host ip⟩⟩

/-- The member. -/
def toLong (a : IPAddressV4) : UInt32 := a.addr.s_addr

/-- `IPAddressV4(std::string_view)` -/
def ofText (addr : StringView) : Option (Except IPAddressFormatException IPAddressV4) := do
  let text ← addr.cString
  let r := inetPton text
  if r.ret ≠ 1 then
    return .error ⟨format "Invalid IPv4 address '\x7b\x7d'" text⟩
  else
    -- `addr_()` is zeroed before the call
    return .ok ⟨r.dst ⟨0⟩⟩

def tryFromString (str : StringView) : Option (Except IPAddressFormatError IPAddressV4) := do
  let text ← str.cString
  let r := inetPton text
  if r.ret ≠ 1 then
    -- the `return makeUnexpected(…)` here is commented out
    pure ()
  return .ok ⟨r.dst junk⟩

def validate (ip : StringView) : Option Bool := do
  let r ← tryFromString inetPton junk ip
  return r.isOk

/-- The static member. -/
def textToLong (ip : StringView) : Option (Except IPAddressFormatException UInt32) := do
  let text ← ip.cString
  let r := inetPton text
  -- the result itself is the condition
  if r.ret ≠ 0 then
    return .error ⟨format "Can't convert invalid IP '\x7b\x7d' to long" ip.chars⟩
  else
    return .ok (r.dst junk).s_addr

def textToLongHBO (ip : StringView) : Option (Except IPAddressFormatException UInt32) := do
  let r ← textToLong inetPton format junk ip
  return r.map (ntohl host)

end

/-! ## What each of them does -/

section

variable {inetPton : InetPton} {format : Format} {junk : InAddr} {host : Host} {s : StringView}

theorem tryFromString_eq (hs : s.NulTerminated) :
    tryFromString inetPton junk s = some (.ok ⟨(inetPton s.chars).dst junk⟩) := by
  simp [tryFromString, s.cString_of_nulTerminated hs]

theorem textToLong_of_parsed (hs : s.NulTerminated) {addr : InAddr}
    (hp : inetPton s.chars = .parsed addr) :
    textToLong inetPton format junk s =
      some (.error ⟨format "Can't convert invalid IP '\x7b\x7d' to long" s.chars⟩) := by
  simp [textToLong, s.cString_of_nulTerminated hs, hp, Pton.ret]

theorem ofText_of_parsed (hs : s.NulTerminated) {addr : InAddr}
    (hp : inetPton s.chars = .parsed addr) : ofText inetPton format s = some (.ok ⟨addr⟩) := by
  simp [ofText, s.cString_of_nulTerminated hs, hp, Pton.ret, Pton.dst]

end

/-! ## Agreement -/

/-- On `s`, all entry points accept or reject as `inet_pton` does, and denote one address. -/
structure EntryPointsAgree (inetPton : InetPton) (format : Format) (junk : InAddr) (host : Host)
    (s : StringView) : Prop where
  ofText_iff : (∃ a, inetPton s.chars = .parsed a) ↔ ∃ a, ofText inetPton format s = some (.ok a)
  tryFromString_iff :
    (∃ a, inetPton s.chars = .parsed a) ↔ ∃ a, tryFromString inetPton junk s = some (.ok a)
  validate_iff : (∃ a, inetPton s.chars = .parsed a) ↔ validate inetPton junk s = some true
  toLong_iff :
    (∃ a, inetPton s.chars = .parsed a) ↔ ∃ x, textToLong inetPton format junk s = some (.ok x)
  toLongHBO_iff : (∃ a, inetPton s.chars = .parsed a) ↔
    ∃ x, textToLongHBO inetPton format junk host s = some (.ok x)
  address_eq : (∃ a, inetPton s.chars = .parsed a) → ∃ a x y,
    ofText inetPton format s = some (.ok a) ∧ tryFromString inetPton junk s = some (.ok a) ∧
    textToLong inetPton format junk s = some (.ok x) ∧ fromLong x = a ∧ a.toLong = x ∧
    textToLongHBO inetPton format junk host s = some (.ok y) ∧ fromLongHBO host y = a

section

variable {inetPton : InetPton} {format : Format} {junk : InAddr} {host : Host} {s : StringView}

/-- **The entry points agree on no text.** -/
theorem not_entryPointsAgree (hs : s.NulTerminated) :
    ¬ EntryPointsAgree inetPton format junk host s := by
  intro hagree
  by_cases haccepted : ∃ a, inetPton s.chars = .parsed a
  · -- `toLong` throws
    obtain ⟨addr, hp⟩ := haccepted
    obtain ⟨x, hx⟩ := hagree.toLong_iff.mp ⟨addr, hp⟩
    rw [textToLong_of_parsed hs hp] at hx
    cases hx
  · -- `tryFromString` has a value
    exact haccepted (hagree.tryFromString_iff.mpr ⟨_, tryFromString_eq hs⟩)

end

/-- `inet_pton`, on `1.2.3.4` and on texts that are no address. -/
def pton1234 : InetPton := fun text =>
  if text = [49, 46, 50, 46, 51, 46, 52] then .parsed ⟨0x04030201⟩ else .unparsed

/-- `"1.2.3.4"` -/
def text1234 : StringView := .ofLiteral [49, 46, 50, 46, 51, 46, 52] (by decide)

theorem nulTerminated_text1234 : text1234.NulTerminated :=
  StringView.nulTerminated_ofLiteral _ (by decide)

theorem not_entryPointsAgree_1234 : ¬ EntryPointsAgree pton1234 fmtFormat ⟨0⟩ .little text1234 :=
  not_entryPointsAgree nulTerminated_text1234

/-- `toLong` throws on an address that the constructor takes. -/
theorem toLong_throws_1234 :
    text1234.NulTerminated ∧ ofText pton1234 fmtFormat text1234 = some (.ok ⟨⟨0x04030201⟩⟩) ∧
      (∃ e, textToLong pton1234 fmtFormat ⟨0⟩ text1234 = some (.error e)) ∧
      ¬ EntryPointsAgree pton1234 fmtFormat ⟨0⟩ .little text1234 := by
  have hp : pton1234 text1234.chars = .parsed ⟨0x04030201⟩ := by decide
  have hthrows : textToLong pton1234 fmtFormat ⟨0⟩ text1234 = some (.error _) :=
    textToLong_of_parsed nulTerminated_text1234 hp
  refine ⟨nulTerminated_text1234, ofText_of_parsed nulTerminated_text1234 hp, ⟨_, hthrows⟩, ?_⟩
  intro hagree
  obtain ⟨x, hx⟩ := hagree.toLong_iff.mp ⟨_, hp⟩
  rw [hthrows] at hx
  cases hx

end IPAddressV4

end Hy.Net

import HyServer.Net.IPAddressV4

/-!
# hy::net::IPAddressV6 — text

`tryFromString` strips one pair of brackets, keeps at most 45 characters, and hands them to
`getaddrinfo` in a buffer, as a C string. `getaddrinfo` with `AF_INET6` and `AI_NUMERICHOST` is a
parameter on C strings, and `IPAddressV6(sockaddr_in6)`, which is declared only, is taken to keep
the address and the scope, as far as `scope_` has room for that. So is the content of the buffer
before the copy a parameter.

* `tryFromString_eq` — on any view, what `getaddrinfo` makes of `given`, the text it gets to see.
* `AcceptsExactly` — the whole text between the brackets is what is parsed.
* `acceptsExactly_iff` — on which views that is so.
-/

namespace Hy.Net

open Cpp

abbrev ByteArray16 := Vector UInt8 16

/-- `sockaddr_in6` -/
structure SockAddrIn6 where
  sin6_family : SaFamily
  sin6_port : UInt16
  sin6_flowinfo : UInt32
  sin6_addr : ByteArray16
  sin6_scope_id : UInt32
  deriving DecidableEq

structure IPAddressV6 where
  addr : ByteArray16
  scope : UInt16
  deriving DecidableEq

/-- `none` when it returns other than `0`. -/
abbrev Getaddrinfo := List UInt8 → Option SockAddrIn6

def kMaxSize : Nat := 45

/-- `a - b` in `size_t` -/
def sizeSub (a b : Nat) : Nat := (sizeT.wrap (a - b)).toNat

/-- `'['` -/
def openBracket : UInt8 := 91

/-- `']'` -/
def closeBracket : UInt8 := 93

namespace IPAddressV6

def ofSockaddr (src : SockAddrIn6) : IPAddressV6 := ⟨src.sin6_addr, src.sin6_scope_id.toUInt16⟩

/-- The variable `ip` of `tryFromString`. -/
def clipped (str : StringView) : Option StringView :=
  if str.front = some openBracket ∧ str.back = some closeBracket then
    str.substr 1 (min (sizeSub str.size 2) kMaxSize)
  else
    str.substr 0 (min str.size kMaxSize)

section

variable (getaddrinfo : Getaddrinfo) (format : Format) (ipBuffer : Vector UInt8 (kMaxSize + 1))

def tryFromString (str : StringView) : Option (Except IPAddressFormatError IPAddressV6) := do
  if str.size < 2 then
    return .error .INVALID_IP
  let ip ← clipped str
  let ipBuffer ← copyInto ip.chars ipBuffer
  let ipBuffer ← store ipBuffer ip.size 0
  -- `hints` asks for `AF_INET6`, `SOCK_STREAM` and `AI_NUMERICHOST`
  match getaddrinfo (← cString ipBuffer.toList) with
  | some sa => return .ok (ofSockaddr sa)
  | none => return .error .INVALID_IP

def validate (ip : StringView) : Option Bool := do
  let r ← tryFromString getaddrinfo ipBuffer ip
  return r.isOk

/-- `IPAddressV6(std::string_view)` -/
def ofText (addr : StringView) : Option (Except IPAddressFormatException IPAddressV6) := do
  match ← tryFromString getaddrinfo ipBuffer addr with
  | .error _ => return .error ⟨format "Invalid IPv6 address '\x7b\x7d'" addr.chars⟩
  | .ok maybeIP => return .ok maybeIP

end

/-! ## The text that is parsed -/

/-- `s` without one enclosing pair of brackets. -/
def unbracketed (s : List UInt8) : List UInt8 :=
  if 2 ≤ s.length ∧ s.head? = some openBracket ∧ s.getLast? = some closeBracket then
    (s.drop 1).take (s.length - 2)
  else s

/-- What `getaddrinfo` gets to see: 45 characters at most, up to a NUL. -/
def given (s : List UInt8) : List UInt8 := untilNul ((unbracketed s).take kMaxSize)

section

variable {getaddrinfo : Getaddrinfo} {format : Format} {ipBuffer : Vector UInt8 (kMaxSize + 1)}
  {str : StringView}

theorem sizeSub_eq {a b : Nat} (hba : b ≤ a) (ha : a < 2 ^ 64) : sizeSub a b = a - b := by
  have hmin : sizeT.min = 0 := rfl
  have hmax : sizeT.max = 18446744073709551615 := rfl
  have hrep : sizeT.Representable (a - b : Int) := ⟨by omega, by omega⟩
  rw [sizeSub, IntType.wrap_of_representable hrep]
  omega

/-- The view that is copied. -/
theorem clipped_eq_some (hsize : 2 ≤ str.size) :
    ∃ ip, clipped str = some ip ∧ ip.chars = (unbracketed str.chars).take kMaxSize := by
  unfold clipped
  have hlen := str.length_chars
  have hlt := str.size_lt
  by_cases hbrackets : str.front = some openBracket ∧ str.back = some closeBracket
  · -- `size() - 2` does not wrap: there are two brackets
    rw [if_pos hbrackets, unbracketed, if_pos ⟨by omega, hbrackets⟩, hlen,
      sizeSub_eq hsize hlt]
    refine ⟨_, dif_pos (by omega), ?_⟩
    rw [str.chars_substr (dif_pos (by omega)), List.take_take, Nat.min_comm]
  · rw [if_neg hbrackets, unbracketed, if_neg fun h => hbrackets h.2]
    refine ⟨_, dif_pos (by omega), ?_⟩
    rw [str.chars_substr (dif_pos (by omega)), List.drop_zero, Nat.min_comm, ← List.take_take,
      ← hlen, List.take_length]

/-- On any view, `getaddrinfo` decides on the text it gets to see. -/
theorem tryFromString_eq (hsize : 2 ≤ str.size) :
    tryFromString getaddrinfo ipBuffer str =
      some (match (getaddrinfo (given str.chars)).map ofSockaddr with
        | some a => .ok a
        | none => .error .INVALID_IP) := by
  obtain ⟨ip, hip, hchars⟩ := clipped_eq_some hsize
  -- the text and the NUL fit in the buffer
  have hshort : ip.chars.length < kMaxSize + 1 := by
    rw [hchars, List.length_take]
    omega
  obtain ⟨buf, buf', hcopy, hstore, hbuf⟩ := exists_copy_nul ipBuffer hshort
  rw [ip.length_chars] at hstore
  have hgiven : cString buf'.toList = some (given str.chars) := by
    rw [hbuf, cString_append_nul, hchars, given]
  unfold tryFromString
  simp only [if_neg (Nat.not_lt.mpr hsize), hip, hcopy, hstore, hgiven, Option.bind_eq_bind,
    Option.bind_some]
  cases getaddrinfo (given str.chars) <;> rfl

theorem tryFromString_of_short (hsize : str.size < 2) :
    tryFromString getaddrinfo ipBuffer str = some (.error .INVALID_IP) := by
  unfold tryFromString
  rw [if_pos hsize]
  rfl

theorem validate_eq {r : Except IPAddressFormatError IPAddressV6}
    (h : tryFromString getaddrinfo ipBuffer str = some r) :
    validate getaddrinfo ipBuffer str = some r.isOk := by
  rw [validate, h]
  rfl

/-- The constructor throws when there is no value. -/
theorem ofText_throws_iff {r : Except IPAddressFormatError IPAddressV6}
    (h : tryFromString getaddrinfo ipBuffer str = some r) :
    (∃ e, ofText getaddrinfo format ipBuffer str = some (.error e)) ↔ ∃ e, r = .error e := by
  rw [ofText, h]
  cases r with
  | error e => exact iff_of_true ⟨_, rfl⟩ ⟨e, rfl⟩
  | ok a => simp

end

/-! ## The whole text, and nothing else -/

/-- `str` is accepted as what `getaddrinfo` makes of its whole text, by all three functions. -/
structure AcceptsExactly (getaddrinfo : Getaddrinfo) (format : Format)
    (ipBuffer : Vector UInt8 (kMaxSize + 1)) (str : StringView) : Prop where
  value_iff : ∀ a, tryFromString getaddrinfo ipBuffer str = some (.ok a) ↔
    2 ≤ str.size ∧ (0 : UInt8) ∉ unbracketed str.chars ∧
      ∃ sa, getaddrinfo (unbracketed str.chars) = some sa ∧ a = ofSockaddr sa
  validate_iff : validate getaddrinfo ipBuffer str = some true ↔
    2 ≤ str.size ∧ (0 : UInt8) ∉ unbracketed str.chars ∧
      ∃ sa, getaddrinfo (unbracketed str.chars) = some sa
  ofText_iff : (∃ e, ofText getaddrinfo format ipBuffer str = some (.error e)) ↔
    ¬ (2 ≤ str.size ∧ (0 : UInt8) ∉ unbracketed str.chars ∧
      ∃ sa, getaddrinfo (unbracketed str.chars) = some sa)

section

variable {getaddrinfo : Getaddrinfo} {format : Format} {ipBuffer : Vector UInt8 (kMaxSize + 1)}
  {str : StringView}

/-- It rejects what is to be rejected. -/
theorem acceptsExactly_of_error {e : IPAddressFormatError}
    (htry : tryFromString getaddrinfo ipBuffer str = some (.error e))
    (hnot : ¬ (2 ≤ str.size ∧ (0 : UInt8) ∉ unbracketed str.chars ∧
      ∃ sa, getaddrinfo (unbracketed str.chars) = some sa)) :
    AcceptsExactly getaddrinfo format ipBuffer str := by
  refine ⟨?_, ?_, ?_⟩
  · intro a
    rw [htry]
    refine iff_of_false (by simp) ?_
    rintro ⟨hsize, hnul, sa, hwhole, -⟩
    exact hnot ⟨hsize, hnul, sa, hwhole⟩
  · rw [validate_eq htry]
    exact iff_of_false (by simp [Except.isOk, Except.toBool]) hnot
  · rw [ofText_throws_iff htry]
    exact iff_of_true ⟨e, rfl⟩ hnot

/-- It accepts what is to be accepted. -/
theorem acceptsExactly_of_ok {a : IPAddressV6}
    (htry : tryFromString getaddrinfo ipBuffer str = some (.ok a)) (hsize : 2 ≤ str.size)
    (hnul : (0 : UInt8) ∉ unbracketed str.chars)
    (hvalue : (getaddrinfo (unbracketed str.chars)).map ofSockaddr = some a) :
    AcceptsExactly getaddrinfo format ipBuffer str := by
  obtain ⟨sa, hwhole, rfl⟩ := Option.map_eq_some_iff.mp hvalue
  refine ⟨?_, ?_, ?_⟩
  · intro a
    rw [htry]
    simp [hsize, hnul, hwhole, eq_comm]
  · rw [validate_eq htry]
    exact iff_of_true rfl ⟨hsize, hnul, sa, hwhole⟩
  · rw [ofText_throws_iff htry]
    refine iff_of_false (by simp) ?_
    intro hnot
    exact hnot ⟨hsize, hnul, sa, hwhole⟩

/-- What decides: `getaddrinfo` on the text it gets to see, and on the whole text. -/
theorem acceptsExactly_iff_eq (hsize : 2 ≤ str.size) :
    AcceptsExactly getaddrinfo format ipBuffer str ↔
      (getaddrinfo (given str.chars)).map ofSockaddr =
        if (0 : UInt8) ∈ unbracketed str.chars then none
        else (getaddrinfo (unbracketed str.chars)).map ofSockaddr := by
  have htry : tryFromString getaddrinfo ipBuffer str = _ := tryFromString_eq hsize
  constructor
  · intro hexact
    have hvalue := hexact.value_iff
    rw [htry] at hvalue
    cases hgiven : (getaddrinfo (given str.chars)).map ofSockaddr with
    | some a =>
      obtain ⟨-, hnul, sa, hwhole, rfl⟩ := (hvalue a).mp (by rw [hgiven])
      rw [if_neg hnul, hwhole]
      rfl
    | none =>
      split
      next => rfl
      next hnul =>
        cases hwhole : getaddrinfo (unbracketed str.chars) with
        | none => rfl
        | some sa =>
          have hok := (hvalue (ofSockaddr sa)).mpr ⟨hsize, hnul, sa, hwhole, rfl⟩
          rw [hgiven] at hok
          cases hok
  · intro heq
    rw [heq] at htry
    by_cases hnul : (0 : UInt8) ∈ unbracketed str.chars
    · rw [if_pos hnul] at htry
      exact acceptsExactly_of_error htry fun h => h.2.1 hnul
    · rw [if_neg hnul] at htry
      cases hwhole : (getaddrinfo (unbracketed str.chars)).map ofSockaddr with
      | none =>
        rw [hwhole] at htry
        refine acceptsExactly_of_error htry ?_
        rintro ⟨-, -, sa, hsome⟩
        rw [hsome] at hwhole
        cases hwhole
      | some a =>
        rw [hwhole] at htry
        exact acceptsExactly_of_ok htry hsize hnul hwhole

/-- **When the whole text is what is parsed.** -/
theorem acceptsExactly_iff :
    AcceptsExactly getaddrinfo format ipBuffer str ↔
      str.size < 2 ∨
      ((0 : UInt8) ∉ unbracketed str.chars ∧ (unbracketed str.chars).length ≤ kMaxSize) ∨
      ((0 : UInt8) ∉ unbracketed str.chars ∧
        (getaddrinfo ((unbracketed str.chars).take kMaxSize)).map ofSockaddr =
          (getaddrinfo (unbracketed str.chars)).map ofSockaddr) ∨
      ((0 : UInt8) ∈ unbracketed str.chars ∧ getaddrinfo (given str.chars) = none) := by
  by_cases hsize : str.size < 2
  · have hexact : AcceptsExactly getaddrinfo format ipBuffer str :=
      acceptsExactly_of_error (tryFromString_of_short hsize) fun h => absurd h.1 (by omega)
    exact iff_of_true hexact (.inl hsize)
  rw [acceptsExactly_iff_eq (Nat.not_lt.mp hsize)]
  by_cases hnul : (0 : UInt8) ∈ unbracketed str.chars
  · rw [if_pos hnul, Option.map_eq_none_iff]
    constructor
    · intro hnone
      exact .inr (.inr (.inr ⟨hnul, hnone⟩))
    · rintro (hshort | ⟨hno, -⟩ | ⟨hno, -⟩ | ⟨-, hnone⟩)
      · exact absurd hshort hsize
      · exact absurd hnul hno
      · exact absurd hnul hno
      · exact hnone
  · -- no NUL: it gets to see the first 45 characters
    have hgiven : given str.chars = (unbracketed str.chars).take kMaxSize :=
      untilNul_of_notMem fun hmem => hnul (List.mem_of_mem_take hmem)
    rw [if_neg hnul, hgiven]
    constructor
    · intro heq
      exact .inr (.inr (.inl ⟨hnul, heq⟩))
    · rintro (hshort | ⟨-, hlen⟩ | ⟨-, heq⟩ | ⟨hmem, -⟩)
      · exact absurd hshort hsize
      · rw [List.take_of_length_le hlen]
      · exact heq
      · exact absurd hmem hnul

end

/-- `getaddrinfo`, on `::1` and on texts that are no address. -/
def loopback : Getaddrinfo := fun text =>
  if text = [58, 58, 49] then
    some
      { sin6_family := 10
        sin6_port := 0
        sin6_flowinfo := 0
        sin6_addr := ⟨#[0, 0, 0, 0, 0, 0, 0, 0, 0, 0, 0, 0, 0, 0, 0, 1], rfl⟩
        sin6_scope_id := 0 }
  else none

/-- `"::1"`, a NUL, and an `x`. -/
def loopbackNul : StringView := .ofLiteral [58, 58, 49, 0, 120] (by decide)

/-- The NUL and what follows it are not looked at. -/
theorem not_acceptsExactly_loopbackNul :
    ¬ AcceptsExactly loopback fmtFormat (.replicate _ 0) loopbackNul := by
  intro hexact
  have heq := (acceptsExactly_iff_eq (by decide)).mp hexact
  revert heq
  decide

end IPAddressV6

end Hy.Net

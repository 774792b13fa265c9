import HyServer.Net.IPAddressV4

/-!
# hy::net::IPAddressV4 — names below in-addr.arpa

`fromInverseArpaName` tests that a name ends with `.in-addr.arpa` and strips that; what is to be
decoded from the rest is not written yet. The test is the position that `find` returns, as a
condition, and what is stripped is `sizeof` of the literal.

* `fromInverseArpaName_of_begins`, `fromInverseArpaName_of_not_begins` — what it does.
* `StripsSuffix` — what its comment says: it throws on the names that do not end with the suffix,
  and leaves what is before the suffix of the others.
* `stripsSuffix_iff` — that holds for the names that begin with the suffix and do not end with it.
-/

namespace Hy.Net

open Cpp

/-- `".in-addr.arpa"` -/
def inAddrArpa : List UInt8 :=
  ['.', 'i', 'n', '-', 'a', 'd', 'd', 'r', '.', 'a', 'r', 'p', 'a'].map Char.toUInt8

namespace IPAddressV4

/-- Up to the comment that says what is to be done: the view that is left of `arpaname`. -/
def fromInverseArpaName (format : Format) (arpaname : StringView) :
    Option (Except IPAddressFormatException StringView) :=
  -- the position is the condition; `npos` is one as well
  if arpaname.find inAddrArpa ≠ 0 then do
    -- `sizeof` of a literal counts its NUL
    let rest ← arpaname.removeSuffix (inAddrArpa.length + 1)
    return .ok rest
  else
    return .error
      ⟨format "input does not end with '.in-addr.arpa': '\x7b\x7d'" arpaname.chars⟩

/-- It throws on the names without the suffix, strips the suffix of the others, and never removes
more than there is. -/
structure StripsSuffix (format : Format) (s : StringView) : Prop where
  throws_iff : (∃ e, fromInverseArpaName format s = some (.error e)) ↔ ¬ inAddrArpa <:+ s.chars
  strips : inAddrArpa <:+ s.chars →
    ∃ rest, fromInverseArpaName format s = some (.ok rest) ∧ rest.chars ++ inAddrArpa = s.chars
  defined : fromInverseArpaName format s ≠ none

section

variable {format : Format} {s : StringView}

theorem fromInverseArpaName_of_begins (h : inAddrArpa <+: s.chars) :
    fromInverseArpaName format s =
      some (.error ⟨format "input does not end with '.in-addr.arpa': '\x7b\x7d'" s.chars⟩) := by
  have hfind := (s.find_eq_zero_iff inAddrArpa).mpr h
  rw [fromInverseArpaName, if_neg (fun hne => hne hfind)]
  rfl

theorem fromInverseArpaName_of_not_begins (h : ¬ inAddrArpa <+: s.chars) :
    fromInverseArpaName format s = (s.removeSuffix 14).map .ok := by
  have hfind : s.find inAddrArpa ≠ 0 := fun hzero => h ((s.find_eq_zero_iff inAddrArpa).mp hzero)
  rw [fromInverseArpaName, if_pos hfind]
  show s.removeSuffix 14 >>= _ = _
  cases s.removeSuffix 14 with
  | none => rfl
  | some rest => rfl

/-- What is stripped is one byte more than the suffix. -/
theorem length_of_stripped {rest : StringView} (h : ¬ inAddrArpa <+: s.chars)
    (hok : fromInverseArpaName format s = some (.ok rest)) : rest.size + 14 = s.size := by
  rw [fromInverseArpaName_of_not_begins h] at hok
  obtain ⟨rest', hrest, heq⟩ := Option.map_eq_some_iff.mp hok
  cases heq
  obtain ⟨hle, hchars⟩ := s.chars_removeSuffix hrest
  have hlen := congrArg List.length hchars
  rw [List.length_take, StringView.length_chars, StringView.length_chars] at hlen
  omega

/-- Without the suffix in front it does not throw. -/
theorem not_throws_of_not_begins (h : ¬ inAddrArpa <+: s.chars) {e : IPAddressFormatException} :
    fromInverseArpaName format s ≠ some (.error e) := by
  rw [fromInverseArpaName_of_not_begins h]
  intro herror
  obtain ⟨rest, -, heq⟩ := Option.map_eq_some_iff.mp herror
  cases heq

theorem not_stripsSuffix_of_not_begins (h : ¬ inAddrArpa <+: s.chars) :
    ¬ StripsSuffix format s := by
  intro hstrips
  by_cases hsuffix : inAddrArpa <:+ s.chars
  · -- one byte too many is stripped
    obtain ⟨rest, hok, happend⟩ := hstrips.strips hsuffix
    have hsize := length_of_stripped h hok
    have hlen := congrArg List.length happend
    rw [List.length_append, StringView.length_chars, StringView.length_chars] at hlen
    have hthirteen : inAddrArpa.length = 13 := by decide
    omega
  · -- it goes on instead of throwing
    obtain ⟨e, herror⟩ := hstrips.throws_iff.mpr hsuffix
    exact not_throws_of_not_begins h herror

end

/-- **The suffix is recognized** on the names that begin with it and do not end with it. -/
theorem stripsSuffix_iff (format : Format) (s : StringView) :
    StripsSuffix format s ↔ inAddrArpa <+: s.chars ∧ ¬ inAddrArpa <:+ s.chars := by
  constructor
  · intro h
    have hbegins : inAddrArpa <+: s.chars :=
      Classical.not_not.mp fun hnot => not_stripsSuffix_of_not_begins hnot h
    exact ⟨hbegins, h.throws_iff.mp ⟨_, fromInverseArpaName_of_begins hbegins⟩⟩
  · intro h
    obtain ⟨hbegins, hsuffix⟩ := h
    have hthrows : fromInverseArpaName format s = _ := fromInverseArpaName_of_begins hbegins
    refine ⟨⟨fun _ => hsuffix, fun _ => ⟨_, hthrows⟩⟩, fun hs => absurd hs hsuffix, ?_⟩
    rw [hthrows]
    exact Option.some_ne_none _

/-- `"1.0.0.127.in-addr.arpa"` -/
def name127 : StringView :=
  .ofLiteral (['1', '.', '0', '.', '0', '.', '1', '2', '7'].map Char.toUInt8 ++ inAddrArpa)
    (by decide)

/-- `"1.0.0.12"` is left of it; and of no characters at all, 14 are to be removed. -/
theorem not_stripsSuffix_name127 :
    (fromInverseArpaName fmtFormat name127).map (fun r => r.toOption.map StringView.chars) =
        some (some (['1', '.', '0', '.', '0', '.', '1', '2'].map Char.toUInt8)) ∧
      fromInverseArpaName fmtFormat (.ofLiteral [] (by decide)) = none ∧
      ¬ StripsSuffix fmtFormat name127 := by
  have hbegins : ¬ inAddrArpa <+: name127.chars := by decide
  refine ⟨?_, ?_, not_stripsSuffix_of_not_begins hbegins⟩
  · rw [fromInverseArpaName_of_not_begins hbegins]
    decide
  · rw [fromInverseArpaName_of_not_begins (by decide)]
    rfl

end IPAddressV4

end Hy.Net

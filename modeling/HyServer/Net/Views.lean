import HyServer.Net.IPAddressV4

/-!
# hy::net::IPAddressV4 — the view and the bytes behind it

The text entry points take a `string_view` and hand its `data()` to `inet_pton`, which reads on to
the next NUL. What they do is a function of that C string, and the characters of the view come in
only where a message quotes them.

* `DependsOnChars` — on a view, an entry point has the outcome that it has on a literal of the same
  characters, and it accepts only where these are an address.
* `dependsOnChars_iff_of_map` — what that asks of a function of the C string; then one lemma for
  each entry point.
* `entryPointsDependOnChars_iff` — on which views the four of them do so.
-/

namespace Hy.Net

open Cpp

/-! ## What `inet_pton` leaves -/

namespace Pton

theorem ret_eq_one {r : Pton} (h : r.ret = 1) : ∃ addr, r = .parsed addr := by
  cases r with
  | parsed addr => exact ⟨addr, rfl⟩
  | unparsed => cases h
  | unsupported => cases h

theorem dst_of_ret_ne_one {r : Pton} (h : r.ret ≠ 1) (dst : InAddr) : r.dst dst = dst := by
  cases r with
  | parsed addr => exact absurd rfl h
  | unparsed => rfl
  | unsupported => rfl

theorem exists_parsed_of_dst {r : Pton} (h : ∀ junk junk', r.dst junk = r.dst junk') :
    ∃ addr, r = .parsed addr := by
  apply ret_eq_one
  by_contra hret
  have h01 : (⟨0⟩ : InAddr) = ⟨1⟩ := by
    rw [← dst_of_ret_ne_one hret ⟨0⟩, ← dst_of_ret_ne_one hret ⟨1⟩]
    exact h _ _
  cases h01

/-- What was in memory before does not matter exactly when an address was stored over it. -/
theorem dst_eq_iff {r q : Pton} :
    (∀ junk junk', r.dst junk = q.dst junk') ↔ ∃ addr, r = .parsed addr ∧ q = .parsed addr := by
  constructor
  · intro hdst
    obtain ⟨a, rfl⟩ := exists_parsed_of_dst fun junk junk' =>
      (hdst junk junk).trans (hdst junk' junk).symm
    obtain ⟨b, rfl⟩ := exists_parsed_of_dst fun junk junk' =>
      (hdst junk junk).symm.trans (hdst junk junk')
    have hab : a = b := hdst ⟨0⟩ ⟨0⟩
    exact ⟨a, rfl, hab ▸ rfl⟩
  · intro hparsed junk junk'
    obtain ⟨addr, rfl, rfl⟩ := hparsed
    rfl

end Pton

/-! ## The law -/

section Law

variable {ε α : Type}

/-- The whole text is an address; no text with a NUL in it is one. -/
def IsAddress (inetPton : InetPton) (text : List UInt8) : Prop :=
  (0 : UInt8) ∉ text ∧ ∃ addr, inetPton text = .parsed addr

/-- On the views `s` and `t` an entry point has one outcome, whatever is in uninitialized memory. An
outcome that is not defined is no outcome. -/
def OneOutcome (entry : InAddr → StringView → Option (Except ε α)) (s t : StringView) : Prop :=
  ∀ junk junk', ∃ r, entry junk s = some r ∧ entry junk' t = some r

/-- An entry point consults the characters of `s` and nothing else: it does what it does with these
characters in a literal, and it accepts only if they are an address. -/
structure DependsOnChars (inetPton : InetPton)
    (entry : InAddr → StringView → Option (Except ε α)) (s : StringView) : Prop where
  same : OneOutcome entry s s.literal
  accepts : ∀ junk a, entry junk s = some (.ok a) → IsAddress inetPton s.chars

variable {inetPton : InetPton} {entry : InAddr → StringView → Option (Except ε α)}
  {s t : StringView}

/-- Then two views with the same characters are not told apart. -/
theorem DependsOnChars.oneOutcome (hs : DependsOnChars inetPton entry s)
    (ht : DependsOnChars inetPton entry t) (hchars : s.chars = t.chars) : OneOutcome entry s t := by
  have hliteral : s.literal = t.literal := by
    simp only [StringView.literal, hchars]
  intro junk junk'
  obtain ⟨r, hr, hr'⟩ := hs.same junk junk
  obtain ⟨q, hq, hq'⟩ := ht.same junk' junk
  rw [hliteral, hq'] at hr'
  cases hr'
  exact ⟨r, hr, hq⟩

theorem dependsOnChars_iff_of_map (outcome : List UInt8 → InAddr → List UInt8 → Except ε α)
    (hentry : ∀ junk u, entry junk u = u.cString.map (outcome u.chars junk)) :
    DependsOnChars inetPton entry s ↔ ∃ x, s.cString = some x ∧
      (∀ junk junk', outcome s.chars junk x = outcome s.chars junk' (untilNul s.chars)) ∧
      ((∃ junk a, outcome s.chars junk x = .ok a) → IsAddress inetPton s.chars) := by
  have hliteral : ∀ junk, entry junk s.literal = some (outcome s.chars junk (untilNul s.chars)) :=
    fun junk => by rw [hentry, s.cString_literal, s.chars_literal, Option.map_some]
  constructor
  · intro hlaw
    obtain ⟨r, hr, -⟩ := hlaw.same ⟨0⟩ ⟨0⟩
    rw [hentry] at hr
    obtain ⟨x, hx, -⟩ := Option.map_eq_some_iff.mp hr
    have hs : ∀ junk, entry junk s = some (outcome s.chars junk x) := fun junk => by
      rw [hentry, hx, Option.map_some]
    refine ⟨x, hx, fun junk junk' => ?_, ?_⟩
    · obtain ⟨r, hr, hr'⟩ := hlaw.same junk junk'
      rw [hs] at hr
      rw [hliteral] at hr'
      exact Option.some.inj (hr.trans hr'.symm)
    · intro hok
      obtain ⟨junk, a, ha⟩ := hok
      exact hlaw.accepts junk a (by rw [hs, ha])
  · intro hcond
    obtain ⟨x, hx, hsame, haccepts⟩ := hcond
    have hs : ∀ junk, entry junk s = some (outcome s.chars junk x) := fun junk => by
      rw [hentry, hx, Option.map_some]
    refine ⟨fun junk junk' => ⟨_, hs junk, ?_⟩, fun junk a hok => ?_⟩
    · rw [hliteral, hsame junk junk']
    · rw [hs] at hok
      exact haccepts ⟨junk, a, Option.some.inj hok⟩

/-- The same with a condition on the C string in place of what the outcomes are. -/
theorem dependsOnChars_iff_of_outcome (outcome : List UInt8 → InAddr → List UInt8 → Except ε α)
    {P : List UInt8 → Prop}
    (hentry : ∀ junk u, entry junk u = u.cString.map (outcome u.chars junk))
    (hP : ∀ x, ((∀ junk junk', outcome s.chars junk x
        = outcome s.chars junk' (untilNul s.chars)) ∧
      ((∃ junk a, outcome s.chars junk x = .ok a) → IsAddress inetPton s.chars)) ↔ P x) :
    DependsOnChars inetPton entry s ↔ ∃ x, s.cString = some x ∧ P x := by
  rw [dependsOnChars_iff_of_map outcome hentry]
  simp only [hP]

end Law

/-! ## The entry points -/

namespace IPAddressV4

/-- The characters are an address, and what is read at the view is a text of the same one. -/
def ReadsAddress (inetPton : InetPton) (chars x : List UInt8) : Prop :=
  (0 : UInt8) ∉ chars ∧ ∃ a, inetPton x = .parsed a ∧ inetPton chars = .parsed a

section

variable {inetPton : InetPton} {format : Format} {host : Host} {s : StringView}

/-- An address that is read, and that the characters up to a NUL are too, if these are one. -/
theorem readsAddress_of {x : List UInt8} {a : InAddr} (hx : inetPton x = .parsed a)
    (hchars : inetPton (untilNul s.chars) = .parsed a) (haddress : IsAddress inetPton s.chars) :
    ReadsAddress inetPton s.chars x := by
  rw [untilNul_of_notMem haddress.1] at hchars
  exact ⟨haddress.1, a, hx, hchars⟩

/-! What each of them makes of the C string. -/

/-- What `IPAddressV4(std::string_view)` makes of it. -/
def textOutcome (inetPton : InetPton) (format : Format) (text : List UInt8) :
    Except IPAddressFormatException IPAddressV4 :=
  if (inetPton text).ret ≠ 1 then .error ⟨format "Invalid IPv4 address '\x7b\x7d'" text⟩
  else .ok ⟨(inetPton text).dst ⟨0⟩⟩

/-- What `toLong` and `toLongHBO`, which `convert` the address, make of what `inet_pton` did. -/
def longOutcome (format : Format) (convert : UInt32 → UInt32) (chars : List UInt8) (junk : InAddr)
    (r : Pton) : Except IPAddressFormatException UInt32 :=
  if r.ret ≠ 0 then .error ⟨format "Can't convert invalid IP '\x7b\x7d' to long" chars⟩
  else .ok (convert (r.dst junk).s_addr)

/-- Where they do not throw, they return what was in uninitialized memory. -/
theorem ret_ne_zero_of_longOutcome {chars : List UInt8} {convert : UInt32 → UInt32}
    (hconvert : convert 0 ≠ convert 1) {r : Pton}
    (h : ∀ junk junk', longOutcome format convert chars junk r
      = longOutcome format convert chars junk' r) : r.ret ≠ 0 := by
  intro hret
  have hne : r.ret ≠ 1 := by omega
  have hok : ∀ junk, longOutcome format convert chars junk r = .ok (convert junk.s_addr) := by
    intro junk
    unfold longOutcome
    rw [if_neg (not_not.mpr hret), Pton.dst_of_ret_ne_one hne]
  have h01 := h ⟨0⟩ ⟨1⟩
  rw [hok, hok] at h01
  injection h01 with h01
  exact hconvert h01

theorem ofText_eq_map (s : StringView) :
    ofText inetPton format s = s.cString.map (textOutcome inetPton format) := by
  unfold ofText
  cases s.cString with
  | none => rfl
  | some text => exact (apply_ite some ..).symm

theorem tryFromString_eq_map (junk : InAddr) (s : StringView) :
    tryFromString inetPton junk s = s.cString.map fun text =>
      .ok ⟨(inetPton text).dst junk⟩ := by
  unfold tryFromString
  cases s.cString with
  | none => rfl
  | some text => simp

theorem textToLong_eq_map (junk : InAddr) (s : StringView) :
    textToLong inetPton format junk s = s.cString.map fun text =>
      longOutcome format id s.chars junk (inetPton text) := by
  unfold textToLong
  cases s.cString with
  | none => rfl
  | some text => exact (apply_ite some ..).symm

theorem textToLongHBO_eq_map (junk : InAddr) (s : StringView) :
    textToLongHBO inetPton format junk host s = s.cString.map fun text =>
      longOutcome format (ntohl host) s.chars junk (inetPton text) := by
  unfold textToLongHBO
  rw [textToLong_eq_map]
  cases s.cString with
  | none => rfl
  | some text =>
    show some (Except.map (ntohl host) (longOutcome ..)) = some (longOutcome ..)
    unfold longOutcome
    split <;> rfl

theorem textOutcome_of_parsed {text : List UInt8} {a : InAddr} (h : inetPton text = .parsed a) :
    textOutcome inetPton format text = .ok ⟨a⟩ := by
  unfold textOutcome
  rw [h]
  rfl

theorem textOutcome_of_ret {text : List UInt8} (h : (inetPton text).ret ≠ 1) :
    textOutcome inetPton format text
      = .error ⟨format "Invalid IPv4 address '\x7b\x7d'" text⟩ :=
  if_pos h

/-- The constructor quotes the C string when it rejects. -/
theorem ofText_dependsOnChars_of {x : List UInt8} (hx : s.cString = some x)
    (h : (x = untilNul s.chars ∧ (inetPton x).ret ≠ 1) ∨ ReadsAddress inetPton s.chars x) :
    DependsOnChars inetPton (fun _ => ofText inetPton format) s := by
  refine (dependsOnChars_iff_of_map (fun _ _ => textOutcome inetPton format) fun _ =>
    ofText_eq_map).mpr ⟨x, hx, ?_⟩
  rcases h with ⟨hsame, hret⟩ | ⟨hnul, a, ha, hchars⟩
  · refine ⟨fun _ _ => congrArg _ hsame, ?_⟩
    rintro ⟨_, _, hok⟩
    rw [textOutcome_of_ret hret] at hok
    cases hok
  · refine ⟨fun _ _ => ?_, fun _ => ⟨hnul, a, hchars⟩⟩
    rw [untilNul_of_notMem hnul, textOutcome_of_parsed ha, textOutcome_of_parsed hchars]

/-- Where a message tells what it quotes, there is no other case. -/
theorem ofText_dependsOnChars_iff (hformat : ∀ text, Function.Injective (format text)) :
    DependsOnChars inetPton (fun _ => ofText inetPton format) s ↔
      ∃ x, s.cString = some x ∧
        ((x = untilNul s.chars ∧ (inetPton x).ret ≠ 1) ∨ ReadsAddress inetPton s.chars x) := by
  refine ⟨fun hlaw => ?_, fun ⟨x, hx, h⟩ => ofText_dependsOnChars_of hx h⟩
  obtain ⟨x, hx, hsame, haccepts⟩ :=
    (dependsOnChars_iff_of_map (fun _ _ => textOutcome inetPton format) fun _ =>
      ofText_eq_map).mp hlaw
  have hxy := hsame ⟨0⟩ ⟨0⟩
  refine ⟨x, hx, ?_⟩
  by_cases hret : (inetPton x).ret = 1
  · -- accepted, so in the literal as well
    obtain ⟨a, ha⟩ := Pton.ret_eq_one hret
    rw [textOutcome_of_parsed ha] at hxy
    by_cases hret' : (inetPton (untilNul s.chars)).ret = 1
    · obtain ⟨b, hb⟩ := Pton.ret_eq_one hret'
      rw [textOutcome_of_parsed hb] at hxy
      cases hxy
      exact .inr (readsAddress_of ha hb (haccepts ⟨⟨0⟩, _, textOutcome_of_parsed ha⟩))
    · rw [textOutcome_of_ret hret'] at hxy
      cases hxy
  · by_cases hret' : (inetPton (untilNul s.chars)).ret = 1
    · obtain ⟨b, hb⟩ := Pton.ret_eq_one hret'
      rw [textOutcome_of_ret hret, textOutcome_of_parsed hb] at hxy
      cases hxy
    · -- rejected at both: the messages are the same, and so is what they quote
      rw [textOutcome_of_ret hret, textOutcome_of_ret hret'] at hxy
      injection hxy with hwhat
      injection hwhat with hwhat
      exact .inl ⟨hformat _ hwhat, hret⟩

/-- The constructor is right about the views that end at a NUL. -/
theorem ofText_dependsOnChars_of_nulTerminated (hs : s.NulTerminated) :
    DependsOnChars inetPton (fun _ => ofText inetPton format) s := by
  have hx : s.cString = some s.chars := s.cString_of_nulTerminated hs
  refine ofText_dependsOnChars_of hx ?_
  by_cases hret : (inetPton s.chars).ret = 1
  · obtain ⟨a, ha⟩ := Pton.ret_eq_one hret
    exact .inr ⟨hs.1, a, ha, ha⟩
  · exact .inl ⟨(untilNul_of_notMem hs.1).symm, hret⟩

/-- `tryFromString` always accepts. -/
theorem tryFromString_dependsOnChars_iff :
    DependsOnChars inetPton (tryFromString inetPton) s ↔
      ∃ x, s.cString = some x ∧ ReadsAddress inetPton s.chars x := by
  refine dependsOnChars_iff_of_outcome (fun _ junk text => .ok ⟨(inetPton text).dst junk⟩)
    tryFromString_eq_map fun x => ?_
  constructor
  · intro hboth
    obtain ⟨hsame, haccepts⟩ := hboth
    obtain ⟨a, hx, hchars⟩ := Pton.dst_eq_iff.mp fun junk junk' => by
      have hxy := hsame junk junk'
      injection hxy with haddr
      injection haddr
    exact readsAddress_of hx hchars (haccepts ⟨⟨0⟩, _, rfl⟩)
  · intro hreads
    obtain ⟨hnul, a, ha, hchars⟩ := hreads
    refine ⟨fun _ _ => ?_, fun _ => ⟨hnul, a, hchars⟩⟩
    rw [untilNul_of_notMem hnul, ha, hchars]
    rfl

/-- `toLong` and `toLongHBO` accept where nothing was stored. -/
theorem long_dependsOnChars_iff {entry : InAddr → StringView →
      Option (Except IPAddressFormatException UInt32)} {convert : UInt32 → UInt32}
    (hconvert : convert 0 ≠ convert 1)
    (hentry : ∀ junk u, entry junk u = u.cString.map fun text =>
      longOutcome format convert u.chars junk (inetPton text)) :
    DependsOnChars inetPton entry s ↔ ∃ x, s.cString = some x ∧
      (inetPton x).ret ≠ 0 ∧ (inetPton (untilNul s.chars)).ret ≠ 0 := by
  refine dependsOnChars_iff_of_outcome
    (fun chars junk text => longOutcome format convert chars junk (inetPton text)) hentry
    fun x => ?_
  constructor
  · intro hboth
    have hsame := hboth.1
    constructor
    · apply ret_ne_zero_of_longOutcome hconvert
      exact fun junk junk' => (hsame junk junk).trans (hsame junk' junk).symm
    · apply ret_ne_zero_of_longOutcome hconvert
      exact fun junk junk' => (hsame junk junk).symm.trans (hsame junk junk')
  · intro hcond
    obtain ⟨hx, hchars⟩ := hcond
    unfold longOutcome
    refine ⟨fun _ _ => by rw [if_pos hx, if_pos hchars], ?_⟩
    rintro ⟨_, _, hok⟩
    rw [if_pos hx] at hok
    cases hok

theorem ntohl_zero_ne_one (host : Host) : ntohl host 0 ≠ ntohl host 1 := by
  cases host <;> decide

end

/-! ## The four together -/

/-- All four consult the characters only. -/
structure EntryPointsDependOnChars (inetPton : InetPton) (format : Format) (host : Host)
    (s : StringView) : Prop where
  ofText : DependsOnChars inetPton (fun _ => ofText inetPton format) s
  tryFromString : DependsOnChars inetPton (tryFromString inetPton) s
  toLong : DependsOnChars inetPton (textToLong inetPton format) s
  toLongHBO : DependsOnChars inetPton (fun junk => textToLongHBO inetPton format junk host) s

/-- None of the four tells `s` from `t`. -/
structure EntryPointsAlike (inetPton : InetPton) (format : Format) (host : Host)
    (s t : StringView) : Prop where
  ofText : OneOutcome (fun _ => ofText inetPton format) s t
  tryFromString : OneOutcome (tryFromString inetPton) s t
  toLong : OneOutcome (textToLong inetPton format) s t
  toLongHBO : OneOutcome (fun junk => textToLongHBO inetPton format junk host) s t

section

variable {inetPton : InetPton} {format : Format} {host : Host}

theorem EntryPointsDependOnChars.alike {s t : StringView}
    (hs : EntryPointsDependOnChars inetPton format host s)
    (ht : EntryPointsDependOnChars inetPton format host t) (hchars : s.chars = t.chars) :
    EntryPointsAlike inetPton format host s t where
  ofText := hs.ofText.oneOutcome ht.ofText hchars
  tryFromString := hs.tryFromString.oneOutcome ht.tryFromString hchars
  toLong := hs.toLong.oneOutcome ht.toLong hchars
  toLongHBO := hs.toLongHBO.oneOutcome ht.toLongHBO hchars

/-- **When only the characters count.** On a view, the entry points consult its characters only, and
accept only an address, iff its characters are an address and `inet_pton` finds that same address in
what stands at `data()`, up to the next NUL. Two such views with the same characters are not told
apart. -/
theorem entryPointsDependOnChars_iff :
    (∀ s, EntryPointsDependOnChars inetPton format host s ↔
      ∃ x, s.cString = some x ∧ (0 : UInt8) ∉ s.chars ∧
        ∃ a, inetPton x = .parsed a ∧ inetPton s.chars = .parsed a) ∧
    ∀ s t, EntryPointsDependOnChars inetPton format host s →
      EntryPointsDependOnChars inetPton format host t → s.chars = t.chars →
      EntryPointsAlike inetPton format host s t := by
  refine ⟨fun s => ⟨?_, ?_⟩, fun s t hs ht hchars => hs.alike ht hchars⟩
  · -- `tryFromString` is the one that asks most
    intro hlaw
    exact tryFromString_dependsOnChars_iff.mp hlaw.tryFromString
  · intro hcond
    obtain ⟨x, hx, hreads⟩ := hcond
    have hlong : ∃ x, s.cString = some x ∧ (inetPton x).ret ≠ 0 ∧
        (inetPton (untilNul s.chars)).ret ≠ 0 := by
      obtain ⟨hnul, a, ha, hchars⟩ := hreads
      have hret : (Pton.parsed a).ret ≠ 0 := Int.one_ne_zero
      refine ⟨x, hx, ha ▸ hret, ?_⟩
      rw [untilNul_of_notMem hnul]
      exact hchars ▸ hret
    exact
      { ofText := ofText_dependsOnChars_of hx (.inr hreads)
        tryFromString := tryFromString_dependsOnChars_iff.mpr ⟨x, hx, hreads⟩
        toLong := (long_dependsOnChars_iff (by decide) textToLong_eq_map).mpr hlong
        toLongHBO := (long_dependsOnChars_iff (ntohl_zero_ne_one host) textToLongHBO_eq_map).mpr
          hlong }

end

/-- `1.2.3.4`, cut from the line `1.2.3.4/24`. -/
def token1234 : StringView where
  base := [49, 46, 50, 46, 51, 46, 52, 47, 50, 52, 0]
  start := 0
  size := 7
  within := by decide
  size_lt := by decide

/-- `1.2.3.4`, cut from `1.2.3.45`. -/
def cut1234 : StringView where
  base := [49, 46, 50, 46, 51, 46, 52, 53, 0]
  start := 0
  size := 7
  within := by decide
  size_lt := by decide

/-- A view of eight bytes: `1.2.3.4` and a NUL. -/
def text1234Nul : StringView where
  base := [49, 46, 50, 46, 51, 46, 52, 0, 0]
  start := 0
  size := 8
  within := by decide
  size_lt := by decide

/-- `1.2.3.4`, with the NUL behind it in the middle of a buffer. -/
def field1234 : StringView where
  base := [32, 49, 46, 50, 46, 51, 46, 52, 0, 57]
  start := 1
  size := 7
  within := by decide
  size_lt := by decide

/-- `inet_pton`, on `1.2.3.4`, on `1.2.3.45` and on texts that are no address. -/
def pton12345 : InetPton := fun text =>
  if text = [49, 46, 50, 46, 51, 46, 52, 53] then .parsed ⟨0x2d030201⟩ else pton1234 text

theorem entryPointsDependOnChars_1234 :
    EntryPointsDependOnChars pton12345 fmtFormat .little field1234 ∧
      EntryPointsAlike pton12345 fmtFormat .little text1234 field1234 := by
  have htext : EntryPointsDependOnChars pton12345 fmtFormat .little text1234 :=
    (entryPointsDependOnChars_iff.1 text1234).mpr
      ⟨_, rfl, by decide, ⟨0x04030201⟩, by decide, by decide⟩
  have hfield : EntryPointsDependOnChars pton12345 fmtFormat .little field1234 :=
    (entryPointsDependOnChars_iff.1 field1234).mpr
      ⟨_, rfl, by decide, ⟨0x04030201⟩, by decide, by decide⟩
  exact ⟨hfield, entryPointsDependOnChars_iff.2 _ _ htext hfield (by decide)⟩

/-- The constructor takes `1.2.3.4` from a literal and not from the longer line; cut from `1.2.3.45`
it is taken for that address; and the eight bytes that end in a NUL are taken, which are no
address. -/
theorem ofText_readsBehind :
    (text1234.chars = token1234.chars ∧
      ofText pton12345 fmtFormat text1234 = some (.ok ⟨⟨0x04030201⟩⟩) ∧
      (∃ e, ofText pton12345 fmtFormat token1234 = some (.error e)) ∧
      ¬ EntryPointsDependOnChars pton12345 fmtFormat .little token1234) ∧
    (text1234.chars = cut1234.chars ∧
      ofText pton12345 fmtFormat cut1234 = some (.ok ⟨⟨0x2d030201⟩⟩) ∧
      ¬ EntryPointsDependOnChars pton12345 fmtFormat .little cut1234) ∧
    ofText pton12345 fmtFormat text1234Nul = some (.ok ⟨⟨0x04030201⟩⟩) ∧
      ¬ EntryPointsDependOnChars pton12345 fmtFormat .little text1234Nul := by
  have htoken : ofText pton12345 fmtFormat token1234 = some (.error _) := rfl
  have hcut : ofText pton12345 fmtFormat cut1234 = some (.ok ⟨⟨0x2d030201⟩⟩) := rfl
  have hnul : ofText pton12345 fmtFormat text1234Nul = some (.ok ⟨⟨0x04030201⟩⟩) := rfl
  refine ⟨⟨by decide, rfl, ⟨_, htoken⟩, ?_⟩, ⟨by decide, hcut, ?_⟩, hnul, ?_⟩
  · intro hlaw
    obtain ⟨r, hr, hr'⟩ := hlaw.ofText.same ⟨0⟩ ⟨0⟩
    cases htoken.symm.trans hr
    cases hr'
  · intro hlaw
    obtain ⟨r, hr, hr'⟩ := hlaw.ofText.same ⟨0⟩ ⟨0⟩
    cases hcut.symm.trans hr
    cases hr'
  · intro hlaw
    exact absurd (hlaw.ofText.accepts ⟨0⟩ _ hnul).1 (by decide)

end IPAddressV4

end Hy.Net

import HyServer.Cpp.Integers
import Mathlib.Data.List.TakeWhile

/-!
# Cpp — character data

Text as bytes. A `string_view` looks at a part of the bytes of some object, and a callee that is
given its `data()` as a C string reads on from there to the next NUL, in the view or behind it. What
has no defined result (a read behind the object, a write behind an array, a position out of range)
is `none`.

* `cString` — what a callee reads from a pointer to some bytes.
* `StringView` — the view, with its bounds; `find` and `removeSuffix` of it.
* `copyInto`, `store` — writes to a `std::array`.
-/

namespace Cpp

/-! ## C strings -/

/-- Up to the first NUL. -/
def untilNul (bytes : List UInt8) : List UInt8 :=
  bytes.takeWhile (· ≠ 0)

/-- The C string at the first of `bytes`, which the object ends with. -/
def cString (bytes : List UInt8) : Option (List UInt8) :=
  if (0 : UInt8) ∈ bytes then some (untilNul bytes) else none

theorem untilNul_of_notMem {bytes : List UInt8} (h : (0 : UInt8) ∉ bytes) :
    untilNul bytes = bytes :=
  List.takeWhile_eq_self_iff.mpr fun _ hb => decide_eq_true fun hzero => h (hzero ▸ hb)

/-- The NUL that ends the C string, by its place. -/
theorem length_untilNul_iff {bytes : List UInt8} {n : Nat} :
    (0 : UInt8) ∈ bytes ∧ (untilNul bytes).length = n ↔
      (0 : UInt8) ∉ bytes.take n ∧ bytes[n]? = some 0 := by
  induction bytes generalizing n with
  | nil => simp
  | cons b bytes ih =>
    by_cases hb : b = 0
    · cases n with
      | zero => simp [untilNul, hb]
      | succ n => simp [untilNul, hb]
    · have hb' : ¬ 0 = b := fun h => hb h.symm
      cases n with
      | zero => simp [untilNul, hb]
      | succ n =>
        have hn := ih (n := n)
        simpa [untilNul, hb, hb'] using hn

/-- What stands behind a NUL does not matter. -/
theorem untilNul_append_nul (bytes rest : List UInt8) :
    untilNul (bytes ++ 0 :: rest) = untilNul bytes := by
  have hnul : (0 :: rest).takeWhile (· ≠ 0) = [] := List.takeWhile_cons_of_neg (by decide)
  unfold untilNul
  rw [List.takeWhile_append, hnul, List.append_nil]
  split
  next hlen => exact ((List.takeWhile_prefix _).eq_of_length hlen).symm
  next => rfl

theorem cString_append_nul (bytes rest : List UInt8) :
    cString (bytes ++ 0 :: rest) = some (untilNul bytes) := by
  have hmem : (0 : UInt8) ∈ bytes ++ 0 :: rest :=
    List.mem_append.mpr (.inr List.mem_cons_self)
  rw [cString, if_pos hmem, untilNul_append_nul]

/-! ## Views -/

structure StringView where
  /-- The bytes of the object the view looks into. -/
  base : List UInt8
  /-- Where `data()` points. -/
  start : Nat
  size : Nat
  within : start + size ≤ base.length
  size_lt : size < 2 ^ 64

namespace StringView

variable (v : StringView)

def chars : List UInt8 := (v.base.drop v.start).take v.size

/-- `front()`, `none` for an empty view. -/
def front : Option UInt8 := v.chars.head?

def back : Option UInt8 := v.chars.getLast?

/-- `substr(pos, n)`, `none` for the exception. -/
def substr (pos n : Nat) : Option StringView :=
  if h : pos ≤ v.size then
    some
      { base := v.base
        start := v.start + pos
        size := min n (v.size - pos)
        within := by have := v.within; omega
        size_lt := by have := v.size_lt; omega }
  else none

/-- `data()`, read as a C string. -/
def cString : Option (List UInt8) := Cpp.cString (v.base.drop v.start)

/-- The view is followed by a NUL and has none. -/
def NulTerminated : Prop := (0 : UInt8) ∉ v.chars ∧ v.base[v.start + v.size]? = some 0

/-- A view of a whole string literal. -/
def ofLiteral (text : List UInt8) (h : text.length < 2 ^ 64) : StringView where
  base := text ++ [0]
  start := 0
  size := text.length
  within := by simp
  size_lt := h

@[simp] theorem length_chars : v.chars.length = v.size := by
  have hwithin := v.within
  rw [chars, List.length_take, List.length_drop]
  omega

theorem chars_eq_nil_iff : v.chars = [] ↔ v.size = 0 := by
  rw [← List.length_eq_zero_iff, v.length_chars]

theorem chars_substr {w : StringView} {pos n : Nat} (h : v.substr pos n = some w) :
    w.chars = (v.chars.drop pos).take n := by
  unfold substr at h
  split at h
  next hpos =>
    cases h
    simp only [chars]
    rw [← List.drop_drop, List.drop_take, List.take_take]
  next => cases h

theorem substr_eq_some {pos : Nat} (h : pos ≤ v.size) (n : Nat) :
    ∃ w, v.substr pos n = some w ∧ w.start = v.start + pos ∧ w.size = min n (v.size - pos) :=
  ⟨_, dif_pos h, rfl, rfl⟩

theorem cString_of_nulTerminated (h : v.NulTerminated) : v.cString = some v.chars := by
  obtain ⟨hchars, hnul⟩ := h
  have hsplit : v.base.drop v.start = v.chars ++ 0 :: (v.base.drop v.start).drop (v.size + 1) := by
    have hget : (v.base.drop v.start)[v.size]? = some 0 := by rwa [List.getElem?_drop]
    obtain ⟨hlt, hzero⟩ := List.getElem?_eq_some_iff.mp hget
    rw [← hzero, ← List.drop_eq_getElem_cons hlt]
    exact (List.take_append_drop v.size _).symm
  rw [cString, hsplit, cString_append_nul, untilNul_of_notMem hchars]

/-- The C string at a view ends where the view does. -/
theorem nulTerminated_iff :
    v.NulTerminated ↔ (0 : UInt8) ∈ v.base.drop v.start ∧
      (untilNul (v.base.drop v.start)).length = v.size := by
  rw [length_untilNul_iff, List.getElem?_drop]
  rfl

/-- A callee gets the characters of exactly the views that a NUL ends. -/
theorem cString_eq_some_chars_iff : v.cString = some v.chars ↔ v.NulTerminated := by
  refine ⟨fun h => ?_, v.cString_of_nulTerminated⟩
  unfold cString Cpp.cString at h
  split at h
  next hmem =>
    have hlen := congrArg List.length (Option.some.inj h)
    rw [v.length_chars] at hlen
    exact v.nulTerminated_iff.mpr ⟨hmem, hlen⟩
  next => cases h

/-- The same characters in a literal of their own. -/
def literal : StringView :=
  ofLiteral v.chars (v.length_chars.symm ▸ v.size_lt)

@[simp] theorem chars_literal : v.literal.chars = v.chars :=
  List.take_left

theorem cString_literal : v.literal.cString = some (untilNul v.chars) :=
  cString_append_nul v.chars []

theorem nulTerminated_ofLiteral {text : List UInt8} (hlt : text.length < 2 ^ 64)
    (h : (0 : UInt8) ∉ text) : (ofLiteral text hlt).NulTerminated := by
  refine ⟨?_, ?_⟩
  · simpa [chars, ofLiteral] using h
  · simp [ofLiteral]

end StringView

/-! ## Searching -/

/-- Where `needle` begins for the first time. -/
def indexOf (needle : List UInt8) : List UInt8 → Option Nat
  | [] => if needle = [] then some 0 else none
  | b :: bytes =>
    if needle <+: b :: bytes then some 0 else (indexOf needle bytes).map (· + 1)

theorem indexOf_eq_zero_iff (needle bytes : List UInt8) :
    indexOf needle bytes = some 0 ↔ needle <+: bytes := by
  cases bytes with
  | nil => simp [indexOf]
  | cons b bytes =>
    by_cases hbegins : needle <+: b :: bytes
    · simp [indexOf, hbegins]
    · simp [indexOf, hbegins]

namespace StringView

def npos : Nat := 2 ^ 64 - 1

variable (v : StringView)

/-- `find(needle)` -/
def find (needle : List UInt8) : Nat := (indexOf needle v.chars).getD npos

/-- `remove_suffix(n)`, which has to leave a view. -/
def removeSuffix (n : Nat) : Option StringView :=
  if n ≤ v.size then
    some
      { base := v.base
        start := v.start
        size := v.size - n
        within := by have := v.within; omega
        size_lt := by have := v.size_lt; omega }
  else none

/-- Only a view that begins with `needle` gives a `find` that is no condition. -/
theorem find_eq_zero_iff (needle : List UInt8) : v.find needle = 0 ↔ needle <+: v.chars := by
  rw [← indexOf_eq_zero_iff, find]
  cases indexOf needle v.chars with
  | none => decide
  | some i => simp

theorem chars_removeSuffix {w : StringView} {n : Nat} (h : v.removeSuffix n = some w) :
    n ≤ v.size ∧ w.chars = v.chars.take (v.size - n) := by
  unfold removeSuffix at h
  split at h
  next hle =>
    cases h
    simp only [chars]
    rw [List.take_take, Nat.min_eq_left (Nat.sub_le ..)]
    exact ⟨hle, rfl⟩
  next => cases h

end StringView

/-! ## Arrays -/

/-- `std::copy` of `src` to the start of an array. -/
def copyInto {n : Nat} (src : List UInt8) (dst : Vector UInt8 n) : Option (Vector UInt8 n) :=
  if h : src.length ≤ n then
    some ⟨(src ++ dst.toList.drop src.length).toArray, by simp; omega⟩
  else none

/-- `dst[i] = b` -/
def store {n : Nat} (dst : Vector UInt8 n) (i : Nat) (b : UInt8) : Option (Vector UInt8 n) :=
  if h : i < n then some (dst.set i b) else none

theorem copyInto_eq_some {n : Nat} {src : List UInt8} (dst : Vector UInt8 n) (h : src.length ≤ n) :
    ∃ dst', copyInto src dst = some dst' ∧ dst'.toList = src ++ dst.toList.drop src.length :=
  ⟨_, dif_pos h, by simp⟩

theorem store_eq_some {n i : Nat} (dst : Vector UInt8 n) (h : i < n) (b : UInt8) :
    ∃ dst', store dst i b = some dst' ∧ dst'.toList = dst.toList.set i b :=
  ⟨_, dif_pos h, Vector.toList_set h⟩

/-- A string written to an array, and a NUL right behind it: the rest of the array stays. -/
theorem exists_copy_nul {n : Nat} {src : List UInt8} (dst : Vector UInt8 n) (h : src.length < n) :
    ∃ dst' dst'', copyInto src dst = some dst' ∧ store dst' src.length 0 = some dst'' ∧
      dst''.toList = src ++ 0 :: dst.toList.drop (src.length + 1) := by
  obtain ⟨dst', hcopy, hdst'⟩ := copyInto_eq_some dst (Nat.le_of_lt h)
  obtain ⟨dst'', hstore, hdst''⟩ := store_eq_some dst' h 0
  refine ⟨dst', dst'', hcopy, hstore, ?_⟩
  have hlen : src.length < dst.toList.length := by simpa using h
  rw [hdst'', hdst', List.set_append_right _ _ (Nat.le_refl _), Nat.sub_self,
    List.drop_eq_getElem_cons hlen, List.set_cons_zero]

end Cpp

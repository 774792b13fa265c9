import Mathlib.Algebra.Order.Ring.Int
import Mathlib.Data.List.Forall2

/-!
# hy::LogLevel

Levels are 32-bit numbers, of which some have names. `operator+` is to stop at `MAX_LEVEL`, but its
test is on a sum that may have wrapped around; `operator-` has no test.

* `Saturates` — increments one after the other give the sum, or `MAX_LEVEL`.
* `saturates_iff` — they do as long as no sum on the way leaves 32 bits.
* `StaysBelow`, `NeverRaises` — decrements do not go above the level at the start, or above the one
  before.
* `staysBelow_iff` — on which decrements that is so.
-/

namespace Hy.Log

/-- The underlying value. -/
structure LogLevel where
  value : UInt32
  deriving DecidableEq, Repr

namespace LogLevel

def UNINITIALIZED : LogLevel := ⟨0⟩
def NONE : LogLevel := ⟨1⟩
def DEBUG : LogLevel := ⟨1000⟩
def DBG : LogLevel := ⟨1000⟩
def DEBUG0 : LogLevel := ⟨1999⟩
def INFO : LogLevel := ⟨2000⟩
def INFO0 : LogLevel := ⟨2999⟩
def WARN : LogLevel := ⟨3000⟩
def ERR : LogLevel := ⟨4000⟩
def CRITICAL : LogLevel := ⟨5000⟩
def FATAL : LogLevel := ⟨0x7fffffff⟩
def MAX_LEVEL : LogLevel := ⟨0x7fffffff⟩

def toNat (level : LogLevel) : Nat := level.value.toNat

theorem toNat_inj {a b : LogLevel} (h : a.toNat = b.toNat) : a = b := by
  cases a
  cases b
  congr 1
  exact UInt32.toNat_inj.mp h

theorem toNat_lt (level : LogLevel) : level.toNat < 2 ^ 32 := level.value.toNat_lt

end LogLevel

open LogLevel

/-- `operator+` -/
def plus (level : LogLevel) (value : UInt32) : LogLevel :=
  if level.value + value > MAX_LEVEL.value then MAX_LEVEL else ⟨level.value + value⟩

/-- `operator-` -/
def minus (level : LogLevel) (value : UInt32) : LogLevel := ⟨level.value - value⟩

def isLogLevelFatal (level : LogLevel) : Bool := decide (level.value ≥ FATAL.value)

/-- `operator+=`, for each of the values. -/
def raise (level : LogLevel) (values : List UInt32) : LogLevel := values.foldl plus level

/-- `operator-=`, for each of the values. -/
def lower (level : LogLevel) (values : List UInt32) : LogLevel := values.foldl minus level

/-- The sum in the integers. -/
def total (values : List UInt32) : Nat := (values.map UInt32.toNat).sum

@[simp] theorem total_nil : total [] = 0 := rfl

@[simp] theorem total_cons (v : UInt32) (values : List UInt32) :
    total (v :: values) = v.toNat + total values := by
  simp [total]

/-! ## Raising a level -/

theorem toNat_MAX_LEVEL : MAX_LEVEL.toNat = 2 ^ 31 - 1 := rfl

theorem plus_le (level : LogLevel) (v : UInt32) : (plus level v).toNat ≤ MAX_LEVEL.toNat := by
  unfold plus
  split
  next => exact Nat.le_refl _
  next hle => exact UInt32.le_iff_toNat_le.mp (UInt32.not_lt.mp hle)

/-- The sum fits: one saturating addition. -/
theorem plus_of_fits {level : LogLevel} {v : UInt32} (h : level.toNat + v.toNat < 2 ^ 32) :
    (plus level v).toNat = min (level.toNat + v.toNat) MAX_LEVEL.toNat := by
  have hsum : (level.value + v).toNat = level.toNat + v.toNat := by
    rw [UInt32.toNat_add]
    exact Nat.mod_eq_of_lt h
  unfold plus
  split
  next hgt =>
    have hgt' : MAX_LEVEL.toNat < (level.value + v).toNat := UInt32.lt_iff_toNat_lt.mp hgt
    omega
  next hle =>
    have hle' : (level.value + v).toNat ≤ MAX_LEVEL.toNat :=
      UInt32.le_iff_toNat_le.mp (UInt32.not_lt.mp hle)
    show (level.value + v).toNat = _
    omega

/-- The sum wraps around, and the result is below the level. -/
theorem plus_of_wraps {level : LogLevel} {v : UInt32} (hlevel : level.toNat ≤ MAX_LEVEL.toNat)
    (h : 2 ^ 32 ≤ level.toNat + v.toNat) : (plus level v).toNat < level.toNat := by
  have hv := v.toNat_lt
  have hmax := toNat_MAX_LEVEL
  have hsum : (level.value + v).toNat = level.toNat + v.toNat - 2 ^ 32 := by
    rw [UInt32.toNat_add]
    show (level.toNat + v.toNat) % 2 ^ 32 = _
    omega
  -- what is left of the sum passes the test
  have hle : ¬ level.value + v > MAX_LEVEL.value := by
    rw [gt_iff_lt, UInt32.lt_iff_toNat_lt, hsum]
    show ¬ MAX_LEVEL.toNat < _
    omega
  rw [plus, if_neg hle]
  show (level.value + v).toNat < _
  omega

/-- No sum on the way leaves 32 bits, from a level that is stopped at `MAX_LEVEL`. -/
def NoWrap : Nat → List UInt32 → Prop
  | _, [] => True
  | l, v :: values => l + v.toNat < 2 ^ 32 ∧ NoWrap (min (l + v.toNat) MAX_LEVEL.toNat) values

/-- Smaller increments from a lower level do not leave 32 bits either. -/
theorem NoWrap.mono {values values' : List UInt32} {l l' : Nat} (h : NoWrap l values)
    (hle : l' ≤ l) (hvalues : List.Forall₂ (· ≤ ·) values' values) : NoWrap l' values' := by
  induction hvalues generalizing l l' with
  | nil => trivial
  | cons hv _ ih =>
    obtain ⟨hfits, hrest⟩ := h
    have hv' := UInt32.le_iff_toNat_le.mp hv
    exact ⟨by omega, ih hrest (by omega)⟩

/-- The levels on the way are the sums, stopped at `MAX_LEVEL`. -/
def Exact (level : LogLevel) (values : List UInt32) : Prop :=
  ∀ n, (raise level (values.take n)).toNat =
    min (level.toNat + total (values.take n)) MAX_LEVEL.toNat

/-- Step by step: induction on the increments, from every level. -/
theorem exact_iff {level : LogLevel} (hlevel : level.toNat ≤ MAX_LEVEL.toNat)
    (values : List UInt32) : Exact level values ↔ NoWrap level.toNat values := by
  induction values generalizing level with
  | nil =>
    refine iff_of_true (fun n => ?_) trivial
    rw [List.take_nil]
    show level.toNat = min (level.toNat + 0) _
    omega
  | cons v values ih =>
    have hnext := plus_le level v
    constructor
    · intro h
      -- the first level on the way is exact, so the first sum has not wrapped
      have hstep : (plus level v).toNat = min (level.toNat + (v.toNat + 0)) MAX_LEVEL.toNat := h 1
      have hfits : level.toNat + v.toNat < 2 ^ 32 := by
        apply Nat.lt_of_not_le
        intro hwraps
        have hlt := plus_of_wraps hlevel hwraps
        omega
      refine ⟨hfits, ?_⟩
      rw [← plus_of_fits hfits, ← ih hnext]
      intro n
      have hn := h (n + 1)
      rw [List.take_succ_cons, total_cons] at hn
      show (raise level (v :: values.take n)).toNat = _
      omega
    · intro h n
      obtain ⟨hfits, hrest⟩ := h
      -- stopping at `MAX_LEVEL` on the way or at the end is the same
      have hstep := plus_of_fits hfits
      rw [← hstep] at hrest
      cases n with
      | zero =>
        show level.toNat = min (level.toNat + 0) _
        omega
      | succ n =>
        have hn := (ih hnext).mpr hrest n
        rw [List.take_succ_cons, total_cons]
        show (raise (plus level v) (values.take n)).toNat = _
        omega

/-- Raising in turn: the exact levels, none below the level at the start, and none above what
greater increments from a greater level give. -/
structure Saturates (level : LogLevel) (values : List UInt32) : Prop where
  exact : Exact level values
  le_raise : ∀ n, level.toNat ≤ (raise level (values.take n)).toNat
  mono : ∀ (level' : LogLevel) (values' : List UInt32), level'.toNat ≤ level.toNat →
    List.Forall₂ (· ≤ ·) values' values →
    (raise level' values').toNat ≤ (raise level values).toNat

theorem Exact.raise_eq {level : LogLevel} {values : List UInt32} (h : Exact level values) :
    (raise level values).toNat = min (level.toNat + total values) MAX_LEVEL.toNat := by
  have hall := h values.length
  rwa [List.take_length] at hall

theorem total_le {values values' : List UInt32} (h : List.Forall₂ (· ≤ ·) values' values) :
    total values' ≤ total values := by
  induction h with
  | nil => exact Nat.le_refl _
  | cons hv _ ih =>
    have hv' := UInt32.le_iff_toNat_le.mp hv
    rw [total_cons, total_cons]
    omega

theorem total_perm {values values' : List UInt32} (h : values'.Perm values) :
    total values' = total values :=
  (h.map UInt32.toNat).sum_nat

/-- **Raising a level saturates** when and only when no sum on the way leaves 32 bits; and then the
order of the increments does not matter. -/
theorem saturates_iff {level : LogLevel} (hlevel : level.toNat ≤ MAX_LEVEL.toNat)
    (values : List UInt32) :
    (Saturates level values ↔ NoWrap level.toNat values) ∧
      ∀ values', values'.Perm values → NoWrap level.toNat values → NoWrap level.toNat values' →
        raise level values' = raise level values := by
  refine ⟨⟨fun h => (exact_iff hlevel values).mp h.exact, fun h => ?_⟩, ?_⟩
  · have hexact := (exact_iff hlevel values).mpr h
    refine ⟨hexact, fun n => ?_, fun level' values' hle hvalues => ?_⟩
    · have hn := hexact n
      omega
    · have hlevel' : level'.toNat ≤ MAX_LEVEL.toNat := Nat.le_trans hle hlevel
      have hexact' := (exact_iff hlevel' values').mpr (h.mono hle hvalues)
      have htotal := total_le hvalues
      rw [hexact.raise_eq, hexact'.raise_eq]
      omega
  · intro values' hperm h h'
    have hexact := (exact_iff hlevel values).mpr h
    have hexact' := (exact_iff hlevel values').mpr h'
    apply LogLevel.toNat_inj
    rw [hexact.raise_eq, hexact'.raise_eq, total_perm hperm]

theorem saturates_INFO :
    INFO.toNat ≤ MAX_LEVEL.toNat ∧ NoWrap INFO.toNat [10, 0x7fffffff] ∧
      Saturates INFO [10, 0x7fffffff] := by
  have hle : INFO.toNat ≤ MAX_LEVEL.toNat := by decide
  have hfits : NoWrap INFO.toNat [10, 0x7fffffff] := ⟨by decide, by decide, trivial⟩
  exact ⟨hle, hfits, (saturates_iff hle [10, 0x7fffffff]).1.mpr hfits⟩

/-- `NONE`, raised by the greatest increment, is `UNINITIALIZED`. -/
theorem not_saturates_NONE :
    NONE.toNat ≤ MAX_LEVEL.toNat ∧ raise NONE [0xffffffff] = UNINITIALIZED ∧
      ¬ Saturates NONE [0xffffffff] := by
  have hraise : raise NONE [0xffffffff] = UNINITIALIZED := by decide
  refine ⟨by decide, hraise, fun h => ?_⟩
  have hle := h.le_raise 1
  rw [List.take_of_length_le (by decide), hraise] at hle
  exact absurd hle (by decide)

/-! ## Lowering a level -/

/-- Decrements one after the other take away their sum, in 32 bits. -/
theorem toNat_lower (level : LogLevel) (values : List UInt32) :
    (lower level values).toNat = (level.toNat + (2 ^ 32 - total values % 2 ^ 32)) % 2 ^ 32 := by
  induction values generalizing level with
  | nil =>
    have hlt := level.toNat_lt
    show level.toNat = (level.toNat + (2 ^ 32 - 0)) % 2 ^ 32
    omega
  | cons v values ih =>
    have hstep : (minus level v).toNat = (2 ^ 32 - v.toNat + level.toNat) % 2 ^ 32 :=
      UInt32.toNat_sub level.value v
    have hv := v.toNat_lt
    show (lower (minus level v) values).toNat = _
    rw [ih, hstep, total_cons]
    omega

theorem lower_le_iff (level : LogLevel) (values : List UInt32) :
    (lower level values).toNat ≤ level.toNat ↔ total values % 2 ^ 32 ≤ level.toNat := by
  have hlt := level.toNat_lt
  rw [toNat_lower]
  omega

theorem isLogLevelFatal_eq_false_iff (level : LogLevel) :
    isLogLevelFatal level = false ↔ level.toNat < MAX_LEVEL.toNat := by
  rw [isLogLevelFatal, decide_eq_false_iff_not, ge_iff_le, UInt32.not_le, UInt32.lt_iff_toNat_lt]
  rfl

/-- No level on the way is above the one at the start. -/
structure StaysBelow (level : LogLevel) (values : List UInt32) : Prop where
  le_start : ∀ n, (lower level (values.take n)).toNat ≤ level.toNat
  le_max : ∀ n, (lower level (values.take n)).toNat ≤ MAX_LEVEL.toNat
  not_fatal : isLogLevelFatal level = false →
    ∀ n, isLogLevelFatal (lower level (values.take n)) = false

/-- No level on the way is above the one before. -/
structure NeverRaises (level : LogLevel) (values : List UInt32) : Prop where
  le_before : ∀ n, (lower level (values.take (n + 1))).toNat ≤ (lower level (values.take n)).toNat
  not_fatal : ∀ n, isLogLevelFatal (lower level (values.take n)) = false →
    isLogLevelFatal (lower level (values.take (n + 1))) = false

theorem NeverRaises.of_le {level : LogLevel} {values : List UInt32}
    (h : ∀ n, (lower level (values.take (n + 1))).toNat ≤ (lower level (values.take n)).toNat) :
    NeverRaises level values := by
  refine ⟨h, fun n hfatal => ?_⟩
  rw [isLogLevelFatal_eq_false_iff] at hfatal ⊢
  exact Nat.lt_of_le_of_lt (h n) hfatal

theorem neverRaises_cons (level : LogLevel) (v : UInt32) (values : List UInt32) :
    NeverRaises level (v :: values) ↔
      (minus level v).toNat ≤ level.toNat ∧ NeverRaises (minus level v) values := by
  constructor
  · intro h
    exact ⟨h.le_before 0, .of_le fun n => h.le_before (n + 1)⟩
  · intro h
    obtain ⟨hstep, hrest⟩ := h
    apply NeverRaises.of_le
    intro n
    cases n with
    | zero => exact hstep
    | succ n => exact hrest.le_before n

/-- Induction on the decrements: what is left of the level has to suffice for the others. -/
theorem neverRaises_iff (level : LogLevel) (values : List UInt32) :
    NeverRaises level values ↔ total values ≤ level.toNat := by
  induction values generalizing level with
  | nil =>
    refine iff_of_true (.of_le fun n => ?_) (Nat.zero_le _)
    exact Nat.le_of_eq (by rw [List.take_nil, List.take_nil])
  | cons v values ih =>
    have hstep : (minus level v).toNat = (2 ^ 32 - v.toNat + level.toNat) % 2 ^ 32 :=
      UInt32.toNat_sub level.value v
    have hv := v.toNat_lt
    have hlt := level.toNat_lt
    rw [neverRaises_cons, ih, hstep, total_cons]
    omega

/-- **Lowering a level** does not go above the start when and only when every sum on the way, in 32
bits, is at most the level; and never above the level before when and only when their whole sum
is. -/
theorem staysBelow_iff {level : LogLevel} (hlevel : level.toNat ≤ MAX_LEVEL.toNat)
    (values : List UInt32) :
    (StaysBelow level values ↔ ∀ n, total (values.take n) % 2 ^ 32 ≤ level.toNat) ∧
      (NeverRaises level values ↔ total values ≤ level.toNat) := by
  refine ⟨⟨fun h n => (lower_le_iff level _).mp (h.le_start n), fun h => ?_⟩,
    neverRaises_iff level values⟩
  have hle : ∀ n, (lower level (values.take n)).toNat ≤ level.toNat :=
    fun n => (lower_le_iff level _).mpr (h n)
  refine ⟨hle, fun n => Nat.le_trans (hle n) hlevel, fun hfatal n => ?_⟩
  rw [isLogLevelFatal_eq_false_iff] at hfatal ⊢
  exact Nat.lt_of_le_of_lt (hle n) hfatal

theorem staysBelow_INFO :
    INFO.toNat ≤ MAX_LEVEL.toNat ∧ total [1000, 1000] ≤ INFO.toNat ∧
      NeverRaises INFO [1000, 1000] := by
  have hle : INFO.toNat ≤ MAX_LEVEL.toNat := by decide
  have htotal : total [1000, 1000] ≤ INFO.toNat := by decide
  exact ⟨hle, htotal, (staysBelow_iff hle [1000, 1000]).2.mpr htotal⟩

/-- `NONE`, lowered by `2`, is fatal. -/
theorem not_staysBelow_NONE :
    NONE.toNat ≤ MAX_LEVEL.toNat ∧ isLogLevelFatal NONE = false ∧
      isLogLevelFatal (lower NONE [2]) = true ∧ ¬ StaysBelow NONE [2] := by
  have hfatal : isLogLevelFatal NONE = false := by decide
  have hlower : isLogLevelFatal (lower NONE [2]) = true := by decide
  refine ⟨by decide, hfatal, hlower, fun h => ?_⟩
  have hnot : isLogLevelFatal (lower NONE [2]) = false := h.not_fatal hfatal 1
  rw [hlower] at hnot
  cases hnot

end Hy.Log

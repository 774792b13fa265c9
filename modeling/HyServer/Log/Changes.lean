import HyServer.Cpp.Saturation
import HyServer.Log.LogLevel

/-!
# hy::LogLevel — increments and decrements in turn

A level that is raised and lowered in any order. As long as no sum and no difference on the way
leaves 32 bits, each operator stops the level at `MAX_LEVEL`: `operator+` by its test, and
`operator-` because it goes down.

* `Change.exec` — one `operator+=` or `operator-=`.
* `Fits` — no sum and no difference on the way leaves 32 bits.
* `changed_isLeast` — the level after the changes.
-/

namespace Hy.Log

open Cpp LogLevel

inductive Change where
  | increase (value : UInt32)
  | decrease (value : UInt32)

namespace Change

/-- `operator+=` and `operator-=` -/
def exec (level : LogLevel) : Change → LogLevel
  | .increase value => plus level value
  | .decrease value => minus level value

def amount : Change → Int
  | .increase value => value.toNat
  | .decrease value => -value.toNat

/-- The sum or the difference is a 32-bit number. -/
def Fits (level : LogLevel) (change : Change) : Prop :=
  0 ≤ level.toNat + change.amount ∧ level.toNat + change.amount < 2 ^ 32

instance (level : LogLevel) (change : Change) : Decidable (change.Fits level) :=
  inferInstanceAs (Decidable (_ ∧ _))

end Change

def changed (level : LogLevel) (changes : List Change) : LogLevel := changes.foldl Change.exec level

def amounts (changes : List Change) : List Int := changes.map Change.amount

def Fits : LogLevel → List Change → Prop
  | _, [] => True
  | level, change :: changes => change.Fits level ∧ Fits (change.exec level) changes

@[simp] theorem changed_cons (level : LogLevel) (change : Change) (changes : List Change) :
    changed level (change :: changes) = changed (change.exec level) changes := rfl

@[simp] theorem amounts_cons (change : Change) (changes : List Change) :
    amounts (change :: changes) = change.amount :: amounts changes := rfl

theorem toNat_minus (level : LogLevel) (v : UInt32) :
    (minus level v).toNat = (2 ^ 32 - v.toNat + level.toNat) % 2 ^ 32 :=
  UInt32.toNat_sub level.value v

/-! ## One change -/

theorem Change.exec_le {level : LogLevel} {change : Change} (hlevel : level.toNat ≤ MAX_LEVEL.toNat)
    (hfits : change.Fits level) : (change.exec level).toNat ≤ MAX_LEVEL.toNat := by
  cases change with
  | increase v => exact plus_le level v
  | decrease v =>
    obtain ⟨hnonneg, -⟩ := hfits
    have hv := v.toNat_lt
    have hlt := level.toNat_lt
    simp only [Change.amount] at hnonneg
    show (minus level v).toNat ≤ _
    rw [toNat_minus]
    omega

/-- A change that fits is added, and the sum is stopped at `MAX_LEVEL`; any other is not. -/
theorem Change.exec_eq_iff {level : LogLevel} (hlevel : level.toNat ≤ MAX_LEVEL.toNat)
    (change : Change) :
    ((change.exec level).toNat : Int) = min (level.toNat + change.amount) MAX_LEVEL.toNat ↔
      change.Fits level := by
  have hmax := toNat_MAX_LEVEL
  cases change with
  | increase v =>
    show ((plus level v).toNat : Int) = min (level.toNat + (v.toNat : Int)) _ ↔
      0 ≤ level.toNat + (v.toNat : Int) ∧ level.toNat + (v.toNat : Int) < 2 ^ 32
    constructor
    · -- a sum that wraps is less than either
      intro heq
      have hfits : level.toNat + v.toNat < 2 ^ 32 := by
        apply Nat.lt_of_not_le
        intro hwraps
        have hlt := plus_of_wraps hlevel hwraps
        omega
      omega
    · intro hfits
      have hplus : (plus level v).toNat = min (level.toNat + v.toNat) MAX_LEVEL.toNat :=
        plus_of_fits (by omega)
      omega
  | decrease v =>
    -- a difference below 0 wraps too
    have hv := v.toNat_lt
    have hminus := toNat_minus level v
    show ((minus level v).toNat : Int) = min (level.toNat + -(v.toNat : Int)) _ ↔
      0 ≤ level.toNat + -(v.toNat : Int) ∧ level.toNat + -(v.toNat : Int) < 2 ^ 32
    omega

/-! ## Changes in turn -/

/-- The levels on the way are the sums, each stopped at `MAX_LEVEL`, when and only when the changes
fit. Induction on the changes, from every level. -/
theorem toNat_changed_iff {level : LogLevel} (hlevel : level.toNat ≤ MAX_LEVEL.toNat)
    (changes : List Change) :
    (∀ n, ((changed level (changes.take n)).toNat : Int)
      = stopped (MAX_LEVEL.toNat : Int) level.toNat (amounts (changes.take n))) ↔
      Fits level changes := by
  induction changes generalizing level with
  | nil =>
    refine iff_of_true (fun n => ?_) trivial
    rw [List.take_nil]
    rfl
  | cons change changes ih =>
    constructor
    · intro h
      -- the first level on the way says that the first change fits
      have hchange := (change.exec_eq_iff hlevel).mp (h 1)
      have hexec := (change.exec_eq_iff hlevel).mpr hchange
      refine ⟨hchange, (ih (change.exec_le hlevel hchange)).mp fun n => ?_⟩
      have hn := h (n + 1)
      rw [List.take_succ_cons, changed_cons, amounts_cons, stopped_cons, ← hexec] at hn
      exact hn
    · intro h n
      obtain ⟨hchange, hrest⟩ := h
      have hexec := (change.exec_eq_iff hlevel).mpr hchange
      cases n with
      | zero => rfl
      | succ n =>
        rw [List.take_succ_cons, changed_cons, amounts_cons, stopped_cons, ← hexec]
        exact (ih (change.exec_le hlevel hchange)).mpr hrest n

theorem toNat_changed {level : LogLevel} (hlevel : level.toNat ≤ MAX_LEVEL.toNat)
    {changes : List Change} (hfits : Fits level changes) :
    ((changed level changes).toNat : Int)
      = stopped (MAX_LEVEL.toNat : Int) level.toNat (amounts changes) := by
  have hall := (toNat_changed_iff hlevel changes).mpr hfits changes.length
  rwa [List.take_length] at hall

/-- `MAX_LEVEL` is the one fatal level that operators lead to. -/
theorem isLogLevelFatal_changed_iff {level : LogLevel} (hlevel : level.toNat ≤ MAX_LEVEL.toNat)
    {changes : List Change} (hfits : Fits level changes) :
    isLogLevelFatal (changed level changes) = true ↔
      ((changed level changes).toNat : Int) = MAX_LEVEL.toNat := by
  have hle : ((changed level changes).toNat : Int) ≤ MAX_LEVEL.toNat := by
    obtain ⟨-, hleast⟩ := isLeast_stopped (Int.ofNat_le.mpr hlevel) (amounts changes)
    rw [toNat_changed hlevel hfits]
    simpa using hleast (.inr ⟨[], List.nil_suffix, rfl⟩)
  rw [← Bool.not_eq_false, isLogLevelFatal_eq_false_iff]
  omega

/-- **A level that is raised and lowered in turn.** Each level on the way is the least of what the
changes so far make of the level at the start and of what each end of them makes of `MAX_LEVEL`,
when and only when no sum and no difference leaves 32 bits. Then the level is fatal if the changes
reach `MAX_LEVEL` and none of their ends leads below it again; and smaller changes of a smaller
level give a smaller level. -/
theorem changed_isLeast {level : LogLevel} (hlevel : level.toNat ≤ MAX_LEVEL.toNat)
    (changes : List Change) :
    ((∀ n, IsLeast (Unstopped (MAX_LEVEL.toNat : Int) level.toNat (amounts (changes.take n)))
      (changed level (changes.take n)).toNat) ↔ Fits level changes) ∧
    (Fits level changes →
      (isLogLevelFatal (changed level changes) = true ↔
        (MAX_LEVEL.toNat : Int) ≤ level.toNat + (amounts changes).sum ∧
          ∀ rest, rest <:+ amounts changes → 0 ≤ rest.sum) ∧
      ∀ (level' : LogLevel) (changes' : List Change), level'.toNat ≤ level.toNat →
        List.Forall₂ (· ≤ ·) (amounts changes') (amounts changes) → Fits level' changes' →
        (changed level' changes').toNat ≤ (changed level changes).toNat) := by
  have hstart : (level.toNat : Int) ≤ MAX_LEVEL.toNat := Int.ofNat_le.mpr hlevel
  refine ⟨?_, fun hfits => ⟨?_, ?_⟩⟩
  · rw [← toNat_changed_iff hlevel]
    refine forall_congr' fun n => ?_
    have hleast := isLeast_stopped hstart (amounts (changes.take n))
    refine ⟨fun h => h.unique hleast, fun h => ?_⟩
    rw [h]
    exact hleast
  · rw [isLogLevelFatal_changed_iff hlevel hfits, toNat_changed hlevel hfits]
    exact stopped_eq_bound_iff hstart (amounts changes)
  · intro level' changes' hle hchanges hfits'
    have hmono : stopped (MAX_LEVEL.toNat : Int) level'.toNat (amounts changes')
        ≤ stopped (MAX_LEVEL.toNat : Int) level.toNat (amounts changes) :=
      stopped_mono (Int.ofNat_le.mpr hle) hchanges
    rw [← toNat_changed hlevel hfits, ← toNat_changed (hle.trans hlevel) hfits'] at hmono
    exact Int.ofNat_le.mp hmono

/-- Raised by more than there is room for and lowered by `100`, `ERR` is below `MAX_LEVEL` by
that. -/
theorem changed_isLeast_ERR :
    ERR.toNat ≤ MAX_LEVEL.toNat ∧ Fits ERR [.increase 0x7fffffff, .decrease 100] ∧
      IsLeast (Unstopped (MAX_LEVEL.toNat : Int) ERR.toNat [0x7fffffff, -100])
        (0x7fffffff - 100) := by
  have hle : ERR.toNat ≤ MAX_LEVEL.toNat := by decide
  have hfits : Fits ERR [.increase 0x7fffffff, .decrease 100] :=
    ⟨by decide, by decide, trivial⟩
  exact ⟨hle, hfits, (changed_isLeast hle _).1.mpr hfits 2⟩

end Hy.Log

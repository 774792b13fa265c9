import HyServer.Log.LogLevel
import Mathlib.Tactic.SplitIfs

/-!
# hy::LogLevel — names

`logLevelToString`: eight levels have a word, the levels of two ranges a prefix and a number that
counts down from the end of the range, and all others are printed as they are. `hy::to` and
`folly::to` are parameters; they join texts and the decimal digits of a number.

* `levelOfName` — reads a name back.
* `levelOfName_logLevelToString` — every name gives its level, so no two levels share a name.
-/

namespace Hy.Log

open LogLevel

structure NumberedLevelInfo where
  min : LogLevel
  max : LogLevel
  lower_prefix : String
  upper_prefix : String

def numbered_log_levels : List NumberedLevelInfo :=
  [⟨DEBUG, DEBUG0, "dbg", "DBG"⟩, ⟨INFO, INFO0, "info", "INFO"⟩]

/-- The condition in the loop. -/
def NumberedLevelInfo.covers (info : NumberedLevelInfo) (level : LogLevel) : Prop :=
  level.value ≤ info.max.value ∧ level.value > info.min.value

instance (info : NumberedLevelInfo) (level : LogLevel) : Decidable (info.covers level) :=
  inferInstanceAs (Decidable (_ ∧ _))

/-- `num` -/
def NumberedLevelInfo.num (info : NumberedLevelInfo) (level : LogLevel) : UInt32 :=
  info.max.value - level.value

section

variable (hyTo : String → UInt32 → String) (follyTo : String → UInt32 → String → String)

/-- The loop over `numbered_log_levels`, `none` when it ends. -/
def numberedName (level : LogLevel) : List NumberedLevelInfo → Option String
  | [] => none
  | info :: infos =>
    if info.covers level then some (hyTo info.upper_prefix (info.num level))
    else numberedName level infos

def logLevelToString (level : LogLevel) : String :=
  if level = UNINITIALIZED then "UNINITIALIZED"
  else if level = NONE then "NONE"
  else if level = DBG then "DEBUG"
  else if level = INFO then "INFO"
  else if level = WARN then "WARN"
  else if level = ERR then "ERR"
  else if level = CRITICAL then "CRITICAL"
  else if level = FATAL then "FATAL"
  else
    (numberedName hyTo level numbered_log_levels).getD (follyTo "LogLevel(" level.value ")")

end

/-! ## Reading a name back -/

def levelOfName (name : String) : Nat :=
  if name.toList.any Char.isDigit then
    -- the first letter tells the numbered names apart
    if name.toList.head? = some 'D' then
      DEBUG0.toNat - Nat.ofDigitChars 10 (name.toList.drop 3) 0
    else if name.toList.head? = some 'I' then
      INFO0.toNat - Nat.ofDigitChars 10 (name.toList.drop 4) 0
    else Nat.ofDigitChars 10 (name.toList.drop 9).dropLast 0
  else if name = "UNINITIALIZED" then UNINITIALIZED.toNat
  else if name = "NONE" then NONE.toNat
  else if name = "DEBUG" then DBG.toNat
  else if name = "INFO" then INFO.toNat
  else if name = "WARN" then WARN.toNat
  else if name = "ERR" then ERR.toNat
  else if name = "CRITICAL" then CRITICAL.toNat
  else FATAL.toNat

theorem any_isDigit_toDigits (n : Nat) : (Nat.toDigits 10 n).any Char.isDigit = true := by
  obtain ⟨c, hc⟩ := List.exists_mem_of_ne_nil _ (Nat.toDigits_ne_nil (n := n) (b := 10))
  exact List.any_eq_true.mpr ⟨c, hc, Nat.isDigit_of_mem_toDigits (by decide) (by decide) hc⟩

theorem levelOfName_DBG (n : Nat) : levelOfName ("DBG" ++ n.repr) = DEBUG0.toNat - n := by
  have hdigit := any_isDigit_toDigits n
  simp [levelOfName, hdigit]

theorem levelOfName_INFO (n : Nat) : levelOfName ("INFO" ++ n.repr) = INFO0.toNat - n := by
  have hdigit := any_isDigit_toDigits n
  simp [levelOfName, hdigit]

theorem levelOfName_LogLevel (n : Nat) :
    levelOfName ("LogLevel(" ++ n.repr ++ ")") = n := by
  have hdigit := any_isDigit_toDigits n
  simp [levelOfName, hdigit]

/-! ## The names -/

section

variable {hyTo : String → UInt32 → String} {follyTo : String → UInt32 → String → String}
  (hhy : ∀ text n, hyTo text n = text ++ n.toNat.repr)
  (hfolly : ∀ text n text', follyTo text n text' = text ++ n.toNat.repr ++ text')

/-- In the loop the subtraction is one of integers. -/
theorem num_eq {info : NumberedLevelInfo} {level : LogLevel} (h : info.covers level) :
    (info.num level).toNat + level.toNat = info.max.toNat := by
  have hle : level.toNat ≤ info.max.toNat := UInt32.le_iff_toNat_le.mp h.1
  have hsub : (info.num level).toNat = info.max.toNat - level.toNat :=
    UInt32.toNat_sub_of_le _ _ h.1
  omega

include hhy hfolly

theorem levelOfName_numbered (level : LogLevel) :
    levelOfName ((numberedName hyTo level numbered_log_levels).getD
      (follyTo "LogLevel(" level.value ")")) = level.toNat := by
  simp only [numbered_log_levels, numberedName]
  split_ifs with hdebug hinfo
  · have hnum : (NumberedLevelInfo.num _ level).toNat + level.toNat = DEBUG0.toNat :=
      num_eq hdebug
    rw [Option.getD_some, hhy, levelOfName_DBG]
    omega
  · have hnum : (NumberedLevelInfo.num _ level).toNat + level.toNat = INFO0.toNat :=
      num_eq hinfo
    rw [Option.getD_some, hhy, levelOfName_INFO]
    omega
  · rw [Option.getD_none, hfolly, levelOfName_LogLevel]
    rfl

/-- Every branch: the eight words, and what is numbered. -/
theorem levelOfName_logLevelToString (level : LogLevel) :
    levelOfName (logLevelToString hyTo follyTo level) = level.toNat := by
  unfold logLevelToString
  split_ifs with h₁ h₂ h₃ h₄ h₅ h₆ h₇ h₈
  · simp [levelOfName, h₁]
  · simp [levelOfName, h₂]
  · simp [levelOfName, h₃]
  · simp [levelOfName, h₄]
  · simp [levelOfName, h₅]
  · simp [levelOfName, h₆]
  · simp [levelOfName, h₇]
  · simp [levelOfName, h₈]
  · exact levelOfName_numbered hhy hfolly level

/-- **The names are unambiguous**, and the number in one is not the result of an underflow. -/
theorem logLevelToString_injective :
    (∀ a b : LogLevel, a ≠ b →
      logLevelToString hyTo follyTo a ≠ logLevelToString hyTo follyTo b) ∧
    ∀ (level : LogLevel), ∀ info ∈ numbered_log_levels, info.covers level →
      (info.num level).toNat + level.toNat = info.max.toNat := by
  refine ⟨fun a b hne heq => hne ?_, fun level info _ h => num_eq h⟩
  have hread := congrArg levelOfName heq
  rw [levelOfName_logLevelToString hhy hfolly, levelOfName_logLevelToString hhy hfolly] at hread
  exact LogLevel.toNat_inj hread

end

theorem logLevelToString_INFO_ne :
    logLevelToString (fun text n => text ++ n.toNat.repr)
        (fun text n text' => text ++ n.toNat.repr ++ text') INFO ≠
      logLevelToString (fun text n => text ++ n.toNat.repr)
        (fun text n text' => text ++ n.toNat.repr ++ text') INFO0 :=
  (logLevelToString_injective (fun _ _ => rfl) (fun _ _ _ => rfl)).1 INFO INFO0 (by decide)

end Hy.Log

import HyServer.Cpp.Text

/-!
# hy::detail — paths of temporary files

`getTemporaryFilePathString` looks at its views in two ways: whether the directory is empty, and
whether it ends in a slash, is read from the view, and the text is what is at `data()`, up to a NUL.

* `temporaryPath` — the path that belongs to the characters of the two views.
* `temporaryPath_template` — it is a template of `mkstemp`.
* `builtFromChars_iff` — the result is that path when and only when the view whose text is used is
  ended by a NUL.
-/

namespace Hy.FileUtil

open Cpp

/-- `'/'` -/
def slash : UInt8 := 47

/-- `".XXXXXX"` -/
def dotTemplate : List UInt8 := ['.', 'X', 'X', 'X', 'X', 'X', 'X'].map Char.toUInt8

/-- `"tempForAtomicWrite.XXXXXX"` -/
def atomicWriteTemplate : List UInt8 :=
  ['t', 'e', 'm', 'p', 'F', 'o', 'r', 'A', 't', 'o', 'm', 'i', 'c', 'W', 'r', 'i', 't', 'e'].map
    Char.toUInt8 ++ dotTemplate

def getTemporaryFilePathStringWithoutTempDirectory (file_path : StringView) :
    Option (List UInt8) := do
  let text ← file_path.cString
  return text ++ dotTemplate

def getTemporaryFilePathStringWithTemporaryDirectory (temporary_directory : StringView) :
    Option (List UInt8) := do
  let last ← temporary_directory.back
  let text ← temporary_directory.cString
  if last = slash then return text ++ atomicWriteTemplate
  else return text ++ slash :: atomicWriteTemplate

def getTemporaryFilePathString (file_path temporary_directory : StringView) :
    Option (List UInt8) :=
  if temporary_directory.size = 0 then
    getTemporaryFilePathStringWithoutTempDirectory file_path
  else getTemporaryFilePathStringWithTemporaryDirectory temporary_directory

/-! ## The path -/

/-- By the characters of the two views. -/
def temporaryPath (file_path dir : List UInt8) : List UInt8 :=
  if dir = [] then file_path ++ dotTemplate
  else if dir.getLast? = some slash then dir ++ atomicWriteTemplate
  else dir ++ slash :: atomicWriteTemplate

/-- `mkstemp` takes it. -/
theorem temporaryPath_template (file_path dir : List UInt8) :
    dotTemplate <:+ temporaryPath file_path dir := by
  have hatomic : dotTemplate <:+ atomicWriteTemplate := List.suffix_append _ _
  unfold temporaryPath
  split
  next => exact List.suffix_append _ _
  next =>
    split
    next => exact hatomic.trans (List.suffix_append _ _)
    next => exact (hatomic.trans (List.suffix_cons _ _)).trans (List.suffix_append _ _)

/-! ## The function -/

/-- The result is the path of the characters: so it is a template, and in the directory if one is
given. -/
structure BuiltFromChars (file_path dir : StringView) : Prop where
  eq_path : getTemporaryFilePathString file_path dir =
    some (temporaryPath file_path.chars dir.chars)
  template : ∀ path, getTemporaryFilePathString file_path dir = some path → dotTemplate <:+ path
  directory : dir.size ≠ 0 →
    ∀ path, getTemporaryFilePathString file_path dir = some path → dir.chars <+: path

section

variable {file_path dir : StringView}

theorem without_eq_some_iff {text : List UInt8} :
    getTemporaryFilePathStringWithoutTempDirectory file_path = some (text ++ dotTemplate) ↔
      file_path.cString = some text := by
  unfold getTemporaryFilePathStringWithoutTempDirectory
  cases file_path.cString with
  | none => simp
  | some text' => simp

/-- The text may be another one, the separator is that of the view. -/
theorem with_eq_some_iff (h : dir.size ≠ 0) (file : List UInt8) :
    getTemporaryFilePathStringWithTemporaryDirectory dir = some (temporaryPath file dir.chars) ↔
      dir.cString = some dir.chars := by
  have hne : dir.chars ≠ [] := fun hnil => h (dir.chars_eq_nil_iff.mp hnil)
  -- the separator is decided by the view on both sides
  obtain ⟨last, hlast⟩ : ∃ last, dir.chars.getLast? = some last :=
    ⟨_, List.getLast?_eq_some_getLast hne⟩
  have hback : dir.back = some last := hlast
  unfold getTemporaryFilePathStringWithTemporaryDirectory temporaryPath
  rw [if_neg hne, hback, hlast]
  cases dir.cString with
  | none => split <;> simp
  | some text =>
    by_cases hslash : last = slash
    · simp [hslash]
    · simp [hslash]

/-- The other two parts follow from the first. -/
theorem builtFromChars_of_eq (h : getTemporaryFilePathString file_path dir =
    some (temporaryPath file_path.chars dir.chars)) : BuiltFromChars file_path dir := by
  refine ⟨h, fun path hpath => ?_, fun hsize path hpath => ?_⟩
  · rw [h] at hpath
    cases hpath
    exact temporaryPath_template _ _
  · rw [h] at hpath
    cases hpath
    have hne : dir.chars ≠ [] := fun hnil => hsize (dir.chars_eq_nil_iff.mp hnil)
    unfold temporaryPath
    rw [if_neg hne]
    split
    next => exact List.prefix_append _ _
    next => exact List.prefix_append _ _

end

/-- **The path is built from the characters** when and only when the view that is used, the
directory unless it is empty, is ended by a NUL. -/
theorem builtFromChars_iff (file_path dir : StringView) :
    BuiltFromChars file_path dir ↔
      if dir.size = 0 then file_path.NulTerminated else dir.NulTerminated := by
  have heq : BuiltFromChars file_path dir ↔ getTemporaryFilePathString file_path dir =
      some (temporaryPath file_path.chars dir.chars) :=
    ⟨fun h => h.eq_path, builtFromChars_of_eq⟩
  rw [heq, getTemporaryFilePathString]
  by_cases hsize : dir.size = 0
  · have hnil : dir.chars = [] := dir.chars_eq_nil_iff.mpr hsize
    rw [if_pos hsize, if_pos hsize, temporaryPath, if_pos hnil, without_eq_some_iff,
      file_path.cString_eq_some_chars_iff]
  · rw [if_neg hsize, if_neg hsize, with_eq_some_iff hsize, dir.cString_eq_some_chars_iff]

/-- `/tmp` in `"/tmp/other"`. -/
def view_tmp : StringView :=
  { StringView.ofLiteral (['/', 't', 'm', 'p', '/', 'o', 't', 'h', 'e', 'r'].map Char.toUInt8)
      (by decide) with
    size := 4
    within := by decide
    size_lt := by decide }

/-- The file is to be in `/tmp`, and comes to be in `/tmp/other`. -/
theorem not_builtFromChars_tmp :
    view_tmp.chars = ['/', 't', 'm', 'p'].map Char.toUInt8 ∧
      getTemporaryFilePathString (.ofLiteral [102] (by decide)) view_tmp =
        some (['/', 't', 'm', 'p', '/', 'o', 't', 'h', 'e', 'r', '/'].map Char.toUInt8 ++
          atomicWriteTemplate) ∧
      ¬ BuiltFromChars (.ofLiteral [102] (by decide)) view_tmp := by
  have hpath : getTemporaryFilePathString (.ofLiteral [102] (by decide)) view_tmp =
      some (['/', 't', 'm', 'p', '/', 'o', 't', 'h', 'e', 'r', '/'].map Char.toUInt8 ++
        atomicWriteTemplate) := by decide
  refine ⟨by decide, hpath, fun h => ?_⟩
  have heq := h.eq_path
  rw [hpath] at heq
  exact absurd heq (by decide)

end Hy.FileUtil

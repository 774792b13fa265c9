import HyServer.Cpp.Reads
import HyServer.Exception.SharedString

/-!
# hy::exception_shared_string — the text

`state::make` allocates a `state` and the characters behind it in one block, and copies one byte
more than it was given as the length. The objects share the block; `what()` points behind the
`state`. `assert` is a parameter, as `NDEBUG` is; when it fails there is no object.

* `PreservesText` — all copies say the characters that were given, and construction reads no others.
* `construct_inv`, `construct_of` — when there is an object, and what is in its block.
* `keepsText_iff` — the first half, by the byte behind the characters.
* `not_preservesText_and_keepsText_iff` — the second half never goes with it.
* `reads_construct` — without assertions, what is read is one byte more than the characters, always.
-/

namespace Hy.Exception

open Cpp Cpp.ReadM Lts

/-! ## The model -/

/-- A `state`, and the bytes of its block behind it. -/
structure State where
  size : Nat
  trailing : List UInt8
  deriving DecidableEq, Repr

/-- `sizeof(state)`: two words. -/
def sizeofState : Nat := 16

/-- `object_size(len)` in `size_t` -/
def State.objectSize (len : Nat) : Nat := (sizeofState + len + 1) % 2 ^ 64

/-- `assert(len == std::strlen(str))` -/
def assertLength (ndebug : Bool) (str : List UInt8) (len : Nat) : ReadM Unit :=
  if ndebug then pure ()
  else do
    let n ← strlen 0 str
    if n = len then pure () else failure

/-- `state::make`, with the constructor. -/
def State.make (ndebug : Bool) (str : List UInt8) (len : Nat) : ReadM State := do
  assertLength ndebug str len
  let trailing ← loads 0 (len + 1) str
  -- the copy has to end in the block
  if sizeofState + trailing.length ≤ objectSize len then return ⟨len, trailing⟩ else failure

/-- `exception_shared_string(const S&)`, by `data()` and `size()`. -/
def construct (ndebug : Bool) (str : StringView) : ReadM State :=
  State.make ndebug (str.base.drop str.start) str.size

/-- `state::what`, as a C string. -/
def State.what (state : State) : Option (List UInt8) := cString state.trailing

/-- `what()` of one of the objects that share `state`. -/
def what (state : State) (s : Shared) (owner : Nat) : Option (List UInt8) :=
  if s.owners[owner]? = some .alive ∧ s.deletes = 0 then state.what else none

/-- The owners after a chain of copies, or after copies and destructions of fewer than `2 ^ 64`. -/
def Reached (s : Shared) : Prop :=
  (∃ chain, run (fun s owner => s.step (.copy owner)) Shared.make chain = some s) ∨
    ∃ as, run Shared.step Shared.make as = some s ∧ s.owners.length < 2 ^ 64

/-! ## Keeping the text -/

section

variable (ndebug : Bool) (v : StringView)

/-- There is an object, and it and all its copies have the text. -/
def KeepsText : Prop :=
  ∃ state reads, (construct ndebug v).run [] = (some state, reads) ∧
    ∀ s owner, Reached s → s.owners[owner]? = some .alive →
      ∃ text, what state s owner = some text ∧ ((0 : UInt8) ∉ v.chars → text = v.chars)

/-- Construction reads the characters only. -/
def ReadsWithin : Prop := ∀ i ∈ ((construct ndebug v).run []).2, i < v.size

structure PreservesText : Prop where
  keepsText : KeepsText ndebug v
  readsWithin : ReadsWithin ndebug v

/-- The byte behind the characters can be read, it or one of them is a NUL, and the size of the
block is a `size_t`; `assert` asks for the NUL to be behind them. -/
def NulInReach : Prop :=
  sizeofState + v.size + 1 < 2 ^ 64 ∧
    if ndebug then ∃ b, v.base[v.start + v.size]? = some b ∧ ((0 : UInt8) ∈ v.chars ∨ b = 0)
    else v.NulTerminated

end

/-! ## Sharing -/

/-- No owner is destroyed in a chain of copies. -/
theorem deletes_of_chain {chain : List Nat} {s : Shared}
    (h : run (fun s owner => s.step (.copy owner)) Shared.make chain = some s) : s.deletes = 0 := by
  apply run_invariant (P := fun s => s.deletes = 0) _ rfl h
  intro s owner s' hzero hstep
  simp only [Shared.step] at hstep
  split at hstep
  next => cases hstep; exact hzero
  next => cases hstep

/-- As long as one owner is alive the block is there. -/
theorem deletes_of_reached {s : Shared} {owner : Nat} (h : Reached s)
    (halive : s.owners[owner]? = some .alive) : s.deletes = 0 := by
  rcases h with ⟨chain, hrun⟩ | ⟨as, hrun, hlen⟩
  · exact deletes_of_chain hrun
  · have hpos := Shared.remaining_pos halive (by decide)
    rw [Shared.deletes_of_run hrun hlen, if_neg (Nat.ne_of_gt hpos)]

/-- All objects that share a `state` say the same. -/
theorem what_of_reached (state : State) {s : Shared} {owner : Nat} (h : Reached s)
    (halive : s.owners[owner]? = some .alive) : what state s owner = state.what :=
  if_pos ⟨halive, deletes_of_reached h halive⟩

/-! ## Construction -/

section

variable {ndebug : Bool} {v : StringView}

/-- The block takes the copy unless its size has wrapped around. -/
theorem fits_iff (v : StringView) :
    sizeofState + (v.size + 1) ≤ State.objectSize v.size ↔ sizeofState + v.size + 1 < 2 ^ 64 := by
  have hlt := v.size_lt
  unfold State.objectSize sizeofState
  omega

theorem assertLength_run (h : ndebug = true ∨ v.NulTerminated) :
    ∃ reads, (assertLength ndebug (v.base.drop v.start) v.size).run [] = (some (), reads) := by
  cases ndebug with
  | true => exact ⟨[], rfl⟩
  | false =>
    have hnul : v.NulTerminated := by simpa using h
    obtain ⟨hmem, hlen⟩ := v.nulTerminated_iff.mp hnul
    refine ⟨List.range' 0 (v.size + 1), ?_⟩
    rw [assertLength, if_neg (by decide), run_bind_some (run_strlen hmem 0 []), hlen,
      if_pos (Nat.zero_add _)]
    rfl

/-- The assertion holds of the views that a NUL ends. -/
theorem nulTerminated_of_assertLength {reads : List Nat}
    (h : (assertLength false (v.base.drop v.start) v.size).run [] = (some (), reads)) :
    v.NulTerminated := by
  obtain ⟨n, mid, hstrlen, hrest⟩ := run_bind_eq_some h
  by_cases hmem : (0 : UInt8) ∈ v.base.drop v.start
  · rw [run_strlen hmem] at hstrlen
    cases hstrlen
    split at hrest
    next hlen => exact v.nulTerminated_iff.mpr ⟨hmem, by omega⟩
    next => cases hrest
  · rw [run_strlen_none hmem] at hstrlen
    cases hstrlen

/-- When there is an object: its block has the characters and the byte behind them, which has been
read. -/
theorem construct_inv {state : State} {reads : List Nat}
    (h : (construct ndebug v).run [] = (some state, reads)) :
    state = ⟨v.size, (v.base.drop v.start).take (v.size + 1)⟩ ∧
      v.size < (v.base.drop v.start).length ∧ sizeofState + v.size + 1 < 2 ^ 64 ∧
      (ndebug = false → v.NulTerminated) ∧ v.size ∈ reads := by
  -- the assertion, the copy, and the end of the block
  obtain ⟨⟨⟩, mid, hassert, hrest⟩ := run_bind_eq_some h
  obtain ⟨trailing, mid', hloads, hrest⟩ := run_bind_eq_some hrest
  by_cases hle : v.size + 1 ≤ (v.base.drop v.start).length
  · rw [run_loads hle] at hloads
    cases hloads
    rw [List.length_take_of_le hle] at hrest
    split at hrest
    next hfits =>
      cases hrest
      refine ⟨rfl, hle, (fits_iff v).mp hfits, fun hdebug => ?_, ?_⟩
      · rw [hdebug] at hassert
        exact nulTerminated_of_assertLength hassert
      · refine List.mem_append.mpr (.inr (List.mem_range'.mpr ⟨v.size, by omega, by omega⟩))
    next => cases hrest
  · rw [run_loads_none (by omega)] at hloads
    cases hloads

theorem construct_of (hlen : v.size < (v.base.drop v.start).length)
    (hfits : sizeofState + v.size + 1 < 2 ^ 64) (hassert : ndebug = true ∨ v.NulTerminated) :
    ∃ reads, (construct ndebug v).run [] =
      (some ⟨v.size, (v.base.drop v.start).take (v.size + 1)⟩, reads) := by
  obtain ⟨mid, hrun⟩ := assertLength_run hassert
  refine ⟨mid ++ List.range' 0 (v.size + 1), ?_⟩
  rw [construct, State.make, run_bind_some hrun, run_bind_some (run_loads hlen 0 mid),
    List.length_take_of_le hlen, if_pos ((fits_iff v).mpr hfits)]
  rfl

end

/-! ## What the objects say -/

section

variable {ndebug : Bool} {v : StringView}

/-- The bytes of the block, as a C string. -/
theorem what_eq_some_iff {b : UInt8} (hb : v.base[v.start + v.size]? = some b) :
    (∃ text, cString ((v.base.drop v.start).take (v.size + 1)) = some text ∧
        ((0 : UInt8) ∉ v.chars → text = v.chars)) ↔ (0 : UInt8) ∈ v.chars ∨ b = 0 := by
  have htake : (v.base.drop v.start).take (v.size + 1) = v.chars ++ [b] := by
    rw [List.take_add_one, List.getElem?_drop, hb]
    rfl
  rw [htake]
  constructor
  · intro h
    obtain ⟨text, htext, -⟩ := h
    unfold cString at htext
    split at htext
    next hmem =>
      rcases List.mem_append.mp hmem with hchars | hlast
      · exact .inl hchars
      · exact .inr (List.mem_singleton.mp hlast).symm
    next => cases htext
  · intro h
    by_cases hchars : (0 : UInt8) ∈ v.chars
    · -- a NUL among the characters: the text ends before
      exact ⟨_, if_pos (List.mem_append.mpr (.inl hchars)), fun hnot => absurd hchars hnot⟩
    · have hzero : b = 0 := h.resolve_left hchars
      refine ⟨v.chars, ?_, fun _ => rfl⟩
      rw [hzero, cString_append_nul, untilNul_of_notMem hchars]

/-- **The text is kept** when and only when there is a NUL in reach. -/
theorem keepsText_iff : KeepsText ndebug v ↔ NulInReach ndebug v := by
  constructor
  · intro h
    obtain ⟨state, reads, hrun, hkeeps⟩ := h
    obtain ⟨rfl, hlen, hfits, hassert, -⟩ := construct_inv hrun
    refine ⟨hfits, ?_⟩
    cases ndebug with
    | false => exact hassert rfl
    | true =>
      -- the first object alone
      obtain ⟨text, htext, heq⟩ := hkeeps Shared.make 0 (.inl ⟨[], rfl⟩) rfl
      rw [what_of_reached _ (.inl ⟨[], rfl⟩) rfl] at htext
      have hb := List.getElem?_eq_getElem hlen
      rw [List.getElem?_drop] at hb
      exact ⟨_, hb, (what_eq_some_iff hb).mp ⟨text, htext, heq⟩⟩
  · intro h
    obtain ⟨hfits, hnul⟩ := h
    obtain ⟨b, hb, hzero⟩ : ∃ b, v.base[v.start + v.size]? = some b ∧
        ((0 : UInt8) ∈ v.chars ∨ b = 0) := by
      cases ndebug with
      | false => exact ⟨0, hnul.2, .inr rfl⟩
      | true => exact hnul
    have hassert : ndebug = true ∨ v.NulTerminated := by
      cases ndebug with
      | false => exact .inr hnul
      | true => exact .inl rfl
    have hlen : v.size < (v.base.drop v.start).length := by
      obtain ⟨hlt, -⟩ := List.getElem?_eq_some_iff.mp hb
      rw [List.length_drop]
      omega
    obtain ⟨reads, hrun⟩ := construct_of hlen hfits hassert
    refine ⟨_, reads, hrun, fun s owner hreached halive => ?_⟩
    rw [what_of_reached _ hreached halive]
    exact (what_eq_some_iff hb).mpr hzero

/-- A string with its NUL keeps its text. -/
theorem keepsText_of_nulTerminated (h : v.NulTerminated)
    (hfits : sizeofState + v.size + 1 < 2 ^ 64) : KeepsText ndebug v := by
  refine keepsText_iff.mpr ⟨hfits, ?_⟩
  cases ndebug with
  | false => exact h
  | true => exact ⟨0, h.2, .inr rfl⟩

/-- Without assertions, the byte behind the characters is read on every argument. -/
theorem reads_construct (v : StringView) :
    ((construct true v).run []).2 = List.range' 0 (v.size + 1) := by
  have hassert : (assertLength true (v.base.drop v.start) v.size).run [] = (some (), []) := rfl
  rw [construct, State.make, run_bind_some hassert]
  by_cases hle : v.size + 1 ≤ (v.base.drop v.start).length
  · rw [run_bind_some (run_loads hle 0 [])]
    split
    next => rfl
    next => rfl
  · -- the object ends with the characters
    have hlen : (v.base.drop v.start).length = v.size := by
      have hwithin := v.within
      rw [List.length_drop] at hle ⊢
      omega
    rw [run_bind_none (run_loads_none (by omega) 0 []), hlen]
    rfl

theorem not_readsWithin (v : StringView) : ¬ ReadsWithin true v := by
  intro h
  have hmem : v.size ∈ List.range' 0 (v.size + 1) := List.mem_range'.mpr ⟨v.size, by omega⟩
  rw [← reads_construct] at hmem
  exact Nat.lt_irrefl _ (h v.size hmem)

end

/-- **No argument** has its text preserved and only its characters read; the text is kept when and
only when there is a NUL in reach. -/
theorem not_preservesText_and_keepsText_iff (ndebug : Bool) (v : StringView) :
    ¬ PreservesText ndebug v ∧ (KeepsText ndebug v ↔ NulInReach ndebug v) := by
  refine ⟨fun h => ?_, keepsText_iff⟩
  -- where there is an object, the byte behind the characters has been read for it
  obtain ⟨state, reads, hrun, -⟩ := h.keepsText
  obtain ⟨-, -, -, -, hmem⟩ := construct_inv hrun
  have hreads := h.readsWithin
  unfold ReadsWithin at hreads
  rw [hrun] at hreads
  exact Nat.lt_irrefl _ (hreads v.size hmem)

/-- The first two characters of `"abc"`. -/
def view_ab : StringView :=
  { StringView.ofLiteral [97, 98, 99] (by decide) with
    size := 2
    within := by decide
    size_lt := by decide }

/-- There is an object, and no NUL in its block. -/
theorem not_preservesText_ab :
    ((construct true view_ab).run []).1 = some ⟨2, [97, 98, 99]⟩ ∧
      State.what ⟨2, [97, 98, 99]⟩ = none ∧ ¬ KeepsText true view_ab ∧
      ¬ PreservesText true view_ab := by
  have hkeeps : ¬ KeepsText true view_ab := by
    intro h
    obtain ⟨-, b, hb, hzero⟩ := keepsText_iff.mp h
    cases hb
    exact absurd hzero (by decide)
  exact ⟨by decide, by decide, hkeeps, fun h => hkeeps h.keepsText⟩

end Hy.Exception

import Mathlib.Algebra.Order.Ring.Int
import Mathlib.Data.List.Count
import HyServer.Lts.Holders

/-!
# hy::exception_shared_string — reference counting

One shared `state` and the objects that own it, from the construction of the first one. The steps
are the atomic operations on `refs`, taken by any number of owners in any order: `copy()` is one
`fetch_add`, and `ruin()` is a load and, when it read non-zero, a `fetch_sub`.

`refs` starts at 0, so it is one less than the number of owners, and the last owner is told by a 0:
either by its load, or by its `fetch_sub` when another owner got in between.

* `Counted` — the invariant: `refs + 1` owners have not finished their destruction, or all of them
  have and the state has been deleted, once.
* `step_simulates` — every atomic step is a step of `Lts.Holders`, or none.
* `sharedState_of_run` — the run theorem.
-/

namespace Hy.Exception

open Lts

/-! ## The model -/

/-- How far an owner is: alive; in its destructor, having read a non-zero `refs`; or gone. -/
inductive Phase where
  | alive
  | loaded
  | finished
  deriving DecidableEq, Repr

/-- `refs` of the shared state, how often the state has been deleted, and its owners in the order
of their construction. -/
structure Shared where
  refs : BitVec 64
  deletes : Nat
  owners : List Phase
  deriving DecidableEq, Repr

/-- `state::make`, with its first owner. -/
def Shared.make : Shared := ⟨0, 0, [.alive]⟩

inductive Step where
  /-- `refs.fetch_add(1)`: copy construction from a live owner. -/
  | copy (owner : Nat)
  /-- `refs.load()`: the first half of `ruin()`. -/
  | ruinLoad (owner : Nat)
  /-- `refs.fetch_sub(1)`: the second half of `ruin()`. -/
  | ruinSub (owner : Nat)
  deriving DecidableEq, Repr

namespace Shared

def setPhase (s : Shared) (owner : Nat) (p : Phase) : Shared :=
  { s with owners := s.owners.set owner p }

/-- `::operator delete(this, ...)` -/
def delete (s : Shared) : Shared :=
  { s with deletes := s.deletes + 1 }

/-- One atomic step. A step of an owner that is not at that point of its life is not possible. -/
def step (s : Shared) : Step → Option Shared
  | .copy owner =>
    if s.owners[owner]? = some .alive then
      some { s with refs := s.refs + 1, owners := s.owners ++ [.alive] }
    else none
  | .ruinLoad owner =>
    if s.owners[owner]? = some .alive then
      if s.refs = 0 then some (s.setPhase owner .finished).delete
      else some (s.setPhase owner .loaded)
    else none
  | .ruinSub owner =>
    if s.owners[owner]? = some .loaded then
      let s' := { s.setPhase owner .finished with refs := s.refs - 1 }
      if s.refs = 0 then some s'.delete else some s'
    else none

/-- The owners whose destruction has not finished. -/
def remaining (s : Shared) : Nat :=
  s.owners.countP (· ≠ .finished)

/-! ## Counting the owners -/

theorem remaining_le (s : Shared) : s.remaining ≤ s.owners.length :=
  List.countP_le_length

theorem remaining_copy (s : Shared) (refs : BitVec 64) :
    ({ s with refs := refs, owners := s.owners ++ [.alive] } : Shared).remaining
      = s.remaining + 1 := by
  simp [remaining]

theorem remaining_setPhase {s : Shared} {owner : Nat} {p : Phase} (q : Phase)
    (hp : s.owners[owner]? = some p) (hne : p ≠ .finished) :
    (s.setPhase owner q).remaining = s.remaining - 1 + if q = .finished then 0 else 1 := by
  obtain ⟨hlt, hget⟩ := List.getElem?_eq_some_iff.mp hp
  unfold remaining setPhase
  rw [List.countP_set hlt, hget]
  cases q <;> simp [hne]

/-- An owner that is not finished is one of the remaining ones. -/
theorem remaining_pos {s : Shared} {owner : Nat} {p : Phase} (hp : s.owners[owner]? = some p)
    (hne : p ≠ .finished) : 0 < s.remaining :=
  List.countP_pos_iff.mpr ⟨p, List.mem_of_getElem? hp, by simpa using hne⟩

theorem length_setPhase (s : Shared) (owner : Nat) (p : Phase) :
    (s.setPhase owner p).owners.length = s.owners.length :=
  List.length_set

/-! ## One step -/

/-- The five outcomes of an atomic step. -/
theorem step_cases {s s' : Shared} {a : Step} (h : s.step a = some s') :
    (∃ owner : Nat, s.owners[owner]? = some .alive ∧
      s' = { s with refs := s.refs + 1, owners := s.owners ++ [.alive] }) ∨
    (∃ owner : Nat, s.owners[owner]? = some .alive ∧ s.refs = 0 ∧
      s' = (s.setPhase owner .finished).delete) ∨
    (∃ owner : Nat, s.owners[owner]? = some .alive ∧ s.refs ≠ 0 ∧ s' = s.setPhase owner .loaded) ∨
    (∃ owner : Nat, s.owners[owner]? = some .loaded ∧ s.refs = 0 ∧
      s' = ({ s.setPhase owner .finished with refs := s.refs - 1 } : Shared).delete) ∨
    (∃ owner : Nat, s.owners[owner]? = some .loaded ∧ s.refs ≠ 0 ∧
      s' = { s.setPhase owner .finished with refs := s.refs - 1 }) := by
  cases a with
  | copy owner =>
    simp only [step] at h
    split at h
    · next halive => exact .inl ⟨owner, halive, (Option.some.inj h).symm⟩
    · cases h
  | ruinLoad owner =>
    simp only [step] at h
    split at h
    · next halive =>
      split at h
      · next hzero => exact .inr (.inl ⟨owner, halive, hzero, (Option.some.inj h).symm⟩)
      · next hne => exact .inr (.inr (.inl ⟨owner, halive, hne, (Option.some.inj h).symm⟩))
    · cases h
  | ruinSub owner =>
    simp only [step] at h
    split at h
    · next hloaded =>
      split at h
      · next hzero =>
        exact .inr (.inr (.inr (.inl ⟨owner, hloaded, hzero, (Option.some.inj h).symm⟩)))
      · next hne =>
        exact .inr (.inr (.inr (.inr ⟨owner, hloaded, hne, (Option.some.inj h).symm⟩)))
    · cases h

/-- Owners are only ever added. -/
theorem length_le_of_step {s s' : Shared} {a : Step} (h : s.step a = some s') :
    s.owners.length ≤ s'.owners.length := by
  obtain ⟨o, -, rfl⟩ | ⟨o, -, -, rfl⟩ | ⟨o, -, -, rfl⟩ | ⟨o, -, -, rfl⟩ | ⟨o, -, -, rfl⟩ :=
    step_cases h
  · simp
  · exact Nat.le_of_eq (length_setPhase ..).symm
  · exact Nat.le_of_eq (length_setPhase ..).symm
  · exact Nat.le_of_eq (length_setPhase ..).symm
  · exact Nat.le_of_eq (length_setPhase ..).symm

/-- The state as a resource with holders, while fewer than `2 ^ 64` owners have been made: those
whose destruction has not finished hold it, and `refs` counts all of them but one. -/
def Counted (s : Shared) (t : Holders) : Prop :=
  s.owners.length < 2 ^ 64 →
    t = ⟨s.remaining, s.deletes⟩ ∧ (0 < s.remaining → s.refs.toNat + 1 = s.remaining)

/-- `fetch_add` below the bound does not wrap, and `fetch_sub` above 0 does not. -/
theorem toNat_fetchAdd {refs : BitVec 64} (h : refs.toNat + 1 < 2 ^ 64) :
    (refs + 1).toNat = refs.toNat + 1 := by
  rw [BitVec.toNat_add]
  exact Nat.mod_eq_of_lt h

theorem toNat_fetchSub {refs : BitVec 64} (h : refs ≠ 0) : (refs - 1).toNat + 1 = refs.toNat := by
  bv_omega

/-- **Simulation.** `copy()` brings in a holder; of the ways through `ruin()`, the ones that end
the destruction take a holder out, and the load of a non-zero `refs` changes no holder. -/
theorem step_simulates (s : Shared) (t : Holders) (a : Step) (s' : Shared) (hst : Counted s t)
    (h : s.step a = some s') :
    ∃ t', (t' = t ∨ ∃ l, t.step l = some t') ∧ Counted s' t' := by
  by_cases hlen : s'.owners.length < 2 ^ 64
  swap
  · exact ⟨t, .inl rfl, fun hlen' => absurd hlen' hlen⟩
  have hle := length_le_of_step h
  obtain ⟨rfl, hrefs⟩ := hst (by omega)
  have hbound := s.remaining_le
  obtain ⟨o, halive, rfl⟩ | ⟨o, halive, hzero, rfl⟩ | ⟨o, halive, hne, rfl⟩ |
    ⟨o, hloaded, hzero, rfl⟩ | ⟨o, hloaded, hne, rfl⟩ := step_cases h
  · have hpos := remaining_pos halive (by decide)
    have hcount := hrefs hpos
    rw [List.length_append, List.length_singleton] at hlen
    refine ⟨_, .inr ⟨.acquire, if_neg (Nat.ne_of_gt hpos)⟩, fun _ => ⟨?_, fun _ => ?_⟩⟩
    · rw [remaining_copy]
      rfl
    · rw [remaining_copy, toNat_fetchAdd (by omega), hcount]
  · -- the load tells the last owner
    have hpos := remaining_pos halive (by decide)
    have hone : s.remaining = 1 := by rw [← hrefs hpos, hzero]; rfl
    have hrest : (s.setPhase o .finished).delete.remaining = s.remaining - 1 :=
      remaining_setPhase .finished halive (by decide)
    refine ⟨_, .inr ⟨.release, if_neg (Nat.ne_of_gt hpos)⟩, fun _ => ⟨?_, fun hpos' => ?_⟩⟩
    · rw [hrest, Holders.next, if_pos hone]
      rfl
    · rw [hrest, hone] at hpos'
      cases hpos'
  · have hpos := remaining_pos halive (by decide)
    have hrest : (s.setPhase o .loaded).remaining = s.remaining := by
      rw [remaining_setPhase .loaded halive (by decide), if_neg (by decide)]
      omega
    refine ⟨_, .inl rfl, fun _ => ⟨?_, fun _ => ?_⟩⟩
    · rw [hrest]
      rfl
    · rw [hrest]
      exact hrefs hpos
  · -- every other owner finished between the load and the `fetch_sub`
    have hpos := remaining_pos hloaded (by decide)
    have hone : s.remaining = 1 := by rw [← hrefs hpos, hzero]; rfl
    have hrest : ({ s.setPhase o .finished with refs := s.refs - 1 } : Shared).delete.remaining
        = s.remaining - 1 := remaining_setPhase .finished hloaded (by decide)
    refine ⟨_, .inr ⟨.release, if_neg (Nat.ne_of_gt hpos)⟩, fun _ => ⟨?_, fun hpos' => ?_⟩⟩
    · rw [hrest, Holders.next, if_pos hone]
      rfl
    · rw [hrest, hone] at hpos'
      cases hpos'
  · have hpos := remaining_pos hloaded (by decide)
    have hcount := hrefs hpos
    have hsub := toNat_fetchSub hne
    have hmore : s.remaining ≠ 1 := by omega
    have hrest : ({ s.setPhase o .finished with refs := s.refs - 1 } : Shared).remaining
        = s.remaining - 1 := remaining_setPhase .finished hloaded (by decide)
    refine ⟨_, .inr ⟨.release, if_neg (Nat.ne_of_gt hpos)⟩, fun _ => ⟨?_, fun _ => ?_⟩⟩
    · rw [hrest, Holders.next, if_neg hmore]
      rfl
    · rw [hrest]
      show (s.refs - 1).toNat + 1 = s.remaining - 1
      omega

/-! ## Runs -/

theorem counted_make : Counted make ⟨1, 0⟩ := fun _ => ⟨rfl, fun _ => rfl⟩

/-- The holders of every run, as those of a run of `Holders`. -/
theorem counted_of_run {as : List Step} {s : Shared} (h : run step make as = some s) :
    ∃ ls t, run Holders.step ⟨1, 0⟩ ls = some t ∧ Counted s t :=
  run_simulation step_simulates counted_make h

theorem remaining_eq_zero_iff (s : Shared) : s.remaining = 0 ↔ ∀ p ∈ s.owners, p = .finished := by
  simp [remaining, List.countP_eq_zero]

/-- The state has been deleted once no owner remains. -/
theorem deletes_of_run {as : List Step} {s : Shared} (h : run step make as = some s)
    (hlen : s.owners.length < 2 ^ 64) : s.deletes = if s.remaining = 0 then 1 else 0 := by
  obtain ⟨ls, t, hrun, hcounted⟩ := counted_of_run h
  obtain ⟨rfl, -⟩ := hcounted hlen
  exact Holders.accounted_of_run hrun

/-- **Over every run** of interleaved copies and destructions of fewer than `2 ^ 64` owners, the
state is deleted at most once, it has been deleted exactly when all owners have finished their
destruction, and no atomic step is left to be taken once it has been deleted. -/
theorem sharedState_of_run {as : List Step} {s : Shared} (h : run step make as = some s)
    (hlen : s.owners.length < 2 ^ 64) :
    s.deletes ≤ 1 ∧
    (s.deletes = 1 ↔ ∀ p ∈ s.owners, p = .finished) ∧
    ∀ a s', s.step a = some s' → s.deletes = 0 := by
  have hfreed := deletes_of_run h hlen
  refine ⟨?_, ?_, fun a s' hstep => ?_⟩
  · rw [hfreed]
    split <;> decide
  · rw [← remaining_eq_zero_iff, hfreed]
    split <;> simp_all
  · have hpos : 0 < s.remaining := by
      obtain ⟨o, halive, -⟩ | ⟨o, halive, -⟩ | ⟨o, halive, -⟩ | ⟨o, hloaded, -⟩ |
        ⟨o, hloaded, -⟩ := step_cases hstep
      · exact remaining_pos halive (by decide)
      · exact remaining_pos halive (by decide)
      · exact remaining_pos halive (by decide)
      · exact remaining_pos hloaded (by decide)
      · exact remaining_pos hloaded (by decide)
    rw [hfreed, if_neg (Nat.ne_of_gt hpos)]

/-- Two owners whose destructors both read the same non-zero `refs`. -/
theorem sharedState_of_run_interleaved :
    ∃ s, run step make [.copy 0, .ruinLoad 0, .ruinLoad 1, .ruinSub 0, .ruinSub 1] = some s ∧
      s.refs = -1 ∧ s.deletes = 1 ∧ (∀ a s', s.step a = some s' → s.deletes = 0) := by
  have hrun : run step make [.copy 0, .ruinLoad 0, .ruinLoad 1, .ruinSub 0, .ruinSub 1]
      = some ⟨-1, 1, [.finished, .finished]⟩ := by decide
  exact ⟨_, hrun, rfl, rfl, (sharedState_of_run hrun (by decide)).2.2⟩

end Shared

end Hy.Exception

import HyServer.Exception.SharedString
import HyServer.Lts.Progress

/-!
# hy::exception_shared_string — destructions complete

`SharedString` says what the steps of any number of owners never do. Here is what they come to.
`ruin()` has no loop, so a destruction takes a step or two, whatever the other owners do meanwhile,
and it never has to wait for them. When no more copies are made, the steps run out, and then the
shared state is gone.

* `left` — how many steps the destruction of one owner may still take.
* `remainingSteps` — and those of all owners together.
* `destruction_completes` — no step blocks, and nothing is leaked.
-/

namespace Hy.Exception

open Lts

/-- The owner whose destruction it is a step of. -/
def Step.ruins : Step → Option Nat
  | .copy _ => none
  | .ruinLoad owner => some owner
  | .ruinSub owner => some owner

/-- The steps to the end of `ruin()`, at most. -/
def Phase.left : Phase → Nat
  | .alive => 2
  | .loaded => 1
  | .finished => 0

namespace Shared

/-- An owner that is still to be constructed starts as one that is alive. -/
def left (s : Shared) (owner : Nat) : Nat :=
  (s.owners[owner]?.getD .alive).left

/-- A step when no more copies are made. -/
def ruin (s : Shared) (a : Step) : Option Shared :=
  if a.ruins = none then none else s.step a

def remainingSteps (s : Shared) : Nat :=
  s.remaining + s.owners.countP (· = .alive)

variable {s s' : Shared} {a : Step} {owner : Nat} {p : Phase}

theorem step_of_ruin (h : s.ruin a = some s') : s.step a = some s' := by
  unfold ruin at h
  split at h
  · cases h
  · exact h

/-- What a step does to the owners. -/
theorem owners_of_step (h : s.step a = some s') :
    (∃ o, a = .copy o ∧ s'.owners = s.owners ++ [.alive]) ∨
    (∃ o p, a = .ruinLoad o ∧ s.owners[o]? = some .alive ∧ p ≠ .alive ∧
      s'.owners = s.owners.set o p) ∨
    (∃ o, a = .ruinSub o ∧ s.owners[o]? = some .loaded ∧
      s'.owners = s.owners.set o .finished) := by
  cases a with
  | copy o =>
    obtain ⟨-, h⟩ := Option.ite_none_right_eq_some.mp h
    cases h
    exact .inl ⟨o, rfl, rfl⟩
  | ruinLoad o =>
    obtain ⟨halive, h⟩ := Option.ite_none_right_eq_some.mp h
    split at h
    · cases h
      exact .inr (.inl ⟨o, .finished, rfl, halive, by decide, rfl⟩)
    · cases h
      exact .inr (.inl ⟨o, .loaded, rfl, halive, by decide, rfl⟩)
  | ruinSub o =>
    obtain ⟨hloaded, h⟩ := Option.ite_none_right_eq_some.mp h
    refine .inr (.inr ⟨o, rfl, hloaded, ?_⟩)
    simp only at h
    split at h
    · cases h
      rfl
    · cases h
      rfl

/-! ## One owner -/

theorem left_of_getElem? (hp : s.owners[owner]? = some p) : s.left owner = p.left := by
  rw [left, hp]
  rfl

theorem left_eq_zero_iff (hp : s.owners[owner]? = some p) : s.left owner = 0 ↔ p = .finished := by
  rw [left_of_getElem? hp]
  cases p <;> simp [Phase.left]

theorem left_le (s : Shared) (owner : Nat) : s.left owner ≤ 2 := by
  rw [left]
  cases s.owners[owner]?.getD .alive <;> decide

/-- A step of the destruction of an owner takes `left` down, and no step takes it up. -/
theorem left_step (owner : Nat) (h : s.step a = some s') :
    (if decide (a.ruins = some owner) = true then 1 else 0) + s'.left owner ≤ s.left owner := by
  have hset : ∀ {o : Nat} {p q : Phase}, s.owners[o]? = some p → s'.owners = s.owners.set o q →
      q.left < p.left →
      (if decide (some o = some owner) = true then 1 else 0) + s'.left owner ≤ s.left owner := by
    intro o p q hp hs' hlt
    obtain ⟨hbound, -⟩ := List.getElem?_eq_some_iff.mp hp
    by_cases hown : o = owner
    · subst hown
      have hq : s'.owners[o]? = some q := by rw [hs', List.getElem?_set_self hbound]
      rw [left_of_getElem? hp, left_of_getElem? hq, if_pos (decide_eq_true rfl)]
      omega
    · have hsame : s'.left owner = s.left owner := by
        rw [left, left, hs', List.getElem?_set_ne hown]
      rw [if_neg (by simpa using hown), hsame, Nat.zero_add]
  obtain ⟨o, rfl, hs'⟩ | ⟨o, q, rfl, halive, hq, hs'⟩ | ⟨o, rfl, hloaded, hs'⟩ := owners_of_step h
  · -- a new owner is alive
    have hsame : s'.left owner = s.left owner := by
      rw [left, left, hs', List.getElem?_append]
      split
      · rfl
      · next hlt =>
        rw [List.getElem?_eq_none (Nat.le_of_not_lt hlt), List.getElem?_singleton]
        split <;> rfl
    rw [hsame]
    simp [Step.ruins]
  · refine hset halive hs' ?_
    cases q
    · exact absurd rfl hq
    · decide
    · decide
  · exact hset hloaded hs' (by decide)

/-- An owner whose destruction has not finished can take its next step. -/
theorem exists_ruin (hp : s.owners[owner]? = some p) (hne : p ≠ .finished) :
    ∃ a s', a.ruins = some owner ∧ s.ruin a = some s' := by
  cases p with
  | alive =>
    refine ⟨.ruinLoad owner, if s.refs = 0 then (s.setPhase owner .finished).delete
      else s.setPhase owner .loaded, rfl, ?_⟩
    rw [ruin, if_neg (by simp [Step.ruins]), step, if_pos hp]
    split <;> rfl
  | loaded =>
    let s₁ : Shared := { s.setPhase owner .finished with refs := s.refs - 1 }
    refine ⟨.ruinSub owner, if s.refs = 0 then s₁.delete else s₁, rfl, ?_⟩
    rw [ruin, if_neg (by simp [Step.ruins]), step, if_pos hp]
    split <;> rfl
  | finished => exact absurd rfl hne

/-! ## All owners -/

theorem remainingSteps_le (s : Shared) : s.remainingSteps ≤ 2 * s.remaining := by
  have hle : s.owners.countP (· = .alive) ≤ s.remaining := by
    refine List.countP_mono_left fun p _ hp => ?_
    rw [decide_eq_true_iff] at hp ⊢
    rw [hp]
    decide
  rw [remainingSteps]
  omega

theorem countP_alive_set {q : Phase} (hp : s.owners[owner]? = some p) (hq : q ≠ .alive) :
    (s.owners.set owner q).countP (· = .alive) =
      s.owners.countP (· = .alive) - if p = .alive then 1 else 0 := by
  obtain ⟨hlt, hget⟩ := List.getElem?_eq_some_iff.mp hp
  rw [List.countP_set hlt, hget]
  simp [hq]

theorem remainingSteps_ruin (h : s.ruin a = some s') : s'.remainingSteps < s.remainingSteps := by
  obtain ⟨o, rfl, hs'⟩ | ⟨o, q, rfl, halive, hq, hs'⟩ | ⟨o, rfl, hloaded, hs'⟩ :=
    owners_of_step (step_of_ruin h)
  · cases h
  · -- one that was alive is not any more, and may be gone
    have hpos : 0 < s.owners.countP (· = .alive) :=
      List.countP_pos_iff.mpr ⟨_, List.mem_of_getElem? halive, by decide⟩
    have hcount := countP_alive_set halive hq
    have hrest : (s.setPhase o q).remaining = _ := remaining_setPhase q halive (by decide)
    have hremaining := remaining_pos halive (by decide)
    have hset : s'.remaining = (s.setPhase o q).remaining := by rw [remaining, hs']; rfl
    rw [remainingSteps, remainingSteps, hs', hcount, hset, hrest, if_pos rfl]
    split <;> omega
  · -- and one that had loaded is gone
    have hcount := countP_alive_set (q := .finished) hloaded (by decide)
    have hrest : (s.setPhase o .finished).remaining = _ :=
      remaining_setPhase .finished hloaded (by decide)
    have hremaining := remaining_pos hloaded (by decide)
    have hset : s'.remaining = (s.setPhase o .finished).remaining := by rw [remaining, hs']; rfl
    rw [remainingSteps, remainingSteps, hs', hcount, hset, hrest]
    simp
    omega

/-! ## Runs with no more copies -/

theorem run_of_run_ruin {bs : List Step} (h : run ruin s bs = some s') :
    run step s bs = some s' := by
  have hstep : ∀ (s t : Shared), ∀ a ∈ bs, ∀ s' : Shared, s = t → s.ruin a = some s' →
      ∃ t', t.step a = some t' ∧ s' = t' :=
    fun _ _ _ _ s' hst h => ⟨s', hst ▸ step_of_ruin h, rfl⟩
  obtain ⟨t', hrun, rfl⟩ := run_follows hstep rfl h
  exact hrun

theorem length_of_ruin (h : s.ruin a = some s') : s'.owners.length = s.owners.length := by
  obtain ⟨o, rfl, -⟩ | ⟨o, p, rfl, -, -, hs'⟩ | ⟨o, rfl, -, hs'⟩ := owners_of_step (step_of_ruin h)
  · cases h
  · rw [hs', List.length_set]
  · rw [hs', List.length_set]

theorem length_of_run_ruin {bs : List Step} (h : run ruin s bs = some s') :
    s'.owners.length = s.owners.length := by
  have hstep : ∀ (t : Shared) (a : Step) (t' : Shared), t.owners.length = s.owners.length →
      t.ruin a = some t' → t'.owners.length = s.owners.length :=
    fun _ _ _ ht h => (length_of_ruin h).trans ht
  exact run_invariant hstep rfl h

/-- With no step left, every owner is gone. -/
theorem remaining_of_stuck (h : ∀ a, s.ruin a = none) : s.remaining = 0 := by
  rw [remaining_eq_zero_iff]
  intro p hp
  obtain ⟨owner, hget⟩ := List.getElem?_of_mem hp
  by_contra hne
  obtain ⟨a, s', -, ha⟩ := exists_ruin hget hne
  rw [h a] at ha
  cases ha

/-- **Completion.** From every state that fewer than `2 ^ 64` owners can have brought about: no
owner ever waits for another one to be destroyed; the destruction of an owner takes two steps at
most, however the steps of the other owners, and new copies, come in between; and when no more
copies are made, the destructions run out of steps, and then the state has been deleted. -/
theorem destruction_completes {as : List Step} {s : Shared} (hrun : run step make as = some s)
    (hlen : s.owners.length < 2 ^ 64) :
    (∀ (owner : Nat) (p : Phase), s.owners[owner]? = some p → p ≠ .finished →
      ∃ a s', a.ruins = some owner ∧ s.ruin a = some s') ∧
    (∀ (bs : List Step) (s' : Shared), run step s bs = some s' → ∀ owner : Nat,
      bs.countP (·.ruins = some owner) ≤ s.left owner ∧ s.left owner ≤ 2 ∧
      (bs.countP (·.ruins = some owner) = s.left owner →
        ∀ p, s'.owners[owner]? = some p → p = .finished)) ∧
    (∀ (bs : List Step) (s' : Shared), run ruin s bs = some s' →
      bs.length ≤ 2 * s.remaining ∧
      ((∀ a, s'.ruin a = none) → s'.deletes = 1 ∧ ∀ p ∈ s'.owners, p = .finished)) ∧
    ∃ bs s', run ruin s bs = some s' ∧ ∀ a, s'.ruin a = none := by
  have hless : ∀ (s : Shared) (a : Step) (s' : Shared), s.ruin a = some s' →
      s'.remainingSteps < s.remainingSteps := fun _ _ _ => remainingSteps_ruin
  refine ⟨fun _ _ => exists_ruin, fun bs s' h owner => ?_, fun bs s' h => ⟨?_, fun hstuck => ?_⟩,
    exists_run_stuck hless s⟩
  · have hleft : ∀ (s : Shared) (a : Step) (s' : Shared), s.step a = some s' →
        (if decide (a.ruins = some owner) = true then 1 else 0) + s'.left owner ≤ s.left owner :=
      fun _ _ _ => left_step owner
    have hcount := run_countP_add_le hleft h
    refine ⟨by omega, s.left_le owner, fun hall p hp => ?_⟩
    exact (left_eq_zero_iff hp).mp (by omega)
  · have hlength := run_length_add_le hless h
    have hbound := s.remainingSteps_le
    omega
  · have hend : s'.remaining = 0 := remaining_of_stuck hstuck
    have hall : run step make (as ++ bs) = some s' := run_append hrun (run_of_run_ruin h)
    refine ⟨?_, s'.remaining_eq_zero_iff.mp hend⟩
    rw [deletes_of_run hall (length_of_run_ruin h ▸ hlen), if_pos hend]

/-- Two owners, one of them in its destructor. -/
theorem destruction_completes_loaded :
    ∃ s, run step make [.copy 0, .ruinLoad 0] = some s ∧ s.left 0 = 1 ∧ s.left 1 = 2 ∧
      ∃ bs s', run ruin s bs = some s' ∧ ∀ a, s'.ruin a = none := by
  have hrun : run step make [.copy 0, .ruinLoad 0] = some ⟨1, 0, [.loaded, .alive]⟩ := by decide
  exact ⟨_, hrun, rfl, rfl, (destruction_completes hrun (by decide)).2.2.2⟩

end Shared

end Hy.Exception

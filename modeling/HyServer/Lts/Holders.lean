import HyServer.Lts.Runs

/-!
# Lts — a resource with holders

What reference counting is for, with no counter in it: a resource has some number of holders, a
holder may bring in another one, and a holder may leave. The resource is freed by the holder that
leaves last.
-/

namespace Lts

/-- The holders of a resource, and how often it has been freed. -/
structure Holders where
  count : Nat
  freed : Nat
  deriving DecidableEq, Repr

namespace Holders

inductive Label where
  | acquire
  | release
  deriving DecidableEq, Repr

def next (s : Holders) : Label → Holders
  | .acquire => { s with count := s.count + 1 }
  | .release => ⟨s.count - 1, if s.count = 1 then s.freed + 1 else s.freed⟩

/-- Only a holder can bring in another one, or leave. -/
def step (s : Holders) (l : Label) : Option Holders :=
  if s.count = 0 then none else some (s.next l)

/-- Freed once there is no holder, and not before. -/
def Accounted (s : Holders) : Prop :=
  s.freed = if s.count = 0 then 1 else 0

theorem step_eq_some {s s' : Holders} {l : Label} (h : s.step l = some s') :
    0 < s.count ∧ s' = s.next l := by
  unfold step at h
  split at h
  · cases h
  · next hpos => exact ⟨Nat.pos_of_ne_zero hpos, (Option.some.inj h).symm⟩

/-- A freed resource is not touched any more. -/
theorem Accounted.step_freed {s s' : Holders} {l : Label} (h : s.Accounted)
    (hs : s.step l = some s') : s.freed = 0 := by
  have hpos := (step_eq_some hs).1
  rw [h, if_neg (by omega)]

theorem Accounted.step {s s' : Holders} {l : Label} (h : s.Accounted) (hs : s.step l = some s') :
    s'.Accounted := by
  have hfreed := h.step_freed hs
  obtain ⟨hpos, rfl⟩ := step_eq_some hs
  unfold Accounted
  cases l with
  | acquire => simp [next, hfreed]
  | release =>
    show (if s.count = 1 then s.freed + 1 else s.freed) = if s.count - 1 = 0 then 1 else 0
    rw [hfreed]
    split <;> split <;> omega

/-- **Over every run** from one holder the resource is freed exactly when the last one has left. -/
theorem accounted_of_run {ls : List Label} {s : Holders} (h : run step ⟨1, 0⟩ ls = some s) :
    s.Accounted := by
  have hstart : (⟨1, 0⟩ : Holders).Accounted := rfl
  exact run_invariant (fun _ _ _ hs hstep => hs.step hstep) hstart h

end Holders

end Lts

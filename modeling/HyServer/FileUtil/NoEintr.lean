import HyServer.FileUtil.Retry
import HyServer.Lts.Sessions

/-!
# hy::detail — what a client sees through `wrapNoEintr`

An interrupted call leaves the world as it is, so the retries are not seen: a client that makes its
calls through `wrapNoEintr` has a session with a callee that is never interrupted.

* `Interruptible` — a callee that does what another one does, or is interrupted.
* `Retried` — a call that `wrapNoEintr` has returned from.
* `retried_sessions` — the sessions through `wrapNoEintr`, and that there are any.
-/

namespace Hy.FileUtil

open Cpp Lts

variable {σ τ : Type}

/-- A call of `f` is interrupted and leaves the world as it is, or does what `ideal` may do. -/
def Interruptible (world : σ → τ) (ideal : τ → Call → τ → Response → Prop) (f : Syscall σ) : Prop :=
  ∀ s args, if (f s args).2.interrupted then world (f s args).1 = world s
    else ideal (world s) args (world (f s args).1) (f s args).2

/-- `wrapNoEintr(f, args...)` returns `r`. -/
def Retried (f : Syscall σ) (s : σ) (args : Call) (s' : σ) (r : Response) : Prop :=
  ∃ n, wrapNoEintr (fun s args => some (f s args)) n s args = some (s', r)

section

variable {f : Syscall σ} {s s' : σ} {args : Call} {r : Response}

/-- The list of calls can be forgotten. -/
theorem rounds_wrapNoEintr (f : Syscall σ) (args : Call) (n : Nat) (s : σ) :
    rounds (wrapNoEintrBody (fun s args => some (f s args)) args) n s =
      (rounds (wrapNoEintrBody (traced f) args) n (s, [])).map
        (Round.map Prod.fst fun y => (y.1.1, y.2)) := by
  refine rounds_map (f := (Prod.fst : σ × Trace → σ)) ?_ n (s, [])
  rintro ⟨s, t⟩
  by_cases hint : (f s args).2.interrupted
  · rw [wrapNoEintrBody_of_interrupted t hint]
    exact congrArg some (if_pos hint)
  · rw [wrapNoEintrBody_of_not_interrupted t hint]
    exact congrArg some (if_neg hint)

theorem retried_iff : Retried f s args s' r ↔ ∃ t, Answers f args (s, []) ((s', t), r) := by
  unfold Retried
  simp only [wrapNoEintr_eq_some, rounds_wrapNoEintr, answers_iff]
  constructor
  · rintro ⟨n, hn⟩
    obtain ⟨x, hx, hleave⟩ := Option.map_eq_some_iff.mp hn
    cases x with
    | again _ => cases hleave
    | leave y =>
      obtain ⟨⟨s₁, t⟩, r₁⟩ := y
      cases hleave
      exact ⟨t, n, hx⟩
  · rintro ⟨t, n, hn⟩
    exact ⟨n, Option.map_eq_some_iff.mpr ⟨_, hn, rfl⟩⟩

/-- The interruptions before an answer leave the world as it is. -/
theorem Interruptible.ideal_of_answers {world : σ → τ}
    {ideal : τ → Call → τ → Response → Prop} (hf : Interruptible world ideal f)
    {st : σ × Trace} {x : (σ × Trace) × Response} (h : Answers f args st x) :
    ideal (world st.1) args (world x.1.1) x.2 := by
  induction h with
  | @now s t hans =>
    have hcall := hf s args
    rw [if_neg hans] at hcall
    exact hcall
  | @later s t x hint _ ih =>
    have hcall := hf s args
    rw [if_pos hint] at hcall
    rw [hcall] at ih
    exact ih

end

/-- **The retries are not seen.** A session through `wrapNoEintr`, of any client that decides on its
calls by the responses, is one with the callee that is never interrupted, with the same responses,
none of them interrupted. A client that stops after some number of calls has a session when the
callee is interrupted finitely often. -/
theorem retried_sessions {world : σ → τ} {ideal : τ → Call → τ → Response → Prop} {f : Syscall σ}
    (hf : Interruptible world ideal f) (client : Client Call Response) (s : σ) :
    (∀ rs s', Session (Retried f) client [] s rs s' →
      Session ideal client [] (world s) rs (world s') ∧ ∀ r ∈ rs, ¬ r.interrupted) ∧
    ∀ n, (∀ rs : List Response, n ≤ rs.length → client rs = none) → FinitelyInterrupted f s →
      ∃ rs s', Session (Retried f) client [] s rs s' := by
  constructor
  · intro rs s' h
    constructor
    · have hcall : ∀ s t args s' r, world s = t → Retried f s args s' r →
          ∃ t', ideal t args t' r ∧ world s' = t' := by
        rintro s _ args s' r rfl hcall
        obtain ⟨t, hanswers⟩ := retried_iff.mp hcall
        exact ⟨_, hf.ideal_of_answers hanswers, rfl⟩
      obtain ⟨t', hsession, rfl⟩ := h.simulates hcall rfl
      exact hsession
    · refine h.forall_response (P := fun r => ¬ r.interrupted) (fun s args s' r hcall => ?_)
        (by simp)
      obtain ⟨t, hanswers⟩ := retried_iff.mp hcall
      -- the loop ends with the answer that is not an interruption
      obtain ⟨s₁, t₁, heq, hint⟩ := hanswers.last
      cases heq
      exact hint
  · intro n hstop hfin
    refine exists_session (P := FinitelyInterrupted f) ?_ n [] s hfin (by simpa using hstop)
    intro s args hfin
    obtain ⟨⟨⟨s', t⟩, r⟩, hanswers⟩ := exists_answers hfin args []
    exact ⟨s', r, retried_iff.mpr ⟨t, hanswers⟩, hanswers.finitelyInterrupted hfin⟩

/-- Two calls on a bad descriptor, the first of which is interrupted. -/
def twoCalls : Client Call Response := fun rs =>
  if rs.length < 2 then some ⟨3, 100, 1, none⟩ else none

theorem interruptible_badFd :
    Interruptible (fun _ => ()) (fun _ _ _ r => r = ⟨-1, 9⟩) badFd := by
  intro first args
  cases first with
  | false =>
    rw [if_neg fun hint => absurd hint.2 (show (9 : Int) ≠ EINTR by decide)]
    rfl
  | true =>
    rw [if_pos ⟨rfl, rfl⟩]

theorem retried_sessions_badFd : ∃ rs s', Session (Retried badFd) twoCalls [] true rs s' ∧
    Session (fun _ _ _ r => r = ⟨-1, 9⟩) twoCalls [] () rs () := by
  have hstop : ∀ rs : List Response, 2 ≤ rs.length → twoCalls rs = none := by
    intro rs hlen
    exact if_neg (by omega)
  obtain ⟨hsees, hexists⟩ := retried_sessions interruptible_badFd twoCalls true
  obtain ⟨rs, s', h⟩ := hexists 2 hstop (finitelyInterrupted_badFd true)
  exact ⟨rs, s', h, (hsees rs s' h).1⟩

end Hy.FileUtil

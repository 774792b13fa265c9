import HyServer.FileUtil.Loops

/-!
# hy::detail — interruptions and `wrapFull`

`wrapFull` itself calls an interrupted `f` again, and `wrapNoEintr` makes an `f` that is never
interrupted. `Agree` says that `wrapFull` does the same over either. It does, but for one case: with
nothing to transfer, `continue` goes to a condition that is false already, so an interrupted first
call is taken for a finished transfer.
-/

namespace Hy.FileUtil

open Cpp

variable {σ : Type}

/-! ## Interruptions -/

/-- The state of `f` before call `i` of the sequence `calls`. -/
def stateBefore (f : Syscall σ) (calls : Nat → Call) (s : σ) : Nat → σ
  | 0 => s
  | i + 1 => (f (stateBefore f calls s i) (calls i)).1

/-- However it is called from `s` on, `f` is interrupted finitely often. -/
def FinitelyInterrupted (f : Syscall σ) (s : σ) : Prop :=
  ∀ calls : Nat → Call, ∃ N, ∀ i, N ≤ i →
    ¬ (f (stateBefore f calls s i) (calls i)).2.interrupted

/-- The calls that were not interrupted. -/
def answered (t : Trace) : Trace := t.filter fun e => decide ¬ e.2.interrupted

theorem answered_concat_of_interrupted {t : Trace} {args : Call} {r : Response}
    (hr : r.interrupted) : answered (t ++ [(args, r)]) = answered t := by
  simp [answered, hr]

theorem answered_concat_ne_nil {t : Trace} {args : Call} {r : Response}
    (hr : ¬ r.interrupted) : answered (t ++ [(args, r)]) ≠ [] := by
  simp [answered, hr]

/-- The first call first. -/
theorem stateBefore_succ (f : Syscall σ) (calls : Nat → Call) (s : σ) (i : Nat) :
    stateBefore f calls s (i + 1) =
      stateBefore f (fun j => calls (j + 1)) (f s (calls 0)).1 i := by
  induction i with
  | zero => rfl
  | succ i ih => rw [stateBefore, ih, stateBefore]

theorem FinitelyInterrupted.step {f : Syscall σ} {s : σ} (h : FinitelyInterrupted f s)
    (args : Call) : FinitelyInterrupted f (f s args).1 := by
  intro calls
  -- the same calls, after one of `args`
  let calls' : Nat → Call := fun i => Nat.casesOn i args calls
  obtain ⟨N, hN⟩ := h calls'
  refine ⟨N, fun i hi => ?_⟩
  have hnext := hN (i + 1) (by omega)
  rw [stateBefore_succ] at hnext
  exact hnext

/-! ## A call that is repeated until it answers -/

/-- `f(args)` from `st`, again for as long as it is interrupted. -/
inductive Answers (f : Syscall σ) (args : Call) :
    σ × Trace → (σ × Trace) × Response → Prop where
  | now {s : σ} {t : Trace} (h : ¬ (f s args).2.interrupted) :
      Answers f args (s, t) (((f s args).1, t ++ [(args, (f s args).2)]), (f s args).2)
  | later {s : σ} {t : Trace} {x : (σ × Trace) × Response} (h : (f s args).2.interrupted)
      (hx : Answers f args ((f s args).1, t ++ [(args, (f s args).2)]) x) :
      Answers f args (s, t) x

variable {f : Syscall σ} {args : Call} {s : σ} {t : Trace} {x : (σ × Trace) × Response}

theorem exists_answers (hfin : FinitelyInterrupted f s) (args : Call) (t : Trace) :
    ∃ x, Answers f args (s, t) x := by
  obtain ⟨N, hN⟩ := hfin fun _ => args
  clear hfin
  induction N generalizing s t with
  | zero => exact ⟨_, .now (hN 0 (Nat.le_refl 0))⟩
  | succ N ih =>
    by_cases hint : (f s args).2.interrupted
    · obtain ⟨x, hx⟩ := ih (s := (f s args).1) (t ++ [(args, (f s args).2)]) fun i hi => by
        have hnext := hN (i + 1) (by omega)
        rw [stateBefore_succ] at hnext
        exact hnext
      exact ⟨x, .later hint hx⟩
    · exact ⟨_, .now hint⟩

/-- The last call, which was not interrupted. -/
theorem Answers.last (hx : Answers f args (s, t) x) :
    ∃ s₁ t₁, x = (((f s₁ args).1, t₁ ++ [(args, (f s₁ args).2)]), (f s₁ args).2) ∧
      ¬ (f s₁ args).2.interrupted := by
  generalize hst : (s, t) = st at hx
  induction hx generalizing s t with
  | @now s₁ t₁ hr => exact ⟨s₁, t₁, rfl, hr⟩
  | later _ _ ih => exact ih rfl

theorem Answers.finitelyInterrupted (hx : Answers f args (s, t) x)
    (hfin : FinitelyInterrupted f s) : FinitelyInterrupted f x.1.1 := by
  generalize hst : (s, t) = st at hx
  induction hx generalizing s t with
  | now =>
    cases hst
    exact hfin.step args
  | later _ _ ih =>
    cases hst
    exact ih (hfin.step args) rfl

theorem wrapNoEintr_eq_some {g : Callee σ} {n : Nat} {y : σ × Response} :
    wrapNoEintr g n s args = some y ↔
      rounds (wrapNoEintrBody g args) n s = some (.leave y) := by
  unfold wrapNoEintr
  split
  next x hx => rw [hx, Option.some.injEq, Option.some.injEq, Round.leave.injEq]
  next hx =>
    refine iff_of_false (by simp) ?_
    exact hx y

theorem wrapNoEintrBody_of_interrupted (t : Trace) (hr : (f s args).2.interrupted) :
    wrapNoEintrBody (traced f) args (s, t) =
      some (.again ((f s args).1, t ++ [(args, (f s args).2)])) :=
  congrArg some (if_pos hr)

theorem wrapNoEintrBody_of_not_interrupted (t : Trace) (hr : ¬ (f s args).2.interrupted) :
    wrapNoEintrBody (traced f) args (s, t) =
      some (.leave (((f s args).1, t ++ [(args, (f s args).2)]), (f s args).2)) :=
  congrArg some (if_neg hr)

/-- `wrapNoEintr` returns exactly what the repeated call answers. -/
theorem answers_iff :
    Answers f args (s, t) x ↔ ∃ n, wrapNoEintr (traced f) n (s, t) args = some x := by
  simp only [wrapNoEintr_eq_some]
  constructor
  · intro hx
    show Leaves (wrapNoEintrBody (traced f) args) (s, t) x
    generalize (s, t) = st at hx ⊢
    induction hx with
    | now hr => exact .now (wrapNoEintrBody_of_not_interrupted _ hr)
    | later hr _ ih => exact .later (wrapNoEintrBody_of_interrupted _ hr) ih
  · rintro ⟨n, hn⟩
    induction n generalizing s t with
    | zero => cases hn
    | succ n ih =>
      by_cases hr : (f s args).2.interrupted
      · rw [rounds_succ_again (wrapNoEintrBody_of_interrupted t hr)] at hn
        exact .later hr (ih hn)
      · rw [rounds_succ_leave (wrapNoEintrBody_of_not_interrupted t hr)] at hn
        cases hn
        exact .now hr

theorem wrapNoEintr_mono {g : Callee σ} {n m : Nat} (hnm : n ≤ m) {y : σ × Response}
    (hy : wrapNoEintr g n s args = some y) : wrapNoEintr g m s args = some y :=
  wrapNoEintr_eq_some.mpr (rounds_of_le (wrapNoEintr_eq_some.mp hy) hnm)

/-! ## The two loops -/

variable {off : IntType} {fd : Int} {l : Locals} {y : (σ × Trace) × Int}

/-- The call of a round. -/
def Locals.call (fd : Int) (l : Locals) : Call := ⟨fd, l.b, l.count, l.offset⟩

/-- `wrapFull` over `wrapNoEintr`, from the middle of a run. -/
def LeavesNoEintr (off : IntType) (f : Syscall σ) (fd : Int) (x : (σ × Trace) × Locals)
    (y : (σ × Trace) × Int) : Prop :=
  ∃ n, Leaves (wrapFullBody off (wrapNoEintr (traced f) n) fd) x y

/-- Over `f` itself, `wrapFull` comes to the same answer, unless it leaves the loop before. -/
theorem leaves_iff_of_answers (hx : Answers f (l.call fd) (s, t) x)
    (hfirst : l.count ≠ 0 ∨ ¬ (f s (l.call fd)).2.interrupted) :
    Leaves (wrapFullBody off (traced f) fd) ((s, t), l) y ↔
      (afterCall off l x.1 x.2).LeavesWith (wrapFullBody off (traced f) fd) y := by
  generalize hst : (s, t) = st at hx ⊢
  induction hx generalizing s t with
  | now =>
    exact leaves_iff_of_eq (wrapFullBody_traced off f fd _ _ l)
  | @later s₁ t₁ x hr hx ih =>
    cases hst
    -- something is left, so `continue` comes back to the same call
    have hcount : l.count ≠ 0 := hfirst.resolve_right fun h => h hr
    rw [leaves_iff_of_eq (wrapFullBody_traced off f fd _ _ l), ← ih (.inl hcount) rfl]
    show (afterCall off l _ (f s₁ (l.call fd)).2).LeavesWith _ y ↔ _
    rw [afterCall_of_interrupted hr, if_pos hcount]
    rfl

theorem wrapFullBody_mono {g g' : Callee σ}
    (hg : ∀ s args x, g s args = some x → g' s args = some x) (z : σ × Locals)
    (w : Round (σ × Locals) (σ × Int)) (hw : wrapFullBody off g fd z = some w) :
    wrapFullBody off g' fd z = some w := by
  obtain ⟨a, ha, hw⟩ := Option.map_eq_some_iff.mp hw
  exact Option.map_eq_some_iff.mpr ⟨a, hg _ _ _ ha, hw⟩

/-- Over `wrapNoEintr`, a round that leaves or goes on to one that leaves. -/
theorem leavesNoEintr_of_answers (hx : Answers f (l.call fd) (s, t) x)
    (hy : ∀ r, afterCall off l x.1 x.2 = .leave r → r = y)
    (hy' : ∀ x', afterCall off l x.1 x.2 = .again x' → LeavesNoEintr off f fd x' y) :
    LeavesNoEintr off f fd ((s, t), l) y := by
  obtain ⟨n, hn⟩ := answers_iff.mp hx
  have hbody : wrapFullBody off (wrapNoEintr (traced f) n) fd ((s, t), l) =
      some (afterCall off l x.1 x.2) := Option.map_eq_some_iff.mpr ⟨x, hn, rfl⟩
  cases hafter : afterCall off l x.1 x.2 with
  | leave r =>
    cases hy r hafter
    rw [hafter] at hbody
    exact ⟨n, .now hbody⟩
  | again x' =>
    obtain ⟨m, hm⟩ := hy' x' hafter
    rw [hafter] at hbody
    -- one bound for this call and for those of the later rounds
    have hle : ∀ {k}, k ≤ max n m → ∀ z w,
        wrapFullBody off (wrapNoEintr (traced f) k) fd z = some w →
        wrapFullBody off (wrapNoEintr (traced f) (max n m)) fd z = some w := fun hk =>
      wrapFullBody_mono fun _ _ _ => wrapNoEintr_mono hk
    exact ⟨max n m, .later (hle (Nat.le_max_left n m) _ _ hbody)
      (hm.mono (hle (Nat.le_max_right n m)))⟩

/-- What is left after a call that transferred some and left some. -/
theorem advance_count (hl : sizeT.Representable l.count) {r : Int} (hr : 0 ≤ r ∧ r ≤ l.count) :
    (l.advance off r).count = l.count - r := by
  have hmin : sizeT.min = 0 := rfl
  exact IntType.wrap_of_representable ⟨by omega, Int.le_trans (Int.sub_le_self _ hr.1) hl.2⟩

/-- Both loops leave, and with the same. -/
theorem exists_leaves (hf : SyscallLike f) (n : Nat) :
    ∀ (s : σ) (t : Trace) (l : Locals), FinitelyInterrupted f s → sizeT.Representable l.count →
      l.count.toNat = n → (l.count ≠ 0 ∨ ¬ (f s (l.call fd)).2.interrupted) →
      ∃ y, Leaves (wrapFullBody off (traced f) fd) ((s, t), l) y ∧
        LeavesNoEintr off f fd ((s, t), l) y := by
  induction n using Nat.strongRecOn with
  | ind n ih =>
    -- on what is left to transfer
    intro s t l hfin hl hn hfirst
    have hmin : sizeT.min = 0 := rfl
    obtain ⟨x, hx⟩ := exists_answers hfin (l.call fd) t
    obtain ⟨s₁, t₁, hlast, hint⟩ := hx.last
    have hret := hf s₁ (l.call fd)
    have hcall : (l.call fd).count = l.count := rfl
    have hx2 : x.2 = (f s₁ (l.call fd)).2 := by rw [hlast]
    rw [← hx2] at hret hint
    have hiff : ∀ y, Leaves (wrapFullBody off (traced f) fd) ((s, t), l) y ↔
        (afterCall off l x.1 x.2).LeavesWith (wrapFullBody off (traced f) fd) y := fun _ =>
      leaves_iff_of_answers hx hfirst
    cases hafter : afterCall off l x.1 x.2 with
    | leave y =>
      rw [hafter] at hiff
      refine ⟨y, (hiff y).mpr rfl, leavesNoEintr_of_answers hx ?_ ?_⟩
      · intro r hr
        exact (Round.leave.inj (hafter.symm.trans hr)).symm
      · intro x' hx'
        cases hafter.symm.trans hx'
    | again x' =>
      obtain ⟨st', l'⟩ := x'
      have hst : st' = x.1 := eq_of_afterCall_again hafter
      -- it goes on only after an answer that leaves less to do
      have hans : x.2.ret ≠ -1 := by
        rcases x.2.cases with hint' | hfail | hans
        · exact absurd hint' hint
        · rw [afterCall_of_failed hfail] at hafter
          cases hafter
        · exact hans
      have hless : l'.count = l.count - x.2.ret ∧ x.2.ret ≠ 0 ∧ l'.count ≠ 0 := by
        rw [afterCall_of_answered hans] at hafter
        unfold whileRemaining at hafter
        split at hafter
        next hmore =>
          cases hafter
          exact ⟨advance_count hl (by omega), hmore.1, hmore.2⟩
        next => cases hafter
      have hl' : sizeT.Representable l'.count := ⟨by omega, by have := hl.2; omega⟩
      obtain ⟨y, hraw, hretry⟩ := ih l'.count.toNat (by omega) x.1.1 x.1.2 l'
        (hx.finitelyInterrupted hfin) hl' rfl (.inl hless.2.2)
      rw [hafter] at hiff
      subst hst
      refine ⟨y, (hiff y).mpr hraw, leavesNoEintr_of_answers hx ?_ ?_⟩
      · intro r hr
        cases hafter.symm.trans hr
      · intro x' hx'
        cases hafter.symm.trans hx'
        exact hretry

/-! ## Nothing to transfer -/

/-- An interrupted call ends `wrapFull`. -/
theorem eq_of_leaves_of_interrupted (hl : l.count = 0) (hint : (f s (l.call fd)).2.interrupted)
    (hy : Leaves (wrapFullBody off (traced f) fd) ((s, t), l) y) :
    y = (((f s (l.call fd)).1, t ++ [(l.call fd, (f s (l.call fd)).2)]), l.totalBytes) := by
  rw [leaves_iff_of_eq (wrapFullBody_traced off f fd s t l)] at hy
  change (afterCall off l _ (f s (l.call fd)).2).LeavesWith _ y at hy
  rw [afterCall_of_interrupted hint, if_neg fun h => h hl] at hy
  exact hy.symm

/-- Over `wrapNoEintr`, `wrapFull` leaves with the one call that answered. -/
theorem answered_ne_nil_of_leavesNoEintr (hf : SyscallLike f) (hl : l.count = 0)
    (hy : LeavesNoEintr off f fd ((s, t), l) y) : answered y.1.2 ≠ [] := by
  obtain ⟨n, hn⟩ := hy
  obtain ⟨w, hbody, hw⟩ := hn.exists_round
  obtain ⟨x, hx, rfl⟩ := Option.map_eq_some_iff.mp hbody
  change (afterCall off l x.1 x.2).LeavesWith _ y at hw
  have hx : Answers f (l.call fd) (s, t) x := answers_iff.mpr ⟨n, hx⟩
  obtain ⟨s₁, t₁, rfl, hint⟩ := hx.last
  have hret := hf s₁ (l.call fd)
  have hcall : (l.call fd).count = l.count := rfl
  have hstate : y.1.2 = t₁ ++ [(l.call fd, (f s₁ (l.call fd)).2)] := by
    rcases (f s₁ (l.call fd)).2.cases with hint' | hfail | hans
    · exact absurd hint' hint
    · rw [afterCall_of_failed hfail] at hw
      cases hw
      rfl
    · rw [afterCall_of_answered hans, whileRemaining, if_neg (by omega)] at hw
      cases hw
      rfl
  rw [hstate]
  exact answered_concat_ne_nil hint

/-! ## Agreement -/

section

variable {buf count : Int} {offset : Option Int}

/-- Over `f` and over `wrapNoEintr` of `f`, `wrapFull` returns the same and leaves the same state,
memory included, after the same calls that were not interrupted. -/
def Agree (off : IntType) (f : Syscall σ) (fd buf count : Int) (offset : Option Int) (s₀ : σ) :
    Prop :=
  ∃ s t t' ret,
    (∃ n, wrapFull off (traced f) fd buf count offset n (s₀, []) =
      some (.leave ((s, t), ret))) ∧
    (∃ m n, wrapFull off (wrapNoEintr (traced f) m) fd buf count offset n (s₀, []) =
      some (.leave ((s, t'), ret))) ∧
    answered t = answered t'

theorem agree_of_first (hf : SyscallLike f) (hfin : FinitelyInterrupted f s)
    (hcount : sizeT.Representable count)
    (hfirst : count ≠ 0 ∨ ¬ (f s ⟨fd, buf, count, offset⟩).2.interrupted) :
    Agree off f fd buf count offset s := by
  have hleaves : ∃ y, Leaves (wrapFullBody off (traced f) fd) ((s, []), .start buf count offset) y ∧
      LeavesNoEintr off f fd ((s, []), .start buf count offset) y :=
    exists_leaves hf _ s [] (.start buf count offset) hfin hcount rfl hfirst
  obtain ⟨⟨⟨s', t⟩, ret⟩, hraw, hretry⟩ := hleaves
  exact ⟨s', t, t, ret, hraw, hretry, rfl⟩

/-- With nothing to transfer, an interrupted first call is the only one. -/
theorem not_agree_of_interrupted (hf : SyscallLike f)
    (hint : (f s ⟨fd, buf, 0, offset⟩).2.interrupted) : ¬ Agree off f fd buf 0 offset s := by
  rintro ⟨s', t, t', ret, hraw, hretry, hanswered⟩
  have hy := eq_of_leaves_of_interrupted (l := .start buf 0 offset) rfl hint hraw
  have hne : answered t' ≠ [] :=
    answered_ne_nil_of_leavesNoEintr (l := .start buf 0 offset) hf rfl hretry
  cases hy
  apply hne
  rw [← hanswered]
  exact answered_concat_of_interrupted hint

/-- **Interruptions change nothing**, unless there is nothing to transfer and the first call is
interrupted. -/
theorem agree_iff (hf : SyscallLike f) (hfin : FinitelyInterrupted f s)
    (hcount : sizeT.Representable count) :
    Agree off f fd buf count offset s ↔
      ¬ (count = 0 ∧ (f s ⟨fd, buf, count, offset⟩).2.interrupted) := by
  constructor
  · rintro hagree ⟨rfl, hint⟩
    exact not_agree_of_interrupted hf hint hagree
  · intro hfirst
    apply agree_of_first hf hfin hcount
    by_cases hzero : count = 0
    · exact .inr fun hint => hfirst ⟨hzero, hint⟩
    · exact .inl hzero

end

/-- Interrupted once, and then failing with `EBADF`. -/
def badFd : Syscall Bool := fun first _ => (false, if first then ⟨-1, EINTR⟩ else ⟨-1, 9⟩)

theorem syscallLike_badFd : SyscallLike badFd := by
  intro first args
  cases first <;> exact .inl rfl

theorem finitelyInterrupted_badFd (first : Bool) : FinitelyInterrupted badFd first := by
  intro calls
  refine ⟨1, fun i hi => ?_⟩
  obtain ⟨i, rfl⟩ : ∃ j, i = j + 1 := ⟨i - 1, by omega⟩
  have herrno : (badFd (stateBefore badFd calls first (i + 1)) (calls (i + 1))).2.errno = 9 := rfl
  intro hint
  exact absurd (herrno.symm.trans hint.2) (by decide)

/-- One byte of a bad descriptor: the interruption makes no difference. -/
theorem agree_badFd : Agree ssizeT badFd 3 100 1 none true :=
  (agree_iff syscallLike_badFd (finitelyInterrupted_badFd true) (by decide)).mpr (by decide)

/-- No byte of a bad descriptor: `wrapFull` returns `0` over `f`, and `-1` over `wrapNoEintr`. -/
theorem not_agree_badFd :
    SyscallLike badFd ∧ FinitelyInterrupted badFd true ∧ sizeT.Representable 0 ∧
      ¬ Agree ssizeT badFd 3 100 0 none true :=
  ⟨syscallLike_badFd, finitelyInterrupted_badFd true, by decide,
    not_agree_of_interrupted syscallLike_badFd (by decide)⟩

end Hy.FileUtil

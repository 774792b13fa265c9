import HyServer.FileUtil.Loops

/-!
# hy::detail — `wrapFull` transfers one contiguous range

Every run of `wrapFull`, on any callee that transfers at most what it is asked for. Of a trace:

* `transferred` — the sum of its non-negative results, which is how far the transfer has come.
* `Contiguous` — each call asks for exactly what the calls before it left.
* `Reported` — what the returned value says about it.

`Running` is what holds before each round: the four variables of the loop are in step with the
trace. For a `pread` of a fixed file, `Filled` says what is in the buffer.
-/

namespace Hy.FileUtil

open Cpp

/-! ## Traces -/

def transferred (t : Trace) : Int := (t.map fun e => max e.2.ret 0).sum

def interrupts (t : Trace) : Nat := t.countP fun e => decide e.2.interrupted

@[simp] theorem transferred_nil : transferred [] = 0 := rfl

theorem transferred_concat (t : Trace) (args : Call) (r : Response) :
    transferred (t ++ [(args, r)]) = transferred t + max r.ret 0 := by
  simp [transferred]

/-- A failure transfers nothing. -/
theorem transferred_concat_of_neg (t : Trace) (args : Call) {r : Response} (hr : r.ret = -1) :
    transferred (t ++ [(args, r)]) = transferred t := by
  rw [transferred_concat]
  omega

theorem transferred_concat_of_nonneg (t : Trace) (args : Call) {r : Response} (hr : 0 ≤ r.ret) :
    transferred (t ++ [(args, r)]) = transferred t + r.ret := by
  rw [transferred_concat]
  omega

theorem interrupts_concat (t : Trace) (args : Call) (r : Response) :
    interrupts (t ++ [(args, r)]) = interrupts t + if r.interrupted then 1 else 0 := by
  simp [interrupts, List.countP_singleton]

/-- The call for what is left after `s` bytes. -/
def callAt (fd buf count : Int) (offset : Option Int) (s : Int) : Call :=
  ⟨fd, buf + s, count - s, offset.map (· + s)⟩

/-- The variables after `s` bytes. -/
def localsAt (buf count : Int) (offset : Option Int) (s : Int) : Locals :=
  ⟨buf + s, s, count - s, offset.map (· + s)⟩

structure Contiguous (fd buf count : Int) (offset : Option Int) (t : Trace) : Prop where
  args_eq : ∀ pre args r, pre ++ [(args, r)] <+: t →
    args = callAt fd buf count offset (transferred pre)
  bounds : ∀ pre, pre <+: t → 0 ≤ transferred pre ∧ transferred pre ≤ count

/-- `ret` is `-1` if a call failed for good, which the last one did then; else it is what was
transferred, all of it or up to a call that returned `0`. -/
structure Reported (count : Int) (t : Trace) (ret : Int) : Prop where
  failed_iff : ret = -1 ↔ ∃ e ∈ t, e.2.failed
  failed_last : ∀ e ∈ t.dropLast, ¬ e.2.failed
  ret_eq : ret ≠ -1 → ret = transferred t
  complete : ret ≠ -1 → transferred t = count ∨ ∃ e, t.getLast? = some e ∧ e.2.ret = 0

namespace Contiguous

variable {fd buf count : Int} {offset : Option Int} {t : Trace}

theorem nil (hcount : 0 ≤ count) : Contiguous fd buf count offset [] where
  args_eq pre args r hpre := by simp at hpre
  bounds pre hpre := by
    obtain rfl := List.prefix_nil.mp hpre
    exact ⟨Int.le_refl 0, hcount⟩

/-- One more call, for what is left. -/
theorem concat (ht : Contiguous fd buf count offset t) {args : Call} {r : Response}
    (hargs : args = callAt fd buf count offset (transferred t))
    (hr : max r.ret 0 ≤ count - transferred t) :
    Contiguous fd buf count offset (t ++ [(args, r)]) where
  args_eq pre args' r' hpre := by
    rcases List.prefix_concat_iff.mp hpre with hall | hpre
    · obtain ⟨hinit, hlast⟩ := List.append_inj' hall rfl
      cases hlast
      rw [hinit]
      exact hargs
    · exact ht.args_eq pre args' r' hpre
  bounds pre hpre := by
    rcases List.prefix_concat_iff.mp hpre with rfl | hpre
    · have hbounds := ht.bounds t List.prefix_rfl
      rw [transferred_concat]
      omega
    · exact ht.bounds pre hpre

end Contiguous

/-! ## What holds before each round -/

/-- Before round `n`. -/
structure Running (fd buf count : Int) (offset : Option Int) (n : Nat) (t : Trace) (l : Locals) :
    Prop where
  length_eq : t.length = n
  contiguous : Contiguous fd buf count offset t
  locals_eq : l = localsAt buf count offset (transferred t)
  not_failed : ∀ e ∈ t, ¬ e.2.failed
  /-- A round transfers something, or is interrupted. -/
  rounds_le : (n : Int) ≤ interrupts t + transferred t
  remaining : n = 0 ∨ transferred t < count

/-- After a last round `n`. -/
structure Finished (fd buf count : Int) (offset : Option Int) (n : Nat) (t : Trace) (ret : Int) :
    Prop where
  length_eq : t.length = n
  contiguous : Contiguous fd buf count offset t
  reported : Reported count t ret

section

variable {σ : Type} {off : IntType} {fd buf count : Int} {offset : Option Int}
  {n : Nat} {s s' : σ} {t t' : Trace} {l l' : Locals} {args : Call} {r : Response} {ret : Int}

/-- Within the offsets that are asked for, the four updates are exact. -/
theorem advance_localsAt (hcount : count ≤ SSIZE_MAX)
    (hoff : ∀ o ∈ offset, off.Representable o ∧ off.Representable (o + count)) {s r : Int}
    (hs : 0 ≤ s) (hr : 0 ≤ r) (hle : s + r ≤ count) :
    (localsAt buf count offset s).advance off r = localsAt buf count offset (s + r) := by
  have hmax : SSIZE_MAX = 9223372036854775807 := rfl
  have htotal : ssizeT.Representable (s + r) := by
    have hmin : ssizeT.min = -9223372036854775808 := rfl
    exact ⟨by omega, show s + r ≤ SSIZE_MAX by omega⟩
  have hleft : sizeT.Representable (count - s - r) := by
    have hmin : sizeT.min = 0 := rfl
    have hsize : sizeT.max = 18446744073709551615 := rfl
    exact ⟨by omega, by omega⟩
  have hincr : incr off r (offset.map (· + s)) = offset.map (· + (s + r)) := by
    cases offset with
    | none => rfl
    | some o =>
      obtain ⟨ho, hlast⟩ := hoff o rfl
      have hnext : off.Representable (o + s + r) := ho.of_between hlast (by omega) (by omega)
      show some (off.wrap (o + s + off.wrap r)) = some (o + (s + r))
      rw [IntType.wrap_add_wrap, IntType.wrap_of_representable hnext, Int.add_assoc]
  simp only [Locals.advance, localsAt, IntType.wrap_of_representable htotal,
    IntType.wrap_of_representable hleft, hincr]
  congr 1 <;> omega

theorem not_failed_concat (ht : ∀ e ∈ t, ¬ e.2.failed) (hr : ¬ r.failed) :
    ∀ e ∈ t ++ [(args, r)], ¬ e.2.failed := by
  intro e he
  rcases List.mem_append.mp he with he | he
  · exact ht e he
  · obtain rfl := List.mem_singleton.mp he
    exact hr

theorem Reported.of_failed (ht : ∀ e ∈ t, ¬ e.2.failed) (hr : r.failed) :
    Reported count (t ++ [(args, r)]) (-1) where
  failed_iff :=
    iff_of_true rfl ⟨(args, r), List.mem_append.mpr (.inr (List.mem_singleton.mpr rfl)), hr⟩
  failed_last e he := by
    rw [List.dropLast_concat] at he
    exact ht e he
  ret_eq h := absurd rfl h
  complete h := absurd rfl h

theorem Reported.of_not_failed (ht : ∀ e ∈ t, ¬ e.2.failed) (hnonneg : 0 ≤ transferred t)
    (hcomplete : transferred t = count ∨ ∃ e, t.getLast? = some e ∧ e.2.ret = 0) :
    Reported count t (transferred t) where
  failed_iff := by
    refine iff_of_false (by omega) ?_
    rintro ⟨e, he, hfail⟩
    exact ht e he hfail
  failed_last e he := ht e (List.dropLast_subset t he)
  ret_eq _ := rfl
  complete _ := hcomplete

theorem Running.start (hcount : 0 ≤ count) :
    Running fd buf count offset 0 [] (.start buf count offset) where
  length_eq := rfl
  contiguous := .nil hcount
  locals_eq := by
    cases offset <;> simp [Locals.start, localsAt]
  not_failed e he := by cases he
  rounds_le := Int.le_refl 0
  remaining := .inl rfl

theorem Running.transferred_nonneg (ht : Running fd buf count offset n t l) : 0 ≤ transferred t :=
  (ht.contiguous.bounds t List.prefix_rfl).1

/-- A round that goes on was interrupted, or transferred some and left some. -/
theorem Running.again (hcount : count ≤ SSIZE_MAX)
    (hoff : ∀ o ∈ offset, off.Representable o ∧ off.Representable (o + count))
    (ht : Running fd buf count offset n t l)
    (hargs : args = callAt fd buf count offset (transferred t))
    (hr : r.ret = -1 ∨ (0 ≤ r.ret ∧ r.ret ≤ count - transferred t))
    (hagain : afterCall off l (s, t ++ [(args, r)]) r = .again ((s', t'), l')) :
    Running fd buf count offset (n + 1) t' l' := by
  have hnonneg := ht.transferred_nonneg
  have hbound := (ht.contiguous.bounds t List.prefix_rfl).2
  have hcontig := ht.contiguous.concat hargs (show max r.ret 0 ≤ count - transferred t by omega)
  have hrounds := ht.rounds_le
  rcases r.cases with hint | hfail | hans
  · -- interrupted: the variables stay, and the round counts as an interruption
    have hret := hint.1
    rw [afterCall_of_interrupted hint] at hagain
    split at hagain
    next hleft =>
      cases hagain
      rw [ht.locals_eq] at hleft
      have hleft : count - transferred t ≠ 0 := hleft
      refine ⟨?_, hcontig, ?_, not_failed_concat ht.not_failed fun hfail => hfail.2 hint.2, ?_, ?_⟩
      · rw [List.length_append, ht.length_eq, List.length_singleton]
      · rw [transferred_concat_of_neg t args hret]
        exact ht.locals_eq
      · rw [interrupts_concat, transferred_concat_of_neg t args hret, if_pos hint]
        omega
      · rw [transferred_concat_of_neg t args hret]
        omega
    next => cases hagain
  · rw [afterCall_of_failed hfail] at hagain
    cases hagain
  · -- answered: the variables advance, by more than nothing
    have hpos : 0 ≤ r.ret := by omega
    rw [afterCall_of_answered hans, ht.locals_eq,
      advance_localsAt hcount hoff hnonneg hpos (by omega)] at hagain
    unfold whileRemaining at hagain
    split at hagain
    next hmore =>
      cases hagain
      have hmore : r.ret ≠ 0 ∧ count - (transferred t + r.ret) ≠ 0 := hmore
      refine ⟨?_, hcontig, ?_, not_failed_concat ht.not_failed fun hfail => hans hfail.1, ?_, ?_⟩
      · rw [List.length_append, ht.length_eq, List.length_singleton]
      · rw [transferred_concat_of_nonneg t args hpos]
      · rw [interrupts_concat, transferred_concat_of_nonneg t args hpos,
          if_neg fun hint => hans hint.1]
        omega
      · rw [transferred_concat_of_nonneg t args hpos]
        omega
    next => cases hagain

/-- A round that leaves has failed, has been told of the end, or has nothing left to do. -/
theorem Running.leave (hcount : count ≤ SSIZE_MAX)
    (hoff : ∀ o ∈ offset, off.Representable o ∧ off.Representable (o + count))
    (ht : Running fd buf count offset n t l)
    (hargs : args = callAt fd buf count offset (transferred t))
    (hr : r.ret = -1 ∨ (0 ≤ r.ret ∧ r.ret ≤ count - transferred t))
    (hleave : afterCall off l (s, t ++ [(args, r)]) r = .leave ((s', t'), ret)) :
    Finished fd buf count offset (n + 1) t' ret := by
  have hlen : (t ++ [(args, r)]).length = n + 1 := by
    rw [List.length_append, ht.length_eq, List.length_singleton]
  have hnonneg := ht.transferred_nonneg
  have hbound := (ht.contiguous.bounds t List.prefix_rfl).2
  have hcontig := ht.contiguous.concat hargs (show max r.ret 0 ≤ count - transferred t by omega)
  rcases r.cases with hint | hfail | hans
  · have hret := hint.1
    rw [afterCall_of_interrupted hint] at hleave
    split at hleave
    next => cases hleave
    next hleft =>
      -- nothing was left to transfer, which is only so in the first round of `count == 0`
      cases hleave
      rw [ht.locals_eq] at hleft
      have hleft : ¬ count - transferred t ≠ 0 := hleft
      have hsum : transferred (t ++ [(args, r)]) = transferred t :=
        transferred_concat_of_neg t args hret
      have hfail : ∀ e ∈ t ++ [(args, r)], ¬ e.2.failed :=
        not_failed_concat ht.not_failed fun hfail => hfail.2 hint.2
      have hrep : Reported count (t ++ [(args, r)]) (transferred (t ++ [(args, r)])) :=
        .of_not_failed hfail (by omega) (.inl (by omega))
      rw [hsum] at hrep
      rw [ht.locals_eq]
      exact ⟨hlen, hcontig, hrep⟩
  · rw [afterCall_of_failed hfail] at hleave
    cases hleave
    exact ⟨hlen, hcontig, .of_failed ht.not_failed hfail⟩
  · have hpos : 0 ≤ r.ret := by omega
    rw [afterCall_of_answered hans, ht.locals_eq,
      advance_localsAt hcount hoff hnonneg hpos (by omega)] at hleave
    unfold whileRemaining at hleave
    split at hleave
    next => cases hleave
    next hdone =>
      cases hleave
      have hdone : ¬ (r.ret ≠ 0 ∧ count - (transferred t + r.ret) ≠ 0) := hdone
      have hsum : transferred (t ++ [(args, r)]) = transferred t + r.ret :=
        transferred_concat_of_nonneg t args hpos
      have hfail : ∀ e ∈ t ++ [(args, r)], ¬ e.2.failed :=
        not_failed_concat ht.not_failed fun hfail => hans hfail.1
      have hrep : Reported count (t ++ [(args, r)]) (transferred (t ++ [(args, r)])) := by
        refine .of_not_failed hfail (by omega) ?_
        by_cases hzero : r.ret = 0
        · exact .inr ⟨_, List.getLast?_concat, hzero⟩
        · exact .inl (by omega)
      rw [hsum] at hrep
      exact ⟨hlen, hcontig, hrep⟩

end

/-! ## `pread` of a fixed file -/

/-- The memory `mem` with the bytes `F[o, o + n)` at `b`. -/
def blit (mem : Int → UInt8) (b : Int) (F : List UInt8) (o n : Int) : Int → UInt8 := fun a =>
  if b ≤ a ∧ a < b + n then F.getD (o + (a - b)).toNat 0 else mem a

theorem blit_zero (mem : Int → UInt8) (b : Int) (F : List UInt8) (o : Int) :
    blit mem b F o 0 = mem := by
  funext a
  exact if_neg (by omega)

/-- The next bytes of the file, right behind the first ones. -/
theorem blit_blit (mem : Int → UInt8) (b : Int) (F : List UInt8) (o : Int) {n m : Int}
    (hn : 0 ≤ n) (hm : 0 ≤ m) :
    blit (blit mem b F o n) (b + n) F (o + n) m = blit mem b F o (n + m) := by
  funext a
  have hindex : o + n + (a - (b + n)) = o + (a - b) := by omega
  simp only [blit, hindex]
  by_cases hnew : b + n ≤ a ∧ a < b + n + m
  · rw [if_pos hnew, if_pos (by omega)]
  · rw [if_neg hnew]
    by_cases hold : b ≤ a ∧ a < b + n
    · rw [if_pos hold, if_pos (by omega)]
    · rw [if_neg hold, if_neg (by omega)]

/-- On `fd`, `f` is `pread` of a file with the content `F`: it reads no more than there is and than
was asked for, and nothing only at or past the end, or when nothing was asked for. -/
def IsPread {σ : Type} (F : List UInt8) (mem : σ → Int → UInt8) (fd : Int) (f : Syscall σ) : Prop :=
  ∀ s args o, args.fd = fd → args.offset = some o →
    let (s', r) := f s args
    (r.ret = -1 ∧ mem s' = mem s) ∨
    (0 ≤ o ∧ 0 ≤ r.ret ∧ r.ret ≤ args.count ∧ (0 < r.ret → o + r.ret ≤ F.length) ∧
      (r.ret = 0 → args.count = 0 ∨ F.length ≤ o) ∧ mem s' = blit (mem s) args.buf F o r.ret)

section

variable {σ : Type} {F : List UInt8} {mem : σ → Int → UInt8} {f : Syscall σ}
  {fd buf count o₀ : Int} {s₀ s : σ} {t : Trace}

/-- What is in memory after the calls `t`. -/
structure Filled (F : List UInt8) (mem : σ → Int → UInt8) (buf o₀ : Int) (s₀ s : σ) (t : Trace) :
    Prop where
  mem_eq : mem s = blit (mem s₀) buf F o₀ (transferred t)
  within : 0 < transferred t → 0 ≤ o₀ ∧ o₀ + transferred t ≤ F.length

theorem Filled.start : Filled F mem buf o₀ s₀ s₀ [] where
  mem_eq := (blit_zero ..).symm
  within h := by simp at h

theorem Filled.concat (hf : IsPread F mem fd f) (hnonneg : 0 ≤ transferred t)
    (ht : Filled F mem buf o₀ s₀ s t) {args : Call}
    (hargs : args = callAt fd buf count (some o₀) (transferred t)) :
    Filled F mem buf o₀ s₀ (f s args).1 (t ++ [(args, (f s args).2)]) := by
  have hspec := hf s args (o₀ + transferred t) (by rw [hargs]; rfl) (by rw [hargs]; rfl)
  have hbuf : args.buf = buf + transferred t := by rw [hargs]; rfl
  rcases hspec with ⟨hret, hmem⟩ | ⟨hoff, hret, -, hwithin, -, hmem⟩
  -- a failed call leaves the memory alone, another one appends to what is there
  · have hsum := transferred_concat_of_neg t args hret
    refine ⟨?_, ?_⟩
    · rw [hmem, hsum, ht.mem_eq]
    · rw [hsum]
      exact ht.within
  · have hsum := transferred_concat_of_nonneg t args hret
    refine ⟨?_, ?_⟩
    · rw [hmem, hsum, ht.mem_eq, hbuf, blit_blit _ _ _ _ hnonneg hret]
    · rw [hsum]
      intro hpos
      have hwithin' := ht.within
      omega

/-- A call that reads nothing had reached the end, or was asked for nothing. -/
theorem IsPread.atEnd (hf : IsPread F mem fd f) {args : Call}
    (hargs : args = callAt fd buf count (some o₀) (transferred t))
    (hzero : (f s args).2.ret = 0) :
    transferred t = count ∨ F.length ≤ o₀ + transferred t := by
  have hspec := hf s args (o₀ + transferred t) (by rw [hargs]; rfl) (by rw [hargs]; rfl)
  have hcount : args.count = count - transferred t := by rw [hargs]; rfl
  rcases hspec with ⟨hret, -⟩ | ⟨-, -, -, -, hend, -⟩
  · omega
  · have hend := hend hzero
    omega

end

/-! ## Whole runs -/

section

variable {σ : Type} {off : IntType} {f : Syscall σ} {fd buf count : Int} {offset : Option Int}
  {s₀ : σ}

/-- What holds before round `n` of a run from `s₀`. -/
structure RunInv (f : Syscall σ) (fd buf count : Int) (offset : Option Int) (s₀ : σ) (n : Nat)
    (x : (σ × Trace) × Locals) : Prop where
  running : Running fd buf count offset n x.1.2 x.2
  filled : ∀ F mem o₀, offset = some o₀ → IsPread F mem fd f → Filled F mem buf o₀ s₀ x.1.1 x.1.2

/-- What holds of the result of round `n`. -/
structure RunPost (f : Syscall σ) (fd buf count : Int) (offset : Option Int) (s₀ : σ) (n : Nat)
    (y : (σ × Trace) × Int) : Prop where
  finished : Finished fd buf count offset n y.1.2 y.2
  filled : ∀ F mem o₀, offset = some o₀ → IsPread F mem fd f → Filled F mem buf o₀ s₀ y.1.1 y.1.2
  atEnd : ∀ F mem o₀, offset = some o₀ → IsPread F mem fd f →
    ∀ e, y.1.2.getLast? = some e → e.2.ret = 0 →
      transferred y.1.2 = count ∨ F.length ≤ o₀ + transferred y.1.2

/-- The call of a round asks for what is left. -/
theorem Running.body_eq {n : Nat} {s : σ} {t : Trace} {l : Locals}
    (ht : Running fd buf count offset n t l) :
    let args := callAt fd buf count offset (transferred t)
    wrapFullBody off (traced f) fd ((s, t), l) =
      some (afterCall off l ((f s args).1, t ++ [(args, (f s args).2)]) (f s args).2) := by
  have hl := ht.locals_eq
  subst hl
  rfl

theorem RunInv.again (hf : SyscallLike f) (hcount : count ≤ SSIZE_MAX)
    (hoff : ∀ o ∈ offset, off.Representable o ∧ off.Representable (o + count)) {n : Nat}
    {x x' : (σ × Trace) × Locals} (hx : RunInv f fd buf count offset s₀ n x)
    (hbody : wrapFullBody off (traced f) fd x = some (.again x')) :
    RunInv f fd buf count offset s₀ (n + 1) x' := by
  obtain ⟨⟨s, t⟩, l⟩ := x
  obtain ⟨⟨s', t'⟩, l'⟩ := x'
  have ht : Running fd buf count offset n t l := hx.running
  have hagain := Option.some.inj (ht.body_eq.symm.trans hbody)
  have hstate := eq_of_afterCall_again hagain
  cases hstate
  refine ⟨ht.again hcount hoff rfl (hf ..) hagain, ?_⟩
  intro F mem o₀ hsome hpread
  subst hsome
  exact (hx.filled F mem o₀ rfl hpread).concat hpread ht.transferred_nonneg rfl

theorem RunInv.leave (hf : SyscallLike f) (hcount : count ≤ SSIZE_MAX)
    (hoff : ∀ o ∈ offset, off.Representable o ∧ off.Representable (o + count)) {n : Nat}
    {x : (σ × Trace) × Locals} {y : (σ × Trace) × Int}
    (hx : RunInv f fd buf count offset s₀ n x)
    (hbody : wrapFullBody off (traced f) fd x = some (.leave y)) :
    RunPost f fd buf count offset s₀ (n + 1) y := by
  obtain ⟨⟨s, t⟩, l⟩ := x
  obtain ⟨⟨s', t'⟩, ret⟩ := y
  have ht : Running fd buf count offset n t l := hx.running
  have hleave := Option.some.inj (ht.body_eq.symm.trans hbody)
  have hstate := eq_of_afterCall_leave hleave
  cases hstate
  refine ⟨ht.leave hcount hoff rfl (hf ..) hleave, ?_, ?_⟩
  · intro F mem o₀ hsome hpread
    subst hsome
    exact (hx.filled F mem o₀ rfl hpread).concat hpread ht.transferred_nonneg rfl
  · intro F mem o₀ hsome hpread e he hzero
    subst hsome
    have he := Option.some.inj (List.getLast?_concat.symm.trans he)
    subst he
    have hend := hpread.atEnd rfl hzero
    rw [transferred_concat_of_nonneg _ _ (Int.le_of_eq hzero.symm), hzero, Int.add_zero]
    exact hend

theorem RunInv.start (hcount : 0 ≤ count) :
    RunInv f fd buf count offset s₀ 0 ((s₀, []), .start buf count offset) where
  running := .start hcount
  filled _ _ _ _ _ := .start

/-- Before every round of a run, and when it returns. -/
theorem runInv_of_wrapFull (off : IntType) (fd buf : Int) (s₀ : σ) (hf : SyscallLike f)
    (hcount : 0 ≤ count ∧ count ≤ SSIZE_MAX)
    (hoff : ∀ o ∈ offset, off.Representable o ∧ off.Representable (o + count)) (n : Nat) :
    (∀ x, wrapFull off (traced f) fd buf count offset n (s₀, []) = some (.again x) →
      RunInv f fd buf count offset s₀ n x) ∧
    (∀ y, wrapFull off (traced f) fd buf count offset n (s₀, []) = some (.leave y) →
      ∃ m ≤ n, RunPost f fd buf count offset s₀ m y) := by
  have hrule := rounds_invariant (I := RunInv f fd buf count offset s₀)
    (Q := RunPost f fd buf count offset s₀)
    (fun _ _ _ hx hbody => RunInv.again hf hcount.2 hoff hx hbody)
    (fun _ _ _ hx hbody => RunInv.leave hf hcount.2 hoff hx hbody) n 0 _ (.start hcount.1)
  simp only [Nat.zero_add] at hrule
  exact hrule

/-- A `pread` that did not fail has read to the end of the range or of the file. -/
theorem RunPost.pread_eq {n : Nat} {s' : σ} {t : Trace} {ret : Int}
    (hy : RunPost f fd buf count offset s₀ n ((s', t), ret)) (hcount : 0 ≤ count) {F : List UInt8}
    {mem : σ → Int → UInt8} {o₀ : Int} (hsome : offset = some o₀) (hpread : IsPread F mem fd f)
    (hret : ret ≠ -1) : ret = min count (max 0 (F.length - o₀)) := by
  have hrep : Reported count t ret := hy.finished.reported
  have hbounds := hy.finished.contiguous.bounds t List.prefix_rfl
  have hwithin : 0 < transferred t → 0 ≤ o₀ ∧ o₀ + transferred t ≤ F.length :=
    (hy.filled F mem o₀ hsome hpread).within
  have hsum := hrep.ret_eq hret
  have hend : transferred t = count ∨ F.length ≤ o₀ + transferred t := by
    rcases hrep.complete hret with hall | ⟨e, he, hzero⟩
    · exact .inl hall
    · exact hy.atEnd F mem o₀ hsome hpread e he hzero
  omega

/-- **`wrapFull` transfers one contiguous range.** With at most `k` interruptions it returns within
`k + count + 1` rounds, and so calls; its variables are exact before each of them. -/
theorem wrapFull_contiguous (hf : SyscallLike f) (hcount : 0 ≤ count ∧ count ≤ SSIZE_MAX)
    (hoff : ∀ o ∈ offset, off.Representable o ∧ off.Representable (o + count)) (k : Nat)
    (hk : ∀ n s t l,
      wrapFull off (traced f) fd buf count offset n (s₀, []) = some (.again ((s, t), l)) →
      interrupts t ≤ k) :
    ∃ s t ret,
      wrapFull off (traced f) fd buf count offset (k + count.toNat + 1) (s₀, []) =
        some (.leave ((s, t), ret)) ∧
      t.length ≤ k + count.toNat + 1 ∧
      (∀ n s t l,
        wrapFull off (traced f) fd buf count offset n (s₀, []) = some (.again ((s, t), l)) →
        l = localsAt buf count offset (transferred t) ∧
          0 ≤ transferred t ∧ transferred t ≤ count) ∧
      Contiguous fd buf count offset t ∧
      Reported count t ret ∧
      ∀ F mem o₀, offset = some o₀ → IsPread F mem fd f →
        (ret ≠ -1 → ret = min count (max 0 (F.length - o₀))) ∧
        mem s = blit (mem s₀) buf F o₀ (transferred t) := by
  have hinv := fun n => runInv_of_wrapFull off fd buf s₀ hf hcount hoff n
  have htotal : ∀ x, ∃ y, wrapFullBody off (traced f) fd x = some y := fun ((s, t), l) =>
    ⟨_, wrapFullBody_traced off f fd s t l⟩
  obtain ⟨x, hx⟩ := rounds_isSome htotal (k + count.toNat + 1)
    ((s₀, []), .start buf count offset)
  cases x with
  | again x =>
    -- every round before was interrupted or transferred something, and there are too many of them
    obtain ⟨⟨s, t⟩, l⟩ := x
    have hrun : Running fd buf count offset (k + count.toNat + 1) t l := ((hinv _).1 _ hx).running
    have hle : interrupts t ≤ k := hk _ s t l hx
    have hrounds := hrun.rounds_le
    have hremaining := hrun.remaining
    omega
  | leave y =>
    obtain ⟨⟨s, t⟩, ret⟩ := y
    obtain ⟨m, hm, hpost⟩ := (hinv _).2 _ hx
    have hlen : t.length = m := hpost.finished.length_eq
    refine ⟨s, t, ret, hx, by omega, ?_, hpost.finished.contiguous, hpost.finished.reported, ?_⟩
    · intro n s t l hrun
      have hrun := ((hinv n).1 _ hrun).running
      exact ⟨hrun.locals_eq, hrun.contiguous.bounds t List.prefix_rfl⟩
    · intro F mem o₀ hsome hpread
      exact ⟨hpost.pread_eq hcount.1 hsome hpread, (hpost.filled F mem o₀ hsome hpread).mem_eq⟩

end

/-! ## A `pread` with short reads -/

/-- A `pread` that is interrupted at its first call, and reads at most two bytes at a time. -/
def shortPread (F : List UInt8) : Syscall (Nat × (Int → UInt8)) := fun (i, mem) args =>
  match args.offset with
  | none => ((i + 1, mem), ⟨-1, 22⟩)
  | some o =>
    if i = 0 then ((i + 1, mem), ⟨-1, EINTR⟩)
    else if o < 0 ∨ args.count < 0 then ((i + 1, mem), ⟨-1, 22⟩)
    else
      let n := min args.count (min 2 (max 0 (F.length - o)))
      ((i + 1, blit mem args.buf F o n), ⟨n, 0⟩)

theorem syscallLike_shortPread (F : List UInt8) : SyscallLike (shortPread F) := by
  rintro ⟨i, mem⟩ ⟨fd, buf, count, offset⟩
  simp only [shortPread]
  split
  · exact .inl rfl
  · split_ifs
    · exact .inl rfl
    · exact .inl rfl
    · exact .inr (by dsimp only; omega)

theorem isPread_shortPread (F : List UInt8) (fd : Int) :
    IsPread F Prod.snd fd (shortPread F) := by
  rintro ⟨i, mem⟩ ⟨fd, buf, count, offset⟩ o rfl rfl
  simp only [shortPread]
  split_ifs
  · exact .inl ⟨rfl, rfl⟩
  · exact .inl ⟨rfl, rfl⟩
  · refine .inr ⟨by omega, ?_, ?_, ?_, ?_, rfl⟩ <;>
      · dsimp only
        omega

/-- Four bytes from offset `1` of a file of four: one interruption, and reads of two, one and no
bytes. -/
theorem wrapFull_contiguous_shortPread :
    ∃ s t ret,
      wrapFull ssizeT (traced (shortPread [10, 20, 30, 40])) 3 100 4 (some 1) 6
        ((0, fun _ => 0), []) = some (.leave ((s, t), ret)) ∧
      t.length ≤ 6 ∧ Contiguous 3 100 4 (some 1) t ∧ Reported 4 t ret ∧ (ret ≠ -1 → ret = 3) := by
  have hinterrupts : ∀ n s t l,
      wrapFull ssizeT (traced (shortPread [10, 20, 30, 40])) 3 100 4 (some 1) n
        ((0, fun _ => 0), []) = some (.again ((s, t), l)) → interrupts t ≤ 1 := by
    intro n s t l hrun
    match n, hrun with
    | 0, hrun => cases hrun; decide
    | 1, hrun => cases hrun; decide
    | 2, hrun => cases hrun; decide
    | 3, hrun => cases hrun; decide
    | n + 4, hrun => cases hrun
  have hoff : ∀ o ∈ some (1 : Int), ssizeT.Representable o ∧ ssizeT.Representable (o + 4) := by
    rintro o ⟨⟩
    exact ⟨by decide, by decide⟩
  obtain ⟨s, t, ret, hrun, hlen, -, hcontig, hrep, hpread⟩ :=
    wrapFull_contiguous (syscallLike_shortPread _) (by decide) hoff 1 hinterrupts
  exact ⟨s, t, ret, hrun, hlen, hcontig, hrep,
    (hpread _ _ 1 rfl (isPread_shortPread _ 3)).1⟩

end Hy.FileUtil

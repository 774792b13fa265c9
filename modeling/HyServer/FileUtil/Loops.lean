import HyServer.Cpp.Integers
import HyServer.Cpp.Rounds

/-!
# hy::detail — `wrapNoEintr`, `wrapFull`

`wrapFull` calls `f` until `count` bytes are transferred, `f` returns `0`, or `f` fails; an `f` that
was interrupted is to be called again. `wrapNoEintr` calls `f` again for as long as it is
interrupted. What `f` does is up to its state, which contains the memory it reads and writes.

* `Syscall`, `Callee` — a callee that returns at each call, and one that may not.
* `wrapNoEintr`, `wrapFull` — the two loops, up to a number of rounds.
* `traced` — a callee that also keeps the list of its calls and their responses.
-/

namespace Hy.FileUtil

open Cpp

/-! ## Calls -/

/-- The arguments of one call of `f`. -/
structure Call where
  fd : Int
  buf : Int
  count : Int
  /-- The argument pack: an offset or nothing. -/
  offset : Option Int
  deriving DecidableEq, Repr

/-- What a call returned, and `errno` after it. -/
structure Response where
  ret : Int
  errno : Int
  deriving DecidableEq, Repr

def EINTR : Int := 4

def SSIZE_MAX : Int := ssizeT.max

def Response.interrupted (r : Response) : Prop := r.ret = -1 ∧ r.errno = EINTR

/-- The call failed for good. -/
def Response.failed (r : Response) : Prop := r.ret = -1 ∧ r.errno ≠ EINTR

instance (r : Response) : Decidable r.interrupted := inferInstanceAs (Decidable (_ ∧ _))

instance (r : Response) : Decidable r.failed := inferInstanceAs (Decidable (_ ∧ _))

abbrev Syscall (σ : Type) := σ → Call → σ × Response

/-- `none` when the call has not returned. -/
abbrev Callee (σ : Type) := σ → Call → Option (σ × Response)

abbrev Trace := List (Call × Response)

/-- `f`, with the list of its calls. -/
def traced {σ : Type} (f : Syscall σ) : Callee (σ × Trace) := fun (s, t) args =>
  let (s', r) := f s args
  some ((s', t ++ [(args, r)]), r)

/-! ## `wrapNoEintr` -/

section

variable {σ : Type}

def wrapNoEintrBody (f : Callee σ) (args : Call) (s : σ) : Option (Round σ (σ × Response)) :=
  (f s args).map fun (s', r) => if r.ret = -1 ∧ r.errno = EINTR then .again s' else .leave (s', r)

/-- `wrapNoEintr(f, args...)`, returned within `n` rounds. -/
def wrapNoEintr (f : Callee σ) (n : Nat) : Callee σ := fun s args =>
  match rounds (wrapNoEintrBody f args) n s with
  | some (.leave x) => some x
  | _ => none

/-! ## `wrapFull` -/

/-- `incr(n, offset...)`: the pack after it. The cast of `n` loses nothing in a type as wide as
`off_t`. -/
def incr (off : IntType) (n : Int) (offset : Option Int) : Option Int :=
  offset.map fun o => off.wrap (o + off.wrap n)

/-- The variables of `wrapFull` that change. -/
structure Locals where
  b : Int
  totalBytes : Int
  count : Int
  offset : Option Int
  deriving DecidableEq, Repr

/-- The four updates at the end of the body. -/
def Locals.advance (off : IntType) (l : Locals) (r : Int) : Locals where
  b := l.b + r
  totalBytes := ssizeT.wrap (l.totalBytes + r)
  count := sizeT.wrap (l.count - r)
  offset := incr off r l.offset

/-- `while (r != 0 && count)`, and the `return` after the loop. -/
def whileRemaining (s : σ) (l : Locals) (r : Int) : Round (σ × Locals) (σ × Int) :=
  if r ≠ 0 ∧ l.count ≠ 0 then .again (s, l) else .leave (s, l.totalBytes)

/-- The body after the call of `f`, and the condition. -/
def afterCall (off : IntType) (l : Locals) (s : σ) (r : Response) :
    Round (σ × Locals) (σ × Int) :=
  if r.ret = -1 then
    -- `continue` goes to the condition, which reads this `r`
    if r.errno = EINTR then whileRemaining s l r.ret
    else .leave (s, r.ret)
  else whileRemaining s (l.advance off r.ret) r.ret

def wrapFullBody (off : IntType) (f : Callee σ) (fd : Int) :
    σ × Locals → Option (Round (σ × Locals) (σ × Int)) := fun (s, l) =>
  (f s ⟨fd, l.b, l.count, l.offset⟩).map fun (s', r) => afterCall off l s' r

def Locals.start (buf count : Int) (offset : Option Int) : Locals := ⟨buf, 0, count, offset⟩

/-- `wrapFull(f, fd, buf, count, offset...)` with offsets of the type `off`, after `n` rounds. -/
def wrapFull (off : IntType) (f : Callee σ) (fd buf count : Int) (offset : Option Int) (n : Nat)
    (s : σ) : Option (Round (σ × Locals) (σ × Int)) :=
  rounds (wrapFullBody off f fd) n (s, .start buf count offset)

end

/-! ## What the callee is taken to do -/

/-- A call fails, or transfers at most the requested count. -/
def SyscallLike {σ : Type} (f : Syscall σ) : Prop :=
  ∀ s args, (f s args).2.ret = -1 ∨ (0 ≤ (f s args).2.ret ∧ (f s args).2.ret ≤ args.count)

theorem wrapFullBody_traced {σ : Type} (off : IntType) (f : Syscall σ) (fd : Int) (s : σ)
    (t : Trace) (l : Locals) :
    let args : Call := ⟨fd, l.b, l.count, l.offset⟩
    wrapFullBody off (traced f) fd ((s, t), l) =
      some (afterCall off l ((f s args).1, t ++ [(args, (f s args).2)]) (f s args).2) := rfl

/-! ## One round

A call is interrupted, has failed, or has answered. -/

section

variable {σ : Type} {off : IntType} {l : Locals} {s : σ} {r : Response}

theorem afterCall_of_interrupted (h : r.interrupted) :
    afterCall off l s r =
      if l.count ≠ 0 then .again (s, l) else .leave (s, l.totalBytes) := by
  obtain ⟨hret, herrno⟩ := h
  simp [afterCall, whileRemaining, hret, herrno]

theorem afterCall_of_failed (h : r.failed) : afterCall off l s r = .leave (s, -1) := by
  obtain ⟨hret, herrno⟩ := h
  simp [afterCall, hret, herrno]

theorem afterCall_of_answered (h : r.ret ≠ -1) :
    afterCall off l s r = whileRemaining s (l.advance off r.ret) r.ret := by
  simp [afterCall, h]

/-- The state is the one after the call. -/
theorem eq_of_afterCall_again {s' : σ} {l' : Locals}
    (h : afterCall off l s r = .again (s', l')) : s' = s := by
  unfold afterCall whileRemaining at h
  split_ifs at h <;> cases h <;> rfl

theorem eq_of_afterCall_leave {s' : σ} {ret : Int}
    (h : afterCall off l s r = .leave (s', ret)) : s' = s := by
  unfold afterCall whileRemaining at h
  split_ifs at h <;> cases h <;> rfl

end

/-- A response is of one of the three kinds. -/
theorem Response.cases (r : Response) : r.interrupted ∨ r.failed ∨ r.ret ≠ -1 := by
  unfold interrupted failed
  tauto

end Hy.FileUtil

import HyServer.Cpp.Logic

/-!
# Cpp — how a program may end besides returning

`Effects throws ends p`: the program `p` throws only if `throws` is true, and ends the process only
if `ends` is, from whatever machine and on whatever schedule. The rules follow the program text: an
element operation throws if it is not `noexcept`, and only a `noexcept` turns what its body throws
into the end of the process.
-/

namespace Cpp

section Programs

variable {σ ℓ α β T : Type}

def Outcome.Within (throws ends : Bool) : Outcome σ ℓ α → Prop
  | .returned _ _ => True
  | .threw _ => throws = true
  | .terminated _ => ends = true
  | .fault _ => True

def Effects (throws ends : Bool) (p : Prog σ ℓ α) : Prop :=
  ∀ m : Machine σ ℓ, (p m).Within throws ends

namespace Effects

variable {throws ends : Bool} {p : Prog σ ℓ α}

theorem ne_threw (hp : Effects false ends p) (m m' : Machine σ ℓ) : p m ≠ .threw m' := by
  intro hm
  have hwithin := hp m
  rw [hm] at hwithin
  cases hwithin

theorem ne_terminated (hp : Effects throws false p) (m m' : Machine σ ℓ) :
    p m ≠ .terminated m' := by
  intro hm
  have hwithin := hp m
  rw [hm] at hwithin
  cases hwithin

/-- What does not throw may be used where a throw is allowed. -/
theorem of_nothrow (hp : Effects false ends p) : Effects throws ends p := by
  intro m
  have hm := hp m
  cases hpm : p m with
  | returned a m' => trivial
  | threw m' => exact absurd hpm (hp.ne_threw m m')
  | terminated m' =>
    rw [hpm] at hm
    exact hm
  | fault e => trivial

/-! ## The combinators -/

theorem bind {x : Prog σ ℓ β} {f : β → Prog σ ℓ α} (hx : Effects throws ends x)
    (hf : ∀ b, Effects throws ends (f b)) : Effects throws ends (x >>= f) := by
  intro m
  have hm := hx m
  simp only [Bind.bind]
  cases hxm : x m with
  | returned b m' => exact hf b m'
  | threw m' =>
    rw [hxm] at hm
    exact hm
  | terminated m' =>
    rw [hxm] at hm
    exact hm
  | fault e => trivial

theorem look (f : σ → α) : Effects throws ends (look f : Prog σ ℓ α) :=
  fun _ => trivial

theorem update (f : σ → σ) : Effects throws ends (update f : Prog σ ℓ Unit) :=
  fun _ => trivial

theorem emit (e : Event (Option ℓ)) : Effects throws ends (emit e : Prog σ ℓ Unit) :=
  fun _ => trivial

theorem faulty (f : Fault) : Effects throws ends (faulty f : Prog σ ℓ α) :=
  fun _ => trivial

theorem require (f : Fault) (c : σ → Bool) :
    Effects throws ends (require f c : Prog σ ℓ Unit) := by
  intro m
  unfold Cpp.require
  split
  · trivial
  · trivial

theorem ite {c : Prop} [Decidable c] {x y : Prog σ ℓ α} (hx : Effects throws ends x)
    (hy : Effects throws ends y) : Effects throws ends (if c then x else y) := by
  split
  · exact hx
  · exact hy

/-- A `noexcept` whose body does not throw. -/
theorem noexceptIf (cond : Bool) (hp : Effects false ends p) :
    Effects false ends (noexceptIf cond p) := by
  intro m
  have hm := hp m
  unfold Cpp.noexceptIf
  cases hpm : p m with
  | returned a m' => trivial
  | threw m' => exact absurd hpm (hp.ne_threw m m')
  | terminated m' =>
    rw [hpm] at hm
    exact hm
  | fault e => trivial

theorem noexceptIf_false (hp : Effects throws ends p) :
    Effects throws ends (Cpp.noexceptIf false p) := by
  intro m
  have hm := hp m
  unfold Cpp.noexceptIf
  cases hpm : p m <;> rw [hpm] at hm <;> exact hm

theorem tryRethrow {handler : Prog σ ℓ Unit} (hp : Effects throws ends p)
    (hhandler : Effects throws ends handler) : Effects throws ends (tryRethrow p handler) := by
  intro m
  have hm := hp m
  unfold Cpp.tryRethrow
  cases hpm : p m with
  | returned a m' => trivial
  | threw m' =>
    -- what was thrown is thrown again
    rw [hpm] at hm
    have hm' := hhandler m'
    cases hhm : handler m' with
    | returned a m'' =>
      simp only [hhm]
      exact hm
    | threw m'' =>
      simp only [hhm]
      exact hm
    | terminated m'' =>
      rw [hhm] at hm'
      simp only [hhm]
      exact hm'
    | fault e =>
      simp only [hhm]
      trivial
  | terminated m' =>
    rw [hpm] at hm
    exact hm
  | fault e => trivial

theorem unwindLocal (hp : Effects throws ends p) : Effects throws ends (unwindLocal p) := by
  intro m
  have hm := hp m
  unfold Cpp.unwindLocal
  cases hpm : p m <;> rw [hpm] at hm <;> exact hm

/-! ## Element operations -/

theorem eval {i : Init σ T} {nothrow : Bool} (h : nothrow = false → throws = true) :
    Effects throws ends (i.eval nothrow : Prog σ ℓ T) := by
  intro m
  unfold Init.eval
  cases i.run m.mem with
  | none => trivial
  | some r =>
    cases hnext : throwsNext nothrow m.throws with
    | true => simpa [mayThrow, hnext, Outcome.Within] using h (nothrow_of_throwsNext hnext)
    | false => simp [mayThrow, hnext, Outcome.Within]

theorem constructAt (c : Cell σ ℓ T) {i : Init σ T}
    (h : i.nothrowConstruct = false → throws = true) : Effects throws ends (constructAt c i) :=
  bind (eval h) fun _ => bind (require _ _) fun _ => bind (update _) fun _ => emit _

theorem destroyAt (c : Cell σ ℓ T) : Effects throws ends (destroyAt c) :=
  bind (require _ _) fun _ => bind (update _) fun _ => emit _

theorem assignAt (c : Cell σ ℓ T) {i : Init σ T} (h : i.nothrowAssign = false → throws = true) :
    Effects throws ends (assignAt c i) :=
  bind (require _ _) fun _ => bind (eval h) fun _ => update _

theorem copyBytesAt (ty : ElemType T) (c src : Cell σ ℓ T) :
    Effects throws ends (copyBytesAt ty c src) := by
  refine bind (look _) fun there => bind (look _) fun r => ?_
  cases r with
  | some t => exact bind (update _) fun _ => ite (fun _ => trivial) (emit _)
  | none => exact bind (update _) fun _ => ite (emit _) fun _ => trivial

theorem withLocal {i : Init σ T} {body : T → Prog σ ℓ α}
    (h : i.nothrowConstruct = false → throws = true) (hbody : ∀ t, Effects throws ends (body t)) :
    Effects throws ends (withLocal i body) :=
  bind (eval h) fun t => bind (emit _) fun _ => unwindLocal (hbody t)

theorem swapElems {ty : ElemType T} (a b : Cell σ ℓ T)
    (hconstruct : ty.nothrowMoveConstructible = false → throws = true)
    (hassign : ty.nothrowMoveAssignable = false → throws = true) :
    Effects throws ends (swapElems ty a b) :=
  withLocal hconstruct fun _ => bind (assignAt _ hassign) fun _ => assignAt _ hassign

end Effects

end Programs

end Cpp

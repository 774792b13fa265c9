import HyServer.Cpp.Machine

/-!
# Cpp — weakest preconditions

`wp x Q R K m`: started in `m`, the program `x` does not fault; if it returns, `Q` holds of its
value and the machine, if it throws, `R` holds of the machine, and if it ends in `std::terminate`,
`K` holds of the machine that was killed. One rule per program construct, stated as an equivalence
where the construct has one, so that `simp only` with these rules steps through a program.
-/

namespace Cpp

section Wp

variable {σ ℓ α β T : Type}

def wp (x : Prog σ ℓ α) (Q : α → Machine σ ℓ → Prop) (R K : Machine σ ℓ → Prop)
    (m : Machine σ ℓ) : Prop :=
  match x m with
  | .returned a m' => Q a m'
  | .threw m' => R m'
  | .terminated m' => K m'
  | .fault _ => False

/-! ## Consequence, and what a run tells -/

section Runs

variable {x : Prog σ ℓ α} {Q Q' : α → Machine σ ℓ → Prop} {R R' K K' : Machine σ ℓ → Prop}
  {m : Machine σ ℓ}

theorem wp_mono (h : wp x Q R K m) (hQ : ∀ a m', Q a m' → Q' a m') (hR : ∀ m', R m' → R' m')
    (hK : ∀ m', K m' → K' m') : wp x Q' R' K' m := by
  unfold wp at *
  cases hx : x m with
  | returned a m' => rw [hx] at h; exact hQ a m' h
  | threw m' => rw [hx] at h; exact hR m' h
  | terminated m' => rw [hx] at h; exact hK m' h
  | fault e => rw [hx] at h; exact h

theorem wp_and (h : wp x Q R K m) (h' : wp x Q' R' K' m) :
    wp x (fun a m' => Q a m' ∧ Q' a m') (fun m' => R m' ∧ R' m') (fun m' => K m' ∧ K' m') m := by
  unfold wp at *
  cases hx : x m with
  | returned a m' => rw [hx] at h h'; exact ⟨h, h'⟩
  | threw m' => rw [hx] at h h'; exact ⟨h, h'⟩
  | terminated m' => rw [hx] at h h'; exact ⟨h, h'⟩
  | fault e => rw [hx] at h; exact h

/-- A property that both postconditions give holds of the machine the program ended in. -/
theorem wp_after {P : Machine σ ℓ → Prop} {m' : Machine σ ℓ} (h : wp x (fun _ => P) P K m)
    (hx : (x m).after = some m') : P m' := by
  unfold wp at h
  cases ho : x m with
  | returned a n =>
    rw [ho] at h hx
    exact Option.some.inj hx ▸ h
  | threw n =>
    rw [ho] at h hx
    exact Option.some.inj hx ▸ h
  | terminated n => simp [ho, Outcome.after] at hx
  | fault e => simp [ho, Outcome.after] at hx

theorem wp_of_returned {m' : Machine σ ℓ} {a : α} (hx : x m = .returned a m') :
    wp x Q R K m ↔ Q a m' := by
  rw [wp, hx]

theorem wp_terminated {m' : Machine σ ℓ} (h : wp x Q R K m) (hx : x m = .terminated m') :
    K m' := by
  rw [wp, hx] at h
  exact h

theorem wp_threw {m' : Machine σ ℓ} (h : wp x Q R K m) (hx : x m = .threw m') : R m' := by
  rw [wp, hx] at h
  exact h

/-- A program that can neither throw nor be killed returns. -/
theorem wp_returns (h : wp x Q (fun _ => False) (fun _ => False) m) :
    ∃ a m', x m = .returned a m' ∧ Q a m' := by
  unfold wp at h
  cases hx : x m with
  | returned a m' => rw [hx] at h; exact ⟨a, m', rfl, h⟩
  | threw m' => rw [hx] at h; exact h.elim
  | terminated m' => rw [hx] at h; exact h.elim
  | fault e => rw [hx] at h; exact h.elim

/-- A program that cannot throw ends the process when and only when the condition is met that tells
its two postconditions apart. -/
theorem terminated_iff_of_wp {b : Bool}
    (h : wp x (fun _ _ => b = false) (fun _ => False) (fun _ => b = true) m) :
    (∃ m', x m = .terminated m') ↔ b = true := by
  unfold wp at h
  constructor
  · intro hex
    obtain ⟨m', hm'⟩ := hex
    rwa [hm'] at h
  · intro hb
    cases hx : x m with
    | returned a m' => rw [hx, hb] at h; cases h
    | threw m' => rw [hx] at h; exact h.elim
    | terminated m' => exact ⟨m', rfl⟩
    | fault e => rw [hx] at h; exact h.elim

theorem wp_ne_fault (h : wp x Q R K m) (f : Fault) : x m ≠ .fault f := by
  intro hx
  rw [wp, hx] at h
  exact h

end Runs

/-! ## Control constructs -/

section Control

variable {Q : α → Machine σ ℓ → Prop} {R K : Machine σ ℓ → Prop} {m : Machine σ ℓ}

@[simp] theorem wp_bind (x : Prog σ ℓ β) (f : β → Prog σ ℓ α) :
    wp (x >>= f) Q R K m ↔ wp x (fun b => wp (f b) Q R K) R K m := by
  unfold wp
  show (match (match x m with
      | .returned b m' => f b m'
      | .threw m' => .threw m'
      | .terminated m' => .terminated m'
      | .fault e => .fault e : Outcome σ ℓ α) with
    | .returned a m' => Q a m'
    | .threw m' => R m'
    | .terminated m' => K m'
    | .fault _ => False) ↔ _
  cases x m <;> rfl

@[simp] theorem wp_look (f : σ → α) : wp (look f) Q R K m ↔ Q (f m.mem) m := Iff.rfl

@[simp] theorem wp_raise : wp (raise : Prog σ ℓ α) Q R K m ↔ R m := Iff.rfl

@[simp] theorem wp_pure (a : α) : wp (pure a : Prog σ ℓ α) Q R K m ↔ Q a m := Iff.rfl

/-- It is enough to see to the handler when the body throws. -/
theorem wp_tryRethrow {body : Prog σ ℓ α} {handler : Prog σ ℓ Unit}
    (h : wp body Q (wp handler (fun _ => R) R K) K m) : wp (tryRethrow body handler) Q R K m := by
  unfold wp tryRethrow at *
  cases hb : body m with
  | returned a m' => simpa [hb] using h
  | threw m' =>
    rw [hb] at h
    cases hh : handler m' <;> simp [hh] at h ⊢ <;> exact h
  | terminated m' => simpa [hb] using h
  | fault e => simp [hb] at h

/-- An exception that leaves a function declared `noexcept(cond)`. -/
theorem wp_noexceptIf_iff (cond : Bool) (body : Prog σ ℓ α) :
    wp (noexceptIf cond body) Q R K m ↔
      wp body Q (fun m' => if cond then K m' else R m') K m := by
  unfold wp noexceptIf
  cases body m <;> cases cond <;> rfl

/-- What holds of a function's body holds of the function declared `noexcept`, where an exception
kills the program. -/
theorem wp_noexceptIf {body : Prog σ ℓ α} (cond : Bool) (h : wp body Q R K m)
    (hK : ∀ m', R m' → K m') : wp (noexceptIf cond body) Q R K m := by
  rw [wp_noexceptIf_iff]
  refine wp_mono h (fun _ _ h' => h') (fun m' h' => ?_) fun _ h' => h'
  cases cond
  · exact h'
  · exact hK m' h'

/-- A `noexcept` function does not throw; its exceptions kill the program. -/
theorem wp_noexcept {body : Prog σ ℓ α} (h : wp body Q K K m) :
    wp (noexceptIf true body) Q R K m :=
  (wp_noexceptIf_iff true body).mpr h

theorem noexceptIf_eq_returned {cond : Bool} {body : Prog σ ℓ α} {a : α} {m' : Machine σ ℓ} :
    noexceptIf cond body m = .returned a m' ↔ body m = .returned a m' := by
  unfold noexceptIf
  cases body m <;> cases cond <;> simp

theorem wp_unwindLocal (body : Prog σ ℓ α) :
    wp (unwindLocal body) Q R K m ↔
      wp body (fun a m' => Q a { m' with log := m'.log ++ [.died none] })
        (fun m' => R { m' with log := m'.log ++ [.died none] }) K m := by
  unfold wp unwindLocal
  cases body m <;> rfl

end Control

/-! ## Memory and elements -/

section Elements

variable {Q : Unit → Machine σ ℓ → Prop} {R K : Machine σ ℓ → Prop} {m : Machine σ ℓ}

@[simp] theorem wp_update (f : σ → σ) :
    wp (update f) Q R K m ↔ Q () { m with mem := f m.mem } := Iff.rfl

@[simp] theorem wp_emit (e : Event (Option ℓ)) :
    wp (emit e) Q R K m ↔ Q () { m with log := m.log ++ [e] } := Iff.rfl

@[simp] theorem wp_require (f : Fault) (p : σ → Bool) :
    wp (require f p) Q R K m ↔ p m.mem = true ∧ Q () m := by
  unfold wp require
  cases p m.mem <;> simp

/-- The schedule that is left after a throw point. -/
def throwsAfter (nothrow : Bool) (throws : List Bool) : List Bool :=
  if nothrow then throws else throws.tail

@[simp] theorem throwsNext_nil (nothrow : Bool) : throwsNext nothrow [] = false := by
  cases nothrow <;> rfl

@[simp] theorem throwsAfter_nil (nothrow : Bool) : throwsAfter nothrow [] = [] := by
  cases nothrow <;> rfl

@[simp] theorem throwsNext_true (throws : List Bool) : throwsNext true throws = false := rfl

@[simp] theorem throwsAfter_true (throws : List Bool) : throwsAfter true throws = throws := rfl

/-- An operation that throws is not `noexcept`. -/
theorem nothrow_of_throwsNext {nothrow : Bool} {throws : List Bool}
    (h : throwsNext nothrow throws = true) : nothrow = false := by
  cases nothrow with
  | true => cases h
  | false => rfl

/-- A schedule on which something throws is not exhausted. -/
theorem ne_nil_of_throwsNext {nothrow : Bool} {throws : List Bool}
    (h : throwsNext nothrow throws = true) : throws ≠ [] := by
  intro hnil
  rw [hnil, throwsNext_nil] at h
  cases h

theorem ne_nil_of_throwsNext_after {nothrow nothrow' : Bool} {throws : List Bool}
    (h : throwsNext nothrow (throwsAfter nothrow' throws) = true) : throws ≠ [] := by
  intro hnil
  rw [hnil, throwsAfter_nil] at h
  exact ne_nil_of_throwsNext h rfl

/-- An initializer that can be read: it throws and the memory is untouched, or it gives its
value and has its effect. -/
theorem wp_eval {i : Init σ T} {nothrow : Bool} {t : T} {s : σ} {Q : T → Machine σ ℓ → Prop}
    (hrun : i.run m.mem = some (t, s)) :
    wp (i.eval nothrow) Q R K m ↔
      if throwsNext nothrow m.throws
      then R { m with throws := throwsAfter nothrow m.throws }
      else Q t { m with mem := s, throws := throwsAfter nothrow m.throws } := by
  unfold wp Init.eval mayThrow throwsAfter
  rw [hrun]
  cases nothrow <;> cases throwsNext _ m.throws <;> simp

/-- An initializer that reads an element that is not there. -/
theorem not_wp_eval {i : Init σ T} {nothrow : Bool} {Q : T → Machine σ ℓ → Prop}
    (hrun : i.run m.mem = none) : ¬ wp (i.eval nothrow) Q R K m := by
  unfold wp Init.eval
  rw [hrun]
  exact id

theorem wp_destroyAt (c : Cell σ ℓ T) :
    wp (destroyAt c) Q R K m ↔ c.alive m.mem = true ∧
      Q () { m with mem := c.erase m.mem, log := m.log ++ [.died (some c.loc)] } := by
  simp [destroyAt]

theorem wp_constructAt {c : Cell σ ℓ T} {i : Init σ T} {t : T} {s : σ}
    (hrun : i.run m.mem = some (t, s)) :
    wp (constructAt c i) Q R K m ↔
      if throwsNext i.nothrowConstruct m.throws
      then R { m with throws := throwsAfter i.nothrowConstruct m.throws }
      else c.vacant s = true ∧
        Q () { mem := c.write t s, throws := throwsAfter i.nothrowConstruct m.throws,
               log := m.log ++ [.born (some c.loc)] } := by
  simp [constructAt, wp_eval hrun]

theorem wp_assignAt {c : Cell σ ℓ T} {i : Init σ T} {t : T} {s : σ}
    (hrun : i.run m.mem = some (t, s)) :
    wp (assignAt c i) Q R K m ↔ c.alive m.mem = true ∧
      if throwsNext i.nothrowAssign m.throws
      then R { m with throws := throwsAfter i.nothrowAssign m.throws }
      else Q () { m with mem := c.write t s, throws := throwsAfter i.nothrowAssign m.throws } := by
  simp [assignAt, wp_eval hrun]

theorem wp_withLocal {i : Init σ T} {body : T → Prog σ ℓ α} {t : T} {s : σ}
    {Q : α → Machine σ ℓ → Prop} (hrun : i.run m.mem = some (t, s)) :
    wp (withLocal i body) Q R K m ↔
      if throwsNext i.nothrowConstruct m.throws
      then R { m with throws := throwsAfter i.nothrowConstruct m.throws }
      else wp (unwindLocal (body t)) Q R K
        { mem := s, throws := throwsAfter i.nothrowConstruct m.throws,
          log := m.log ++ [.born none] } := by
  simp [withLocal, wp_eval hrun]

theorem wp_copyBytesAt_of_some {ty : ElemType T} {c src : Cell σ ℓ T} {t : T}
    (hread : src.read m.mem = some t) :
    wp (copyBytesAt ty c src) Q R K m ↔
      Q () { m with
        mem := c.write t m.mem
        log := if c.alive m.mem then m.log else m.log ++ [.born (some c.loc)] } := by
  rw [copyBytesAt, wp_bind, wp_look, wp_bind, wp_look, hread]
  cases c.alive m.mem <;> simp

theorem wp_copyBytesAt_of_none {ty : ElemType T} {c src : Cell σ ℓ T}
    (hread : src.read m.mem = none) :
    wp (copyBytesAt ty c src) Q R K m ↔
      Q () { m with
        mem := c.erase m.mem
        log := if c.alive m.mem && ty.trivialDestructor then m.log ++ [.died (some c.loc)]
          else m.log } := by
  rw [copyBytesAt, wp_bind, wp_look, wp_bind, wp_look, hread]
  cases c.alive m.mem && ty.trivialDestructor <;> simp

@[simp] theorem run_ofArg (c a : Bool) (t : T) (s : σ) :
    (Init.ofArg c a t).run s = some (t, s) := rfl

@[simp] theorem run_moveLocal (ty : ElemType T) (t : T) (s : σ) :
    (Init.moveLocal ty t).run s = some (t, s) := rfl

end Elements

end Wp

end Cpp

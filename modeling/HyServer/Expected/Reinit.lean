import HyServer.Cpp.Contents
import HyServer.Expected.Lifetime

/-!
# hy::expected — the strong guarantee of `reinit_expected`

What `reinit_expected` leaves in memory, with its values.

* `ReinitCall` — the situation it is called in: `old_val` alive, `new_val` dead, arguments that
  touch neither.
* `wp_reinitExpected_exact` — it puts the new element in place of the old one, or throws with the
  memory exactly as it was.
* `strongGuarantee_iff` — the strong guarantee, which holds exactly under the disjunction of traits
  its callers ask for.
-/

namespace Hy.Tiny

open Cpp

section Reinit

variable {σ ℓ N O : Type} {newVal : Cell σ ℓ N} {oldVal : Cell σ ℓ O} {newType : ElemType N}
  {oldType : ElemType O} {args : Init σ N}

/-- `old_val` is alive with the value `x`, `new_val` is dead, and the arguments, which touch
neither, make `t` and leave the memory `s'`. -/
structure ReinitCall (newVal : Cell σ ℓ N) (oldVal : Cell σ ℓ O) (args : Init σ N) (x : O) (t : N)
    (s s' : σ) : Prop where
  new : newVal.Exact
  old : oldVal.Exact
  apart : newVal.Apart oldVal
  args_new : args.Apart newVal
  args_old : args.Apart oldVal
  dead : newVal.read s = none
  alive : oldVal.read s = some x
  run : args.run s = some (t, s')

/-- The traits the callers ask for. -/
def ReinitTraits (newType : ElemType N) (oldType : ElemType O) (args : Init σ N) : Bool :=
  args.nothrowConstruct || newType.nothrowMoveConstructible || oldType.nothrowMoveConstructible

variable [DecidableEq ℓ]

/-- Since `m`, the log has grown by events in which the two members never are alive at once. -/
def Disjointly (newVal : Cell σ ℓ N) (oldVal : Cell σ ℓ O) (m m' : Machine σ ℓ) : Prop :=
  ∃ events, m'.log = m.log ++ events ∧
    Exclusive (some newVal.loc) (some oldVal.loc) false true events

namespace ReinitCall

variable {x : O} {t : N} {m : Machine σ ℓ} {s : σ} {Q : Unit → Machine σ ℓ → Prop}
  {R K : Machine σ ℓ → Prop}

omit [DecidableEq ℓ] in
/-- The arguments leave `new_val` dead, also once `old_val` is. -/
theorem vacant (call : ReinitCall newVal oldVal args x t m.mem s) :
    newVal.vacant (oldVal.erase s) = true := by
  apply call.new.vacant_of_read
  rw [call.apart.read_erase, call.args_new.read_run call.run, call.dead]

omit [DecidableEq ℓ] in
theorem alive_run (call : ReinitCall newVal oldVal args x t m.mem s) : oldVal.alive s = true := by
  apply call.old.alive_of_read
  rw [call.args_old.read_run call.run, call.alive]

/-- The first strategy: nothing can throw, so the old element goes and the new one comes. -/
theorem wp_direct (call : ReinitCall newVal oldVal args x t m.mem s)
    (hnothrow : args.nothrowConstruct = true)
    (hQ : ∀ m', m'.mem = newVal.write t (oldVal.erase s) → m'.throws = m.throws →
      Disjointly newVal oldVal m m' → Q () m') :
    wp (do destroyAt oldVal; constructAt newVal args) Q R K m := by
  have hne : newVal.loc ≠ oldVal.loc := call.apart.loc_ne
  rw [wp_bind, wp_destroyAt]
  refine ⟨call.old.alive_of_read call.alive, ?_⟩
  rw [wp_constructAt (call.args_old.run_erase call.run), hnothrow]
  refine ⟨call.vacant, hQ _ rfl rfl ⟨_, List.append_assoc .., ?_⟩⟩
  simp [Exclusive, Event.after, hne, hne.symm]

/-- The second strategy: the arguments throw before the old element is touched. -/
theorem wp_temp (call : ReinitCall newVal oldVal args x t m.mem s)
    (hmove : newType.nothrowMoveConstructible = true)
    (hQ : throwsNext args.nothrowConstruct m.throws = false → ∀ m',
      m'.mem = newVal.write t (oldVal.erase s) →
      m'.throws = throwsAfter args.nothrowConstruct m.throws → Disjointly newVal oldVal m m' →
      Q () m')
    (hR : throwsNext args.nothrowConstruct m.throws = true → ∀ m', m'.mem = m.mem →
      Disjointly newVal oldVal m m' → R m') :
    wp (withLocal args fun temp => do
        destroyAt oldVal
        constructAt newVal (Init.moveLocal newType temp)) Q R K m := by
  have hne : newVal.loc ≠ oldVal.loc := call.apart.loc_ne
  have hlocal : (Init.moveLocal newType t : Init σ N).nothrowConstruct = true := hmove
  rw [wp_withLocal call.run]
  split
  · next hthrow => exact hR hthrow _ rfl ⟨[], by simp, rfl⟩
  · next hthrow =>
    rw [wp_unwindLocal, wp_bind, wp_destroyAt]
    refine ⟨call.alive_run, ?_⟩
    rw [wp_constructAt (run_moveLocal ..), hlocal]
    refine ⟨call.vacant, hQ (by simpa using hthrow) _ rfl rfl
      ⟨[.born none, .died (some oldVal.loc), .born (some newVal.loc), .died none], ?_, ?_⟩⟩
    · simp
    · simp [Exclusive, Event.after, hne, hne.symm]

/-- The third strategy: the old element is kept in a local, and comes back when the new one does
not. Its moves do not throw, unless nothing does. -/
theorem wp_backup (call : ReinitCall newVal oldVal args x t m.mem s)
    (hsafe : oldType.nothrowMoveConstructible = true ∨ m.throws = [])
    (hQ : throwsNext args.nothrowConstruct m.throws = false → ∀ m',
      m'.mem = newVal.write t (oldVal.erase s) →
      m'.throws = throwsAfter args.nothrowConstruct m.throws → Disjointly newVal oldVal m m' →
      Q () m')
    (hR : throwsNext args.nothrowConstruct m.throws = true → ∀ m', m'.mem = m.mem →
      Disjointly newVal oldVal m m' → R m') :
    wp (withLocal (Init.move oldType oldVal) fun temp => do
        destroyAt oldVal
        tryRethrow (constructAt newVal args) (constructAt oldVal (Init.moveLocal oldType temp)))
      Q R K m := by
  have hne : newVal.loc ≠ oldVal.loc := call.apart.loc_ne
  have hold := call.old
  have hbackup : throwsNext oldType.nothrowMoveConstructible m.throws = false ∧
      throwsAfter oldType.nothrowMoveConstructible m.throws = m.throws := by
    rcases hsafe with hmove | hnil
    · rw [hmove]
      exact ⟨rfl, rfl⟩
    · simp [hnil]
  have hrun : args.run (oldVal.erase (oldVal.write (oldType.movedFrom x) m.mem))
      = some (t, oldVal.erase s) := by
    rw [hold.erase_write]
    exact call.args_old.run_erase call.run
  rw [wp_withLocal (Init.run_move oldType call.alive)]
  show if throwsNext oldType.nothrowMoveConstructible m.throws = true then _ else _
  rw [hbackup.1, if_neg (by simp), wp_unwindLocal, wp_bind, wp_destroyAt]
  refine ⟨hold.alive_of_read (hold.read_write _ _), wp_tryRethrow ?_⟩
  rw [wp_constructAt hrun]
  show if throwsNext args.nothrowConstruct
      (throwsAfter oldType.nothrowMoveConstructible m.throws) = true then _ else _
  rw [hbackup.2]
  split
  · next hthrow =>
    -- the catch block; on a schedule that throws the trait is there
    have hlocal : (Init.moveLocal oldType x : Init σ O).nothrowConstruct = true := by
      refine hsafe.resolve_right fun hnil => ?_
      simp [hnil] at hthrow
    rw [wp_constructAt (run_moveLocal ..), hlocal]
    refine ⟨hold.vacant_of_read (hold.read_erase _), hR hthrow _ ?_
      ⟨[.born none, .died (some oldVal.loc), .born (some oldVal.loc), .died none], ?_, ?_⟩⟩
    · show oldVal.write x (oldVal.erase (oldVal.write _ m.mem)) = m.mem
      rw [hold.write_erase, hold.write_write, hold.write_self call.alive]
    · simp
    · simp [Exclusive, Event.after, hne.symm]
  · next hthrow =>
    refine ⟨call.vacant, hQ (by simpa using hthrow) _ rfl (by simp [Init.move, hbackup.2])
      ⟨[.born none, .died (some oldVal.loc), .born (some newVal.loc), .died none], ?_, ?_⟩⟩
    · simp
    · simp [Exclusive, Event.after, hne, hne.symm]

end ReinitCall

/-- **The new element for the old one, or nothing at all.** Whether it throws is the schedule's
answer for the construction from the arguments. Where the traits are missing, the result still
stands on the schedule on which nothing throws. -/
theorem wp_reinitExpected_exact {x : O} {t : N} {m : Machine σ ℓ} {s : σ}
    {Q : Unit → Machine σ ℓ → Prop} {R K : Machine σ ℓ → Prop}
    (call : ReinitCall newVal oldVal args x t m.mem s)
    (hsafe : ReinitTraits newType oldType args = true ∨ m.throws = [])
    (hQ : throwsNext args.nothrowConstruct m.throws = false → ∀ m',
      m'.mem = newVal.write t (oldVal.erase s) →
      m'.throws = throwsAfter args.nothrowConstruct m.throws → Disjointly newVal oldVal m m' →
      Q () m')
    (hR : throwsNext args.nothrowConstruct m.throws = true → ∀ m', m'.mem = m.mem →
      Disjointly newVal oldVal m m' → R m') :
    wp (reinitExpected newVal oldVal newType oldType args) Q R K m := by
  unfold reinitExpected
  split
  · next hnothrow =>
    rw [hnothrow] at hQ
    exact call.wp_direct hnothrow (hQ rfl)
  · next hmay =>
    split
    · next hmove => exact call.wp_temp hmove hQ hR
    · next hmove =>
      refine call.wp_backup (hsafe.imp_left fun htraits => ?_) hQ hR
      simpa [ReinitTraits, hmay, hmove] using htraits

/-! ## The guarantee -/

/-- **The strong guarantee of one call.** On every schedule it returns with the new element alive,
made of the arguments, and the old one dead, or throws with the memory as it was, the old element
alive in it and the new one dead; the two never are alive at once; and where there is a catch block,
its construction does not throw. -/
def StrongGuarantee (newVal : Cell σ ℓ N) (oldVal : Cell σ ℓ O) (newType : ElemType N)
    (oldType : ElemType O) (args : Init σ N) (x : O) (t : N) (s : σ) : Prop :=
  (∀ throws log,
    wp (reinitExpected newVal oldVal newType oldType args)
      (fun _ m => newVal.alive m.mem = true ∧ newVal.read m.mem = some t ∧
        oldVal.alive m.mem = false ∧ Disjointly newVal oldVal ⟨s, throws, log⟩ m)
      (fun m => m.mem = s ∧ oldVal.alive m.mem = true ∧ oldVal.read m.mem = some x ∧
        newVal.alive m.mem = false ∧ Disjointly newVal oldVal ⟨s, throws, log⟩ m)
      (fun _ => False) ⟨s, throws, log⟩) ∧
  (args.nothrowConstruct = false → newType.nothrowMoveConstructible = false →
    ∀ temp m m', constructAt oldVal (Init.moveLocal oldType temp) m ≠ .threw m')

omit [DecidableEq ℓ] in
theorem constructAt_moveLocal_ne_threw {c : Cell σ ℓ O} {ty : ElemType O}
    (hty : ty.nothrowMoveConstructible = true) (temp : O) (m m' : Machine σ ℓ) :
    constructAt c (Init.moveLocal ty temp) m ≠ .threw m' := by
  intro hthrew
  cases hvacant : c.vacant m.mem <;>
    simp [constructAt, Init.eval, Init.moveLocal, Init.ofArg, mayThrow, hty, require, update, emit,
      bind, hvacant] at hthrew

omit [DecidableEq ℓ] in
theorem constructAt_moveLocal_threw {c : Cell σ ℓ O} {ty : ElemType O}
    (hty : ty.nothrowMoveConstructible = false) (temp : O) (s : σ) :
    constructAt c (Init.moveLocal ty temp) ⟨s, [true], []⟩ = .threw ⟨s, [], []⟩ := by
  simp [constructAt, Init.eval, Init.moveLocal, Init.ofArg, mayThrow, hty, throwsNext, bind]

/-- **Exactly under the callers' condition.** -/
theorem strongGuarantee_iff {x : O} {t : N} {s s' : σ}
    (call : ReinitCall newVal oldVal args x t s s') :
    StrongGuarantee newVal oldVal newType oldType args x t s ↔
      ReinitTraits newType oldType args = true := by
  constructor
  · intro ⟨_, hrestore⟩
    by_contra hnone
    have hfalse : args.nothrowConstruct = false ∧ newType.nothrowMoveConstructible = false ∧
        oldType.nothrowMoveConstructible = false := by
      simpa [ReinitTraits, and_assoc] using hnone
    obtain ⟨hargs, hnew, hold⟩ := hfalse
    -- the catch block's own construction may throw
    exact hrestore hargs hnew x _ _ (constructAt_moveLocal_threw hold x s)
  · intro htraits
    refine ⟨fun throws log => ?_, ?_⟩
    · have call' : ReinitCall newVal oldVal args x t
        (⟨s, throws, log⟩ : Machine σ ℓ).mem s' := call
      refine wp_reinitExpected_exact call' (.inl htraits) ?_ ?_
      · intro _ m hmem _ hlog
        refine ⟨?_, ?_, ?_, hlog⟩
        · rw [call.new.alive_eq, hmem, call.new.read_write]
          rfl
        · rw [hmem, call.new.read_write]
        · rw [call.old.alive_eq, hmem, call.apart.read_write', call.old.read_erase]
          rfl
      · intro _ m hmem hlog
        refine ⟨hmem, ?_, ?_, ?_, hlog⟩
        · rw [hmem, call.old.alive_of_read call.alive]
        · rw [hmem, call.alive]
        · rw [hmem, call.new.alive_eq, call.dead]
          rfl
    · intro hargs hnew
      apply constructAt_moveLocal_ne_threw
      simpa [ReinitTraits, hargs, hnew] using htraits

end Reinit

end Hy.Tiny

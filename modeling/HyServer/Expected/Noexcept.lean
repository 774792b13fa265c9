import HyServer.Cpp.Effects
import HyServer.Expected.Constructors

/-!
# hy::expected — which operations end the process

The move constructor and the move assignment of the general storage are declared
`noexcept(noexcept(…))` over a conjunction of traits. The inner operator asks whether the
conjunction can throw, and not what it is, so both are `noexcept` for all element types. `swap` has
one `noexcept`, and its traits are those of all it does.

* `Call.effects` — no other operation ends the process.
* `Call.Ends` — the throws that a move meets.
* `terminated_iff` — the moves end the process on those, and never throw.
-/

namespace Hy.Tiny

open Cpp

variable {V E N O T : Type} {tv : ElemType V} {te : ElemType E} {m : Machine (Heap V E) Place}

/-! ## Operations that do not end the process -/

section Operations

variable {σ ℓ : Type} {throws : Bool}

theorem effects_reinitExpected (newVal : Cell σ ℓ N) (oldVal : Cell σ ℓ O) (newType : ElemType N)
    (oldType : ElemType O) (args : Init σ N) :
    Effects true false (reinitExpected newVal oldVal newType oldType args) := by
  unfold reinitExpected
  refine .ite (.bind (.destroyAt _) fun _ => .constructAt _ fun _ => rfl) (.ite ?_ ?_)
  · exact .withLocal (fun _ => rfl) fun _ =>
      .bind (.destroyAt _) fun _ => .constructAt _ fun _ => rfl
  · exact .withLocal (fun _ => rfl) fun _ => .bind (.destroyAt _) fun _ =>
      .tryRethrow (.constructAt _ fun _ => rfl) (.constructAt _ fun _ => rfl)

/-- The last branch of `swap` throws if a move construction may. -/
theorem effects_swapMixed {V E : Type} {tv : ElemType V} {te : ElemType E}
    (self other : Layout σ ℓ V E) (hv : tv.nothrowMoveConstructible = false → throws = true)
    (he : te.nothrowMoveConstructible = false → throws = true) :
    Effects throws false (self.swapMixed other tv te) := by
  have htags : Effects throws false
      (do update (self.setHasVal false); update (other.setHasVal true) : Prog σ ℓ Unit) :=
    .bind (.update _) fun _ => .update _
  refine Effects.ite (Effects.bind (.withLocal he fun temp => ?_) fun _ => htags)
    (Effects.bind (.withLocal hv fun temp => ?_) fun _ => htags)
  · refine .bind (.destroyAt _) fun _ => .tryRethrow ?_ (.constructAt _ he)
    exact .bind (.constructAt _ hv) fun _ => .bind (.destroyAt _) fun _ => .constructAt _ he
  · refine .bind (.destroyAt _) fun _ => .tryRethrow ?_ (.constructAt _ hv)
    exact .bind (.constructAt _ he) fun _ => .bind (.destroyAt _) fun _ => .constructAt _ hv

/-- Induction on the bound of the recursion. -/
theorem effects_swapBody {V E : Type} {tv : ElemType V} {te : ElemType E}
    (hv : tv.nothrowMoveConstructible = false → throws = true)
    (he : te.nothrowMoveConstructible = false → throws = true)
    (hva : tv.nothrowMoveAssignable = false → throws = true)
    (hea : te.nothrowMoveAssignable = false → throws = true) (depth : Nat)
    (self other : Layout σ ℓ V E) :
    Effects throws false (Layout.swapBody tv te depth self other) := by
  induction depth generalizing self other with
  | zero => exact .faulty _
  | succ depth ih =>
    unfold Layout.swapBody
    refine .bind (.look _) fun selfHas => .bind (.look _) fun otherHas => ?_
    refine .ite (.swapElems _ _ hv hva) (.ite (.swapElems _ _ he hea) (.ite (ih other self) ?_))
    exact effects_swapMixed self other hv he

/-- `swap` is `noexcept` only if nothing in it throws. -/
theorem effects_swap {V E : Type} (tv : ElemType V) (te : ElemType E)
    (self other : Layout σ ℓ V E) : Effects true false (self.swap other tv te) := by
  unfold Layout.swap
  cases hcond : tv.nothrowMoveConstructible && tv.nothrowSwappable && te.nothrowMoveConstructible
      && te.nothrowSwappable with
  | true =>
    simp only [ElemType.nothrowSwappable, Bool.and_eq_true] at hcond
    obtain ⟨⟨⟨hv, -, hva⟩, he⟩, -, hea⟩ := hcond
    exact .of_nothrow (.noexceptIf true (effects_swapBody (by simp [hv]) (by simp [he])
      (by simp [hva]) (by simp [hea]) 2 self other))
  | false =>
    exact .noexceptIf_false (effects_swapBody (fun _ => rfl) (fun _ => rfl) (fun _ => rfl)
      (fun _ => rfl) 2 self other)

end Operations

theorem effects_constructMember {c : Cell (Heap V E) Place T} {i : Init (Heap V E) T} {o : Nat}
    {b : Bool} :
    Effects true false (do
      update (Heap.setHasVal o b)
      constructAt c i
      update (Objects.setExist o true)) :=
  .bind (.update _) fun _ => .bind (.constructAt _ fun _ => rfl) fun _ => .update _

/-- The move constructor and the move assignment. -/
def Call.Moving : Call V E → Bool
  | .op (.assignMove _ _) => true
  | .constructMove _ _ => true
  | _ => false

theorem effects_assignCopy (o p : Nat) :
    Effects true false ((Heap.layout o).assignCopy (Heap.layout p) tv te) :=
  .bind (.look _) fun _ => .bind (.update _) fun _ => .bind (.copyBytesAt _ _ _) fun _ =>
    .copyBytesAt _ _ _

theorem Call.effects (call : Call V E) (hcall : call.Moving = false) :
    Effects true false (call.exec tv te) := by
  cases call with
  | op basic =>
    cases basic with
    | constructValue o v cat => exact effects_constructMember
    | constructUnexpected o g cat => exact effects_constructMember
    | assignValue o v cat =>
      exact .bind (.look _) fun _ => Effects.ite (.assignAt _ fun _ => rfl)
        (.bind (effects_reinitExpected _ _ _ _ _) fun _ => .update _)
    | assignUnexpected o g cat =>
      exact .bind (.look _) fun _ => Effects.ite
        (.bind (effects_reinitExpected _ _ _ _ _) fun _ => .update _) (.assignAt _ fun _ => rfl)
    | assignCopy o p => exact effects_assignCopy o p
    | assignMove o p => cases hcall
    | swap o p => exact effects_swap tv te (Heap.layout o) (Heap.layout p)
    | destroy o =>
      refine Effects.bind (.look _) fun _ => Effects.ite ?_ ?_
      · exact .bind (.destroyAt _) fun _ => .update _
      · exact .bind (.destroyAt _) fun _ => .update _
  | constructCopy o rhs => exact .bind (effects_assignCopy o rhs) fun _ => .update _
  | constructMove o rhs => cases hcall
  | constructOther o other cat =>
    cases other with
    | inl v => exact effects_constructMember
    | inr e => exact effects_constructMember

/-! ## Moves -/

/-- The one throw point of a move: of the element that is moved, construction where it comes to
where none was of its type, and assignment where one was. -/
def Call.Ends (tv : ElemType V) (te : ElemType E) (h : Heap V E) (throws : List Bool) :
    Call V E → Bool
  | .constructMove _ rhs =>
    throwsNext (bif (h.obj rhs).tag then tv.nothrowMoveConstructible
      else te.nothrowMoveConstructible) throws
  | .op (.assignMove o p) =>
    match (h.obj o).tag, (h.obj p).tag with
    | true, true => throwsNext tv.nothrowMoveAssignable throws
    | true, false => throwsNext te.nothrowMoveConstructible throws
    | false, true => throwsNext tv.nothrowMoveConstructible throws
    | false, false => throwsNext te.nothrowMoveAssignable throws
  | _ => false

section

variable {K : Machine (Heap V E) Place → Prop}

/-- The same alternative: an assignment. -/
theorem wp_assignAt_ends {c : Cell (Heap V E) Place T} {i : Init (Heap V E) T}
    {src : Option Place} {a : Place → Bool} {g : Nat → Bool × Bool} {ts : List Bool}
    (hc : Tracked Objects.life c) (hi : Steady Objects.life src i)
    (h : Lives Objects.life false a g ts m) (hsrc : ∀ l ∈ src, a l = true)
    (halive : a c.loc = true) :
    wp (assignAt c i) (fun _ _ => throwsNext i.nothrowAssign m.throws = false)
      (fun _ => throwsNext i.nothrowAssign m.throws = true) K m := by
  obtain ⟨t, s, hrun⟩ := hi.ready m.mem fun l hl => by
    rw [h.alive_eq]
    exact hsrc l hl
  rw [wp_assignAt hrun]
  refine ⟨by rw [hc.alive_eq, h.alive_eq]; exact halive, ?_⟩
  split
  · next hthrow => exact hthrow
  · next hnext => simpa using hnext

/-- The other alternative: the disjunction of traits keeps the second strategy and the third one
from throwing anywhere else. -/
theorem wp_reinitExpected_ends {newVal : Cell (Heap V E) Place N}
    {oldVal : Cell (Heap V E) Place O} {newType : ElemType N} {oldType : ElemType O}
    {args : Init (Heap V E) N} {src : Option Place} {a : Place → Bool} {g : Nat → Bool × Bool}
    {ts : List Bool} (hnew : Tracked Objects.life newVal) (hold : Tracked Objects.life oldVal)
    (hargs : Steady Objects.life src args) (hne : newVal.loc ≠ oldVal.loc)
    (h : Lives Objects.life false a g ts m)
    (hsrc : ∀ l ∈ src, a l = true ∧ l ≠ oldVal.loc) (hdead : a newVal.loc = false)
    (halive : a oldVal.loc = true)
    (htraits : (args.nothrowConstruct || newType.nothrowMoveConstructible
      || oldType.nothrowMoveConstructible) = true) :
    wp (reinitExpected newVal oldVal newType oldType args)
      (fun _ _ => throwsNext args.nothrowConstruct m.throws = false)
      (fun _ => throwsNext args.nothrowConstruct m.throws = true) K m := by
  rw [h.throws_eq]
  exact wp_reinitExpected hnew hold hargs hne hsrc hdead halive htraits h (fun hnext _ _ _ => hnext)
    fun hthrow _ _ _ => hthrow

/-- One case for each of the four of its case split. -/
theorem wp_assignMoveBody_ends {o p : Nat} (hI : Inv tagNames m) (ho : m.mem.exist o = true)
    (hp : m.mem.exist p = true)
    (htraits : (tv.nothrowMoveConstructible || te.nothrowMoveConstructible) = true) :
    wp ((Heap.layout o).assignMoveBody (Heap.layout p) tv te)
      (fun _ _ => Call.Ends tv te m.mem m.throws (.op (.assignMove o p)) = false)
      (fun _ => Call.Ends tv te m.mem m.throws (.op (.assignMove o p)) = true) K m := by
  obtain ⟨a, g, ts, h, hg⟩ := hI
  rw [lives_exist_eq h] at ho hp
  have hne : ∀ k j : Slot, k ≠ j → ((o, k) : Place) ≠ (o, j) := fun k j hkj heq =>
    hkj (congrArg Prod.snd heq)
  simp only [Call.Ends, lives_tag_eq h]
  cases hto : (g o).2 with
  | true =>
    obtain ⟨hvo, huo⟩ := of_val hg ho hto
    cases htp : (g p).2 with
    | true =>
      simp only [Layout.assignMoveBody, wp_bind, wp_look, lives_hasVal_eq h, hto, htp,
        ↓reduceIte]
      refine wp_assignAt_ends (Objects.tracked_left o) ((Objects.tracked_left p).steady_move tv) h
        ?_ hvo
      rintro l ⟨⟩
      exact (of_val hg hp htp).1
    | false =>
      simp only [Layout.assignMoveBody, wp_bind, wp_look, lives_hasVal_eq h, hto, htp,
        Bool.false_eq_true, ↓reduceIte]
      refine wp_reinitExpected_ends (Objects.tracked_right o) (Objects.tracked_left o)
        ((Objects.tracked_right p).steady_move te) (hne _ _ (by simp)) h ?_ huo hvo ?_
      · rintro l ⟨⟩
        exact ⟨(of_unex hg hp htp).2, by simp [Heap.layout]⟩
      · -- the argument is itself a move, so its trait is there twice
        show (te.nothrowMoveConstructible || te.nothrowMoveConstructible
          || tv.nothrowMoveConstructible) = true
        rw [Bool.or_self, Bool.or_comm]
        exact htraits
  | false =>
    obtain ⟨hvo, huo⟩ := of_unex hg ho hto
    cases htp : (g p).2 with
    | true =>
      simp only [Layout.assignMoveBody, wp_bind, wp_look, lives_hasVal_eq h, hto, htp,
        Bool.false_eq_true, ↓reduceIte]
      refine wp_reinitExpected_ends (Objects.tracked_left o) (Objects.tracked_right o)
        ((Objects.tracked_left p).steady_move tv) (hne _ _ (by simp)) h ?_ hvo huo ?_
      · rintro l ⟨⟩
        exact ⟨(of_val hg hp htp).1, by simp [Heap.layout]⟩
      · show (tv.nothrowMoveConstructible || tv.nothrowMoveConstructible
          || te.nothrowMoveConstructible) = true
        rw [Bool.or_self]
        exact htraits
    | false =>
      simp only [Layout.assignMoveBody, wp_bind, wp_look, lives_hasVal_eq h, hto, htp,
        Bool.false_eq_true, ↓reduceIte]
      refine wp_assignAt_ends (Objects.tracked_right o) ((Objects.tracked_right p).steady_move te) h
        ?_ huo
      rintro l ⟨⟩
      exact (of_unex hg hp htp).2

end

theorem wp_constructMove_ends {o rhs : Nat} (hI : Inv tagNames m) (ho : m.mem.exist o = false)
    (hrhs : m.mem.exist rhs = true) :
    wp (constructMove tv te o rhs)
      (fun _ _ => Call.Ends tv te m.mem m.throws (.constructMove o rhs) = false) (fun _ => False)
      (fun _ => Call.Ends tv te m.mem m.throws (.constructMove o rhs) = true) m := by
  unfold constructMove
  rw [wp_noexceptIf_iff]
  exact wp_constructForwarded ((Objects.tracked_left rhs).steady_move tv)
    ((Objects.tracked_right rhs).steady_move te) hI ho hrhs (fun hnext _ _ => hnext)
    fun hthrow _ _ => hthrow

/-! ## Runs -/

/-- **What ends the process.** After every run of sound operations, of all the operations only the
move constructor and the move assignment can end the process; they do so when and only when the one
element operation throws that they come to, whatever the element types declare; and they never
throw. -/
theorem terminated_iff (h : Managed tv te m) (call : Call V E) (throws : List Bool)
    (husable : call.Usable m.mem) (henabled : call.Enabled tv te) :
    ((∃ m', call.exec tv te { m with throws := throws } = .terminated m') ↔
      call.Ends tv te m.mem throws = true) ∧
    (call.Moving = true → ∀ m', call.exec tv te { m with throws := throws } ≠ .threw m') := by
  have hI := (inv_of_managed h).skip throws
  cases hmoving : call.Moving with
  | false =>
    -- these are not `noexcept`, or only where nothing throws
    refine ⟨iff_of_false ?_ ?_, fun hfalse => by cases hfalse⟩
    · rintro ⟨m', hm'⟩
      exact (call.effects hmoving).ne_terminated _ m' hm'
    · have hends : call.Ends tv te m.mem throws = false := by
        cases call with
        | op basic => cases basic <;> first | rfl | cases hmoving
        | constructMove => cases hmoving
        | constructCopy => rfl
        | constructOther => rfl
      rw [hends]
      exact Bool.false_ne_true
  | true =>
    have hwp : wp (call.exec tv te) (fun _ _ => call.Ends tv te m.mem throws = false)
        (fun _ => False) (fun _ => call.Ends tv te m.mem throws = true)
        { m with throws := throws } := by
      cases call with
      | op basic =>
        cases basic with
        | assignMove o p =>
          show wp ((Heap.layout o).assignMove (Heap.layout p) tv te) _ _ _ _
          unfold Layout.assignMove
          rw [wp_noexceptIf_iff]
          exact wp_assignMoveBody_ends hI husable.1 husable.2 henabled
        | _ => cases hmoving
      | constructMove o rhs => exact wp_constructMove_ends hI husable.1 husable.2
      | constructCopy => cases hmoving
      | constructOther => cases hmoving
    exact ⟨terminated_iff_of_wp hwp, fun _ m' hm' => wp_threw hwp hm'⟩

/-- A type whose move may throw, by what it declares. -/
def moveMayThrow : ElemType Nat where
  nothrowMoveConstructible := false
  nothrowMoveAssignable := false
  nothrowCopyConstructible := true
  nothrowCopyAssignable := true
  trivialCopyConstructor := false
  trivialCopyAssignment := false
  trivialDestructor := true
  movedFrom := id

/-- The move assignment of two values ends the process when the assignment of the value throws. -/
theorem terminated_iff_assignMove :
    ∃ m : Machine (Heap Nat Nat) Place, Managed moveMayThrow (.trivial Nat) m ∧
      ∃ m', Call.exec moveMayThrow (.trivial Nat) (.op (.assignMove 0 1))
        { m with throws := [true] } = .terminated m' := by
  have h₀ : Managed (E := Nat) moveMayThrow (.trivial Nat) _ := .start
  have h₁ := h₀.step (.op (.constructValue 0 (.trivial 3) .rvalue)) [] rfl trivial trivial rfl
  have h₂ := h₁.step (.op (.constructValue 1 (.trivial 4) .rvalue)) [] rfl trivial trivial rfl
  refine ⟨_, h₂, (terminated_iff h₂ (.op (.assignMove 0 1)) [true] ⟨rfl, rfl⟩ ?_).1.mpr rfl⟩
  rfl

end Hy.Tiny

import HyServer.Cpp.Effects
import HyServer.Folly.Converting

/-!
# hy::expected after folly — which operations end the process

The special members of the general storage are `noexcept` by traits of the element types. Copy
assignment asks whether the elements can be copied without a throw. Where the alternative stays,
`doEmplaceAssign` makes a temporary of the copy and then assigns that temporary, which is a move
assignment; the traits say nothing of it. The traits of the others are those of what they do.

* `effects_assign` — what `assign` may throw.
* `Action.Ends` — the throw that copy assignment does not ask about.
* `endsProcess_iff` — no other operation ends the process.
-/

namespace Hy.Folly

open Cpp

variable {V E T : Type} {tv : PayloadType V} {te : PayloadType E} {m : Machine (Heap V E) Place}

/-! ## What may throw -/

section Effects

variable {throws : Bool} {o rhs : Nat}

theorem effects_doEmplaceAssign {σ ℓ : Type} {ty : PayloadType T} (c : Cell σ ℓ T)
    {us : Init σ T} (hconstruct : us.nothrowConstruct = false → throws = true)
    (hassign : ty.nothrowMoveAssignable = false → throws = true) :
    Effects throws false (doEmplaceAssign ty c us) := by
  refine Effects.ite ?_ (.bind (.destroyAt _) fun _ => .constructAt _ hconstruct)
  unfold doEmplaceAssignInt
  cases hcond : us.nothrowConstruct && ty.nothrowMoveAssignable with
  | true =>
    rw [Bool.and_eq_true] at hcond
    exact .of_nothrow (.noexceptIf true (.withLocal (by simp [hcond.1]) fun _ =>
      .assignAt _ (by simp [Init.moveLocal, Init.ofArg, hcond.2])))
  | false => exact .noexceptIf_false (.withLocal hconstruct fun _ => .assignAt _ hassign)

theorem effects_clear : Effects throws false (clear o : Prog (Heap V E) Place Unit) := by
  refine Effects.bind (.look _) fun w => ?_
  cases w with
  | eEmpty => exact .update _
  | eValue => exact .bind (.destroyAt _) fun _ => .update _
  | eError => exact .bind (.destroyAt _) fun _ => .update _

theorem effects_assignMember {ty : PayloadType T} {w : Which} {c : Cell (Heap V E) Place T}
    {us : Init (Heap V E) T} (hconstruct : us.nothrowConstruct = false → throws = true)
    (hassign : ty.nothrowMoveAssignable = false → throws = true) :
    Effects throws false (assignMember ty w c o us) :=
  .bind (.look _) fun _ => Effects.ite (effects_doEmplaceAssign c hconstruct hassign)
    (.bind effects_clear fun _ => .bind (.constructAt _ hconstruct) fun _ => .update _)

theorem effects_assign {cat : ValueCategory}
    (hvalue : tv.nothrowForward cat = false → throws = true)
    (herror : te.nothrowForward cat = false → throws = true)
    (hassignValue : tv.nothrowMoveAssignable = false → throws = true)
    (hassignError : te.nothrowMoveAssignable = false → throws = true) :
    Effects throws false (assign tv te o rhs cat) := by
  rw [← nothrowConstruct_forwardMember tv (value (V := V) (E := E) rhs)] at hvalue
  rw [← nothrowConstruct_forwardMember te (error (V := V) (E := E) rhs)] at herror
  refine Effects.ite (fun _ => trivial) (.bind (.look _) fun w => ?_)
  cases w with
  | eEmpty => exact effects_clear
  | eValue => exact effects_assignMember hvalue hassignValue
  | eError => exact effects_assignMember herror hassignError

/-- The traits of move assignment are those of all that it does. -/
theorem effects_assignMove : Effects true false (assignMove tv te o rhs) := by
  unfold assignMove
  cases hcond : (tv.nothrowMoveConstructible && tv.nothrowMoveAssignable)
      && (te.nothrowMoveConstructible && te.nothrowMoveAssignable) with
  | true =>
    simp only [Bool.and_eq_true] at hcond
    obtain ⟨⟨hv, hva⟩, he, hea⟩ := hcond
    exact .of_nothrow (.noexceptIf true (effects_assign (by simp [PayloadType.nothrowForward, hv])
      (by simp [PayloadType.nothrowForward, he]) (by simp [hva]) (by simp [hea])))
  | false =>
    exact .noexceptIf_false (effects_assign (fun _ => rfl) (fun _ => rfl) (fun _ => rfl)
      fun _ => rfl)

end Effects

/-! ## Constructors -/

theorem Heap.WellFormed.exists_stored {h : Heap V E} (hwf : Heap.WellFormed h) {o : Nat}
    (ho : h.exist o = true) : ∃ c, h.obj o = stored c := by
  have hobj := hwf o
  rw [if_pos ho] at hobj
  obtain ⟨hvalue, herror, hempty⟩ := hobj
  rcases hx : h.obj o with ⟨tag, left, right⟩
  rw [hx] at hvalue herror hempty
  cases tag with
  | eEmpty =>
    obtain ⟨hleft, hright⟩ := hempty.mp rfl
    obtain rfl : left = none := by simpa [Tagged.holds] using hleft
    obtain rfl : right = none := by simpa [Tagged.holds] using hright
    exact ⟨none, rfl⟩
  | eValue =>
    obtain ⟨hleft, hright⟩ := hvalue.mp rfl
    obtain ⟨v, rfl⟩ := Option.isSome_iff_exists.mp hleft
    obtain rfl : right = none := by simpa [Tagged.holds] using hright
    exact ⟨some (.inl v), rfl⟩
  | eError =>
    obtain ⟨hleft, hright⟩ := herror.mp rfl
    obtain rfl : left = none := by simpa [Tagged.holds] using hleft
    obtain ⟨e, rfl⟩ := Option.isSome_iff_exists.mp hright
    exact ⟨some (.inr e), rfl⟩

theorem wp_constructFrom_ends {o rhs : Nat} {cat : ValueCategory} (hI : Inv whichNames m)
    (ho : m.mem.exist o = false) (hrhs : m.mem.exist rhs = true) :
    wp (constructFrom tv te o rhs cat (tv.nothrowForward cat && te.nothrowForward cat))
      (fun _ _ => True) (fun _ => True) (fun _ => False) m := by
  have hwf := Heap.wellFormed_of hI.wellFormed
  obtain ⟨c, hc⟩ := hwf.exists_stored hrhs
  have hobj := hwf o
  rw [if_neg (by simp [ho])] at hobj
  have hleft : (m.mem.obj o).left = none := by simpa [Tagged.holds] using hobj.1
  have hright : (m.mem.obj o).right = none := by simpa [Tagged.holds] using hobj.2
  exact wp_mono (constructFrom_constructs hc hrhs ho hleft hright m.throws m.log)
    (fun _ _ _ => trivial) (fun _ _ => trivial) fun _ h => h

/-! ## Copy assignment -/

section Copy

variable {K : Machine (Heap V E) Place → Prop} {a : Place → Bool} {g : Nat → Bool × Which}
  {ts : List Bool}

/-- The copy does not throw here, and so it is the move of the temporary or nothing. -/
theorem wp_doEmplaceAssign_ends {ty : PayloadType T} {c : Cell (Heap V E) Place T}
    {us : Init (Heap V E) T} {src : Option Place} (hc : Tracked Objects.life c)
    (hus : Steady Objects.life src us) (h : Lives Objects.life false a g ts m)
    (hsrc : ∀ l ∈ src, a l = true ∧ l ≠ c.loc) (halive : a c.loc = true)
    (hnothrow : us.nothrowConstruct = true) :
    wp (doEmplaceAssign ty c us)
      (fun _ _ => (ty.assignable && throwsNext ty.nothrowMoveAssignable m.throws) = false)
      (fun _ => (ty.assignable && throwsNext ty.nothrowMoveAssignable m.throws) = true) K m := by
  have hnext : ∀ ts, throwsNext us.nothrowConstruct ts = false := fun ts => by
    rw [hnothrow]
    rfl
  unfold doEmplaceAssign
  split
  · next hassignable =>
    rw [hassignable, Bool.true_and]
    unfold doEmplaceAssignInt
    rw [wp_noexceptIf_iff, hnothrow, Bool.true_and, h.throws_eq]
    refine wp_withLocal_lives hus h (fun l hl => (hsrc l hl).1) (fun hthrow => ?_)
      fun _ temp m₁ h₁ => ?_
    · rw [hnext] at hthrow
      cases hthrow
    · -- the throw points of the temporary are used up
      have hthrows : m₁.throws = ts := by
        rw [h₁.throws_eq, hnothrow]
        rfl
      have hmove : (Init.moveLocal (σ := Heap V E) ty.toElemType temp).nothrowAssign
          = ty.nothrowMoveAssignable := rfl
      rw [wp_assignAt (run_moveLocal ..), hthrows, hmove]
      refine ⟨by rw [hc.alive_eq, h₁.alive_eq]; exact halive, ?_⟩
      split
      · next hthrow =>
        rw [if_neg (by simp [nothrow_of_throwsNext hthrow])]
        exact hthrow
      · next hthrow => simpa using hthrow
  · next hassignable =>
    rw [Bool.not_eq_true] at hassignable
    rw [hassignable, Bool.false_and]
    -- the element is destroyed, and a copy constructed that does not throw
    unfold doEmplaceAssignLong
    rw [wp_bind]
    refine hc.wp_destroyAt h halive fun m₁ h₁ => ?_
    refine hc.wp_constructAt hus h₁ (fun l hl => ?_) (Function.update_self ..) (fun _ _ _ => rfl)
      fun hthrow => ?_
    · rw [Function.update_of_ne (hsrc l hl).2]
      exact (hsrc l hl).1
    · rw [hnext] at hthrow
      cases hthrow

/-- The other alternative is cleared away, and the copy is constructed. -/
theorem wp_assignMember_ends {ty : PayloadType T} {w : Which} {k : Slot}
    {member : Cell (Heap V E) Place T} {o : Nat} {us : Init (Heap V E) T} {src : Option Place}
    (hc : Tracked Objects.life member) (hloc : member.loc = (o, k))
    (hw : ∀ j, whichNames w j = decide (j = k)) (hus : Steady Objects.life src us)
    (h : Lives Objects.life false a g ts m) (hg : Good whichNames a g) (ho : (g o).1 = true)
    (hsrc : ∀ l ∈ src, a l = true ∧ l.1 ≠ o) (hnothrow : us.nothrowConstruct = true) :
    wp (assignMember ty w member o us)
      (fun _ _ => (decide ((g o).2 = w) && (ty.assignable
        && throwsNext ty.nothrowMoveAssignable m.throws)) = false)
      (fun _ => (decide ((g o).2 = w) && (ty.assignable
        && throwsNext ty.nothrowMoveAssignable m.throws)) = true) K m := by
  have hwhich : which o m.mem = (g o).2 := lives_tag_eq h o
  by_cases htag : (g o).2 = w
  · simp only [assignMember, wp_bind, wp_look, hwhich, htag, ↓reduceIte, decide_true,
      Bool.true_and]
    -- the alternative stays
    refine wp_doEmplaceAssign_ends hc hus h (fun l hl => ⟨(hsrc l hl).1, fun heq => ?_⟩) ?_ hnothrow
    · exact (hsrc l hl).2 (by rw [heq, hloc])
    · rw [hloc, hg.of_tag ho htag k, hw k]
      exact decide_eq_true rfl
  · simp only [assignMember, wp_bind, wp_look, hwhich, htag, ↓reduceIte, decide_false,
      Bool.false_and]
    -- nothing is assigned: the member is cleared first
    refine wp_clear h hg ho fun a₁ m₁ h₁ hg₁ hother => ?_
    rw [wp_bind]
    refine hc.wp_constructAt hus h₁ (fun l hl => ?_) ?_ (fun _ _ _ => trivial) fun hthrow => ?_
    · rw [show l = (l.1, l.2) from rfl, hother l.1 (hsrc l hl).2 l.2]
      exact (hsrc l hl).1
    · rw [hloc, hg₁ o k, Function.update_self]
      cases k <;> simp [whichNames]
    · rw [hnothrow] at hthrow
      cases hthrow

end Copy

/-- Whether copy assignment ends the process: it is `noexcept`, the alternative stays, and the move
of the temporary throws. -/
def copyEnds (tv : PayloadType V) (te : PayloadType E) (o rhs : Nat) (h : Heap V E)
    (throws : List Bool) : Bool :=
  ((tv.nothrowCopyConstructible && tv.nothrowCopyAssignable)
    && (te.nothrowCopyConstructible && te.nothrowCopyAssignable)) && decide (o ≠ rhs) &&
    match which rhs h with
    | .eValue => decide (which o h = .eValue)
      && (tv.assignable && throwsNext tv.nothrowMoveAssignable throws)
    | .eError => decide (which o h = .eError)
      && (te.assignable && throwsNext te.nothrowMoveAssignable throws)
    | .eEmpty => false

theorem wp_assignCopy_ends {o rhs : Nat} (hI : Inv whichNames m) (ho : m.mem.exist o = true)
    (hrhs : m.mem.exist rhs = true)
    (hnothrow : ((tv.nothrowCopyConstructible && tv.nothrowCopyAssignable)
      && (te.nothrowCopyConstructible && te.nothrowCopyAssignable)) = true) :
    wp (assignCopy tv te o rhs) (fun _ _ => copyEnds tv te o rhs m.mem m.throws = false)
      (fun _ => False) (fun _ => copyEnds tv te o rhs m.mem m.throws = true) m := by
  obtain ⟨a, g, ts, h, hg⟩ := hI
  have hwhich : ∀ p, which p m.mem = (g p).2 := lives_tag_eq h
  rw [lives_exist_eq h] at ho hrhs
  unfold assignCopy
  rw [wp_noexceptIf_iff, hnothrow]
  unfold copyEnds assign
  rw [hnothrow, Bool.true_and]
  split
  · next hself =>
    rw [hself]
    simp
  · next hne =>
    rw [decide_eq_true hne, Bool.true_and, wp_bind, wp_look, hwhich, hwhich]
    simp only [Bool.and_eq_true] at hnothrow
    obtain ⟨⟨hv, -⟩, he, -⟩ := hnothrow
    cases htag : (g rhs).2 with
    | eEmpty => exact wp_clear h hg ho fun _ _ _ _ _ => rfl
    | eValue =>
      refine wp_assignMember_ends (Objects.tracked_left o) rfl whichNames_eValue
        (steady_forwardMember tv (Objects.tracked_left rhs) .lvalue) h hg ho ?_ hv
      rintro l ⟨⟩
      exact ⟨hg.of_tag hrhs htag .left, Ne.symm hne⟩
    | eError =>
      refine wp_assignMember_ends (Objects.tracked_right o) rfl whichNames_eError
        (steady_forwardMember te (Objects.tracked_right rhs) .lvalue) h hg ho ?_ he
      rintro l ⟨⟩
      exact ⟨hg.of_tag hrhs htag .right, Ne.symm hne⟩

/-! ## Runs -/

/-- Only copy assignment meets a throw that its `noexcept` does not allow for. -/
def Action.Ends (tv : PayloadType V) (te : PayloadType E) (h : Heap V E) (throws : List Bool) :
    Action V E → Bool
  | .op (.assignCopy o rhs) => copyEnds tv te o rhs h throws
  | _ => false

theorem effects_assignForeign {o : Nat} {rhs : Foreign V E} {cat : ValueCategory} :
    Effects true false (assignForeign tv te o rhs cat) := by
  cases rhs with
  | eEmpty => exact effects_clear
  | eValue v => exact effects_assignMember (fun _ => rfl) fun _ => rfl
  | eError e => exact effects_assignMember (fun _ => rfl) fun _ => rfl

theorem effects_constructMember {o : Nat} {w : Which} {c : Cell (Heap V E) Place T}
    {us : Init (Heap V E) T} :
    Effects true false (do
      constructAt c us
      update (Objects.setTag o w)
      update (Objects.setExist o true)) :=
  .bind (.constructAt _ fun _ => rfl) fun _ => .bind (.update _) fun _ => .update _

/-- One case for each operation. -/
theorem Op.exec_ends_iff (op : Op V E) {throws : List Bool} (hI : Inv whichNames m)
    (husable : op.Usable m.mem) :
    (∃ m', op.exec tv te { m with throws := throws } = .terminated m') ↔
      (Action.op op).Ends tv te m.mem throws = true := by
  have hI' := hI.skip throws
  have hnever : ∀ {p : Prog (Heap V E) Place Unit}, Effects true false p →
      ((∃ m', p { m with throws := throws } = .terminated m') ↔ false = true) := fun hp =>
    iff_of_false (fun ⟨m', hm'⟩ => hp.ne_terminated _ m' hm') Bool.false_ne_true
  have hconstruct : ∀ {o rhs : Nat} {cat : ValueCategory}, m.mem.exist o = false →
      m.mem.exist rhs = true →
      ((∃ m', constructFrom tv te o rhs cat (tv.nothrowForward cat && te.nothrowForward cat)
        { m with throws := throws } = .terminated m') ↔ false = true) := fun ho hrhs =>
    iff_of_false (fun ⟨m', hm'⟩ => wp_terminated (wp_constructFrom_ends hI' ho hrhs) hm')
      Bool.false_ne_true
  cases op with
  | constructEmpty o => exact hnever (.bind (.update _) fun _ => .update _)
  | constructValue o vs cat => exact hnever effects_constructMember
  | constructError o es cat => exact hnever effects_constructMember
  | constructCopy o rhs => exact hconstruct husable.1 husable.2
  | constructMove o rhs => exact hconstruct husable.1 husable.2
  | assignValue o vs cat => exact hnever (effects_assignMember (fun _ => rfl) fun _ => rfl)
  | assignError o es cat => exact hnever (effects_assignMember (fun _ => rfl) fun _ => rfl)
  | assign o rhs cat =>
    exact hnever (effects_assign (fun _ => rfl) (fun _ => rfl) (fun _ => rfl) fun _ => rfl)
  | assignForeign o rhs cat => exact hnever effects_assignForeign
  | assignCopy o rhs =>
    cases hcond : (tv.nothrowCopyConstructible && tv.nothrowCopyAssignable)
        && (te.nothrowCopyConstructible && te.nothrowCopyAssignable) with
    | true => exact terminated_iff_of_wp (wp_assignCopy_ends hI' husable.1 husable.2 hcond)
    | false =>
      -- a throw goes through an assignment that is not `noexcept`
      have hends : (Action.op (.assignCopy o rhs)).Ends tv te m.mem throws = false := by
        simp only [Action.Ends, copyEnds, hcond, Bool.false_and]
      rw [hends]
      refine hnever ?_
      show Effects true false (Folly.assignCopy tv te o rhs)
      unfold Folly.assignCopy
      rw [hcond]
      exact .noexceptIf_false
        (effects_assign (fun _ => rfl) (fun _ => rfl) (fun _ => rfl) fun _ => rfl)
  | assignMove o rhs => exact hnever effects_assignMove
  | clear o => exact hnever effects_clear
  | destroy o => exact hnever (.bind effects_clear fun _ => .update _)

/-- **What ends the process.** After every run of sound operations and conversions, only copy
assignment can end the process, and it does when and only when it is `noexcept` by its traits, the
alternative stays, and the move of the temporary throws that it assigns. -/
theorem endsProcess_iff (h : Converted tv te m) (action : Action V E) (throws : List Bool)
    (husable : action.Usable m.mem) :
    (∃ m', action.exec tv te { m with throws := throws } = .terminated m') ↔
      action.Ends tv te m.mem throws = true := by
  have hI := inv_of_converted h
  cases action with
  | op basic => exact basic.exec_ends_iff hI husable
  | constructForeign o rhs =>
    refine iff_of_false ?_ Bool.false_ne_true
    rintro ⟨m', hm'⟩
    exact wp_terminated (wp_constructForeign (hI.skip throws) husable) hm'

/-- A number whose copies never throw, and whose move assignment may. -/
def moveAssignMayThrow : PayloadType Nat where
  nothrowMoveConstructible := true
  nothrowMoveAssignable := false
  nothrowCopyConstructible := true
  nothrowCopyAssignable := true
  trivialCopyConstructor := true
  trivialCopyAssignment := true
  trivialDestructor := true
  movedFrom := id
  assignable := true

/-- The copy assignment of a value to a value. -/
theorem endsProcess_iff_assignCopy :
    ∃ m : Machine (Heap Nat Nat) Place, Converted moveAssignMayThrow ⟨.trivial Nat, true⟩ m ∧
      ∃ m', Action.exec moveAssignMayThrow ⟨.trivial Nat, true⟩ (.op (.assignCopy 0 1))
        { m with throws := [true] } = .terminated m' := by
  have h₀ : Converted (E := Nat) moveAssignMayThrow ⟨.trivial Nat, true⟩ _ := .start
  have h₁ := h₀.step (.op (.constructValue 0 (.trivial 3) .rvalue)) [] rfl trivial rfl
  have h₂ := h₁.step (.constructForeign 1 (.eValue (.trivial 4))) [] rfl trivial rfl
  exact ⟨_, h₂, (endsProcess_iff h₂ (.op (.assignCopy 0 1)) [true] ⟨rfl, rfl⟩).mpr rfl⟩

end Hy.Folly

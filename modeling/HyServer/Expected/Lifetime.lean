import HyServer.Expected.EUnion

/-!
# hy::expected — the lifetime invariant of the general storage

Which slots of the `eUnion` objects hold an element, over whole runs of a client. An object is
well formed when exactly one of its two slots holds an element and `has_val_` names that slot.

* `wp_reinitExpected` — what `reinit_expected` does to the two members it is given, whichever of
  its three strategies the element types select: the new one comes to life in place of the old
  one, or it throws and both are as before.
* `Heap.WellFormed` — the invariant as a statement about the objects, and how the view of a heap
  that meets it changes when an object turns from one alternative to the other.
-/

namespace Hy.Tiny

open Cpp

/-! ## `reinit_expected` -/

section Reinit

variable {σ ℓ φ N O : Type} [DecidableEq ℓ] {W : LifeView σ ℓ φ}

/-- **One alternative for the other, or nothing.** The disjunction of traits is what the callers'
`enable_if` conditions give; it is what makes the restoring construction of the third strategy
one that cannot throw. -/
theorem wp_reinitExpected {newVal : Cell σ ℓ N} {oldVal : Cell σ ℓ O} {newType : ElemType N}
    {oldType : ElemType O} {args : Init σ N} {src : Option ℓ} {a : ℓ → Bool} {g : φ}
    {ts : List Bool} {m : Machine σ ℓ} {Q : Unit → Machine σ ℓ → Prop} {R K : Machine σ ℓ → Prop}
    (hnew : Tracked W newVal) (hold : Tracked W oldVal) (hargs : Steady W src args)
    (hne : newVal.loc ≠ oldVal.loc) (hsrc : ∀ l ∈ src, a l = true ∧ l ≠ oldVal.loc)
    (hdead : a newVal.loc = false) (halive : a oldVal.loc = true)
    (htraits : (args.nothrowConstruct || newType.nothrowMoveConstructible
      || oldType.nothrowMoveConstructible) = true)
    (h : Lives W false a g ts m)
    (hQ : throwsNext args.nothrowConstruct ts = false → ∀ m' ts',
      Lives W false (Function.update (Function.update a oldVal.loc false) newVal.loc true) g ts'
        m' → Q () m')
    (hR : throwsNext args.nothrowConstruct ts = true → ∀ m' ts',
      Lives W false a g ts' m' → R m') :
    wp (reinitExpected newVal oldVal newType oldType args) Q R K m := by
  -- the view between the destruction and the construction
  have hsrc' : ∀ l ∈ src, a l = true := fun l hl => (hsrc l hl).1
  have hsrcMid : ∀ l ∈ src, Function.update a oldVal.loc false l = true := by
    intro l hl
    rw [Function.update_of_ne (hsrc l hl).2]
    exact (hsrc l hl).1
  have hdeadMid : Function.update a oldVal.loc false newVal.loc = false := by
    rw [Function.update_of_ne hne]
    exact hdead
  have hrestore : Function.update (Function.update a oldVal.loc false) oldVal.loc true = a := by
    rw [Function.update_idem]
    exact Function.update_eq_self_iff.mpr halive.symm
  unfold reinitExpected
  split
  · next hnothrow =>
    have hnext : throwsNext args.nothrowConstruct ts = false := by rw [hnothrow]; rfl
    rw [wp_bind]
    refine hold.wp_destroyAt h halive fun m₁ h₁ => ?_
    refine hnew.wp_constructAt hargs h₁ hsrcMid hdeadMid (fun _ m₂ h₂ => hQ hnext m₂ _ h₂) ?_
    intro hthrow
    rw [hnext] at hthrow
    cases hthrow
  · next hmay =>
    split
    · next hmove =>
      refine wp_withLocal_lives hargs h hsrc' (fun hthrow m₁ h₁ => hR hthrow m₁ _ h₁) ?_
      intro hnext t m₁ h₁
      rw [wp_bind]
      refine hold.wp_destroyAt h₁ halive fun m₂ h₂ => ?_
      refine hnew.wp_constructAt (steady_moveLocal W newType t) h₂ (by simp) hdeadMid
        (fun _ m₃ h₃ => hQ hnext _ _ h₃.closeLocal) ?_
      -- the move of the local is `noexcept` here
      intro hthrow
      simp [Init.moveLocal, Init.ofArg, hmove] at hthrow
    · next hmove =>
      have hold' : oldType.nothrowMoveConstructible = true := by simpa [hmay, hmove] using htraits
      refine wp_withLocal_lives (hold.steady_move oldType) h (by simpa using halive) ?_ ?_
      · intro hthrow
        simp [Init.move, hold'] at hthrow
      · intro _ t m₁ h₁
        have h₁' : Lives W true a g ts m₁ := by simpa [Init.move, hold'] using h₁
        rw [wp_bind]
        refine hold.wp_destroyAt h₁' halive fun m₂ h₂ => wp_tryRethrow ?_
        refine hnew.wp_constructAt hargs h₂ hsrcMid hdeadMid
          (fun hnext m₃ h₃ => hQ hnext _ _ h₃.closeLocal) fun hthrow m₃ h₃ => ?_
        refine hold.wp_constructAt (steady_moveLocal W oldType t) h₃ (by simp)
          (Function.update_self ..) (fun _ m₄ h₄ => ?_) ?_
        · rw [hrestore] at h₄
          exact hR hthrow _ _ h₄.closeLocal
        · intro hthrow'
          simp [Init.moveLocal, Init.ofArg, hold'] at hthrow'

end Reinit

/-! ## The exchange in `swap` -/

section Exchange

variable {σ ℓ φ T U : Type} [DecidableEq ℓ] {W : LifeView σ ℓ φ}

/-- **Two elements change objects, or neither does.** Each of the two branches at the end of `swap`
keeps the element of the one object in a local, moves the other object's element to its place, and
the local's to the other's. The moves of the local are `noexcept`, so the `catch` block puts the
element back. -/
theorem wp_exchange {x y' : Cell σ ℓ T} {y x' : Cell σ ℓ U} {ty : ElemType T} {uy : ElemType U}
    {a : ℓ → Bool} {g : φ} {ts : List Bool} {m : Machine σ ℓ}
    {Q : Unit → Machine σ ℓ → Prop} {R K : Machine σ ℓ → Prop}
    (hx : Tracked W x) (hx' : Tracked W x') (hy : Tracked W y) (hy' : Tracked W y')
    (hty : ty.nothrowMoveConstructible = true) (hax : a x.loc = true) (hay : a y.loc = true)
    (hax' : a x'.loc = false) (hay' : a y'.loc = false) (hne : x.loc ≠ y.loc)
    (hne' : x'.loc ≠ y'.loc) (h : Lives W false a g ts m)
    (hQ : ∀ m' ts', Lives W false (Function.update (Function.update (Function.update
      (Function.update a x.loc false) x'.loc true) y.loc false) y'.loc true) g ts' m' → Q () m')
    (hR : ∀ m' ts', Lives W false a g ts' m' → R m') :
    wp (withLocal (Init.move ty x) fun temp => do
        destroyAt x
        tryRethrow
          (do constructAt x' (Init.move uy y)
              destroyAt y
              constructAt y' (Init.moveLocal ty temp))
          (constructAt x (Init.moveLocal ty temp))) Q R K m := by
  -- a place that holds an element is not one that holds none
  have hxx' : x'.loc ≠ x.loc := fun heq => by rw [heq, hax] at hax'; cases hax'
  have hyx' : y.loc ≠ x'.loc := fun heq => by rw [heq, hax'] at hay; cases hay
  have hxy' : y'.loc ≠ x.loc := fun heq => by rw [heq, hax] at hay'; cases hay'
  have hyy' : y'.loc ≠ y.loc := fun heq => by rw [heq, hay] at hay'; cases hay'
  have hnothrow : ∀ (temp : T) (ts' : List Bool),
      throwsNext (Init.moveLocal ty temp : Init σ T).nothrowConstruct ts' ≠ true := by
    intro temp ts' hthrow
    simp [Init.moveLocal, Init.ofArg, hty] at hthrow
  refine wp_withLocal_lives (hx.steady_move ty) h (by simpa using hax) ?_ ?_
  · intro hthrow
    simp [Init.move, hty] at hthrow
  · intro _ temp m₁ h₁
    rw [wp_bind]
    refine hx.wp_destroyAt h₁ hax fun m₂ h₂ => wp_tryRethrow ?_
    have hy₂ : Function.update a x.loc false y.loc = true := by
      rw [Function.update_of_ne hne.symm, hay]
    have hx₂ : Function.update a x.loc false x'.loc = false := by
      rw [Function.update_of_ne hxx', hax']
    rw [wp_bind]
    refine hx'.wp_constructAt (hy.steady_move uy) h₂ (by simpa using hy₂) hx₂ ?_ ?_
    · intro _ m₃ h₃
      have hy₃ : Function.update (Function.update a x.loc false) x'.loc true y.loc = true := by
        rw [Function.update_of_ne hyx', hy₂]
      have hy'₃ : Function.update (Function.update (Function.update a x.loc false) x'.loc true)
          y.loc false y'.loc = false := by
        rw [Function.update_of_ne hyy', Function.update_of_ne hne'.symm,
          Function.update_of_ne hxy', hay']
      rw [wp_bind]
      refine hy.wp_destroyAt h₃ hy₃ fun m₄ h₄ => ?_
      refine hy'.wp_constructAt (steady_moveLocal W ty temp) h₄ (by simp) hy'₃ ?_ ?_
      · intro _ m₅ h₅
        exact hQ _ _ h₅.closeLocal
      · intro hthrow
        exact absurd hthrow (hnothrow temp _)
    · -- the other element's move threw
      intro _ m₃ h₃
      refine hx.wp_constructAt (steady_moveLocal W ty temp) h₃ (by simp)
        (Function.update_self ..) ?_ ?_
      · intro _ m₄ h₄
        rw [Function.update_idem, Function.update_eq_self_iff.mpr hax.symm] at h₄
        exact hR _ _ h₄.closeLocal
      · intro hthrow
        exact absurd hthrow (hnothrow temp _)

end Exchange

/-! ## Well-formed heaps -/

section WellFormed

variable {V E : Type}

/-- `has_val_` is true iff `val_` is alive and false iff `unex_` is. -/
def tagNames : Bool → Slot → Bool
  | b, .left => b
  | b, .right => !b

/-- Exactly one slot holds an element, and `has_val_` names it. -/
def TagNamesAlive (x : Tagged Bool V E) : Prop :=
  x.holds .left = x.tag ∧ x.holds .right = !x.tag

/-- Every object is as it should be, and what is no object holds no element. -/
def Heap.WellFormed (h : Heap V E) : Prop :=
  ∀ o, if h.exist o then TagNamesAlive (h.obj o)
    else (h.obj o).holds .left = false ∧ (h.obj o).holds .right = false

theorem Heap.wellFormed_iff (h : Heap V E) :
    Heap.WellFormed h ↔ Objects.WellFormed tagNames h := by
  refine forall_congr' fun o => ?_
  cases ho : h.exist o with
  | true =>
    refine ⟨fun hobj k => ?_, fun hobj => ⟨hobj .left, hobj .right⟩⟩
    cases k
    · exact hobj.1
    · exact hobj.2
  | false =>
    refine ⟨fun hobj k => ?_, fun hobj => ⟨hobj .left, hobj .right⟩⟩
    cases k
    · exact hobj.1
    · exact hobj.2

variable {a : Place → Bool} {g : Nat → Bool × Bool}

theorem of_val (hg : Good tagNames a g) {o : Nat} (ho : (g o).1 = true) (hv : (g o).2 = true) :
    a (o, .left) = true ∧ a (o, .right) = false :=
  ⟨hg.of_tag ho hv .left, hg.of_tag ho hv .right⟩

theorem of_unex (hg : Good tagNames a g) {o : Nat} (ho : (g o).1 = true) (hv : (g o).2 = false) :
    a (o, .left) = false ∧ a (o, .right) = true :=
  ⟨hg.of_tag ho hv .left, hg.of_tag ho hv .right⟩

theorem lives_hasVal_eq {b : Bool} {ts : List Bool} {m : Machine (Heap V E) Place}
    (h : Lives Objects.life b a g ts m) (o : Nat) : (Heap.layout o).hasVal m.mem = (g o).2 :=
  lives_tag_eq h o

/-- An object whose error gave way to a value, with the tag to match. -/
theorem good_toVal (hg : Good tagNames a g) {o : Nat} (ho : (g o).1 = true) :
    Good tagNames (Function.update (Function.update a (o, .right) false) (o, .left) true)
      (Function.update g o ((g o).1, true)) := by
  refine hg.set o (fun k => ?_) (fun p hp k => ?_) fun p hp => ?_
  · cases k <;> simp [ho, tagNames]
  · rw [Function.update_of_ne (by simp [hp]), Function.update_of_ne (by simp [hp])]
  · rw [Function.update_of_ne hp]

theorem good_toUnex (hg : Good tagNames a g) {o : Nat} (ho : (g o).1 = true) :
    Good tagNames (Function.update (Function.update a (o, .left) false) (o, .right) true)
      (Function.update g o ((g o).1, false)) := by
  refine hg.set o (fun k => ?_) (fun p hp k => ?_) fun p hp => ?_
  · cases k <;> simp [ho, tagNames]
  · rw [Function.update_of_ne (by simp [hp]), Function.update_of_ne (by simp [hp])]
  · rw [Function.update_of_ne hp]

end WellFormed

end Hy.Tiny

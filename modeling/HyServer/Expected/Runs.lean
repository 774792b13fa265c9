import HyServer.Expected.Lifetime

/-!
# hy::expected — the general storage over whole runs

One lemma per operation of the `eUnion` storage, each from the invariant and under the operation's
`enable_if`, and the run theorem they give.

`Op.Sound` is what the state before an operation must meet for it to keep the lifetimes in order.
Three operators do not keep them by themselves: `operator=(U&&)` leaves `has_val_` false when it has
turned an error into a value; the two `operator=(unexpected)` rebuild `val_` over a live value where
they should put `unex_` in its place; and a copy assignment, which is left to the implicit operator,
puts the bytes of one alternative over the other one without destroying it.
-/

namespace Hy.Tiny

open Cpp

variable {V E : Type} {tv : ElemType V} {te : ElemType E} {m : Machine (Heap V E) Place}

/-! ## Construction and destruction -/

theorem wp_constructValue {o : Nat} {v : Init (Heap V E) V} (hv : Steady Objects.life none v)
    (hI : Inv tagNames m) (hexist : m.mem.exist o = false) :
    wp (constructValue o v) (fun _ => Inv tagNames) (Inv tagNames) (Inv tagNames) m := by
  obtain ⟨a, g, ts, h, hg⟩ := hI
  have ho : (g o).1 = false := by rw [← lives_exist_eq h]; exact hexist
  have hdead := hg.of_absent ho
  simp only [constructValue, wp_bind, wp_update]
  refine (Objects.tracked_left o).wp_constructAt hv (lives_setTag h o true) (by simp)
    (hdead .left) ?_ ?_
  · intro _ m₁ h₁
    have hgood : Good tagNames (Function.update a (o, .left) true)
        (Function.update g o (true, true)) := by
      refine hg.change rfl fun j hj => ?_
      cases j
      · exact absurd rfl hj
      · exact hdead .right
    exact ⟨_, _, _, lives_setExist h₁ o true, by simpa using hgood⟩
  · -- the constructor threw: no object, and only its tag byte was written
    intro _ m₁ h₁
    exact ⟨_, _, _, h₁, hg.retag fun k => by rw [hdead k, ho]; rfl⟩

theorem wp_constructUnexpected {o : Nat} {e : Init (Heap V E) E} (he : Steady Objects.life none e)
    (hI : Inv tagNames m) (hexist : m.mem.exist o = false) :
    wp (constructUnexpected o e) (fun _ => Inv tagNames) (Inv tagNames) (Inv tagNames) m := by
  obtain ⟨a, g, ts, h, hg⟩ := hI
  have ho : (g o).1 = false := by rw [← lives_exist_eq h]; exact hexist
  have hdead := hg.of_absent ho
  simp only [constructUnexpected, wp_bind, wp_update]
  refine (Objects.tracked_right o).wp_constructAt he (lives_setTag h o false) (by simp)
    (hdead .right) ?_ ?_
  · intro _ m₁ h₁
    have hgood : Good tagNames (Function.update a (o, .right) true)
        (Function.update g o (true, false)) := by
      refine hg.change rfl fun j hj => ?_
      cases j
      · exact hdead .left
      · exact absurd rfl hj
    exact ⟨_, _, _, lives_setExist h₁ o true, by simpa using hgood⟩
  · intro _ m₁ h₁
    exact ⟨_, _, _, h₁, hg.retag fun k => by rw [hdead k, ho]; rfl⟩

/-- The destructor destroys the one element there is. -/
theorem wp_destroy {o : Nat} (hI : Inv tagNames m) (hexist : m.mem.exist o = true) :
    wp (destroy o) (fun _ => Inv tagNames) (Inv tagNames) (Inv tagNames) m := by
  obtain ⟨a, g, ts, h, hg⟩ := hI
  have ho : (g o).1 = true := by rw [← lives_exist_eq h]; exact hexist
  cases hv : (g o).2 with
  | true =>
    obtain ⟨hval, hunex⟩ := of_val hg ho hv
    simp only [destroy, wp_bind, wp_look, lives_hasVal_eq h, hv, ↓reduceIte]
    refine (Objects.tracked_left o).wp_destroyAt h hval fun m₁ h₁ => ?_
    refine ⟨_, _, _, lives_setExist h₁ o false, hg.change rfl fun j hj => ?_⟩
    cases j
    · exact absurd rfl hj
    · exact hunex
  | false =>
    obtain ⟨hval, hunex⟩ := of_unex hg ho hv
    simp only [destroy, wp_bind, wp_look, lives_hasVal_eq h, hv, Bool.false_eq_true, ↓reduceIte]
    refine (Objects.tracked_right o).wp_destroyAt h hunex fun m₁ h₁ => ?_
    refine ⟨_, _, _, lives_setExist h₁ o false, hg.change rfl fun j hj => ?_⟩
    cases j
    · exact hval
    · exact absurd rfl hj

/-! ## Assignment -/

/-- Turning an error into the value `v` makes, and setting the tag: the transition that
`operator=(const&)` and `operator=(&&)` make between the alternatives. -/
theorem wp_reinit_toVal {a : Place → Bool} {g : Nat → Bool × Bool} {ts : List Bool} {o : Nat}
    {v : Init (Heap V E) V} {src : Option Place} (hv : Steady Objects.life src v)
    (h : Lives Objects.life false a g ts m) (hg : Good tagNames a g) (ho : (g o).1 = true)
    (htag : (g o).2 = false) (hsrc : ∀ l ∈ src, a l = true ∧ l ≠ (o, .right))
    (htraits : (v.nothrowConstruct || tv.nothrowMoveConstructible
      || te.nothrowMoveConstructible) = true)
    {Q : Unit → Machine (Heap V E) Place → Prop}
    (hQ : throwsNext v.nothrowConstruct ts = false → ∀ m' ts',
      Lives Objects.life false
        (Function.update (Function.update a (o, .right) false) (o, .left) true) g ts' m' →
      Q () m') :
    wp (reinitExpected (Heap.valCell o) (Heap.unexCell o) tv te v) Q (Inv tagNames) (Inv tagNames)
      m := by
  obtain ⟨hval, hunex⟩ := of_unex hg ho htag
  exact wp_reinitExpected (Objects.tracked_left o) (Objects.tracked_right o) hv
    (by simp [Heap.valCell, Heap.unexCell]) hsrc hval hunex htraits h hQ
    fun _ m' ts' h' => ⟨a, g, ts', h', hg⟩

theorem wp_reinit_toUnex {a : Place → Bool} {g : Nat → Bool × Bool} {ts : List Bool} {o : Nat}
    {e : Init (Heap V E) E} {src : Option Place} (he : Steady Objects.life src e)
    (h : Lives Objects.life false a g ts m) (hg : Good tagNames a g) (ho : (g o).1 = true)
    (htag : (g o).2 = true) (hsrc : ∀ l ∈ src, a l = true ∧ l ≠ (o, .left))
    (htraits : (e.nothrowConstruct || te.nothrowMoveConstructible
      || tv.nothrowMoveConstructible) = true)
    {Q : Unit → Machine (Heap V E) Place → Prop}
    (hQ : throwsNext e.nothrowConstruct ts = false → ∀ m' ts',
      Lives Objects.life false
        (Function.update (Function.update a (o, .left) false) (o, .right) true) g ts' m' →
      Q () m') :
    wp (reinitExpected (Heap.unexCell o) (Heap.valCell o) te tv e) Q (Inv tagNames) (Inv tagNames)
      m := by
  obtain ⟨hval, hunex⟩ := of_val hg ho htag
  exact wp_reinitExpected (Objects.tracked_right o) (Objects.tracked_left o) he
    (by simp [Heap.valCell, Heap.unexCell]) hsrc hunex hval htraits h hQ
    fun _ m' ts' h' => ⟨a, g, ts', h', hg⟩

/-- Value assignment keeps the invariant on an object that holds a value, and on one that holds
an error if the new value cannot be made. -/
theorem wp_assignValue {o : Nat} {v : Init (Heap V E) V} (hv : Steady Objects.life none v)
    (hI : Inv tagNames m) (hexist : m.mem.exist o = true)
    (htraits : (v.nothrowConstruct || tv.nothrowMoveConstructible
      || te.nothrowMoveConstructible) = true)
    (hsound : (m.mem.obj o).tag = true ∨ throwsNext v.nothrowConstruct m.throws = true) :
    wp ((Heap.layout o).assignValue tv te v) (fun _ => Inv tagNames) (Inv tagNames) (Inv tagNames)
      m := by
  obtain ⟨a, g, ts, h, hg⟩ := hI
  have ho : (g o).1 = true := by rw [← lives_exist_eq h]; exact hexist
  cases htag : (g o).2 with
  | true =>
    obtain ⟨hval, hunex⟩ := of_val hg ho htag
    simp only [Layout.assignValue, wp_bind, wp_look, lives_hasVal_eq h, htag, ↓reduceIte]
    exact (Objects.tracked_left o).wp_assignAt hv h (by simp) hval
      (fun m' ts' h' => ⟨a, g, ts', h', hg⟩) (fun m' ts' h' => ⟨a, g, ts', h', hg⟩)
  | false =>
    simp only [Layout.assignValue, wp_bind, wp_look, lives_hasVal_eq h, htag, Bool.false_eq_true,
      ↓reduceIte]
    refine wp_reinit_toVal hv h hg ho htag (by simp) htraits fun hnext => ?_
    -- the object holds an error, so the construction throws and `hQ` is never asked for
    rcases hsound with hsound | hsound
    · have : (g o).2 = true := by rw [← lives_hasVal_eq h]; exact hsound
      rw [htag] at this
      cases this
    · rw [h.throws_eq, hnext] at hsound
      cases hsound

/-- Assignment from an `unexpected` keeps the invariant on an object that holds an error, and on
one that holds a value if the temporary `V` of the second strategy cannot be made. -/
theorem wp_assignUnexpected {o : Nat} {e : Init (Heap V E) E} {v : Init (Heap V E) V}
    (he : Steady Objects.life none e) (hv : Steady Objects.life none v)
    (hI : Inv tagNames m) (hexist : m.mem.exist o = true)
    (hsound : (m.mem.obj o).tag = false ∨
      (tv.nothrowMoveConstructible = true ∧ throwsNext v.nothrowConstruct m.throws = true)) :
    wp ((Heap.layout o).assignUnexpected tv te e v) (fun _ => Inv tagNames) (Inv tagNames)
      (Inv tagNames) m := by
  obtain ⟨a, g, ts, h, hg⟩ := hI
  have ho : (g o).1 = true := by rw [← lives_exist_eq h]; exact hexist
  cases htag : (g o).2 with
  | true =>
    have hthrow : tv.nothrowMoveConstructible = true ∧ throwsNext v.nothrowConstruct ts = true := by
      rcases hsound with hsound | hsound
      · have : (g o).2 = false := by rw [← lives_hasVal_eq h]; exact hsound
        rw [htag] at this
        cases this
      · rw [h.throws_eq] at hsound
        exact hsound
    have hmay : v.nothrowConstruct = false := nothrow_of_throwsNext hthrow.2
    simp only [Layout.assignUnexpected, wp_bind, wp_look, lives_hasVal_eq h, htag, ↓reduceIte,
      reinitExpected, hmay, hthrow.1, Bool.false_eq_true]
    refine wp_withLocal_lives hv h (by simp) (fun _ m' h' => ⟨a, g, _, h', hg⟩) ?_
    intro hnext
    rw [hthrow.2] at hnext
    cases hnext
  | false =>
    obtain ⟨hval, hunex⟩ := of_unex hg ho htag
    simp only [Layout.assignUnexpected, wp_bind, wp_look, lives_hasVal_eq h, htag,
      Bool.false_eq_true, ↓reduceIte]
    exact (Objects.tracked_right o).wp_assignAt he h (by simp) hunex
      (fun m' ts' h' => ⟨a, g, ts', h', hg⟩) (fun m' ts' h' => ⟨a, g, ts', h', hg⟩)

/-- `has_val_ = other.has_value()`, once the slots are as that tag says. -/
theorem inv_copyTag {a : Place → Bool} {g : Nat → Bool × Bool} {ts : List Bool} {o p : Nat}
    (h : Lives Objects.life false a g ts m)
    (hg : Good tagNames a (Function.update g o ((g o).1, (g p).2))) :
    Inv tagNames
      { m with mem := (Heap.layout o).setHasVal ((Heap.layout p).hasVal m.mem) m.mem } := by
  rw [lives_hasVal_eq h]
  exact ⟨_, _, _, lives_setTag h o _, hg⟩

/-- Assigning one alternative to the same one. -/
theorem wp_assign_copyTag {T : Type} {c : Cell (Heap V E) Place T} {i : Init (Heap V E) T}
    {src : Option Place} {a : Place → Bool} {g : Nat → Bool × Bool} {ts : List Bool} {o p : Nat}
    (hc : Tracked Objects.life c) (hi : Steady Objects.life src i)
    (h : Lives Objects.life false a g ts m) (hg : Good tagNames a g) (hsrc : ∀ l ∈ src, a l = true)
    (halive : a c.loc = true) (htags : (g o).2 = (g p).2) :
    wp (assignAt c i)
      (fun _ m' => Inv tagNames
        { m' with mem := (Heap.layout o).setHasVal ((Heap.layout p).hasVal m'.mem) m'.mem })
      (Inv tagNames) (Inv tagNames) m := by
  refine hc.wp_assignAt hi h hsrc halive ?_ fun m₁ ts₁ h₁ => ⟨a, g, ts₁, h₁, hg⟩
  intro m₁ ts₁ h₁
  exact inv_copyTag h₁ (hg.sameTag htags)

/-- Assigning a value to an error. -/
theorem wp_reinit_copyTag_toVal {v : Init (Heap V E) V} {src : Option Place} {a : Place → Bool}
    {g : Nat → Bool × Bool} {ts : List Bool} {o p : Nat} (hv : Steady Objects.life src v)
    (h : Lives Objects.life false a g ts m) (hg : Good tagNames a g) (ho : (g o).1 = true)
    (hto : (g o).2 = false) (htp : (g p).2 = true)
    (hsrc : ∀ l ∈ src, a l = true ∧ l ≠ (o, .right))
    (htraits : (tv.nothrowMoveConstructible || te.nothrowMoveConstructible) = true) :
    wp (reinitExpected (Heap.valCell o) (Heap.unexCell o) tv te v)
      (fun _ m' => Inv tagNames
        { m' with mem := (Heap.layout o).setHasVal ((Heap.layout p).hasVal m'.mem) m'.mem })
      (Inv tagNames) (Inv tagNames) m := by
  have htraits' : (v.nothrowConstruct || tv.nothrowMoveConstructible
      || te.nothrowMoveConstructible) = true := by
    rw [Bool.or_assoc, htraits, Bool.or_true]
  refine wp_reinit_toVal hv h hg ho hto hsrc htraits' ?_
  intro _ m₁ ts₁ h₁
  refine inv_copyTag h₁ ?_
  rw [htp]
  exact good_toVal hg ho

/-- Assigning an error to a value. -/
theorem wp_reinit_copyTag_toUnex {e : Init (Heap V E) E} {src : Option Place} {a : Place → Bool}
    {g : Nat → Bool × Bool} {ts : List Bool} {o p : Nat} (he : Steady Objects.life src e)
    (h : Lives Objects.life false a g ts m) (hg : Good tagNames a g) (ho : (g o).1 = true)
    (hto : (g o).2 = true) (htp : (g p).2 = false)
    (hsrc : ∀ l ∈ src, a l = true ∧ l ≠ (o, .left))
    (htraits : (tv.nothrowMoveConstructible || te.nothrowMoveConstructible) = true) :
    wp (reinitExpected (Heap.unexCell o) (Heap.valCell o) te tv e)
      (fun _ m' => Inv tagNames
        { m' with mem := (Heap.layout o).setHasVal ((Heap.layout p).hasVal m'.mem) m'.mem })
      (Inv tagNames) (Inv tagNames) m := by
  have htraits' : (e.nothrowConstruct || te.nothrowMoveConstructible
      || tv.nothrowMoveConstructible) = true := by
    rw [Bool.or_assoc, Bool.or_comm te.nothrowMoveConstructible, htraits, Bool.or_true]
  refine wp_reinit_toUnex he h hg ho hto hsrc htraits' ?_
  intro _ m₁ ts₁ h₁
  refine inv_copyTag h₁ ?_
  rw [htp]
  exact good_toUnex hg ho

/-- The slots of an object become like those of another one. -/
theorem good_copy {a : Place → Bool} {g : Nat → Bool × Bool} {o p : Nat} (hg : Good tagNames a g)
    (hp : (g p).1 = true) :
    Good tagNames
      (Function.update (Function.update a (o, .left) (a (p, .left))) (o, .right) (a (p, .right)))
      (Function.update g o (true, (g p).2)) := by
  refine hg.set o (fun k => ?_) (fun q hq k => ?_) fun q hq => ?_
  · have htag := hg.of_tag hp rfl
    cases k
    · simp [htag]
    · simp [htag]
  · rw [Function.update_of_ne (by simp [hq]), Function.update_of_ne (by simp [hq])]
  · rw [Function.update_of_ne hq]

/-- The bytes of another object, and its tag. What ends there must not need its destructor. -/
theorem wp_assignCopy_lives {a : Place → Bool} {g : Nat → Bool × Bool} {ts : List Bool} {o p : Nat}
    {Q : Unit → Machine (Heap V E) Place → Prop} {R K : Machine (Heap V E) Place → Prop}
    (h : Lives Objects.life false a g ts m)
    (hleft : a (o, .left) = true → a (p, .left) = false → tv.trivialDestructor = true)
    (hright : a (o, .right) = true → a (p, .right) = false → te.trivialDestructor = true)
    (hQ : ∀ m', Lives Objects.life false
      (Function.update (Function.update a (o, .left) (a (p, .left))) (o, .right) (a (p, .right)))
      (Function.update g o ((g o).1, (g p).2)) ts m' → Q () m') :
    wp ((Heap.layout o).assignCopy (Heap.layout p) tv te) Q R K m := by
  have hslots : ∀ q : Nat, ((q, .right) : Place) ≠ (o, .left) := by simp
  unfold Layout.assignCopy
  simp only [wp_bind, wp_look, wp_update, lives_hasVal_eq h]
  refine (Objects.tracked_left o).wp_copyBytesAt (Objects.tracked_left p) (lives_setTag h o _)
    hleft fun m₁ h₁ => ?_
  refine (Objects.tracked_right o).wp_copyBytesAt (Objects.tracked_right p) h₁ ?_ fun m₂ h₂ => ?_
  · rw [Objects.rightCell_loc, Objects.rightCell_loc, Objects.leftCell_loc,
      Function.update_of_ne (hslots o), Function.update_of_ne (hslots p)]
    exact hright
  · rw [Objects.rightCell_loc, Objects.rightCell_loc, Objects.leftCell_loc, Objects.leftCell_loc,
      Function.update_of_ne (hslots p)] at h₂
    exact hQ m₂ h₂

/-- Copy assignment keeps the invariant unless it puts an end to an element that has a destructor
to run. -/
theorem wp_assignCopy {o p : Nat} {R K : Machine (Heap V E) Place → Prop} (hI : Inv tagNames m)
    (ho : m.mem.exist o = true) (hp : m.mem.exist p = true)
    (hsound : (m.mem.obj o).tag = (m.mem.obj p).tag ∨
      (bif (m.mem.obj o).tag then tv.trivialDestructor else te.trivialDestructor) = true) :
    wp ((Heap.layout o).assignCopy (Heap.layout p) tv te) (fun _ => Inv tagNames) R K m := by
  obtain ⟨a, g, ts, h, hg⟩ := hI
  rw [lives_exist_eq h] at ho hp
  rw [lives_tag_eq h, lives_tag_eq h] at hsound
  have hslot : ∀ {q : Nat} {k : Slot}, (g q).1 = true → a (q, k) = tagNames (g q).2 k :=
    fun hq => hg.of_tag hq rfl _
  refine wp_assignCopy_lives h (fun hlive hdead => ?_) (fun hlive hdead => ?_) fun m' h' => ?_
  · rw [hslot ho] at hlive
    rw [hslot hp] at hdead
    have hto : (g o).2 = true := hlive
    have htp : (g p).2 = false := hdead
    simpa [hto, htp] using hsound
  · rw [hslot ho] at hlive
    rw [hslot hp] at hdead
    have hto : (g o).2 = false := by simpa [tagNames] using hlive
    have htp : (g p).2 = true := by simpa [tagNames] using hdead
    simpa [hto, htp] using hsound
  · rw [ho] at h'
    exact ⟨_, _, ts, h', good_copy hg hp⟩

/-- Move assignment keeps the invariant, in all four cells of its case split and with any of its
element operations throwing. -/
theorem wp_assignMoveBody {o p : Nat} (hI : Inv tagNames m) (ho : m.mem.exist o = true)
    (hp : m.mem.exist p = true)
    (htraits : (tv.nothrowMoveConstructible || te.nothrowMoveConstructible) = true) :
    wp ((Heap.layout o).assignMoveBody (Heap.layout p) tv te) (fun _ => Inv tagNames)
      (Inv tagNames) (Inv tagNames) m := by
  obtain ⟨a, g, ts, h, hg⟩ := hI
  rw [lives_exist_eq h] at ho hp
  cases hto : (g o).2 with
  | true =>
    have hvo := (of_val hg ho hto).1
    cases htp : (g p).2 with
    | true =>
      have hvp := (of_val hg hp htp).1
      simp only [Layout.assignMoveBody, wp_bind, wp_look, lives_hasVal_eq h, hto, htp, ↓reduceIte]
      exact wp_assign_copyTag (Objects.tracked_left o) ((Objects.tracked_left p).steady_move tv) h
        hg (by rintro l ⟨⟩; exact hvp) hvo (by rw [hto, htp])
    | false =>
      have hup := (of_unex hg hp htp).2
      simp only [Layout.assignMoveBody, wp_bind, wp_look, lives_hasVal_eq h, hto, htp,
        Bool.false_eq_true, ↓reduceIte]
      refine wp_reinit_copyTag_toUnex ((Objects.tracked_right p).steady_move te) h hg ho hto htp ?_
        htraits
      rintro l ⟨⟩
      exact ⟨hup, by simp⟩
  | false =>
    cases htp : (g p).2 with
    | true =>
      have hvp := (of_val hg hp htp).1
      simp only [Layout.assignMoveBody, wp_bind, wp_look, lives_hasVal_eq h, hto, htp,
        Bool.false_eq_true, ↓reduceIte]
      refine wp_reinit_copyTag_toVal ((Objects.tracked_left p).steady_move tv) h hg ho hto htp ?_
        htraits
      rintro l ⟨⟩
      exact ⟨hvp, by simp⟩
    | false =>
      have huo := (of_unex hg ho hto).2
      have hup := (of_unex hg hp htp).2
      simp only [Layout.assignMoveBody, wp_bind, wp_look, lives_hasVal_eq h, hto, htp,
        Bool.false_eq_true, ↓reduceIte]
      exact wp_assign_copyTag (Objects.tracked_right o) ((Objects.tracked_right p).steady_move te) h
        hg (by rintro l ⟨⟩; exact hup) huo (by rw [hto, htp])

/-! ## Swap -/

/-- The last branch of `swap`, from a value in `o` and an error in `p`. Of the two element moves
that could leave an object without an element, the traits make `noexcept` exactly the one that the
`catch` block needs. -/
theorem wp_swapMixed {a : Place → Bool} {g : Nat → Bool × Bool} {ts : List Bool} {o p : Nat}
    (h : Lives Objects.life false a g ts m) (hg : Good tagNames a g) (ho : (g o).1 = true)
    (hp : (g p).1 = true) (hto : (g o).2 = true) (htp : (g p).2 = false)
    (htraits : (tv.nothrowMoveConstructible || te.nothrowMoveConstructible) = true) :
    wp ((Heap.layout o).swapMixed (Heap.layout p) tv te) (fun _ => Inv tagNames) (Inv tagNames)
      (Inv tagNames) m := by
  have hne : o ≠ p := by
    rintro rfl
    rw [hto] at htp
    cases htp
  obtain ⟨hvo, huo⟩ := of_val hg ho hto
  obtain ⟨hvp, hup⟩ := of_unex hg hp htp
  -- both tags, once the four slots are exchanged
  have hdone : ∀ {a' : Place → Bool} {m' : Machine (Heap V E) Place} {ts' : List Bool},
      Lives Objects.life false a' g ts' m' →
      Good tagNames a' (Function.update (Function.update g o ((g o).1, false)) p ((g p).1, true)) →
      Inv tagNames { m' with mem := Heap.setHasVal p true (Heap.setHasVal o false m'.mem) } := by
    intro a' m' ts' h' hg'
    have hp' : Function.update g o ((g o).1, false) p = g p := Function.update_of_ne hne.symm ..
    have h₂ := lives_setTag (lives_setTag h' o false) p true
    rw [hp'] at h₂
    exact ⟨_, _, _, h₂, hg'⟩
  have hsame : ∀ (m' : Machine (Heap V E) Place) (ts' : List Bool),
      Lives Objects.life false a g ts' m' → Inv tagNames m' := fun m' ts' h' => ⟨a, g, ts', h', hg⟩
  have hslots : ∀ i j : Nat, ((i, .left) : Place) ≠ (j, .right) := by simp
  simp only [Layout.swapMixed]
  split
  · next hte =>
    simp only [wp_bind]
    refine wp_exchange (Objects.tracked_right p) (Objects.tracked_left p) (Objects.tracked_left o)
      (Objects.tracked_right o) hte hup hvo hvp huo (hslots o p).symm (hslots p o) h ?_ hsame
    intro m' ts' h'
    refine hdone h' ?_
    have hgp := good_toVal hg hp
    have ho' : Function.update g p ((g p).1, true) o = g o := Function.update_of_ne hne ..
    have hgo := good_toUnex hgp (o := o) (by rw [ho', ho])
    rw [ho', Function.update_comm hne.symm] at hgo
    exact hgo
  · next hte =>
    have htv : tv.nothrowMoveConstructible = true := by simpa [hte] using htraits
    simp only [wp_bind]
    refine wp_exchange (Objects.tracked_left o) (Objects.tracked_right o) (Objects.tracked_right p)
      (Objects.tracked_left p) htv hvo hup huo hvp (hslots o p) (hslots p o).symm h ?_ hsame
    intro m' ts' h'
    refine hdone h' ?_
    have hgo := good_toUnex hg ho
    have hp' : Function.update g o ((g o).1, false) p = g p := Function.update_of_ne hne.symm ..
    have hgp := good_toVal hgo (o := p) (by rw [hp', hp])
    rw [hp'] at hgp
    exact hgp

/-- `swap` in all four combinations of states, also of an object with itself. The recursive call
finds the roles exchanged, so it ends in the last branch. -/
theorem wp_swapBody {o p : Nat} (hI : Inv tagNames m) (ho : m.mem.exist o = true)
    (hp : m.mem.exist p = true)
    (htraits : (tv.nothrowMoveConstructible || te.nothrowMoveConstructible) = true) :
    wp (Layout.swapBody tv te 2 (Heap.layout o) (Heap.layout p)) (fun _ => Inv tagNames)
      (Inv tagNames) (Inv tagNames) m := by
  obtain ⟨a, g, ts, h, hg⟩ := hI
  rw [lives_exist_eq h] at ho hp
  have hdone : ∀ (m' : Machine (Heap V E) Place) (ts' : List Bool),
      Lives Objects.life false a g ts' m' → Inv tagNames m' := fun m' ts' h' => ⟨a, g, ts', h', hg⟩
  cases hto : (g o).2 with
  | true =>
    cases htp : (g p).2 with
    | true =>
      simp only [Layout.swapBody, wp_bind, wp_look, lives_hasVal_eq h, hto, htp, Bool.and_self,
        ↓reduceIte]
      exact (Objects.tracked_left o).wp_swapElems (Objects.tracked_left p) tv h (of_val hg ho hto).1
        (of_val hg hp htp).1 hdone hdone
    | false =>
      simp only [Layout.swapBody, wp_bind, wp_look, lives_hasVal_eq h, hto, htp, Bool.and_false,
        Bool.not_true, Bool.not_false, Bool.and_true, Bool.false_eq_true, ↓reduceIte]
      exact wp_swapMixed h hg ho hp hto htp htraits
  | false =>
    cases htp : (g p).2 with
    | true =>
      simp only [Layout.swapBody, wp_bind, wp_look, lives_hasVal_eq h, hto, htp, Bool.and_false,
        Bool.not_true, Bool.not_false, Bool.and_true, Bool.false_eq_true, ↓reduceIte]
      exact wp_swapMixed h hg hp ho htp hto htraits
    | false =>
      simp only [Layout.swapBody, wp_bind, wp_look, lives_hasVal_eq h, hto, htp, Bool.and_false,
        Bool.not_false, Bool.and_true, Bool.false_eq_true, ↓reduceIte]
      exact (Objects.tracked_right o).wp_swapElems (Objects.tracked_right p) te h
        (of_unex hg ho hto).2 (of_unex hg hp htp).2 hdone hdone

/-! ## Runs -/

/-- What an operation needs of the heap and the schedule it runs on to keep the lifetimes in order:
value assignment meets a value, assignment from an `unexpected` meets an error, and copy assignment
meets the alternative that it copies, or an element with a trivial destructor. An assignment whose
argument cannot even be made into an element, because that construction throws, changes nothing and
needs nothing. -/
def Op.Sound (tv : ElemType V) (te : ElemType E) : Op V E → Heap V E → List Bool → Prop
  | .assignValue o v cat, h, throws =>
    (h.obj o).tag = true ∨ throwsNext (v.nothrowConstruct cat) throws = true
  | .assignUnexpected o g cat, h, throws =>
    (h.obj o).tag = false ∨ (tv.nothrowMoveConstructible = true
      ∧ throwsNext (g.value.nothrowConstruct cat) throws = true)
  | .assignCopy o p, h, _ =>
    (h.obj o).tag = (h.obj p).tag ∨
      (bif (h.obj o).tag then tv.trivialDestructor else te.trivialDestructor) = true
  | _, _, _ => True

/-- **The step lemma.** From the invariant, a sound operation does not fault and keeps the
invariant, whether it returns or throws. -/
theorem Op.wp_exec (op : Op V E) {throws : List Bool} (hI : Inv tagNames m)
    (husable : op.Usable m.mem) (henabled : op.Enabled tv te)
    (hsound : op.Sound tv te m.mem throws) :
    wp (op.exec tv te) (fun _ => Inv tagNames) (Inv tagNames) (Inv tagNames)
      { m with throws := throws } := by
  have hI' := hI.skip throws
  cases op with
  | constructValue o v cat => exact wp_constructValue (steady_ofArg _ _ _ _) hI' husable
  | constructUnexpected o g cat => exact wp_constructUnexpected (steady_ofArg _ _ _ _) hI' husable
  | assignValue o v cat => exact wp_assignValue (steady_ofArg _ _ _ _) hI' husable henabled hsound
  | assignUnexpected o g cat =>
    exact wp_assignUnexpected (steady_ofArg _ _ _ _) (steady_ofArg _ _ _ _) hI' husable hsound
  | assignCopy o p => exact wp_assignCopy hI' husable.1 husable.2 hsound
  | assignMove o p =>
    exact wp_noexceptIf _ (wp_assignMoveBody hI' husable.1 husable.2 henabled) fun _ h => h
  | swap o p => exact wp_noexceptIf _ (wp_swapBody hI' husable.1 husable.2 henabled) fun _ h => h
  | destroy o => exact wp_destroy hI' husable

/-- Induction on the run. -/
theorem inv_of_reachable (h : Reachable tv te (Op.Sound tv te) m) : Inv tagNames m := by
  induction h with
  | start => exact inv_start false
  | step op throws _ husable henabled hsound hexec ih =>
    exact wp_after (op.wp_exec ih husable henabled hsound) hexec

/-- **The lifetime invariant over runs.** After every operation of a run of sound operations,
exactly one slot of every object holds an element and `has_val_` names it; the log shows that at
every place, locals included, births and deaths alternate, the last birth being open exactly where
an element now is; no further sound operation faults, and one that ends in `std::terminate` does so
on a well-formed heap; and once all objects are destroyed, every element has been destroyed as
often as it was constructed. -/
theorem wellFormed_of_reachable (h : Reachable tv te (Op.Sound tv te) m) :
    m.mem.WellFormed ∧
    (∀ o k, replay (some (o, k)) m.log = some ((m.mem.obj o).holds k)) ∧
    replay none m.log = some false ∧
    (∀ (op : Op V E) (throws : List Bool), op.Usable m.mem → op.Enabled tv te →
      op.Sound tv te m.mem throws →
      (∀ f, op.exec tv te { m with throws := throws } ≠ .fault f) ∧
      ∀ m', op.exec tv te { m with throws := throws } = .terminated m' → m'.mem.WellFormed) ∧
    ((∀ o, m.mem.exist o = false) →
      ∀ l, m.log.count (.born l) = m.log.count (.died l)) := by
  have hI := inv_of_reachable h
  refine ⟨(Heap.wellFormed_iff _).mpr hI.wellFormed, hI.replay_eq, hI.replay_local, ?_, hI.count_eq⟩
  · intro op throws husable henabled hsound
    have hstep := op.wp_exec hI husable henabled hsound
    refine ⟨wp_ne_fault hstep, ?_⟩
    intro m' hm'
    exact (Heap.wellFormed_iff _).mpr (wp_terminated hstep hm').wellFormed

/-- One object, made from a value, assigned another one and destroyed. -/
theorem wellFormed_of_reachable_reassigned :
    ∃ m : Machine (Heap Nat Nat) Place,
      Reachable (.trivial Nat) (.trivial Nat) (Op.Sound (.trivial Nat) (.trivial Nat)) m ∧
      m.mem.WellFormed ∧ m.log.count (.born (some (0, .left))) = 1 ∧
      m.log.count (.died (some (0, .left))) = 1 := by
  have h₀ : Reachable (.trivial Nat) (.trivial Nat) (Op.Sound (.trivial Nat) (.trivial Nat)) _ :=
    .start
  have h₁ := h₀.step (.constructValue 0 (.trivial 3) .rvalue) [] rfl trivial trivial rfl
  have h₂ := h₁.step (.assignValue 0 (.trivial 4) .lvalue) [] rfl rfl (.inl rfl) rfl
  have h₃ := h₂.step (.destroy 0) [] rfl trivial trivial rfl
  exact ⟨_, h₃, (wellFormed_of_reachable h₃).1, rfl, rfl⟩

/-- **The tag after a value replaced an error.** An object made from an error and assigned a value
holds the value under a false `has_val_`, and its destructor destroys the error that is not
there. -/
theorem exists_reachable_not_wellFormed :
    ∃ m : Machine (Heap Nat Nat) Place,
      Reachable (ElemType.trivial Nat) (ElemType.trivial Nat) (fun _ _ _ => True) m ∧
      m.mem.exist 0 = true ∧ (m.mem.obj 0).tag = false ∧ (m.mem.obj 0).left = some 5 ∧
      (m.mem.obj 0).right = none ∧ ¬ m.mem.WellFormed ∧ destroy 0 m = .fault .deadDestroy := by
  have h₀ : Reachable (ElemType.trivial Nat) (ElemType.trivial Nat)
      (fun (_ : Op Nat Nat) _ _ => True) _ := .start
  have h₁ := h₀.step (.constructUnexpected 0 (.trivial 7) .rvalue) [] rfl trivial trivial rfl
  have h₂ := h₁.step (.assignValue 0 (.trivial 5) .rvalue) [] rfl rfl trivial rfl
  refine ⟨_, h₂, rfl, rfl, rfl, rfl, fun hwf => ?_, rfl⟩
  have hobj := hwf 0
  exact absurd hobj.1 (by decide)

end Hy.Tiny

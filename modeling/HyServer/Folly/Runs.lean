import HyServer.Folly.Storage

/-!
# hy::expected after folly — the general storage over whole runs

`which_` names the member that is alive, in every state a client can reach by operations that meet
`Op.Sound`. The operation that does not keep this by itself is the second overload of
`doEmplaceAssign`: it destroys the old element before it constructs the new one, and when that
construction throws, `which_` still names the element that is gone. `assignValue` and `assignError`
avoid this in their other branch, where `clear` resets `which_` first.
-/

namespace Hy.Folly

open Cpp

/-! ## Well-formed heaps -/

section WellFormed

variable {V E : Type}

/-- The member that each value of `which_` says is alive. -/
def whichNames : Which → Slot → Bool
  | .eValue, .left => true
  | .eError, .right => true
  | _, _ => false

theorem whichNames_eValue (j : Slot) : whichNames .eValue j = decide (j = .left) := by
  cases j <;> rfl

theorem whichNames_eError (j : Slot) : whichNames .eError j = decide (j = .right) := by
  cases j <;> rfl

/-- `which_` tells which of the two members are alive. -/
def WhichNamesAlive (x : Tagged Which V E) : Prop :=
  (x.tag = .eValue ↔ x.holds .left = true ∧ x.holds .right = false) ∧
  (x.tag = .eError ↔ x.holds .left = false ∧ x.holds .right = true) ∧
  (x.tag = .eEmpty ↔ x.holds .left = false ∧ x.holds .right = false)

/-- Every object is as it should be, and what is no object holds no element. -/
def Heap.WellFormed (h : Heap V E) : Prop :=
  ∀ o, if h.exist o then WhichNamesAlive (h.obj o)
    else (h.obj o).holds .left = false ∧ (h.obj o).holds .right = false

theorem Heap.wellFormed_of {h : Heap V E} (hwf : Objects.WellFormed whichNames h) :
    Heap.WellFormed h := by
  intro o
  have hleft := hwf o .left
  have hright := hwf o .right
  cases ho : h.exist o with
  | true =>
    rw [ho, Bool.true_and] at hleft hright
    show WhichNamesAlive (h.obj o)
    unfold WhichNamesAlive
    rw [hleft, hright]
    cases (h.obj o).tag <;> decide
  | false =>
    rw [ho, Bool.false_and] at hleft hright
    exact ⟨hleft, hright⟩

end WellFormed

/-! ## One alternative -/

section Members

variable {V E T : Type} {m : Machine (Heap V E) Place} {a : Place → Bool} {g : Nat → Bool × Which}
  {ts : List Bool}

/-- The invariant, with the assertion it comes from. -/
theorem inv_of_lives (h : Lives Objects.life false a g ts m) (hg : Good whichNames a g) :
    Inv whichNames m :=
  ⟨a, g, ts, h, hg⟩

/-- `clear` empties its object and changes nothing else. -/
theorem wp_clear {b : Bool} {Q : Unit → Machine (Heap V E) Place → Prop}
    {R K : Machine (Heap V E) Place → Prop} {o : Nat} (h : Lives Objects.life b a g ts m)
    (hg : Good whichNames a g) (ho : (g o).1 = true)
    (hQ : ∀ a' m', Lives Objects.life b a' (Function.update g o ((g o).1, .eEmpty)) ts m' →
      Good whichNames a' (Function.update g o ((g o).1, .eEmpty)) →
      (∀ p, p ≠ o → ∀ k, a' (p, k) = a (p, k)) → Q () m') :
    wp (clear o) Q R K m := by
  have hwhich : which o m.mem = (g o).2 := lives_tag_eq h o
  cases htag : (g o).2 with
  | eEmpty =>
    simp only [clear, wp_bind, wp_look, hwhich, htag, wp_update]
    exact hQ a _ (lives_setTag h o .eEmpty) (hg.sameTag htag) fun _ _ _ => rfl
  | eValue =>
    simp only [clear, wp_bind, wp_look, hwhich, htag]
    refine (Objects.tracked_left o).wp_destroyAt h (hg.of_tag ho htag .left) fun m₁ h₁ => ?_
    refine hQ _ _ (lives_setTag h₁ o .eEmpty) (hg.change (by simp [whichNames]) fun j hj => ?_) ?_
    · cases j
      · exact absurd rfl hj
      · rw [hg.of_tag ho htag .right]
        simp [whichNames]
    · intro p hp k
      exact Function.update_of_ne (by simp [hp]) ..
  | eError =>
    simp only [clear, wp_bind, wp_look, hwhich, htag]
    refine (Objects.tracked_right o).wp_destroyAt h (hg.of_tag ho htag .right) fun m₁ h₁ => ?_
    refine hQ _ _ (lives_setTag h₁ o .eEmpty) (hg.change (by simp [whichNames]) fun j hj => ?_) ?_
    · cases j
      · rw [hg.of_tag ho htag .left]
        simp [whichNames]
      · exact absurd rfl hj
    · intro p hp k
      exact Function.update_of_ne (by simp [hp]) ..

/-- `doEmplaceAssign` leaves the element it was given alive, unless it took its second overload and
the construction threw. -/
theorem wp_doEmplaceAssign {ty : PayloadType T} {c : Cell (Heap V E) Place T}
    {us : Init (Heap V E) T} {src : Option Place} (hc : Tracked Objects.life c)
    (hus : Steady Objects.life src us) (h : Lives Objects.life false a g ts m)
    (hg : Good whichNames a g) (hsrc : ∀ l ∈ src, a l = true ∧ l ≠ c.loc)
    (halive : a c.loc = true)
    (hsound : ty.assignable = true ∨ throwsNext us.nothrowConstruct ts = false) :
    wp (doEmplaceAssign ty c us) (fun _ => Inv whichNames) (Inv whichNames) (Inv whichNames) m := by
  unfold doEmplaceAssign
  split
  · refine wp_noexceptIf _ ?_ fun _ h' => h'
    refine wp_withLocal_lives hus h (fun l hl => (hsrc l hl).1)
      (fun _ m₁ h₁ => inv_of_lives h₁ hg) fun _ temp m₁ h₁ => ?_
    exact hc.wp_assignAt (steady_moveLocal _ ty.toElemType temp) h₁ (by simp) halive
      (fun m₂ ts₂ h₂ => inv_of_lives h₂.closeLocal hg)
      (fun m₂ ts₂ h₂ => inv_of_lives h₂.closeLocal hg)
  · next hassign =>
    have hnext : throwsNext us.nothrowConstruct ts = false := hsound.resolve_left hassign
    unfold doEmplaceAssignLong
    rw [wp_bind]
    refine hc.wp_destroyAt h halive fun m₁ h₁ => ?_
    refine hc.wp_constructAt hus h₁ (fun l hl => ?_) (Function.update_self ..) (fun _ m₂ h₂ => ?_)
      fun hthrow => ?_
    · rw [Function.update_of_ne (hsrc l hl).2]
      exact (hsrc l hl).1
    · rw [Function.update_idem, Function.update_eq_self_iff.mpr halive.symm] at h₂
      exact inv_of_lives h₂ hg
    · rw [hnext] at hthrow
      cases hthrow

/-- `assignValue` and `assignError`, for the alternative `w` whose member is slot `k`. When the
object holds the other alternative or nothing, it is empty at the only throw point. -/
theorem wp_assignMember {ty : PayloadType T} {w : Which} {k : Slot}
    {member : Cell (Heap V E) Place T} {o : Nat} {us : Init (Heap V E) T} {src : Option Place}
    {R : Machine (Heap V E) Place → Prop} (hc : Tracked Objects.life member)
    (hloc : member.loc = (o, k)) (hw : ∀ j, whichNames w j = decide (j = k))
    (hus : Steady Objects.life src us) (h : Lives Objects.life false a g ts m)
    (hg : Good whichNames a g) (ho : (g o).1 = true) (hsrc : ∀ l ∈ src, a l = true ∧ l.1 ≠ o)
    (hsound : (g o).2 = w → ty.assignable = true ∨ throwsNext us.nothrowConstruct ts = false)
    (hR : ∀ m', Inv whichNames m' → ((g o).2 = .eEmpty → (m'.mem.obj o).tag = .eEmpty) → R m') :
    wp (assignMember ty w member o us) (fun _ => Inv whichNames) R (Inv whichNames) m := by
  have hwhich : which o m.mem = (g o).2 := lives_tag_eq h o
  by_cases htag : (g o).2 = w
  · simp only [assignMember, wp_bind, wp_look, hwhich, htag, ↓reduceIte]
    have hmember : whichNames w k = true := by rw [hw k]; exact decide_eq_true rfl
    have hemplace := wp_doEmplaceAssign hc hus h hg (fun l hl => ⟨(hsrc l hl).1, fun heq =>
      (hsrc l hl).2 (by rw [heq, hloc])⟩) (by rw [hloc, hg.of_tag ho htag k, hmember]) (hsound htag)
    refine wp_mono hemplace (fun _ _ h' => h') (fun m' h' => hR m' h' fun hempty => ?_)
      fun _ h' => h'
    rw [← htag, hempty] at hmember
    cases k <;> cases hmember
  · simp only [assignMember, wp_bind, wp_look, hwhich, htag, ↓reduceIte]
    refine wp_clear h hg ho fun a₁ m₁ h₁ hg₁ hother => ?_
    have hempty : ∀ j, a₁ (o, j) = false := by
      intro j
      rw [hg₁ o j, Function.update_self]
      cases j <;> simp [whichNames]
    rw [wp_bind]
    refine hc.wp_constructAt hus h₁ (fun l hl => ?_) (by rw [hloc, hempty]) (fun _ m₂ h₂ => ?_)
      fun _ m₂ h₂ => hR m₂ (inv_of_lives h₂ hg₁) fun _ => ?_
    · rw [show l = (l.1, l.2) from rfl, hother l.1 (hsrc l hl).2 l.2]
      exact (hsrc l hl).1
    · rw [hloc] at h₂
      refine inv_of_lives (lives_setTag h₂ o w) (hg₁.change ?_ fun j hj => ?_)
      · simp [ho, hw]
      · simp [hempty, hw, hj]
    · rw [lives_tag_eq h₂, Function.update_self]

end Members

/-! ## The operations -/

section Operations

variable {V E T : Type} {tv : PayloadType V} {te : PayloadType E}
  {m : Machine (Heap V E) Place}

/-- What replacing the alternative `w` of an object by itself needs: it is an assignment, or the
construction does not throw. -/
def EmplaceSound (ty : PayloadType T) (w : Which) (o : Nat) (us : Init (Heap V E) T)
    (h : Heap V E) (throws : List Bool) : Prop :=
  which o h = w → ty.assignable = true ∨ throwsNext us.nothrowConstruct throws = false

/-- The same for `assign`, whose argument decides the alternative. -/
def AssignSound (tv : PayloadType V) (te : PayloadType E) (o rhs : Nat) (cat : ValueCategory)
    (h : Heap V E) (throws : List Bool) : Prop :=
  o ≠ rhs →
    (which rhs h = .eValue →
      EmplaceSound tv .eValue o (forwardMember tv (value rhs) cat) h throws) ∧
    (which rhs h = .eError →
      EmplaceSound te .eError o (forwardMember te (error rhs) cat) h throws)

/-- An operation is sound unless it replaces an alternative by itself, in a type that cannot be
assigned to, with a constructor that throws. Only the assignments can do so: a constructor starts
from the empty object. -/
def Op.Sound (tv : PayloadType V) (te : PayloadType E) : Op V E → Heap V E → List Bool → Prop
  | .assignValue o vs cat, h, throws => EmplaceSound tv .eValue o (vs.as cat) h throws
  | .assignError o es cat, h, throws => EmplaceSound te .eError o (es.as cat) h throws
  | .assign o rhs cat, h, throws => AssignSound tv te o rhs cat h throws
  | .assignForeign o (.eValue v) cat, h, throws => EmplaceSound tv .eValue o (v.as cat) h throws
  | .assignForeign o (.eError e) cat, h, throws => EmplaceSound te .eError o (e.as cat) h throws
  | .assignCopy o rhs, h, throws => AssignSound tv te o rhs .lvalue h throws
  | .assignMove o rhs, h, throws => AssignSound tv te o rhs .rvalue h throws
  | _, _, _ => True

theorem steady_forwardMember (ty : PayloadType T) {member : Cell (Heap V E) Place T}
    (hc : Tracked Objects.life member) (cat : ValueCategory) :
    Steady Objects.life (some member.loc) (forwardMember ty member cat) := by
  cases cat with
  | lvalue => exact hc.steady_copy ty.toElemType
  | rvalue => exact hc.steady_move ty.toElemType

theorem inv_clear {o : Nat} (hI : Inv whichNames m) (hexist : m.mem.exist o = true)
    {R K : Machine (Heap V E) Place → Prop} :
    wp (clear o) (fun _ => Inv whichNames) R K m := by
  obtain ⟨a, g, ts, h, hg⟩ := hI
  exact wp_clear h hg (by rw [← lives_exist_eq h]; exact hexist)
    fun a' m' h' hg' _ => inv_of_lives h' hg'

/-- `assignValue` and `assignError` from outside the objects. -/
theorem inv_assignMember {ty : PayloadType T} {w : Which} {k : Slot}
    {member : Cell (Heap V E) Place T} {o : Nat} {us : Init (Heap V E) T}
    (hc : Tracked Objects.life member) (hloc : member.loc = (o, k))
    (hw : ∀ j, whichNames w j = decide (j = k)) (hus : Steady Objects.life none us)
    (hI : Inv whichNames m) (hexist : m.mem.exist o = true)
    (hsound : EmplaceSound ty w o us m.mem m.throws) :
    wp (assignMember ty w member o us) (fun _ => Inv whichNames) (Inv whichNames)
      (Inv whichNames) m := by
  obtain ⟨a, g, ts, h, hg⟩ := hI
  rw [lives_exist_eq h] at hexist
  refine wp_assignMember hc hloc hw hus h hg hexist (by simp) ?_ fun _ h' _ => h'
  intro htag
  rw [← h.throws_eq]
  exact hsound ((lives_tag_eq h o).trans htag)

/-- `assign` from another object, or from itself. On an object that was empty, a throw leaves it
empty. -/
theorem wp_assign {o rhs : Nat} {cat : ValueCategory} {R : Machine (Heap V E) Place → Prop}
    (hI : Inv whichNames m) (ho : m.mem.exist o = true) (hrhs : m.mem.exist rhs = true)
    (hsound : AssignSound tv te o rhs cat m.mem m.throws)
    (hR : ∀ m', Inv whichNames m' → (which o m.mem = .eEmpty → (m'.mem.obj o).tag = .eEmpty) →
      R m') :
    wp (assign tv te o rhs cat) (fun _ => Inv whichNames) R (Inv whichNames) m := by
  unfold assign
  split
  · exact hI
  · next hne =>
    obtain ⟨a, g, ts, h, hg⟩ := id hI
    have hwhich : ∀ p, which p m.mem = (g p).2 := lives_tag_eq h
    rw [lives_exist_eq h] at ho hrhs
    have hR' : ∀ m', Inv whichNames m' → ((g o).2 = .eEmpty → (m'.mem.obj o).tag = .eEmpty) →
        R m' := fun m' h' htag => hR m' h' fun hempty => htag ((hwhich o).symm.trans hempty)
    obtain ⟨hvalue, herror⟩ := hsound hne
    rw [wp_bind, wp_look]
    cases htag : (g rhs).2 with
    | eEmpty =>
      simp only [hwhich, htag]
      exact wp_clear h hg ho fun a' m' h' hg' _ => inv_of_lives h' hg'
    | eValue =>
      simp only [hwhich, htag]
      refine wp_assignMember (Objects.tracked_left o) rfl whichNames_eValue
        (steady_forwardMember tv (Objects.tracked_left rhs) cat) h hg ho ?_ (fun hto => ?_) hR'
      · rintro l ⟨⟩
        exact ⟨hg.of_tag hrhs htag .left, Ne.symm hne⟩
      · rw [← h.throws_eq]
        exact hvalue ((hwhich rhs).trans htag) ((hwhich o).trans hto)
    | eError =>
      simp only [hwhich, htag]
      refine wp_assignMember (Objects.tracked_right o) rfl whichNames_eError
        (steady_forwardMember te (Objects.tracked_right rhs) cat) h hg ho ?_ (fun hto => ?_) hR'
      · rintro l ⟨⟩
        exact ⟨hg.of_tag hrhs htag .right, Ne.symm hne⟩
      · rw [← h.throws_eq]
        exact herror ((hwhich rhs).trans htag) ((hwhich o).trans hto)

/-! ## Construction and destruction -/

/-- The object `constructEmpty` makes, and what unwinding it leaves, hold no element. -/
theorem inv_setExist_of_empty {o : Nat} {e : Bool} (hI : Inv whichNames m)
    (htag : (m.mem.obj o).tag = .eEmpty) :
    Inv whichNames { m with mem := Objects.setExist o e m.mem } := by
  obtain ⟨a, g, ts, h, hg⟩ := hI
  rw [lives_tag_eq h] at htag
  refine inv_of_lives (lives_setExist h o e) (hg.retag fun k => ?_)
  rw [hg o k, htag]
  cases k <;> simp [whichNames]

theorem inv_setTag_of_absent {o : Nat} {w : Which} (hI : Inv whichNames m)
    (hexist : m.mem.exist o = false) :
    Inv whichNames { m with mem := Objects.setTag o w m.mem } := by
  obtain ⟨a, g, ts, h, hg⟩ := hI
  rw [lives_exist_eq h] at hexist
  refine inv_of_lives (lives_setTag h o w) (hg.retag fun k => ?_)
  rw [hg.of_absent hexist k, hexist, Bool.false_and]

theorem inv_constructEmpty {o : Nat} (hI : Inv whichNames m) (hexist : m.mem.exist o = false) :
    Inv whichNames { m with mem := Objects.setExist o true (Objects.setTag o .eEmpty m.mem) } :=
  inv_setExist_of_empty (inv_setTag_of_absent hI hexist) (by simp [Objects.setTag])

/-- `constructValue` and `constructError`, for the alternative `w` whose member is slot `k`. -/
theorem inv_constructMember {w : Which} {k : Slot} {member : Cell (Heap V E) Place T} {o : Nat}
    {us : Init (Heap V E) T} (hc : Tracked Objects.life member) (hloc : member.loc = (o, k))
    (hw : ∀ j, whichNames w j = decide (j = k)) (hus : Steady Objects.life none us)
    (hI : Inv whichNames m) (hexist : m.mem.exist o = false) :
    wp (do constructAt member us; update (Objects.setTag o w); update (Objects.setExist o true))
      (fun _ => Inv whichNames) (Inv whichNames) (Inv whichNames) m := by
  obtain ⟨a, g, ts, h, hg⟩ := hI
  rw [lives_exist_eq h] at hexist
  rw [wp_bind]
  refine hc.wp_constructAt hus h (by simp) (by rw [hloc, hg.of_absent hexist]) (fun _ m₁ h₁ => ?_)
    fun _ m₁ h₁ => inv_of_lives h₁ hg
  rw [hloc] at h₁
  have hgood : Good whichNames (Function.update a (o, k) true)
      (Function.update g o (true, w)) := by
    refine hg.change (by simp [hw]) fun j hj => ?_
    rw [hg.of_absent hexist]
    simp [hw, hj]
  exact inv_of_lives (lives_setExist (lives_setTag h₁ o w) o true) (by simpa using hgood)

/-- The copy and move constructors. When `assign` throws, the object it left is empty, as the
unwinding of the base needs. -/
theorem inv_constructFrom {o rhs : Nat} {cat : ValueCategory} {nothrow : Bool}
    (hI : Inv whichNames m) (ho : m.mem.exist o = false) (hrhs : m.mem.exist rhs = true) :
    wp (constructFrom tv te o rhs cat nothrow) (fun _ => Inv whichNames) (Inv whichNames)
      (Inv whichNames) m := by
  have hne : rhs ≠ o := by
    rintro rfl
    rw [ho] at hrhs
    cases hrhs
  have hempty : which o (Objects.setExist o true (Objects.setTag o .eEmpty m.mem)) = .eEmpty := by
    simp [which, Objects.setExist, Objects.setTag]
  simp only [constructFrom, constructEmpty, wp_bind, wp_update]
  refine wp_tryRethrow (wp_mono (wp_noexceptIf _ (wp_assign
    (R := fun m' => Inv whichNames m' ∧ (m'.mem.obj o).tag = .eEmpty)
    (inv_constructEmpty hI ho) ?_ ?_ ?_ ?_) fun _ h' => h'.1) (fun _ _ h' => h') ?_ fun _ h' => h')
  · simp [Objects.setExist]
  · show Function.update m.mem.exist o true rhs = true
    rw [Function.update_of_ne hne, hrhs]
  · intro _
    constructor
    · intro _ htag
      rw [hempty] at htag
      cases htag
    · intro _ htag
      rw [hempty] at htag
      cases htag
  · exact fun m' h' htag => ⟨h', htag hempty⟩
  · exact fun m' h' => inv_setExist_of_empty h'.1 h'.2

theorem inv_destroy {o : Nat} (hI : Inv whichNames m) (hexist : m.mem.exist o = true)
    {R K : Machine (Heap V E) Place → Prop} :
    wp (destroy o) (fun _ => Inv whichNames) R K m := by
  obtain ⟨a, g, ts, h, hg⟩ := hI
  rw [lives_exist_eq h] at hexist
  unfold destroy
  rw [wp_bind]
  refine wp_clear h hg hexist fun a' m' h' hg' _ => ?_
  refine inv_setExist_of_empty (inv_of_lives h' hg') ?_
  rw [lives_tag_eq h', Function.update_self]

/-! ## Runs -/

/-- **The step lemma.** From the invariant, a sound operation does not fault and keeps the
invariant, whether it returns, throws or ends the process. -/
theorem Op.wp_exec (op : Op V E) {throws : List Bool} (hI : Inv whichNames m)
    (husable : op.Usable m.mem) (hsound : op.Sound tv te m.mem throws) :
    wp (op.exec tv te) (fun _ => Inv whichNames) (Inv whichNames) (Inv whichNames)
      { m with throws := throws } := by
  have hI' := hI.skip throws
  cases op with
  | constructEmpty o => exact inv_constructEmpty hI' husable
  | constructValue o vs cat =>
    exact inv_constructMember (Objects.tracked_left o) rfl whichNames_eValue
      (steady_ofArg _ _ _ _) hI' husable
  | constructError o es cat =>
    exact inv_constructMember (Objects.tracked_right o) rfl whichNames_eError
      (steady_ofArg _ _ _ _) hI' husable
  | constructCopy o rhs => exact inv_constructFrom hI' husable.1 husable.2
  | constructMove o rhs => exact inv_constructFrom hI' husable.1 husable.2
  | assignValue o vs cat =>
    exact inv_assignMember (Objects.tracked_left o) rfl whichNames_eValue
      (steady_ofArg _ _ _ _) hI' husable hsound
  | assignError o es cat =>
    exact inv_assignMember (Objects.tracked_right o) rfl whichNames_eError
      (steady_ofArg _ _ _ _) hI' husable hsound
  | assign o rhs cat => exact wp_assign hI' husable.1 husable.2 hsound fun _ h' _ => h'
  | assignForeign o rhs cat =>
    cases rhs with
    | eEmpty => exact inv_clear hI' husable
    | eValue v =>
      exact inv_assignMember (Objects.tracked_left o) rfl whichNames_eValue
        (steady_ofArg _ _ _ _) hI' husable hsound
    | eError e =>
      exact inv_assignMember (Objects.tracked_right o) rfl whichNames_eError
        (steady_ofArg _ _ _ _) hI' husable hsound
  | assignCopy o rhs =>
    exact wp_noexceptIf _ (wp_assign hI' husable.1 husable.2 hsound fun _ h' _ => h') fun _ h' => h'
  | assignMove o rhs =>
    exact wp_noexceptIf _ (wp_assign hI' husable.1 husable.2 hsound fun _ h' _ => h') fun _ h' => h'
  | clear o => exact inv_clear hI' husable
  | destroy o => exact inv_destroy hI' husable

/-- Induction on the run. -/
theorem inv_of_reachable (h : Reachable tv te (Op.Sound tv te) m) : Inv whichNames m := by
  induction h with
  | start => exact inv_start Which.eEmpty
  | step op throws _ husable hsound hexec ih =>
    exact wp_after (op.wp_exec ih husable hsound) hexec

/-- **The discriminator invariant over runs.** After every operation of a run of sound operations,
`which_` tells which member of each object is alive; the log shows that at every place births and
deaths alternate, the last birth being open exactly where an element now is; no further sound
operation faults, and one that ends in `std::terminate` does so on a well-formed heap; and once all
objects are destroyed, every element has been destroyed as often as it was constructed. -/
theorem whichNamesAlive_of_reachable (h : Reachable tv te (Op.Sound tv te) m) :
    Heap.WellFormed m.mem ∧
    (∀ o k, replay (some (o, k)) m.log = some ((m.mem.obj o).holds k)) ∧
    replay none m.log = some false ∧
    (∀ (op : Op V E) (throws : List Bool), op.Usable m.mem → op.Sound tv te m.mem throws →
      (∀ f, op.exec tv te { m with throws := throws } ≠ .fault f) ∧
      ∀ m', op.exec tv te { m with throws := throws } = .terminated m' →
        Heap.WellFormed m'.mem) ∧
    ((∀ o, m.mem.exist o = false) → ∀ l, m.log.count (.born l) = m.log.count (.died l)) := by
  have hI := inv_of_reachable h
  refine ⟨Heap.wellFormed_of hI.wellFormed, hI.replay_eq, hI.replay_local, ?_, hI.count_eq⟩
  intro op throws husable hsound
  have hstep := op.wp_exec hI husable hsound
  exact ⟨wp_ne_fault hstep, fun m' hm' => Heap.wellFormed_of (wp_terminated hstep hm').wellFormed⟩

/-- An error put over a value, then emplaced over with a throwing constructor in a type that can be
assigned to. -/
theorem whichNamesAlive_of_reachable_reassigned :
    ∃ m : Machine (Heap Nat Nat) Place,
      Reachable ⟨.trivial Nat, true⟩ ⟨.trivial Nat, true⟩
        (Op.Sound ⟨.trivial Nat, true⟩ ⟨.trivial Nat, true⟩) m ∧
      Heap.WellFormed m.mem ∧ (m.mem.obj 0).tag = .eError ∧ (m.mem.obj 0).right = some 5 := by
  have h₀ : Reachable (V := Nat) (E := Nat) ⟨.trivial Nat, true⟩ ⟨.trivial Nat, true⟩
      (Op.Sound ⟨.trivial Nat, true⟩ ⟨.trivial Nat, true⟩) _ := .start
  have h₁ := h₀.step (.constructValue 0 (.trivial 3) .rvalue) [] rfl trivial rfl
  have h₂ := h₁.step (.assignError 0 (.trivial 5) .lvalue) [] rfl (fun _ => .inl rfl) rfl
  have h₃ := h₂.step (.assignError 0 (.mayThrow 6) .lvalue) [true] rfl (fun _ => .inl rfl) rfl
  exact ⟨_, h₃, (whichNamesAlive_of_reachable h₃).1, rfl, rfl⟩

/-- **A value that is gone and still named.** In a type without assignment, assigning a value over a
value with a constructor that throws leaves `which_` at `eValue` with no value alive, and the
destructor destroys it again. -/
theorem exists_reachable_not_whichNamesAlive :
    ∃ m : Machine (Heap Nat Nat) Place,
      Reachable ⟨.trivial Nat, false⟩ ⟨.trivial Nat, false⟩ (fun _ _ _ => True) m ∧
      m.mem.exist 0 = true ∧ which 0 m.mem = .eValue ∧ (m.mem.obj 0).left = none ∧
      ¬ Heap.WellFormed m.mem ∧ destroy 0 m = .fault .deadDestroy := by
  have h₀ : Reachable (V := Nat) (E := Nat) ⟨.trivial Nat, false⟩ ⟨.trivial Nat, false⟩
      (fun _ _ _ => True) _ := .start
  have h₁ := h₀.step (.constructValue 0 (.trivial 3) .rvalue) [] rfl trivial rfl
  have h₂ := h₁.step (.assignValue 0 (.mayThrow 4) .lvalue) [true] rfl trivial rfl
  refine ⟨_, h₂, rfl, rfl, rfl, fun hwf => ?_, rfl⟩
  have hobj : WhichNamesAlive _ := hwf 0
  exact absurd (hobj.1.mp rfl).1 (by decide)

end Operations

end Hy.Folly

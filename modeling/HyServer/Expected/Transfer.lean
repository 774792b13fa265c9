import HyServer.Expected.Reinit

/-!
# hy::expected — what assignment carries over

The copy and the move assignment of the general storage, with their values. The move assignment is
the operator `Layout.assignFrom`, which tests `this` and then `other`. So would the template for
copies be, were its inner test not on `this` again; but it is the implicit copy assignment that runs
for `a = b`, and that one makes the target what the source is, byte by byte.

* `Transferred` — the target has the state of the source, and the source what the forwarding left.
* `wp_assignFrom` — the operator carries over, or throws; when it would have changed the
  alternative, the heap is then as it was.
* `reinitExpected_strong` — the strong guarantee, from `reinit_expected` up to the move assignment.
* `copyAgrees` — copy and move assignment agree.
* `assignCopyTemplate_iff` — the template, called by its name, does what the copy assignment does
  unless an error is copied over a value.
-/

namespace Hy.Tiny

open Cpp

section Stored

variable {V E : Type}

/-! ## Objects by their state -/

/-- The object that holds a value, or an error. -/
def stored : V ⊕ E → Tagged Bool V E
  | .inl v => ⟨true, some v, none⟩
  | .inr e => ⟨false, none, some e⟩

theorem stored_tag (x : V ⊕ E) : (stored x).tag = x.isLeft := by
  cases x <;> rfl

theorem stored_holds (x : V ⊕ E) (k : Slot) : (stored x).holds k = tagNames (stored x).tag k := by
  cases x <;> cases k <;> rfl

/-- Every object of a well-formed heap is of this form. -/
theorem Heap.WellFormed.exists_stored {h : Heap V E} (hwf : h.WellFormed) {o : Nat}
    (ho : h.exist o = true) : ∃ x, h.obj o = stored x := by
  have hobj := hwf o
  rw [if_pos ho] at hobj
  generalize h.obj o = x at hobj ⊢
  obtain ⟨tag, left, right⟩ := x
  obtain ⟨hval, hunex⟩ := hobj
  cases tag with
  | true =>
    obtain ⟨v, rfl⟩ := Option.isSome_iff_exists.mp hval
    have hright : right = none := by simpa [Tagged.holds] using hunex
    exact ⟨.inl v, by rw [hright]; rfl⟩
  | false =>
    obtain ⟨e, rfl⟩ := Option.isSome_iff_exists.mp hunex
    have hleft : left = none := by simpa [Tagged.holds] using hval
    exact ⟨.inr e, by rw [hleft]; rfl⟩

/-- And a heap all of whose objects are of this form is well formed. -/
theorem Heap.wellFormed_of_stored {h h' : Heap V E} (hwf : h.WellFormed)
    (hexist : h'.exist = h.exist)
    (hobj : ∀ o, h'.obj o = h.obj o ∨ h.exist o = true ∧ ∃ x, h'.obj o = stored x) :
    h'.WellFormed := by
  intro o
  rw [hexist]
  rcases hobj o with heq | ⟨ho, x, hx⟩
  · rw [heq]
    exact hwf o
  · rw [if_pos ho, hx]
    exact ⟨stored_holds x .left, stored_holds x .right⟩

/-! ## Transfers -/

/-- What is left of a state that was forwarded and taken. -/
def leavesState (tv : ElemType V) (te : ElemType E) (cat : ValueCategory) : V ⊕ E → V ⊕ E :=
  Sum.map (tv.leaves cat) (te.leaves cat)

/-- The state `x` of `p` has been carried over to `o`. -/
structure Transferred (tv : ElemType V) (te : ElemType E) (cat : ValueCategory) (o p : Nat)
    (x : V ⊕ E) (h h' : Heap V E) : Prop where
  target : h'.obj o = stored x
  source : p ≠ o → h'.obj p = stored (leavesState tv te cat x)
  other : ∀ q, q ≠ o → q ≠ p → h'.obj q = h.obj q
  exist : h'.exist = h.exist

/-- `operator=` with the test on `other` in both branches, as the move assignment has it. -/
def Layout.assignFrom {σ ℓ : Type} (cat : ValueCategory) (self other : Layout σ ℓ V E)
    (tv : ElemType V) (te : ElemType E) : Prog σ ℓ Unit := do
  if ← look self.hasVal then
    if ← look other.hasVal then
      assignAt self.val (Init.forward tv other.val cat)
    else
      reinitExpected self.unex self.val te tv (Init.forward te other.unex cat)
  else
    if ← look other.hasVal then
      reinitExpected self.val self.unex tv te (Init.forward tv other.val cat)
    else
      assignAt self.unex (Init.forward te other.unex cat)
  let otherHasVal ← look other.hasVal
  update (self.setHasVal otherHasVal)

theorem Layout.assignMoveBody_eq {σ ℓ : Type} (self other : Layout σ ℓ V E) (tv : ElemType V)
    (te : ElemType E) :
    self.assignMoveBody other tv te = Layout.assignFrom .rvalue self other tv te := rfl

/-- Where the two tests of the template for copies cannot disagree. -/
theorem Layout.assignCopyTemplate_eq {σ ℓ : Type} (self other : Layout σ ℓ V E) (tv : ElemType V)
    (te : ElemType E) {m : Machine σ ℓ}
    (h : self.hasVal m.mem = false ∨ other.hasVal m.mem = true) :
    self.assignCopyTemplate other tv te m = Layout.assignFrom .lvalue self other tv te m := by
  show (look self.hasVal >>= _) m = (look self.hasVal >>= _) m
  cases hself : self.hasVal m.mem with
  | false => simp [look, bind, hself, Init.forward]
  | true =>
    have hother : other.hasVal m.mem = true := by simpa [hself] using h
    simp [look, bind, hself, hother, Init.forward]

/-! ## The operator -/

section Heaps

variable {tv : ElemType V} {te : ElemType E} {cat : ValueCategory} {o p : Nat} {h : Heap V E}

/-- A change of the source, then one of the target, which are perhaps one object. -/
theorem transferred_modify {x : V ⊕ E} {f g : Tagged Bool V E → Tagged Bool V E}
    (hsource : g (h.obj p) = stored (leavesState tv te cat x))
    (htarget : o ≠ p → f (h.obj o) = stored x) (hself : o = p → f (g (h.obj o)) = stored x) :
    Transferred tv te cat o p x h (Objects.modify o f (Objects.modify p g h)) where
  target := by
    rw [Objects.obj_modify_self]
    by_cases hop : o = p
    · subst hop
      rw [Objects.obj_modify_self]
      exact hself rfl
    · rw [Objects.obj_modify_of_ne hop]
      exact htarget hop
  source hpo := by
    rw [Objects.obj_modify_of_ne hpo, Objects.obj_modify_self, hsource]
  other q hqo hqp := by
    rw [Objects.obj_modify_of_ne hqo, Objects.obj_modify_of_ne hqp]
  exist := rfl

variable {m : Machine (Heap V E) Place} {Q : Unit → Machine (Heap V E) Place → Prop}
  {R K : Machine (Heap V E) Place → Prop}

/-- A member of an object whose other member is alive gives way to what another object forwards. -/
theorem reinitCall_toUnex {v : V} {e : E} (hop : o ≠ p) (ho : h.obj o = stored (.inl v))
    (hp : h.obj p = stored (.inr e)) :
    ReinitCall (Heap.unexCell o) (Heap.valCell o) (Init.forward te (Heap.unexCell p) cat) v e h
      ((Heap.unexCell p).write (te.leaves cat e) h) where
  new := Objects.exact_right o
  old := Objects.exact_left o
  apart := (Objects.apart_left_right o o).symm
  args_new := (Objects.apart_right hop.symm).init_forward te cat
  args_old := (Objects.apart_left_right o p).symm.init_forward te cat
  dead := congrArg Tagged.right ho
  alive := congrArg Tagged.left ho
  run := Init.run_forward te (Objects.exact_right p) cat (congrArg Tagged.right hp)

theorem reinitCall_toVal {v : V} {e : E} (hop : o ≠ p) (ho : h.obj o = stored (.inr e))
    (hp : h.obj p = stored (.inl v)) :
    ReinitCall (Heap.valCell o) (Heap.unexCell o) (Init.forward tv (Heap.valCell p) cat) e v h
      ((Heap.valCell p).write (tv.leaves cat v) h) where
  new := Objects.exact_left o
  old := Objects.exact_right o
  apart := Objects.apart_left_right o o
  args_new := (Objects.apart_left hop.symm).init_forward tv cat
  args_old := (Objects.apart_left_right p o).init_forward tv cat
  dead := congrArg Tagged.left ho
  alive := congrArg Tagged.right ho
  run := Init.run_forward tv (Objects.exact_left p) cat (congrArg Tagged.left hp)

/-- The end of the operator: the target takes the tag of the source, read once more. -/
theorem wp_takeTag {x : V ⊕ E} {f g : Tagged Bool V E → Tagged Bool V E}
    (hmem : m.mem = Objects.modify o f (Objects.modify p g h))
    (hsource : g (h.obj p) = stored (leavesState tv te cat x))
    (htarget : o ≠ p → { f (h.obj o) with tag := x.isLeft } = stored x)
    (hself : o = p → f (g (h.obj o)) = stored x)
    (hQ : ∀ m', Transferred tv te cat o p x h m'.mem → Q () m') :
    wp (do let otherHasVal ← look (Heap.layout p).hasVal
           update ((Heap.layout o).setHasVal otherHasVal)) Q R K m := by
  have htag : (m.mem.obj p).tag = x.isLeft := by
    rw [hmem]
    by_cases hop : o = p
    · subst hop
      rw [Objects.obj_modify_self, Objects.obj_modify_self, hself rfl, stored_tag]
    · rw [Objects.obj_modify_of_ne (Ne.symm hop), Objects.obj_modify_self, hsource, stored_tag]
      cases x <;> rfl
  rw [wp_bind, wp_look, wp_update]
  apply hQ
  show Transferred tv te cat o p x h (Objects.setTag o ((m.mem.obj p).tag) m.mem)
  rw [htag, hmem, Objects.setTag, Objects.modify_modify]
  refine transferred_modify hsource htarget fun hop => ?_
  rw [hself hop]
  cases x <;> rfl

/-- The same alternative on both sides: its member is assigned. -/
theorem wp_assignSame {T : Type} {ty : ElemType T} {c d : Cell (Heap V E) Place T} {t u : T}
    {x : V ⊕ E} {f g : Tagged Bool V E → Tagged Bool V E} (hc : c.Exact) (hd : d.Exact)
    (hread : c.read m.mem = some u) (hread' : d.read m.mem = some t)
    (hmem : c.write t (d.write (ty.leaves cat t) m.mem)
      = Objects.modify o f (Objects.modify p g m.mem))
    (hsource : g (m.mem.obj p) = stored (leavesState tv te cat x))
    (htarget : { f (m.mem.obj o) with tag := x.isLeft } = stored x)
    (hself : f (g (m.mem.obj o)) = stored x)
    (hQ : ∀ m', Transferred tv te cat o p x m.mem m'.mem → Q () m')
    (hR : m.throws ≠ [] → ∀ m', R m') :
    wp (assignAt c (Init.forward ty d cat)) (fun _ => wp
      (do let otherHasVal ← look (Heap.layout p).hasVal
          update ((Heap.layout o).setHasVal otherHasVal)) Q R K) R K m := by
  rw [wp_assignAt (Init.run_forward ty hd cat hread')]
  refine ⟨hc.alive_of_read hread, ?_⟩
  split
  · next hthrow => exact hR (ne_nil_of_throwsNext hthrow) _
  · exact wp_takeTag hmem hsource (fun _ => htarget) (fun _ => hself) hQ

/-- Another alternative: its member comes in the place of the one that was alive. -/
theorem wp_assignOther {N O : Type} {newVal : Cell (Heap V E) Place N}
    {oldVal : Cell (Heap V E) Place O} {newType : ElemType N} {oldType : ElemType O}
    {args : Init (Heap V E) N} {w : O} {t : N} {s : Heap V E} {x : V ⊕ E}
    {f g : Tagged Bool V E → Tagged Bool V E} (call : ReinitCall newVal oldVal args w t m.mem s)
    (hop : o ≠ p)
    (htraits : ReinitTraits newType oldType args = true ∨ m.throws = [])
    (hmem : newVal.write t (oldVal.erase s) = Objects.modify o f (Objects.modify p g m.mem))
    (hsource : g (m.mem.obj p) = stored (leavesState tv te cat x))
    (htarget : { f (m.mem.obj o) with tag := x.isLeft } = stored x)
    (hQ : ∀ m', Transferred tv te cat o p x m.mem m'.mem → Q () m')
    (hR : m.throws ≠ [] → ∀ m', m'.mem = m.mem → R m') :
    wp (reinitExpected newVal oldVal newType oldType args) (fun _ => wp
      (do let otherHasVal ← look (Heap.layout p).hasVal
          update ((Heap.layout o).setHasVal otherHasVal)) Q R K) R K m := by
  refine wp_reinitExpected_exact call htraits ?_ fun hthrow m' hm' _ =>
    hR (ne_nil_of_throwsNext hthrow) m' hm'
  intro _ m' hm' _ _
  exact wp_takeTag (hm'.trans hmem) hsource (fun _ => htarget) (fun heq => absurd heq hop) hQ

/-- **The operator carries over, or throws.** A throw where it would have changed the alternative
leaves the heap as it was. -/
theorem wp_assignFrom {x y : V ⊕ E} (ho : m.mem.obj o = stored y) (hp : m.mem.obj p = stored x)
    (hsafe : (tv.nothrowMoveConstructible || te.nothrowMoveConstructible) = true ∨ m.throws = [])
    (hQ : ∀ m', Transferred tv te cat o p x m.mem m'.mem → Q () m')
    (hR : m.throws ≠ [] → ∀ m', (y.isLeft ≠ x.isLeft → m'.mem = m.mem) → R m') :
    wp (Layout.assignFrom cat (Heap.layout o) (Heap.layout p) tv te) Q R K m := by
  have htago : (Heap.layout o).hasVal m.mem = y.isLeft := by
    show (m.mem.obj o).tag = _
    rw [ho, stored_tag]
  have htagp : (Heap.layout p).hasVal m.mem = x.isLeft := by
    show (m.mem.obj p).tag = _
    rw [hp, stored_tag]
  have htraits : ∀ {b : Bool},
      (b || tv.nothrowMoveConstructible || te.nothrowMoveConstructible) = true ∧
      (b || te.nothrowMoveConstructible || tv.nothrowMoveConstructible) = true ∨ m.throws = [] := by
    intro b
    refine hsafe.imp_left fun h => ?_
    rw [Bool.or_assoc, Bool.or_assoc, Bool.or_comm te.nothrowMoveConstructible, h, Bool.or_true]
    exact ⟨rfl, rfl⟩
  unfold Layout.assignFrom
  rw [wp_bind, wp_look, htago]
  cases y with
  | inl w =>
    cases x with
    | inl v =>
      -- a value over a value
      simp only [wp_bind, wp_look, htagp, Sum.isLeft_inl, ↓reduceIte]
      refine wp_assignSame (f := fun z => { z with left := some v })
        (g := fun z => { z with left := some (tv.leaves cat v) }) (Objects.exact_left o)
        (Objects.exact_left p) (congrArg Tagged.left ho) (congrArg Tagged.left hp) rfl ?_ ?_ ?_ hQ
        fun hne m' => hR hne m' fun hother => absurd rfl hother
      · rw [hp]; rfl
      · rw [ho]; rfl
      · rw [ho]; rfl
    | inr e =>
      -- an error in the place of a value
      have hop : o ≠ p := by
        rintro rfl
        rw [ho] at hp
        cases hp
      simp only [wp_bind, wp_look, htagp, Sum.isLeft_inl, Sum.isLeft_inr, ↓reduceIte,
        Bool.false_eq_true]
      refine wp_assignOther (f := fun z => { z with left := none, right := some e })
        (g := fun z => { z with right := some (te.leaves cat e) }) (reinitCall_toUnex hop ho hp) hop
        (htraits.imp_left And.right) ?_ ?_ ?_ hQ fun hne m' hm' => hR hne m' fun _ => hm'
      · exact Objects.modify_modify o (fun z => { z with right := some e })
          (fun z => { z with left := none }) _
      · rw [hp]; rfl
      · rw [ho]; rfl
  | inr d =>
    cases x with
    | inl v =>
      -- a value in the place of an error
      have hop : o ≠ p := by
        rintro rfl
        rw [ho] at hp
        cases hp
      simp only [wp_bind, wp_look, htagp, Sum.isLeft_inl, Sum.isLeft_inr, ↓reduceIte,
        Bool.false_eq_true]
      refine wp_assignOther (f := fun z => { z with right := none, left := some v })
        (g := fun z => { z with left := some (tv.leaves cat v) }) (reinitCall_toVal hop ho hp) hop
        (htraits.imp_left And.left) ?_ ?_ ?_ hQ fun hne m' hm' => hR hne m' fun _ => hm'
      · exact Objects.modify_modify o (fun z => { z with left := some v })
          (fun z => { z with right := none }) _
      · rw [hp]; rfl
      · rw [ho]; rfl
    | inr e =>
      -- an error over an error
      simp only [wp_bind, wp_look, htagp, Sum.isLeft_inr, ↓reduceIte, Bool.false_eq_true]
      refine wp_assignSame (f := fun z => { z with right := some e })
        (g := fun z => { z with right := some (te.leaves cat e) }) (Objects.exact_right o)
        (Objects.exact_right p) (congrArg Tagged.right ho) (congrArg Tagged.right hp) rfl ?_ ?_ ?_
        hQ fun hne m' => hR hne m' fun hother => absurd rfl hother
      · rw [hp]; rfl
      · rw [ho]; rfl
      · rw [ho]; rfl

end Heaps

/-! ## Move assignment -/

section Move

variable {tv : ElemType V} {te : ElemType E} {o p : Nat} {h : Heap V E}

/-- **The guarantee of the move assignment**, of its body and, where a throw is the end of the
process, of the operator: a normal return leaves the target in the source's state, and a throw in a
branch that changes the alternative leaves the heap as it was. -/
def MoveAssignStrong (tv : ElemType V) (te : ElemType E) (o p : Nat) (h : Heap V E) : Prop :=
  ∀ x, h.obj p = stored x → ∀ throws log,
    wp ((Heap.layout o).assignMoveBody (Heap.layout p) tv te)
      (fun _ m => Transferred tv te .rvalue o p x h m.mem)
      (fun m => (h.obj o).tag ≠ (h.obj p).tag → m.mem = h) (fun _ => False) ⟨h, throws, log⟩ ∧
    wp ((Heap.layout o).assignMove (Heap.layout p) tv te)
      (fun _ m => Transferred tv te .rvalue o p x h m.mem) (fun _ => False)
      (fun m => (h.obj o).tag ≠ (h.obj p).tag → m.mem = h) ⟨h, throws, log⟩

theorem moveAssignStrong (hwf : h.WellFormed) (ho : h.exist o = true)
    (htraits : (tv.nothrowMoveConstructible || te.nothrowMoveConstructible) = true) :
    MoveAssignStrong tv te o p h := by
  obtain ⟨y, hy⟩ := hwf.exists_stored ho
  intro x hx throws log
  have hbody : ∀ {R K : Machine (Heap V E) Place → Prop},
      (∀ m, ((h.obj o).tag ≠ (h.obj p).tag → m.mem = h) → R m) →
      wp ((Heap.layout o).assignMoveBody (Heap.layout p) tv te)
        (fun _ m => Transferred tv te .rvalue o p x h m.mem) R K ⟨h, throws, log⟩ := by
    intro R K hR
    rw [Layout.assignMoveBody_eq]
    have hm : (⟨h, throws, log⟩ : Machine (Heap V E) Place).mem = h := rfl
    refine wp_assignFrom (by rw [hm, hy]) (by rw [hm, hx]) (.inl htraits) (fun _ ht => ht) ?_
    intro _ m hmem
    apply hR
    rw [hy, hx, stored_tag, stored_tag]
    exact hmem
  exact ⟨hbody fun _ h' => h', wp_noexcept (hbody fun _ h' => h')⟩

/-- A value at 0, an error at 1, and nothing else. -/
def valueThenError : Heap Nat Nat where
  exist o := decide (o < 2)
  obj
    | 0 => stored (.inl 1)
    | 1 => stored (.inr 2)
    | _ => ⟨false, none, none⟩

theorem wellFormed_valueThenError : valueThenError.WellFormed := by
  intro o
  match o with
  | 0 => exact ⟨rfl, rfl⟩
  | 1 => exact ⟨rfl, rfl⟩
  | _ + 2 => exact ⟨rfl, rfl⟩

/-- **The strong guarantee of `reinit_expected`, and of the operator that calls it.** A call has it
exactly when the traits its callers ask for are there; and the move assignment, under its own
`enable_if`, takes it over. -/
theorem reinitExpected_strong :
    (∀ {σ ℓ N O : Type} [DecidableEq ℓ] {newVal : Cell σ ℓ N} {oldVal : Cell σ ℓ O}
      {newType : ElemType N} {oldType : ElemType O} {args : Init σ N} {x : O} {t : N} {s s' : σ},
      ReinitCall newVal oldVal args x t s s' →
      (StrongGuarantee newVal oldVal newType oldType args x t s ↔
        ReinitTraits newType oldType args = true)) ∧
    ∀ {V E : Type} {tv : ElemType V} {te : ElemType E} {o p : Nat} {h : Heap V E},
      h.WellFormed → h.exist o = true →
      (tv.nothrowMoveConstructible || te.nothrowMoveConstructible) = true →
      MoveAssignStrong tv te o p h :=
  ⟨fun call => strongGuarantee_iff call, moveAssignStrong⟩

/-- An element type whose moves may throw. -/
def mayThrowType : ElemType Nat := { ElemType.trivial Nat with nothrowMoveConstructible := false }

/-- An error made of an argument that may throw, in the place of a value: with a value that can be
moved back, the call is safe, and with one that cannot, it is not. -/
theorem reinitExpected_strong_valueThenError :
    StrongGuarantee (Heap.unexCell 0) (Heap.valCell 0) mayThrowType (.trivial Nat)
      (Init.ofArg false false 7) 1 7 valueThenError ∧
    ¬ StrongGuarantee (Heap.unexCell 0) (Heap.valCell 0) mayThrowType mayThrowType
      (Init.ofArg false false 7) 1 7 valueThenError ∧
    MoveAssignStrong mayThrowType (.trivial Nat) 0 1 valueThenError := by
  have call : ReinitCall (Heap.unexCell 0) (Heap.valCell 0)
      (Init.ofArg false false 7 : Init (Heap Nat Nat) Nat) 1 7 valueThenError valueThenError :=
    { new := Objects.exact_right 0
      old := Objects.exact_left 0
      apart := (Objects.apart_left_right 0 0).symm
      args_new := Init.apart_ofArg ..
      args_old := Init.apart_ofArg ..
      dead := rfl
      alive := rfl
      run := rfl }
  refine ⟨(reinitExpected_strong.1 call).mpr rfl, fun h => ?_, ?_⟩
  · exact absurd ((reinitExpected_strong.1 call).mp h) (by decide)
  · exact reinitExpected_strong.2 wellFormed_valueThenError rfl rfl

end Move

/-! ## Copy assignment -/

section Copy

variable {tv : ElemType V} {te : ElemType E} {o p q : Nat} {h : Heap V E}

/-- The target is the source, and all else is as it was. -/
theorem wp_assignCopy_put {m : Machine (Heap V E) Place}
    {Q : Unit → Machine (Heap V E) Place → Prop} {R K : Machine (Heap V E) Place → Prop}
    (hQ : ∀ m', m'.mem = Objects.put o (m.mem.obj p) m.mem → m'.throws = m.throws → Q () m') :
    wp ((Heap.layout o).assignCopy (Heap.layout p) tv te) Q R K m := by
  unfold Layout.assignCopy
  simp only [wp_bind, wp_look, wp_update]
  refine wp_copyBytesAt_exact fun m₁ hm₁ ht₁ =>
    wp_copyBytesAt_exact fun m₂ hm₂ ht₂ => hQ m₂ ?_ (ht₂.trans ht₁)
  rw [hm₂.trans (Objects.copied_right o p _), hm₁.trans (Objects.copied_left o p _)]
  simp only [Heap.layout, Heap.setHasVal, Objects.setTag, Objects.modify_modify]
  refine Objects.modify_eq_put ?_
  -- an object may be copied to itself
  by_cases hpo : p = o
  · subst hpo
    simp
  · simp [Objects.obj_modify_of_ne hpo]

/-- The new object is the source, and all else is as it was. -/
theorem wp_constructCopy_put {m : Machine (Heap V E) Place}
    {Q : Unit → Machine (Heap V E) Place → Prop} {R K : Machine (Heap V E) Place → Prop}
    (hQ : ∀ m', m'.mem = Objects.setExist o true (Objects.put o (m.mem.obj p) m.mem) →
      m'.throws = m.throws → Q () m') :
    wp (constructCopy tv te o p) Q R K m := by
  unfold constructCopy
  rw [wp_bind]
  refine wp_assignCopy_put fun m' hmem hthrows => ?_
  rw [wp_update]
  exact hQ _ (congrArg (Objects.setExist o true) hmem) hthrows

theorem transferred_put {x : V ⊕ E} (hp : h.obj p = stored x) :
    Transferred tv te .lvalue o p x h (Objects.put o (h.obj p) h) where
  target := by rw [Objects.obj_put_self, hp]
  source hpo := by
    rw [Objects.obj_put_of_ne hpo, hp]
    cases x <;> rfl
  other q hqo _ := Objects.obj_put_of_ne hqo _ h
  exist := rfl

/-- And so it is with every transfer that leaves the source alone. -/
theorem Transferred.eq_put {x : V ⊕ E} {h' : Heap V E} (hp : h.obj p = stored x)
    (ht : Transferred tv te .lvalue o p x h h') : h' = Objects.put o (h.obj p) h := by
  have hobj : h'.obj = (Objects.put o (h.obj p) h).obj := by
    funext q
    by_cases hqo : q = o
    · rw [hqo, ht.target, Objects.obj_put_self, hp]
    · rw [Objects.obj_put_of_ne hqo]
      by_cases hqp : q = p
      · rw [hqp, ht.source (hqp ▸ hqo), hp]
        cases x <;> rfl
      · exact ht.other q hqo hqp
  calc h' = ⟨h'.exist, h'.obj⟩ := rfl
    _ = Objects.put o (h.obj p) h := by
      rw [ht.exist, hobj]
      rfl

/-- `a = std::move(b)` makes the target what the source was, in whichever of the two ways. -/
theorem wp_assignRvalue {x y : V ⊕ E} {m : Machine (Heap V E) Place} (hthrows : m.throws = [])
    (ho : m.mem.obj o = stored y) (hp : m.mem.obj p = stored x) :
    wp ((Heap.layout o).assignRvalue (Heap.layout p) tv te) (fun _ m' => m'.mem.obj o = stored x)
      (fun _ => False) (fun _ => False) m := by
  unfold Layout.assignRvalue
  split
  · have hbody : wp (Layout.assignFrom .rvalue (Heap.layout o) (Heap.layout p) tv te)
        (fun _ m' => m'.mem.obj o = stored x) (fun _ => False) (fun _ => False) m :=
      wp_assignFrom ho hp (.inr hthrows) (fun _ ht => ht.target) fun hne => absurd hthrows hne
    exact wp_noexcept hbody
  · refine wp_assignCopy_put fun m' hmem _ => ?_
    rw [hmem, Objects.obj_put_self, hp]

/-- **The law of copy assignment**, where nothing throws: the target gets the source's state, the
source keeps it, and a copy of the source at `q`, moved to the target, gives the same target. -/
def CopyAgrees (tv : ElemType V) (te : ElemType E) (o p q : Nat) (h : Heap V E) : Prop :=
  ∀ log, ∃ m m' : Machine (Heap V E) Place,
    (Heap.layout o).assignCopy (Heap.layout p) tv te ⟨h, [], log⟩ = .returned () m ∧
    m.mem.obj o = h.obj p ∧ m.mem.obj p = h.obj p ∧
    (do constructCopy tv te q p; (Heap.layout o).assignRvalue (Heap.layout q) tv te)
      ⟨h, [], log⟩ = .returned () m' ∧
    m'.mem.obj o = m.mem.obj o

/-- **Copy and move assignment agree**, for a target and a source that hold what they may, and be
they one object. -/
theorem copyAgrees (hwf : h.WellFormed) (ho : h.exist o = true) (hp : h.exist p = true)
    (hq : h.exist q = false) : CopyAgrees tv te o p q h := by
  obtain ⟨y, hy⟩ := hwf.exists_stored ho
  obtain ⟨x, hx⟩ := hwf.exists_stored hp
  have hqo : o ≠ q := by
    rintro rfl
    rw [ho] at hq
    cases hq
  intro log
  have hcopy : wp ((Heap.layout o).assignCopy (Heap.layout p) tv te)
      (fun _ m => m.mem.obj o = h.obj p ∧ m.mem.obj p = h.obj p) (fun _ => False)
      (fun _ => False) ⟨h, [], log⟩ := by
    refine wp_assignCopy_put fun m hmem _ => ?_
    rw [hmem, Objects.obj_put_self]
    refine ⟨rfl, ?_⟩
    by_cases hpo : p = o
    · rw [hpo, Objects.obj_put_self]
    · rw [Objects.obj_put_of_ne hpo]
  have hmove : wp (do constructCopy tv te q p; (Heap.layout o).assignRvalue (Heap.layout q) tv te)
      (fun _ m => m.mem.obj o = stored x) (fun _ => False) (fun _ => False) ⟨h, [], log⟩ := by
    rw [wp_bind]
    refine wp_constructCopy_put fun m hmem hthrows => wp_assignRvalue (y := y) hthrows ?_ ?_
    · rw [hmem]
      exact (Objects.obj_put_of_ne hqo _ h).trans hy
    · rw [hmem]
      exact (Objects.obj_put_self q _ h).trans hx
  obtain ⟨u, m, hm, hmo, hmp⟩ := wp_returns hcopy
  obtain ⟨u', m', hm', hmo'⟩ := wp_returns hmove
  exact ⟨m, m', hm, hmo, hmp, hm', by rw [hmo', hmo, hx]⟩

/-- An error copied over a value. -/
theorem copyAgrees_error_over_value :
    CopyAgrees (.trivial Nat) (.trivial Nat) 0 1 2 valueThenError :=
  copyAgrees wellFormed_valueThenError rfl rfl rfl

/-! ### The template -/

/-- An error over a value: the operator reads the value that the source does not have. -/
theorem assignCopyTemplate_fault {v : V} {e : E} {log : List (Event (Option Place))}
    (ho : h.obj o = stored (.inl v)) (hp : h.obj p = stored (.inr e)) :
    (Heap.layout o).assignCopyTemplate (Heap.layout p) tv te ⟨h, [], log⟩ = .fault .deadRead := by
  have htag : (Heap.layout o).hasVal h = true := congrArg Tagged.tag ho
  have halive : (Heap.layout o).val.alive h = true :=
    (Objects.exact_left o).alive_of_read (congrArg Tagged.left ho)
  have hread : (Heap.layout p).val.read h = none := congrArg Tagged.left hp
  simp [Layout.assignCopyTemplate, look, bind, htag, assignAt, require, halive, Init.eval,
    Init.copy, hread]

/-- **The template for copies** makes the target what the source is unless it copies an error over a
value. -/
theorem assignCopyTemplate_iff {log : List (Event (Option Place))} (hwf : h.WellFormed)
    (ho : h.exist o = true) (hp : h.exist p = true) :
    (∃ m, (Heap.layout o).assignCopyTemplate (Heap.layout p) tv te ⟨h, [], log⟩ = .returned () m ∧
      m.mem = Objects.put o (h.obj p) h) ↔ (h.obj o).tag = false ∨ (h.obj p).tag = true := by
  obtain ⟨y, hy⟩ := hwf.exists_stored ho
  obtain ⟨x, hx⟩ := hwf.exists_stored hp
  constructor
  · intro hcopied
    obtain ⟨m, hcopy, -⟩ := hcopied
    by_contra hnone
    rw [not_or] at hnone
    cases y with
    | inr d => exact hnone.1 (congrArg Tagged.tag hy)
    | inl w =>
      cases x with
      | inl v => exact hnone.2 (congrArg Tagged.tag hx)
      | inr e =>
        rw [assignCopyTemplate_fault hy hx] at hcopy
        cases hcopy
  · intro htags
    have hcopy : wp ((Heap.layout o).assignCopyTemplate (Heap.layout p) tv te)
        (fun _ m => m.mem = Objects.put o (h.obj p) h) (fun _ => False) (fun _ => False)
        ⟨h, [], log⟩ := by
      unfold wp
      rw [Layout.assignCopyTemplate_eq _ _ _ _ htags]
      exact wp_assignFrom (m := ⟨h, [], log⟩) hy hx (.inr rfl) (fun m ht => ht.eq_put hx)
        fun hne => absurd rfl hne
    obtain ⟨u, m, hm, hmem⟩ := wp_returns hcopy
    exact ⟨m, hm, hmem⟩

end Copy

end Stored

end Hy.Tiny

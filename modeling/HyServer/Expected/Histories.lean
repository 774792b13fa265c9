import HyServer.Cpp.Quiet
import HyServer.Expected.Meaning
import HyServer.Expected.Swap
import HyServer.Lts.Runs

/-!
# hy::expected — every history means the same in the three storages

The operations on two objects, storage by storage, and the histories that are made of all of them.

* `wp_constructForward` — the move constructor of the general storage, and the template for copies.
* `Kind.step_follows` — a storage takes every step that the meaning takes.
* `kinds_follow` — and so each of the three takes every history, to objects in the states meant.
-/

namespace Hy.Tiny

open Cpp

/-! ## The general storage -/

section General

variable {V E : Type} {tv : ElemType V} {te : ElemType E} {cat : ValueCategory} {o p : Nat}
  {h : Heap V E} {a : States V E}

/-- The templates for copies and for moves, by what they forward. -/
def constructForward (cat : ValueCategory) (tv : ElemType V) (te : ElemType E) (o rhs : Nat) :
    Prog (Heap V E) Place Unit := do
  let rhsHasVal ← look (Heap.layout rhs).hasVal
  update (Heap.setHasVal o rhsHasVal)
  if ← look (Heap.layout o).hasVal then
    constructAt (Heap.valCell o) (Init.forward tv (Heap.valCell rhs) cat)
  else
    constructAt (Heap.unexCell o) (Init.forward te (Heap.unexCell rhs) cat)
  update (Objects.setExist o true)

theorem constructCopyTemplate_eq :
    constructCopyTemplate tv te o p = constructForward .lvalue tv te o p := rfl

theorem constructMove_eq :
    constructMove tv te o p = noexceptIf true (constructForward .rvalue tv te o p) := rfl

/-- A tag is set, what the source forwards is taken, and it becomes a member of the new object. -/
theorem transferred_construct {x : V ⊕ E} {f g : Tagged Bool V E → Tagged Bool V E} (hop : o ≠ p)
    (hsource : g (h.obj p) = stored (leavesState tv te cat x))
    (htarget : f { h.obj o with tag := x.isLeft } = stored x) :
    Transferred tv te cat o p x (Objects.setExist o true h)
      (Objects.setExist o true
        (Objects.modify o f (Objects.modify p g (Objects.setTag o x.isLeft h)))) where
  target := by
    show (Objects.modify o f _).obj o = _
    rw [Objects.obj_modify_self, Objects.obj_modify_of_ne hop, Objects.setTag,
      Objects.obj_modify_self, htarget]
  source hpo := by
    show (Objects.modify o f _).obj p = _
    rw [Objects.obj_modify_of_ne hpo, Objects.obj_modify_self, Objects.setTag,
      Objects.obj_modify_of_ne hpo, hsource]
  other q hqo hqp := by
    show (Objects.modify o f _).obj q = _
    rw [Objects.obj_modify_of_ne hqo, Objects.obj_modify_of_ne hqp, Objects.setTag,
      Objects.obj_modify_of_ne hqo]
    rfl
  exist := rfl

/-- What is constructed has the state of the source, and what was forwarded is left there. -/
theorem wp_constructForward {x : V ⊕ E} (hop : o ≠ p) (hleft : (h.obj o).left = none)
    (hright : (h.obj o).right = none) (hp : h.obj p = stored x)
    {R K : Machine (Heap V E) Place → Prop} :
    wp (constructForward cat tv te o p)
      (fun _ m => Transferred tv te cat o p x (Objects.setExist o true h) m.mem) R K
      ⟨h, [], []⟩ := by
  have htag : (Heap.layout p).hasVal h = x.isLeft := by
    show (h.obj p).tag = _
    rw [hp, stored_tag]
  have hself : (Heap.layout o).hasVal (Heap.setHasVal o x.isLeft h) = x.isLeft := by
    simp [Heap.layout, Objects.setTag]
  -- the tag update leaves the source alone
  have hp' : (Heap.setHasVal o x.isLeft h).obj p = stored x := by
    rw [Heap.setHasVal, Objects.setTag, Objects.obj_modify_of_ne hop.symm, hp]
  unfold constructForward
  simp only [wp_bind, wp_look, wp_update, htag, hself]
  cases x with
  | inl v =>
    rw [Sum.isLeft_inl] at hp'
    have hread : (Heap.valCell p).read (Heap.setHasVal o true h) = some v :=
      congrArg Tagged.left hp'
    simp only [Sum.isLeft_inl, ↓reduceIte, wp_bind]
    refine (wp_constructAt (m := ⟨Heap.setHasVal o true h, [], []⟩)
      (Init.run_forward tv (Objects.exact_left p) cat hread)).mpr ?_
    rw [if_neg (by simp), wp_update]
    refine ⟨?_, transferred_construct hop ?_ ?_⟩
    · simp [Objects.leftCell, Objects.setTag, Objects.modify, hop, hleft]
    · rw [hp]; rfl
    · rw [hright]; rfl
  | inr e =>
    rw [Sum.isLeft_inr] at hp'
    have hread : (Heap.unexCell p).read (Heap.setHasVal o false h) = some e :=
      congrArg Tagged.right hp'
    simp only [Sum.isLeft_inr, Bool.false_eq_true, ↓reduceIte, wp_bind]
    refine (wp_constructAt (m := ⟨Heap.setHasVal o false h, [], []⟩)
      (Init.run_forward te (Objects.exact_right p) cat hread)).mpr ?_
    rw [if_neg (by simp), wp_update]
    refine ⟨?_, transferred_construct hop ?_ ?_⟩
    · simp [Objects.rightCell, Objects.setTag, Objects.modify, hop, hright]
    · rw [hp]; rfl
    · rw [hleft]; rfl

/-- The template for copies would make what the implicit copy constructor makes. -/
theorem wp_constructCopyTemplate {x : V ⊕ E} (hop : o ≠ p) (hleft : (h.obj o).left = none)
    (hright : (h.obj o).right = none) (hp : h.obj p = stored x)
    {R K : Machine (Heap V E) Place → Prop} :
    wp (constructCopyTemplate tv te o p)
      (fun _ m => m.mem = Objects.setExist o true (Objects.put o (h.obj p) h)) R K ⟨h, [], []⟩ := by
  rw [constructCopyTemplate_eq]
  exact wp_mono (wp_constructForward hop hleft hright hp)
    (fun _ m ht => Transferred.eq_put (h := Objects.setExist o true h) hp ht) (fun _ => id)
    fun _ => id

/-- `swap` throws nothing that the element operations do not. -/
theorem quiet_swapMixed (self other : Layout (Heap V E) Place V E) :
    Quiet (self.swapMixed other tv te) := by
  have htags : Quiet (do update (self.setHasVal false); update (other.setHasVal true) :
      Prog (Heap V E) Place Unit) :=
    Quiet.bind (Quiet.update _) fun _ => Quiet.update _
  refine Quiet.ite (Quiet.bind (Quiet.withLocal fun t => ?_) fun _ => htags)
    (Quiet.bind (Quiet.withLocal fun t => ?_) fun _ => htags)
  · exact Quiet.bind (Quiet.destroyAt _) fun _ => Quiet.tryRethrow
      (Quiet.bind (Quiet.constructAt _ _) fun _ => Quiet.bind (Quiet.destroyAt _)
        fun _ => Quiet.constructAt _ _) _
  · exact Quiet.bind (Quiet.destroyAt _) fun _ => Quiet.tryRethrow
      (Quiet.bind (Quiet.constructAt _ _) fun _ => Quiet.bind (Quiet.destroyAt _)
        fun _ => Quiet.constructAt _ _) _

theorem quiet_swapBody (depth : Nat) :
    ∀ self other : Layout (Heap V E) Place V E, Quiet (Layout.swapBody tv te depth self other) := by
  induction depth with
  | zero => exact fun _ _ => Quiet.faulty _
  | succ depth ih =>
    intro self other
    refine Quiet.bind (Quiet.look _) fun _ => Quiet.bind (Quiet.look _) fun _ => ?_
    exact Quiet.ite (Quiet.swapElems _ _ _) (Quiet.ite (Quiet.swapElems _ _ _)
      (Quiet.ite (ih other self) (quiet_swapMixed self other)))

end General

/-! ## The kinds against the meaning -/

section Kinds

variable {V E : Type}

namespace Kind

/-- What a move leaves in its source. -/
def leaves : Kind V E → V ⊕ E → V ⊕ E
  | .eUnion tv te => leavesState tv te .rvalue
  | .ePODUnion _ _ => id
  | .ePODStruct => id

/-- The memory before a history: in the general storage no object is there. -/
def Start : (k : Kind V E) → k.Mem → Prop
  | .eUnion _ _, h => h = Objects.empty false
  | .ePODUnion _ _, _ => True
  | .ePODStruct, _ => True

end Kind

section EUnion

variable {tv : ElemType V} {te : ElemType E} {o p : Nat} {h h' : Heap V E} {a : States V E}
  {x : V ⊕ E}

theorem heap_wellFormed (hsim : (Kind.eUnion tv te).Sim h a) : h.WellFormed := by
  intro o
  have ho := hsim o
  cases ha : a o with
  | none =>
    rw [ha] at ho
    obtain ⟨hexist, hleft, hright⟩ := ho
    simp [hexist, Tagged.holds, hleft, hright]
  | some x =>
    rw [ha] at ho
    obtain ⟨hexist, hobj⟩ := ho
    rw [if_pos hexist, hobj]
    exact ⟨stored_holds x .left, stored_holds x .right⟩

/-- The target has what the source has had, and the source still has it. -/
theorem sim_copied (hsim : (Kind.eUnion tv te).Sim h a) (hx : a p = some x)
    (ht : Transferred tv te .lvalue o p x (Objects.setExist o true h) h') :
    (Kind.eUnion tv te).Sim h' (Function.update a o (a p)) := by
  have hexist : ∀ q, q ≠ o → h'.exist q = h.exist q := fun q hq => by
    rw [ht.exist]
    exact Function.update_of_ne hq ..
  rw [hx]
  refine hsim.set ⟨?_, ht.target⟩ fun q hq => ⟨(hexist q hq).symm, ?_⟩
  · rw [ht.exist]
    exact Function.update_self ..
  · by_cases hqp : q = p
    · subst hqp
      have hq' : (Kind.eUnion tv te).Is q (some x) h := hx ▸ hsim q
      rw [ht.source hq, hq'.2]
      cases x <;> rfl
    · exact (ht.other q hq hqp).symm

/-- And here the source has what is left of it. -/
theorem sim_moved (hsim : (Kind.eUnion tv te).Sim h a) (hx : a p = some x) (hop : o ≠ p)
    (ht : Transferred tv te .rvalue o p x (Objects.setExist o true h) h') :
    (Kind.eUnion tv te).Sim h' (Call.carry (leavesState tv te .rvalue) a o p) := by
  have hexist : ∀ q, q ≠ o → h'.exist q = h.exist q := fun q hq => by
    rw [ht.exist]
    exact Function.update_of_ne hq ..
  have hp : (Kind.eUnion tv te).Is p (some x) h := hx ▸ hsim p
  unfold Call.carry
  rw [hx]
  refine hsim.pair ⟨?_, ht.target⟩ ⟨(hexist p hop.symm).trans hp.1, ht.source hop.symm⟩
    fun q hqo hqp => ⟨(hexist q hqo).symm, (ht.other q hqo hqp).symm⟩
  rw [ht.exist]
  exact Function.update_self ..

theorem sim_exchanged (hsim : (Kind.eUnion tv te).Sim h a) (ho : (a o).isSome = true)
    (hp : (a p).isSome = true) (hex : Exchanged o p h h') :
    (Kind.eUnion tv te).Sim h' (exchanged a o p) := by
  obtain ⟨x, hx⟩ := Option.isSome_iff_exists.mp ho
  obtain ⟨y, hy⟩ := Option.isSome_iff_exists.mp hp
  have hino : (Kind.eUnion tv te).Is o (some x) h := hx ▸ hsim o
  have hinp : (Kind.eUnion tv te).Is p (some y) h := hy ▸ hsim p
  unfold exchanged
  rw [hx, hy]
  refine hsim.pair ⟨?_, hex.that.trans hino.2⟩ ⟨?_, hex.this.trans hinp.2⟩ fun q hqp hqo =>
    ⟨congrFun hex.exist.symm q, (hex.other q hqo hqp).symm⟩
  · rw [hex.exist]
    exact hinp.1
  · rw [hex.exist]
    exact hino.1

/-! Each operation of the general storage on two objects. -/

theorem wp_constructCopy_sim (hsim : (Kind.eUnion tv te).Sim h a) (hx : a p = some x) :
    wp (constructCopy tv te o p)
      (fun _ m => (Kind.eUnion tv te).Sim m.mem (Function.update a o (a p))) (fun _ => False)
      (fun _ => False) ⟨h, [], []⟩ := by
  have hp : (Kind.eUnion tv te).Is p (some x) h := hx ▸ hsim p
  refine wp_constructCopy_put fun m hmem _ => ?_
  rw [hmem]
  exact sim_copied hsim hx (transferred_put (h := Objects.setExist o true h) hp.2)

theorem wp_constructMove_sim (hsim : (Kind.eUnion tv te).Sim h a) (hnone : a o = none)
    (hx : a p = some x) :
    wp (constructMove tv te o p)
      (fun _ m => (Kind.eUnion tv te).Sim m.mem (Call.carry (leavesState tv te .rvalue) a o p))
      (fun _ => False) (fun _ => False) ⟨h, [], []⟩ := by
  have hop : o ≠ p := States.ne_of_eq_none hnone (congrArg Option.isSome hx)
  obtain ⟨-, hleft, hright⟩ : (Kind.eUnion tv te).Is o none h := hnone ▸ hsim o
  have hp : (Kind.eUnion tv te).Is p (some x) h := hx ▸ hsim p
  rw [constructMove_eq]
  exact wp_noexceptIf _ (wp_mono (wp_constructForward hop hleft hright hp.2)
    (fun _ m ht => sim_moved hsim hx hop ht) (fun _ => id) fun _ => id) fun _ => id

/-- An object that exists already, as a constructor finds it. -/
theorem setExist_self {o : Nat} (ho : h.exist o = true) : Objects.setExist o true h = h := by
  unfold Objects.setExist
  rw [← ho, Function.update_eq_self]

theorem wp_assignCopy_sim (hsim : (Kind.eUnion tv te).Sim h a) (ho : (a o).isSome = true)
    (hx : a p = some x) :
    wp ((Heap.layout o).assignCopy (Heap.layout p) tv te)
      (fun _ m => (Kind.eUnion tv te).Sim m.mem (Function.update a o (a p))) (fun _ => False)
      (fun _ => False) ⟨h, [], []⟩ := by
  obtain ⟨y, hy⟩ := Option.isSome_iff_exists.mp ho
  have hino : (Kind.eUnion tv te).Is o (some y) h := hy ▸ hsim o
  have hinp : (Kind.eUnion tv te).Is p (some x) h := hx ▸ hsim p
  refine wp_assignCopy_put fun m hmem _ => ?_
  rw [hmem]
  refine sim_copied hsim hx ?_
  rw [setExist_self hino.1]
  exact transferred_put hinp.2

theorem wp_assignFrom_sim {cat : ValueCategory} {y : V ⊕ E}
    (hsim : (Kind.eUnion tv te).Sim h a) (hy : a o = some y) (hx : a p = some x)
    {P : Heap V E → Prop}
    (hP : ∀ h', Transferred tv te cat o p x (Objects.setExist o true h) h' → P h') :
    wp (Layout.assignFrom cat (Heap.layout o) (Heap.layout p) tv te) (fun _ m => P m.mem)
      (fun _ => False) (fun _ => False) ⟨h, [], []⟩ := by
  have ho : (Kind.eUnion tv te).Is o (some y) h := hy ▸ hsim o
  have hp : (Kind.eUnion tv te).Is p (some x) h := hx ▸ hsim p
  rw [setExist_self ho.1] at hP
  exact wp_assignFrom (m := ⟨h, [], []⟩) ho.2 hp.2 (.inr rfl) (fun m ht => hP m.mem ht)
    fun hne => absurd rfl hne

theorem wp_swap_sim (hsim : (Kind.eUnion tv te).Sim h a)
    (htraits : (tv.nothrowMoveConstructible || te.nothrowMoveConstructible) = true)
    (ho : (a o).isSome = true) (hp : (a p).isSome = true) :
    wp ((Heap.layout o).swap (Heap.layout p) tv te)
      (fun _ m => (Kind.eUnion tv te).Sim m.mem (exchanged a o p)) (fun _ => False)
      (fun _ => False) ⟨h, [], []⟩ := by
  have hexist : ∀ {q}, (a q).isSome = true → h.exist q = true := by
    intro q hq
    obtain ⟨y, hy⟩ := Option.isSome_iff_exists.mp hq
    have hin : (Kind.eUnion tv te).Is q (some y) h := hy ▸ hsim q
    exact hin.1
  have hbody : wp (Layout.swapBody tv te 2 (Heap.layout o) (Heap.layout p))
      (fun _ m => Exchanged o p h m.mem) (fun _ => True) (fun _ => False) ⟨h, [], []⟩ :=
    wp_swapBody_exact (heap_wellFormed hsim) (hexist ho) (hexist hp) rfl htraits 0
      (fun _ hex => hex) fun _ _ _ _ => trivial
  refine wp_noexceptIf _ ?_ fun _ => id
  exact wp_mono ((quiet_swapBody 2 _ _).wp rfl hbody)
    (fun _ m hex => sim_exchanged hsim ho hp hex) (fun _ => id) fun _ => id

theorem wp_destroy_sim (hsim : (Kind.eUnion tv te).Sim h a) (hx : a o = some x) :
    wp (destroy o) (fun _ m => (Kind.eUnion tv te).Sim m.mem (Function.update a o none))
      (fun _ => False) (fun _ => False) ⟨h, [], []⟩ := by
  obtain ⟨hexist, hobj⟩ : (Kind.eUnion tv te).Is o (some x) h := hx ▸ hsim o
  have htag : (Heap.layout o).hasVal h = x.isLeft := by
    show (h.obj o).tag = _
    rw [hobj, stored_tag]
  unfold destroy
  simp only [wp_bind, wp_look, htag]
  cases x with
  | inl v =>
    simp only [Sum.isLeft_inl, ↓reduceIte, wp_bind]
    rw [wp_destroyAt]
    refine ⟨(Objects.exact_left o).alive_of_read (congrArg Tagged.left hobj), hsim.set ?_ ?_⟩
    · simp [Kind.Is, Objects.setExist, Objects.leftCell, Objects.modify, hobj, stored]
    · intro q hq
      simp [Kind.Same, Objects.setExist, Objects.leftCell, Objects.modify, hq]
  | inr e =>
    simp only [Sum.isLeft_inr, Bool.false_eq_true, ↓reduceIte, wp_bind]
    rw [wp_destroyAt]
    refine ⟨(Objects.exact_right o).alive_of_read (congrArg Tagged.right hobj), hsim.set ?_ ?_⟩
    · simp [Kind.Is, Objects.setExist, Objects.rightCell, Objects.modify, hobj, stored]
    · intro q hq
      simp [Kind.Same, Objects.setExist, Objects.rightCell, Objects.modify, hq]

end EUnion

section Pod

variable {pv : PodType V} {pe : PodType E} {o p : Nat} {a : States V E}

theorem PodUnions.sim_copyObject {h : PodUnions} (hsim : (Kind.ePODUnion pv pe).Sim h a) :
    (Kind.ePODUnion pv pe).Sim (PodUnions.copyObject o p h) (Function.update a o (a p)) := by
  refine hsim.set ?_ fun q hq => ?_
  · have hp := hsim p
    rcases ha : a p with - | v | e
    · trivial
    · rw [ha] at hp
      simpa [Kind.Is, Layout.Holds, layout, cell, copyObject] using hp
    · rw [ha] at hp
      simpa [Kind.Is, Layout.Holds, layout, cell, copyObject] using hp
  · simp [Kind.Same, copyObject, hq]

theorem PodStructs.sim_copyObject {h : PodStructs V E} (hsim : (Kind.ePODStruct).Sim h a) :
    (Kind.ePODStruct).Sim (PodStructs.copyObject o p h) (Function.update a o (a p)) := by
  refine hsim.set ?_ fun q hq => ?_
  · have hp := hsim p
    rcases ha : a p with - | v | e
    · trivial
    · rw [ha] at hp
      simpa [Kind.Is, Layout.Holds, layout, valCell, unexCell, copyObject] using hp
    · rw [ha] at hp
      simpa [Kind.Is, Layout.Holds, layout, valCell, unexCell, copyObject] using hp
  · simp [Kind.Same, copyObject, hq]

/-- A swap through the larger member, where both objects are safe through it. -/
theorem PodUnions.sim_swappedThrough {T : Type} {moved : PodType T} {h : PodUnions} {x y : V ⊕ E}
    (hv : pv.size ≤ moved.size) (he : pe.size ≤ moved.size)
    (hsim : (Kind.ePODUnion pv pe).Sim h a) (hx : a o = some x) (hy : a p = some y)
    (ho : SafeThrough moved pv pe h o) (hp : SafeThrough moved pv pe h p) :
    (Kind.ePODUnion pv pe).Sim (PodUnions.swappedThrough moved o p h) (exchanged a o p) := by
  have hino : (Kind.ePODUnion pv pe).Is o (some x) h := hx ▸ hsim o
  have hinp : (Kind.ePODUnion pv pe).Is p (some y) h := hy ▸ hsim p
  obtain ⟨k, hleft⟩ := PodUnions.bytes_left moved o p h
  have htag : ∀ q, q ≠ p → q ≠ o → exchanged h.hasVal o p q = h.hasVal q := fun q hqp hqo => by
    rw [exchanged, Function.update_of_ne hqp, Function.update_of_ne hqo]
  have hbytes : ∀ q, q ≠ p → q ≠ o →
      (PodUnions.swappedThrough moved o p h).bytes q = h.bytes q := fun q hqp hqo => by
    show Function.update (Function.update h.bytes o _) p _ q = _
    rw [Function.update_of_ne hqp, Function.update_of_ne hqo]
  rw [exchanged, hx, hy]
  refine hsim.pair ?_ ?_ fun q hqp hqo => ⟨(htag q hqp hqo).symm, (hbytes q hqp hqo).symm⟩
  · exact PodUnions.holds_carried hv he (exchanged_right ..) PodUnions.bytes_right hino ho
  · exact PodUnions.holds_carried hv he (exchanged_left ..) hleft hinp hp

theorem PodUnions.wp_swap_sim {h : PodUnions} (hsim : (Kind.ePODUnion pv pe).Sim h a)
    (hadmits : (Kind.ePODUnion pv pe).Admits (.op (.swap o p))) (ho : (a o).isSome = true)
    (hp : (a p).isSome = true) :
    wp (PodUnions.swap pv pe o p)
      (fun _ m => (Kind.ePODUnion pv pe).Sim m.mem (exchanged a o p)) (fun _ => False)
      (fun _ => False) ⟨h, [], []⟩ := by
  obtain ⟨x, hx⟩ := Option.isSome_iff_exists.mp ho
  obtain ⟨y, hy⟩ := Option.isSome_iff_exists.mp hp
  have hsafe : SwapSafe pv pe o p h := swapSafe_of_inside hadmits.1 hadmits.2
  unfold SwapSafe at hsafe
  refine wp_noexcept ?_
  split
  · next hsize =>
    rw [if_pos hsize] at hsafe
    unfold wp
    rw [PodUnions.swapThrough_eq hsafe.1.1 hsafe.2.1]
    exact sim_swappedThrough (Nat.le_refl _) (Nat.le_of_lt hsize) hsim hx hy hsafe.1 hsafe.2
  · next hsize =>
    rw [if_neg hsize] at hsafe
    unfold wp
    rw [PodUnions.swapThrough_eq hsafe.1.1 hsafe.2.1]
    exact sim_swappedThrough (Nat.le_of_not_lt hsize) (Nat.le_refl _) hsim hx hy hsafe.1 hsafe.2

theorem PodStructs.sim_swapped {h : PodStructs V E} (hsim : (Kind.ePODStruct).Sim h a)
    (ho : (a o).isSome = true) (hp : (a p).isSome = true) :
    (Kind.ePODStruct).Sim (PodStructs.swapped o p h) (exchanged a o p) := by
  obtain ⟨x, hx⟩ := Option.isSome_iff_exists.mp ho
  obtain ⟨y, hy⟩ := Option.isSome_iff_exists.mp hp
  have hino : (Kind.ePODStruct).Is o (some x) h := hx ▸ hsim o
  have hinp : (Kind.ePODStruct).Is p (some y) h := hy ▸ hsim p
  have hother : ∀ {α : Type} (f : Nat → α) q, q ≠ p → q ≠ o → exchanged f o p q = f q :=
    fun f q hqp hqo => by rw [exchanged, Function.update_of_ne hqp, Function.update_of_ne hqo]
  rw [exchanged, hx, hy]
  exact hsim.pair (PodStructs.holds_right hino) (PodStructs.holds_left hinp) fun q hqp hqo =>
    ⟨(hother _ q hqp hqo).symm, (hother _ q hqp hqo).symm, (hother _ q hqp hqo).symm⟩

end Pod

/-! ## Steps and histories -/

theorem isSome_of_holdsValue {x : Option (V ⊕ E)} (hx : holdsValue x = true) :
    ∃ v, x = some (.inl v) := by
  rcases x with - | v | e
  · cases hx
  · exact ⟨v, rfl⟩
  · cases hx

theorem isSome_of_holdsError {x : Option (V ⊕ E)} (hx : holdsError x = true) :
    ∃ e, x = some (.inr e) := by
  rcases x with - | v | e
  · cases hx
  · cases hx
  · exact ⟨e, rfl⟩

theorem Call.carry_id (a : States V E) (o p : Nat) :
    Call.carry id a o p = Function.update a o (a p) := by
  unfold carry
  rw [Option.map_id, id, Function.update_eq_self]

namespace Kind

variable {k : Kind V E} {h : k.Mem} {a : States V E}

theorem wp_assignCopy_sim {o p : Nat} (hsim : k.Sim h a) (ho : (a o).isSome = true)
    (hp : (a p).isSome = true) :
    wp (k.assignFrom o p .lvalue) (fun _ m => k.Sim m.mem (Function.update a o (a p)))
      (fun _ => False) (fun _ => False) ⟨h, [], []⟩ := by
  cases k with
  | eUnion tv te =>
    obtain ⟨x, hx⟩ := Option.isSome_iff_exists.mp hp
    exact Tiny.wp_assignCopy_sim hsim ho hx
  | ePODUnion pv pe => exact PodUnions.sim_copyObject hsim
  | ePODStruct => exact PodStructs.sim_copyObject hsim

theorem wp_assignMove_sim {o p : Nat} (hsim : k.Sim h a) (ho : (a o).isSome = true)
    (hp : (a p).isSome = true) (hop : o ≠ p) :
    wp (k.assignFrom o p .rvalue) (fun _ m => k.Sim m.mem (Call.carry k.leaves a o p))
      (fun _ => False) (fun _ => False) ⟨h, [], []⟩ := by
  cases k with
  | eUnion tv te =>
    obtain ⟨y, hy⟩ := Option.isSome_iff_exists.mp ho
    obtain ⟨x, hx⟩ := Option.isSome_iff_exists.mp hp
    exact wp_noexcept (wp_assignFrom_sim hsim hy hx fun _ ht => sim_moved hsim hx hop ht)
  | ePODUnion pv pe => exact (Call.carry_id a o p).symm ▸ PodUnions.sim_copyObject hsim
  | ePODStruct => exact (Call.carry_id a o p).symm ▸ PodStructs.sim_copyObject hsim

theorem wp_constructCopy_sim {o p : Nat} (hsim : k.Sim h a) (hp : (a p).isSome = true) :
    wp (k.constructFrom o p .lvalue) (fun _ m => k.Sim m.mem (Function.update a o (a p)))
      (fun _ => False) (fun _ => False) ⟨h, [], []⟩ := by
  cases k with
  | eUnion tv te =>
    obtain ⟨x, hx⟩ := Option.isSome_iff_exists.mp hp
    exact Tiny.wp_constructCopy_sim hsim hx
  | ePODUnion pv pe => exact PodUnions.sim_copyObject hsim
  | ePODStruct => exact PodStructs.sim_copyObject hsim

theorem wp_constructMove_sim {o p : Nat} (hsim : k.Sim h a) (hnone : a o = none)
    (hp : (a p).isSome = true) :
    wp (k.constructFrom o p .rvalue) (fun _ m => k.Sim m.mem (Call.carry k.leaves a o p))
      (fun _ => False) (fun _ => False) ⟨h, [], []⟩ := by
  cases k with
  | eUnion tv te =>
    obtain ⟨x, hx⟩ := Option.isSome_iff_exists.mp hp
    exact Tiny.wp_constructMove_sim hsim hnone hx
  | ePODUnion pv pe => exact (Call.carry_id a o p).symm ▸ PodUnions.sim_copyObject hsim
  | ePODStruct => exact (Call.carry_id a o p).symm ▸ PodStructs.sim_copyObject hsim

theorem wp_swap_sim {o p : Nat} (hsim : k.Sim h a) (hadmits : k.Admits (.op (.swap o p)))
    (ho : (a o).isSome = true) (hp : (a p).isSome = true) :
    wp (k.swap o p) (fun _ m => k.Sim m.mem (exchanged a o p)) (fun _ => False)
      (fun _ => False) ⟨h, [], []⟩ := by
  cases k with
  | eUnion tv te => exact Tiny.wp_swap_sim hsim hadmits ho hp
  | ePODUnion pv pe => exact PodUnions.wp_swap_sim hsim hadmits ho hp
  | ePODStruct => exact PodStructs.sim_swapped hsim ho hp

theorem wp_destroy_sim {o : Nat} (hsim : k.Sim h a) (ho : (a o).isSome = true) :
    wp (k.destroy o) (fun _ m => k.Sim m.mem (Function.update a o none)) (fun _ => False)
      (fun _ => False) ⟨h, [], []⟩ := by
  cases k with
  | eUnion tv te =>
    obtain ⟨x, hx⟩ := Option.isSome_iff_exists.mp ho
    exact Tiny.wp_destroy_sim hsim hx
  | ePODUnion pv pe => exact hsim.set trivial fun q _ => Same.refl (.ePODUnion pv pe) q h
  | ePODStruct => exact hsim.set trivial fun q _ => Same.refl .ePODStruct q h

/-- One case for each operation. -/
theorem wp_exec_sim (hsim : k.Sim h a) {call : Call V E} (hadmits : k.Admits call)
    (hallowed : call.Allowed a = true) :
    wp (k.exec call) (fun _ m => k.Sim m.mem (call.effect k.leaves a)) (fun _ => False)
      (fun _ => False) ⟨h, [], []⟩ := by
  cases call with
  | op op =>
    cases op with
    | constructValue o v cat =>
      exact wp_constructValue hsim (Option.isNone_iff_eq_none.mp hallowed) v cat
    | constructUnexpected o g cat =>
      exact wp_constructUnexpected hsim (Option.isNone_iff_eq_none.mp hallowed) g cat
    | assignValue o v cat =>
      obtain ⟨w, hw⟩ := isSome_of_holdsValue hallowed
      exact wp_assignValue hsim hw v cat
    | assignUnexpected o g cat =>
      obtain ⟨f, hf⟩ := isSome_of_holdsError hallowed
      exact wp_assignUnexpected hsim hf g cat
    | assignCopy o p =>
      obtain ⟨ho, hp⟩ := Bool.and_eq_true_iff.mp hallowed
      exact wp_assignCopy_sim hsim ho hp
    | assignMove o p =>
      simp only [Call.Allowed, Bool.and_eq_true, bne_iff_ne] at hallowed
      exact wp_assignMove_sim hsim hallowed.1.1 hallowed.1.2 hallowed.2
    | swap o p =>
      obtain ⟨ho, hp⟩ := Bool.and_eq_true_iff.mp hallowed
      exact wp_swap_sim hsim hadmits ho hp
    | destroy o => exact wp_destroy_sim hsim hallowed
  | constructCopy o rhs =>
    exact wp_constructCopy_sim hsim (Bool.and_eq_true_iff.mp hallowed).2
  | constructMove o rhs =>
    obtain ⟨hnone, hsome⟩ := Bool.and_eq_true_iff.mp hallowed
    exact wp_constructMove_sim hsim (Option.isNone_iff_eq_none.mp hnone) hsome
  | constructOther o other cat =>
    exact wp_constructOther hsim (Option.isNone_iff_eq_none.mp hallowed) other cat

/-- **Step.** A storage takes every step that it admits and that the meaning takes. -/
theorem step_follows (hsim : k.Sim h a) {call : Call V E} (hadmits : k.Admits call)
    {a' : States V E} (hstep : States.step k.leaves a call = some a') :
    ∃ h', k.step h call = some h' ∧ k.Sim h' a' := by
  obtain ⟨hallowed, heffect⟩ := Option.ite_none_right_eq_some.mp hstep
  cases heffect
  exact step_of_wp (P := fun h' => k.Sim h' (call.effect k.leaves a))
    (wp_exec_sim hsim hadmits hallowed)

theorem sim_start (hstart : k.Start h) : k.Sim h (fun _ => none) := by
  intro o
  cases k with
  | eUnion tv te =>
    cases hstart
    exact ⟨rfl, rfl, rfl⟩
  | ePODUnion pv pe => trivial
  | ePODStruct => trivial

/-- **Run.** And so it takes every history. -/
theorem sim_run {calls : List (Call V E)} (hadmits : ∀ call ∈ calls, k.Admits call)
    (hrun : Lts.run (States.step k.leaves) (fun _ => none) calls = some a) (hstart : k.Start h) :
    ∃ h', Lts.run k.step h calls = some h' ∧ k.Sim h' a := by
  have hfollows : ∀ (a : States V E) (h : k.Mem), ∀ call ∈ calls, ∀ a', k.Sim h a →
      States.step k.leaves a call = some a' → ∃ h', k.step h call = some h' ∧ k.Sim h' a' :=
    fun _ _ call hcall _ hsim hstep => step_follows hsim (hadmits call hcall) hstep
  exact Lts.run_follows hfollows (sim_start hstart) hrun

theorem Sim.holds (hsim : k.Sim h a) {o : Nat} {x : V ⊕ E} (hx : a o = some x) :
    (k.layout o).Holds h x := by
  have hin : k.Is o (some x) h := hx ▸ hsim o
  exact hin.holds

end Kind

/-- **The storages carry out what is meant.** In every history of allowed operations that the
storage admits, whichever it is and whatever was in its memory before, each operation returns, and
in the end each object holds the value or the error that the operations mean. -/
theorem kinds_follow (k : Kind V E) (calls : List (Call V E))
    (hadmits : ∀ call ∈ calls, k.Admits call) (a : States V E)
    (hrun : Lts.run (States.step k.leaves) (fun _ => none) calls = some a) (h₀ : k.Mem)
    (hstart : k.Start h₀) :
    ∃ h, Lts.run k.step h₀ calls = some h ∧
      ∀ o x, a o = some x → (k.layout o).Holds h x := by
  obtain ⟨h, hh, hsim⟩ := Kind.sim_run hadmits hrun hstart
  exact ⟨h, hh, fun o x hx => hsim.holds hx⟩

/-- A value and an error are swapped, one of them is copied over the other, and the copy is moved to
a third object. -/
def swappedAndCopied : List (Call UInt8 UInt8) :=
  [.op (.constructValue 0 (.trivial 3) .rvalue), .op (.constructUnexpected 1 (.trivial 4) .rvalue),
    .op (.swap 0 1), .op (.assignCopy 0 1), .constructMove 2 0, .op (.destroy 1)]

/-- In bytes that the members share, and in members that come and go. -/
theorem kinds_follow_swapped :
    (∃ h, Lts.run (Kind.ePODUnion .byte .byte).step ⟨fun _ => false, fun _ _ => 0, fun _ _ => 9⟩
        swappedAndCopied = some h ∧
      ((Kind.ePODUnion .byte .byte).layout 2).Holds h (.inl 3)) ∧
    ∃ h, Lts.run (Kind.eUnion (.trivial UInt8) (.trivial UInt8)).step (Objects.empty false)
        swappedAndCopied = some h ∧
      ((Kind.eUnion (.trivial UInt8) (.trivial UInt8)).layout 2).Holds h (.inl 3) := by
  constructor
  · have hadmits : ∀ call ∈ swappedAndCopied, (Kind.ePODUnion .byte .byte).Admits call := by
      have hinside : Inside PodType.byte PodType.byte := ⟨fun _ => rfl, fun _ _ _ _ => rfl⟩
      simp [swappedAndCopied, Kind.Admits, hinside]
    obtain ⟨h, hrun, hholds⟩ := kinds_follow (.ePODUnion .byte .byte) swappedAndCopied hadmits _ rfl
      ⟨fun _ => false, fun _ _ => 0, fun _ _ => 9⟩ trivial
    exact ⟨h, hrun, hholds 2 (.inl 3) rfl⟩
  · have hadmits : ∀ call ∈ swappedAndCopied,
        (Kind.eUnion (.trivial UInt8) (.trivial UInt8)).Admits call := by
      simp [swappedAndCopied, Kind.Admits, Call.Enabled, Op.Enabled, ElemType.trivial]
    obtain ⟨h, hrun, hholds⟩ := kinds_follow (.eUnion (.trivial UInt8) (.trivial UInt8))
      swappedAndCopied hadmits _ rfl (Objects.empty false) rfl
    exact ⟨h, hrun, hholds 2 (.inl 3) rfl⟩

end Kinds

end Hy.Tiny

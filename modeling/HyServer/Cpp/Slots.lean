import HyServer.Cpp.Lifetime

/-!
# Cpp — tagged two-member unions

A memory of any number of objects, named by numbers, each with a tag and an anonymous union of two
members. The members are two slots, each holding an element or not.

* `Objects.life` — the view of such a memory: which slots hold an element, and of each object
  whether it exists and its tag.
* `Good` — exactly the slots that the tags name hold an element, and what is no object holds none;
  read off the view, with the rules by which it changes one object at a time.
* `Inv` — `Good` together with a log that accounts for every element, the invariant of a client's
  run between operations.
-/

namespace Cpp

/-! ## The memory -/

inductive Slot where
  | left
  | right
  deriving DecidableEq, Repr

/-- An element place: a slot of an object. -/
abbrev Place := Nat × Slot

structure Tagged (τ A B : Type) where
  tag : τ
  left : Option A
  right : Option B

/-- Whether a slot holds an element. -/
def Tagged.holds {τ A B : Type} (x : Tagged τ A B) : Slot → Bool
  | .left => x.left.isSome
  | .right => x.right.isSome

structure Objects (τ A B : Type) where
  exist : Nat → Bool
  obj : Nat → Tagged τ A B

namespace Objects

variable {τ A B : Type}

/-- No object anywhere; `t` is what the bytes of a tag happen to be. -/
def empty (t : τ) : Objects τ A B where
  exist _ := false
  obj _ := ⟨t, none, none⟩

def modify (o : Nat) (f : Tagged τ A B → Tagged τ A B) (h : Objects τ A B) : Objects τ A B :=
  { h with obj := Function.update h.obj o (f (h.obj o)) }

def setTag (o : Nat) (t : τ) : Objects τ A B → Objects τ A B :=
  modify o fun x => { x with tag := t }

def setExist (o : Nat) (b : Bool) (h : Objects τ A B) : Objects τ A B :=
  { h with exist := Function.update h.exist o b }

theorem setExist_setExist (o : Nat) (b b' : Bool) (h : Objects τ A B) :
    setExist o b (setExist o b' h) = setExist o b h := by
  unfold setExist
  rw [Function.update_idem]

def leftCell (o : Nat) : Cell (Objects τ A B) Place A where
  loc := (o, .left)
  alive h := (h.obj o).left.isSome
  vacant h := (h.obj o).left.isNone
  read h := (h.obj o).left
  write t := modify o fun x => { x with left := some t }
  erase := modify o fun x => { x with left := none }

def rightCell (o : Nat) : Cell (Objects τ A B) Place B where
  loc := (o, .right)
  alive h := (h.obj o).right.isSome
  vacant h := (h.obj o).right.isNone
  read h := (h.obj o).right
  write t := modify o fun x => { x with right := some t }
  erase := modify o fun x => { x with right := none }

@[simp] theorem leftCell_loc (o : Nat) :
    (leftCell o : Cell (Objects τ A B) Place A).loc = (o, .left) := rfl

@[simp] theorem rightCell_loc (o : Nat) :
    (rightCell o : Cell (Objects τ A B) Place B).loc = (o, .right) := rfl

@[simp] theorem obj_modify_self (o : Nat) (f : Tagged τ A B → Tagged τ A B) (h : Objects τ A B) :
    (modify o f h).obj o = f (h.obj o) :=
  Function.update_self ..

/-! ## Its view -/

def life : LifeView (Objects τ A B) Place (Nat → Bool × τ) where
  alive h l := (h.obj l.1).holds l.2
  tags h o := (h.exist o, (h.obj o).tag)

/-- A change of one slot of one object. -/
theorem alive_modify {o : Nat} {f : Tagged τ A B → Tagged τ A B} {h : Objects τ A B} {k : Slot}
    {b : Bool} (hk : (f (h.obj o)).holds k = b)
    (hother : ∀ j, j ≠ k → (f (h.obj o)).holds j = (h.obj o).holds j) :
    life.alive (modify o f h) = Function.update (life.alive h) (o, k) b := by
  funext ⟨p, j⟩
  show ((modify o f h).obj p).holds j = _
  by_cases hp : p = o
  · subst hp
    rw [obj_modify_self]
    by_cases hj : j = k
    · subst hj
      rw [Function.update_self, hk]
    · rw [Function.update_of_ne (by simpa using hj), hother j hj]
      rfl
  · rw [modify, Function.update_of_ne (by simp [hp])]
    show (Function.update h.obj o (f (h.obj o)) p).holds j = _
    rw [Function.update_of_ne hp]
    rfl

theorem tags_modify {o : Nat} {f : Tagged τ A B → Tagged τ A B} {h : Objects τ A B} {t : τ}
    (ht : (f (h.obj o)).tag = t) :
    life.tags (modify o f h) = Function.update (life.tags h) o ((life.tags h o).1, t) := by
  funext p
  show (h.exist p, (Function.update h.obj o (f (h.obj o)) p).tag) = _
  by_cases hp : p = o
  · subst hp
    rw [Function.update_self, Function.update_self, ht]
    rfl
  · rw [Function.update_of_ne hp, Function.update_of_ne hp]
    rfl

theorem tags_modify_self {o : Nat} {f : Tagged τ A B → Tagged τ A B} {h : Objects τ A B}
    (ht : (f (h.obj o)).tag = (h.obj o).tag) : life.tags (modify o f h) = life.tags h := by
  rw [tags_modify ht]
  exact Function.update_eq_self o _

theorem tracked_left (o : Nat) : Tracked life (leftCell o : Cell (Objects τ A B) Place A) where
  alive_eq _ := rfl
  vacant_eq h := by simp [leftCell, life, Tagged.holds]
  read_isSome _ := rfl
  alive_write t h := by
    refine alive_modify (o := o) (f := fun x => { x with left := some t }) (h := h) rfl ?_
    intro j hj
    cases j
    · exact absurd rfl hj
    · rfl
  alive_erase h := by
    refine alive_modify (o := o) (f := fun x => { x with left := none }) (h := h) rfl ?_
    intro j hj
    cases j
    · exact absurd rfl hj
    · rfl
  tags_write t h := tags_modify_self (o := o) (f := fun x => { x with left := some t }) rfl
  tags_erase h := tags_modify_self (o := o) (f := fun x => { x with left := none }) rfl

theorem tracked_right (o : Nat) : Tracked life (rightCell o : Cell (Objects τ A B) Place B) where
  alive_eq _ := rfl
  vacant_eq h := by simp [rightCell, life, Tagged.holds]
  read_isSome _ := rfl
  alive_write t h := by
    refine alive_modify (o := o) (f := fun x => { x with right := some t }) (h := h) rfl ?_
    intro j hj
    cases j
    · rfl
    · exact absurd rfl hj
  alive_erase h := by
    refine alive_modify (o := o) (f := fun x => { x with right := none }) (h := h) rfl ?_
    intro j hj
    cases j
    · rfl
    · exact absurd rfl hj
  tags_write t h := tags_modify_self (o := o) (f := fun x => { x with right := some t }) rfl
  tags_erase h := tags_modify_self (o := o) (f := fun x => { x with right := none }) rfl

theorem alive_setTag (o : Nat) (t : τ) (h : Objects τ A B) :
    life.alive (setTag o t h) = life.alive h := by
  rw [setTag, alive_modify (k := .left) rfl (fun j _ => by cases j <;> rfl)]
  exact Function.update_eq_self (o, Slot.left) _

theorem tags_setTag (o : Nat) (t : τ) (h : Objects τ A B) :
    life.tags (setTag o t h) = Function.update (life.tags h) o ((life.tags h o).1, t) :=
  tags_modify rfl

theorem tags_setExist (o : Nat) (b : Bool) (h : Objects τ A B) :
    life.tags (setExist o b h) = Function.update (life.tags h) o (b, (life.tags h o).2) := by
  funext p
  show (Function.update h.exist o b p, (h.obj p).tag) = _
  by_cases hp : p = o
  · subst hp
    rw [Function.update_self, Function.update_self]
    rfl
  · rw [Function.update_of_ne hp, Function.update_of_ne hp]
    rfl

end Objects

section Machines

variable {τ A B : Type} {b : Bool} {a : Place → Bool} {g : Nat → Bool × τ} {ts : List Bool}
  {m : Machine (Objects τ A B) Place}

theorem lives_setTag (h : Lives Objects.life b a g ts m) (o : Nat) (t : τ) :
    Lives Objects.life b a (Function.update g o ((g o).1, t)) ts
      { m with mem := Objects.setTag o t m.mem } := by
  have htags := Objects.tags_setTag o t m.mem
  rw [h.tags_eq] at htags
  exact h.tag (Objects.alive_setTag o t m.mem) htags

theorem lives_setExist (h : Lives Objects.life b a g ts m) (o : Nat) (v : Bool) :
    Lives Objects.life b a (Function.update g o (v, (g o).2)) ts
      { m with mem := Objects.setExist o v m.mem } := by
  have htags := Objects.tags_setExist o v m.mem
  rw [h.tags_eq] at htags
  exact h.tag rfl htags

theorem lives_exist_eq (h : Lives Objects.life b a g ts m) (o : Nat) : m.mem.exist o = (g o).1 := by
  rw [← h.tags_eq]
  rfl

theorem lives_tag_eq (h : Lives Objects.life b a g ts m) (o : Nat) :
    (m.mem.obj o).tag = (g o).2 := by
  rw [← h.tags_eq]
  rfl

/-! ## Tags that name the slots -/

/-- Exactly the slots that its tag names hold an element, and no object holds any elsewhere. -/
def Objects.WellFormed (names : τ → Slot → Bool) (h : Objects τ A B) : Prop :=
  ∀ o k, (h.obj o).holds k = (h.exist o && names (h.obj o).tag k)

/-- The same, read off the view. -/
def Good (names : τ → Slot → Bool) (a : Place → Bool) (g : Nat → Bool × τ) : Prop :=
  ∀ o k, a (o, k) = ((g o).1 && names (g o).2 k)

variable {names : τ → Slot → Bool}

theorem Good.of_tag (hg : Good names a g) {o : Nat} {t : τ} (ho : (g o).1 = true)
    (ht : (g o).2 = t) (k : Slot) : a (o, k) = names t k := by
  rw [hg o k, ho, ht, Bool.true_and]

theorem Good.of_absent (hg : Good names a g) {o : Nat} (ho : (g o).1 = false) (k : Slot) :
    a (o, k) = false := by
  rw [hg o k, ho, Bool.false_and]

/-- Changing one object, the rest being as it was. -/
theorem Good.set {a' : Place → Bool} {g' : Nat → Bool × τ} (hg : Good names a g) (o : Nat)
    (hself : ∀ k, a' (o, k) = ((g' o).1 && names (g' o).2 k))
    (hother : ∀ p, p ≠ o → ∀ k, a' (p, k) = a (p, k)) (htags : ∀ p, p ≠ o → g' p = g p) :
    Good names a' g' := by
  intro p k
  by_cases hp : p = o
  · subst hp
    exact hself k
  · rw [hother p hp, htags p hp]
    exact hg p k

/-- Changing one slot of an object and its tag. -/
theorem Good.change (hg : Good names a g) {o : Nat} {k : Slot} {v e : Bool} {t : τ}
    (hk : v = (e && names t k)) (hother : ∀ j, j ≠ k → a (o, j) = (e && names t j)) :
    Good names (Function.update a (o, k) v) (Function.update g o (e, t)) := by
  refine hg.set o (fun j => ?_) (fun p hp j => ?_) fun p hp => ?_
  · rw [Function.update_self]
    by_cases hj : j = k
    · rw [hj, Function.update_self, hk]
    · rw [Function.update_of_ne (by simpa using hj), hother j hj]
  · rw [Function.update_of_ne (by simp [hp])]
  · rw [Function.update_of_ne hp]

/-- Changing the tag, or the existence, of an object whose slots agree with the new one. -/
theorem Good.retag (hg : Good names a g) {o : Nat} {e : Bool} {t : τ}
    (hself : ∀ k, a (o, k) = (e && names t k)) : Good names a (Function.update g o (e, t)) := by
  refine hg.set o (fun k => ?_) (fun _ _ _ => rfl) fun p hp => ?_
  · rw [Function.update_self]
    exact hself k
  · rw [Function.update_of_ne hp]

/-- Writing back the tag an object has. -/
theorem Good.sameTag (hg : Good names a g) {o : Nat} {t : τ} (ht : (g o).2 = t) :
    Good names a (Function.update g o ((g o).1, t)) := by
  subst ht
  rw [Function.update_eq_self_iff.mpr rfl]
  exact hg

/-! ## The invariant of a run -/

/-- Between the operations of a client: the tags name the elements, and the log accounts for every
element that was ever constructed, locals included. -/
def Inv (names : τ → Slot → Bool) (m : Machine (Objects τ A B) Place) : Prop :=
  ∃ a g ts, Lives Objects.life false a g ts m ∧ Good names a g

theorem Inv.skip (h : Inv names m) (throws : List Bool) :
    Inv names { m with throws := throws } := by
  obtain ⟨a, g, ts, hl, hg⟩ := h
  exact ⟨a, g, throws, hl.skip throws, hg⟩

theorem Inv.wellFormed (h : Inv names m) : m.mem.WellFormed names := by
  obtain ⟨a, g, ts, hl, hg⟩ := h
  intro o k
  have hok := hg o k
  rw [← hl.alive_eq, ← hl.tags_eq] at hok
  exact hok

theorem inv_start (t : τ) :
    Inv names (⟨Objects.empty t, [], []⟩ : Machine (Objects τ A B) Place) := by
  refine ⟨fun _ => false, fun _ => (false, t), [], ⟨?_, rfl, fun l => rfl, rfl, rfl⟩, ?_⟩
  · funext ⟨o, k⟩
    cases k <;> rfl
  · exact fun o k => rfl

/-- At every place births and deaths alternate, the last birth being open exactly where an element
now is. -/
theorem Inv.replay_eq (h : Inv names m) (o : Nat) (k : Slot) :
    replay (some (o, k)) m.log = some ((m.mem.obj o).holds k) := by
  obtain ⟨a, g, ts, hl, hg⟩ := h
  rw [hl.replay_place, ← hl.alive_eq]
  rfl

theorem Inv.replay_local (h : Inv names m) : replay none m.log = some false := by
  obtain ⟨a, g, ts, hl, hg⟩ := h
  exact hl.replay_local

/-- When no object is left, every element ever constructed has been destroyed. -/
theorem Inv.count_eq (h : Inv names m) (hnone : ∀ o, m.mem.exist o = false) (l : Option Place) :
    m.log.count (.born l) = m.log.count (.died l) := by
  cases l with
  | none => simpa using count_of_replay none m.log false h.replay_local
  | some l =>
    obtain ⟨o, k⟩ := l
    have hreplay := h.replay_eq o k
    rw [h.wellFormed o k, hnone o, Bool.false_and] at hreplay
    simpa using count_of_replay (some (o, k)) m.log false hreplay

end Machines

end Cpp

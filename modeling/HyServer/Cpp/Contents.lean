import HyServer.Cpp.Slots

/-!
# Cpp — element places with their values

Lifetimes say which places hold an element; here is what the element is. An exact cell obeys the
laws of a lens whose content may also be absent, and two apart cells do not see each other. With
these laws the memory after a program is an expression in the memory before it.

* `Cell.Exact`, `Cell.Apart` — the laws of one place, and of two.
* `Init.Apart` — an initializer that neither reads nor writes a place.
* `Init.forward` — an element forwarded as an lvalue or as an rvalue.
* `wp_swapElems_exact` — `std::swap` with its values.
* `Cell.beside`, `Argument` — a memory with a variable of the caller beside it, which an operation
  is given as its argument.
* `Exclusive` — a log in which two places never hold an element at once.
* `Objects.put` — an object replaced as a whole; the slots of `Objects` are exact cells, apart from
  each other.
-/

namespace Cpp

section Laws

variable {σ ℓ T U : Type}

/-! ## One place and two -/

/-- A place that holds an element or none, and nothing else. -/
structure Cell.Exact (c : Cell σ ℓ T) : Prop where
  alive_eq : ∀ s, c.alive s = (c.read s).isSome
  vacant_eq : ∀ s, c.vacant s = (c.read s).isNone
  read_write : ∀ t s, c.read (c.write t s) = some t
  read_erase : ∀ s, c.read (c.erase s) = none
  write_write : ∀ t u s, c.write t (c.write u s) = c.write t s
  write_erase : ∀ t s, c.write t (c.erase s) = c.write t s
  erase_write : ∀ t s, c.erase (c.write t s) = c.erase s
  write_self : ∀ {t s}, c.read s = some t → c.write t s = s

/-- Two places that share nothing. -/
structure Cell.Apart (c : Cell σ ℓ T) (d : Cell σ ℓ U) : Prop where
  loc_ne : c.loc ≠ d.loc
  read_write : ∀ u s, c.read (d.write u s) = c.read s
  read_erase : ∀ s, c.read (d.erase s) = c.read s
  read_write' : ∀ t s, d.read (c.write t s) = d.read s
  read_erase' : ∀ s, d.read (c.erase s) = d.read s
  write_write : ∀ t u s, c.write t (d.write u s) = d.write u (c.write t s)
  write_erase : ∀ t s, c.write t (d.erase s) = d.erase (c.write t s)
  erase_write : ∀ u s, c.erase (d.write u s) = d.write u (c.erase s)
  erase_erase : ∀ s, c.erase (d.erase s) = d.erase (c.erase s)

theorem Cell.Apart.symm {c : Cell σ ℓ T} {d : Cell σ ℓ U} (h : c.Apart d) : d.Apart c where
  loc_ne := h.loc_ne.symm
  read_write := h.read_write'
  read_erase := h.read_erase'
  read_write' := h.read_write
  read_erase' := h.read_erase
  write_write t u s := (h.write_write u t s).symm
  write_erase t s := (h.erase_write t s).symm
  erase_write u s := (h.write_erase u s).symm
  erase_erase s := (h.erase_erase s).symm

theorem Cell.Exact.alive_of_read {c : Cell σ ℓ T} (hc : c.Exact) {t : T} {s : σ}
    (h : c.read s = some t) : c.alive s = true := by
  rw [hc.alive_eq, h]
  rfl

theorem Cell.Exact.vacant_of_read {c : Cell σ ℓ T} (hc : c.Exact) {s : σ}
    (h : c.read s = none) : c.vacant s = true := by
  rw [hc.vacant_eq, h]
  rfl

/-! ## Initializers -/

/-- An initializer that neither reads nor writes a place. -/
structure Init.Apart (i : Init σ T) (c : Cell σ ℓ U) : Prop where
  run_write : ∀ {t s s'}, i.run s = some (t, s') → ∀ u, i.run (c.write u s) = some (t, c.write u s')
  run_erase : ∀ {t s s'}, i.run s = some (t, s') → i.run (c.erase s) = some (t, c.erase s')
  read_run : ∀ {t s s'}, i.run s = some (t, s') → c.read s' = c.read s

theorem Init.apart_ofArg (n a : Bool) (t : T) (c : Cell σ ℓ U) :
    (Init.ofArg n a t : Init σ T).Apart c where
  run_write h u := by cases h; rfl
  run_erase h := by cases h; rfl
  read_run h := by cases h; rfl

theorem Init.run_copy (ty : ElemType T) {c : Cell σ ℓ T} {t : T} {s : σ} (h : c.read s = some t) :
    (Init.copy ty c).run s = some (t, s) := by
  simp [Init.copy, h]

theorem Init.run_move (ty : ElemType T) {c : Cell σ ℓ T} {t : T} {s : σ} (h : c.read s = some t) :
    (Init.move ty c).run s = some (t, c.write (ty.movedFrom t) s) := by
  simp [Init.move, h]

/-- What a copy or a move read, and what it left. -/
theorem Init.run_copy_inv {ty : ElemType T} {c : Cell σ ℓ T} {t : T} {s s' : σ}
    (h : (Init.copy ty c).run s = some (t, s')) : c.read s = some t ∧ s' = s := by
  obtain ⟨u, hread, hu⟩ := Option.map_eq_some_iff.mp h
  cases hu
  exact ⟨hread, rfl⟩

theorem Init.run_move_inv {ty : ElemType T} {c : Cell σ ℓ T} {t : T} {s s' : σ}
    (h : (Init.move ty c).run s = some (t, s')) :
    c.read s = some t ∧ s' = c.write (ty.movedFrom t) s := by
  obtain ⟨u, hread, hu⟩ := Option.map_eq_some_iff.mp h
  cases hu
  exact ⟨hread, rfl⟩

theorem Cell.Apart.init_copy {d : Cell σ ℓ T} {c : Cell σ ℓ U} (h : d.Apart c) (ty : ElemType T) :
    (Init.copy ty d).Apart c where
  run_write hrun u := by
    obtain ⟨hread, rfl⟩ := Init.run_copy_inv hrun
    exact Init.run_copy ty (by rw [h.read_write, hread])
  run_erase hrun := by
    obtain ⟨hread, rfl⟩ := Init.run_copy_inv hrun
    exact Init.run_copy ty (by rw [h.read_erase, hread])
  read_run hrun := by
    obtain ⟨-, rfl⟩ := Init.run_copy_inv hrun
    rfl

theorem Cell.Apart.init_move {d : Cell σ ℓ T} {c : Cell σ ℓ U} (h : d.Apart c) (ty : ElemType T) :
    (Init.move ty d).Apart c where
  run_write hrun u := by
    obtain ⟨hread, rfl⟩ := Init.run_move_inv hrun
    rw [Init.run_move ty (by rw [h.read_write, hread]), h.write_write]
  run_erase hrun := by
    obtain ⟨hread, rfl⟩ := Init.run_move_inv hrun
    rw [Init.run_move ty (by rw [h.read_erase, hread]), h.write_erase]
  read_run hrun := by
    obtain ⟨-, rfl⟩ := Init.run_move_inv hrun
    exact h.read_write' _ _

/-! ## Forwarding -/

/-- What the category of a forwarded element makes of it: a copy, or a move. -/
def Init.forward (ty : ElemType T) (c : Cell σ ℓ T) : ValueCategory → Init σ T
  | .lvalue => Init.copy ty c
  | .rvalue => Init.move ty c

/-- What is left of an element once it has been forwarded and taken. -/
def ElemType.leaves (ty : ElemType T) : ValueCategory → T → T
  | .lvalue, t => t
  | .rvalue, t => ty.movedFrom t

theorem Init.run_forward (ty : ElemType T) {c : Cell σ ℓ T} (hc : c.Exact) (cat : ValueCategory)
    {t : T} {s : σ} (h : c.read s = some t) :
    (Init.forward ty c cat).run s = some (t, c.write (ty.leaves cat t) s) := by
  cases cat with
  | lvalue =>
    show (Init.copy ty c).run s = some (t, c.write t s)
    rw [hc.write_self h, Init.run_copy ty h]
  | rvalue => exact Init.run_move ty h

theorem Cell.Apart.init_forward {d : Cell σ ℓ T} {c : Cell σ ℓ U} (h : d.Apart c) (ty : ElemType T)
    (cat : ValueCategory) : (Init.forward ty d cat).Apart c := by
  cases cat with
  | lvalue => exact h.init_copy ty
  | rvalue => exact h.init_move ty

/-! ## Byte copies -/

theorem wp_copyBytesAt_exact {ty : ElemType T} {c src : Cell σ ℓ T} {m : Machine σ ℓ}
    {Q : Unit → Machine σ ℓ → Prop} {R K : Machine σ ℓ → Prop}
    (hQ : ∀ m', m'.mem = (src.read m.mem).elim (c.erase m.mem) (fun t => c.write t m.mem) →
      m'.throws = m.throws → Q () m') :
    wp (copyBytesAt ty c src) Q R K m := by
  cases hread : src.read m.mem with
  | some t =>
    rw [hread] at hQ
    exact (wp_copyBytesAt_of_some hread).mpr (hQ _ rfl rfl)
  | none =>
    rw [hread] at hQ
    exact (wp_copyBytesAt_of_none hread).mpr (hQ _ rfl rfl)

end Laws

/-! ## An argument that is a variable -/

section Argument

variable {σ ℓ T U : Type}

/-- The cell in a memory with a variable beside it. -/
def Cell.beside (c : Cell σ ℓ T) : Cell (σ × U) ℓ T where
  loc := c.loc
  alive s := c.alive s.1
  vacant s := c.vacant s.1
  read s := c.read s.1
  write t s := (c.write t s.1, s.2)
  erase s := (c.erase s.1, s.2)

/-- A variable of type `U` as the argument of an element of type `T`: what is made of it, and what
is left of it once it has been taken as an rvalue. -/
structure Argument (U T : Type) where
  made : U → T
  movedFrom : U → U
  nothrowConstruct : ValueCategory → Bool
  nothrowAssign : ValueCategory → Bool

def Argument.leaves (a : Argument U T) : ValueCategory → U → U
  | .lvalue, u => u
  | .rvalue, u => a.movedFrom u

/-- The variable beside the memory, forwarded. -/
def Argument.as (a : Argument U T) (cat : ValueCategory) : Init (σ × U) T where
  nothrowConstruct := a.nothrowConstruct cat
  nothrowAssign := a.nothrowAssign cat
  run s := some (a.made s.2, (s.1, a.leaves cat s.2))

end Argument

/-! ## `std::swap` -/

section Swap

variable {σ ℓ T : Type} {c d : Cell σ ℓ T} {m : Machine σ ℓ}
  {Q : Unit → Machine σ ℓ → Prop} {R K : Machine σ ℓ → Prop}

/-- **The values change places.** When it throws, both places still hold an element. The two places
may be the same one. -/
theorem wp_swapElems_exact (ty : ElemType T) (hc : c.Exact) (hd : d.Exact)
    (hcd : c = d ∨ c.Apart d) {x y : T} (hx : c.read m.mem = some x) (hy : d.read m.mem = some y)
    (hQ : ∀ m', m'.mem = c.write y (d.write x m.mem) → Q () m')
    (hR : ty.nothrowSwappable = false → ∀ m' x' y', m'.mem = c.write x' (d.write y' m.mem) → R m') :
    wp (swapElems ty c d) Q R K m := by
  -- a throw point that throws is not `noexcept`
  have hmove : ∀ ts, throwsNext ty.nothrowMoveConstructible ts = true →
      ty.nothrowSwappable = false := by
    intro ts hthrow
    rw [ElemType.nothrowSwappable, nothrow_of_throwsNext hthrow, Bool.false_and]
  have hassign : ∀ ts, throwsNext ty.nothrowMoveAssignable ts = true →
      ty.nothrowSwappable = false := by
    intro ts hthrow
    rw [ElemType.nothrowSwappable, nothrow_of_throwsNext hthrow, Bool.and_false]
  unfold swapElems
  rw [wp_withLocal (Init.run_move ty hx)]
  split
  · next hthrow =>
    refine hR (hmove _ hthrow) _ x y ?_
    show m.mem = _
    rw [hd.write_self hy, hc.write_self hx]
  · have hc₁ : c.alive (c.write (ty.movedFrom x) m.mem) = true :=
      hc.alive_of_read (hc.read_write _ _)
    rw [wp_unwindLocal, wp_bind]
    rcases hcd with rfl | hcd
    · -- one place: it reads what the move into the local left there
      rw [wp_assignAt (Init.run_move ty (hc.read_write _ _))]
      refine ⟨hc₁, ?_⟩
      split
      · next hthrow =>
        refine hR (hassign _ hthrow) _ (ty.movedFrom x) x ?_
        show c.write _ m.mem = _
        rw [hc.write_write]
      · rw [wp_assignAt (run_moveLocal ty x _)]
        refine ⟨hc.alive_of_read (hc.read_write _ _), ?_⟩
        rw [hx] at hy
        cases hy
        split
        · next hthrow =>
          refine hR (hassign _ hthrow) _ (ty.movedFrom x) x ?_
          simp only [hc.write_write]
        · refine hQ _ ?_
          simp only [hc.write_write]
    · have hy₁ : d.read (c.write (ty.movedFrom x) m.mem) = some y := by
        rw [hcd.read_write', hy]
      rw [wp_assignAt (Init.run_move ty hy₁)]
      refine ⟨hc₁, ?_⟩
      split
      · next hthrow =>
        refine hR (hassign _ hthrow) _ (ty.movedFrom x) y ?_
        show c.write _ m.mem = _
        rw [hd.write_self hy]
      · have hd₂ : d.alive (c.write y (d.write (ty.movedFrom y) (c.write (ty.movedFrom x) m.mem)))
            = true := hd.alive_of_read (by rw [hcd.read_write', hd.read_write])
        have hmem : c.write y (d.write (ty.movedFrom y) (c.write (ty.movedFrom x) m.mem))
            = c.write y (d.write (ty.movedFrom y) m.mem) := by
          rw [← hcd.write_write, hc.write_write]
        rw [wp_assignAt (run_moveLocal ty x _)]
        refine ⟨hd₂, ?_⟩
        split
        · next hthrow => exact hR (hassign _ hthrow) _ y (ty.movedFrom y) hmem
        · refine hQ _ ?_
          show d.write x (c.write y _) = _
          rw [hmem, ← hcd.write_write, hd.write_write]

end Swap

/-! ## Two places in a log -/

section Exclusive

variable {ℓ : Type} [DecidableEq ℓ]

/-- Whether a place holds an element after an event, when it did before iff `b`. -/
def Event.after (l : ℓ) (b : Bool) : Event ℓ → Bool
  | .born l' => if l' = l then true else b
  | .died l' => if l' = l then false else b

/-- From a point where `l` holds an element iff `a` and `k` does iff `b`, the two never hold one
at once. -/
def Exclusive (l k : ℓ) : Bool → Bool → List (Event ℓ) → Prop
  | a, b, [] => (a && b) = false
  | a, b, e :: events =>
    (a && b) = false ∧ Exclusive l k (e.after l a) (e.after k b) events

end Exclusive

/-! ## The slots of an object -/

namespace Objects

variable {τ A B : Type}

theorem modify_modify (o : Nat) (f g : Tagged τ A B → Tagged τ A B) (h : Objects τ A B) :
    modify o f (modify o g h) = modify o (fun x => f (g x)) h := by
  simp [modify]

theorem modify_comm {o p : Nat} (hop : o ≠ p) (f g : Tagged τ A B → Tagged τ A B)
    (h : Objects τ A B) : modify o f (modify p g h) = modify p g (modify o f h) := by
  have hcomm : Function.update (Function.update h.obj p (g (h.obj p))) o (f (h.obj o))
      = Function.update (Function.update h.obj o (f (h.obj o))) p (g (h.obj p)) :=
    Function.update_comm hop.symm _ _ _
  simp [modify, Function.update_of_ne hop, Function.update_of_ne hop.symm, hcomm]

theorem obj_modify_of_ne {o p : Nat} (hop : p ≠ o) (f : Tagged τ A B → Tagged τ A B)
    (h : Objects τ A B) : (modify o f h).obj p = h.obj p :=
  Function.update_of_ne hop _ _

theorem modify_self {o : Nat} {f : Tagged τ A B → Tagged τ A B} {h : Objects τ A B}
    (hf : f (h.obj o) = h.obj o) : modify o f h = h := by
  unfold modify
  rw [hf, Function.update_eq_self]

/-! ## Whole objects -/

def put (o : Nat) (x : Tagged τ A B) : Objects τ A B → Objects τ A B :=
  modify o fun _ => x

@[simp] theorem obj_put_self (o : Nat) (x : Tagged τ A B) (h : Objects τ A B) :
    (put o x h).obj o = x :=
  obj_modify_self o _ h

theorem obj_put_of_ne {o p : Nat} (hop : p ≠ o) (x : Tagged τ A B) (h : Objects τ A B) :
    (put o x h).obj p = h.obj p :=
  obj_modify_of_ne hop _ h

theorem put_comm {o p : Nat} (hop : o ≠ p) (x y : Tagged τ A B) (h : Objects τ A B) :
    put o x (put p y h) = put p y (put o x h) :=
  modify_comm hop _ _ h

theorem put_put (o : Nat) (x y : Tagged τ A B) (h : Objects τ A B) :
    put o x (put o y h) = put o x h :=
  modify_modify o _ _ h

theorem put_self {o : Nat} {x : Tagged τ A B} {h : Objects τ A B} (hx : h.obj o = x) :
    put o x h = h :=
  modify_self hx.symm

/-- A change of an object is known by what it makes of it. -/
theorem modify_eq_put {o : Nat} {f : Tagged τ A B → Tagged τ A B} {h : Objects τ A B}
    {x : Tagged τ A B} (hx : f (h.obj o) = x) : modify o f h = put o x h := by
  subst hx
  rfl

/-! ## Slots -/

section Slots

variable {T U : Type} {get : Tagged τ A B → Option T} {set : Option T → Tagged τ A B → Tagged τ A B}
  {get' : Tagged τ A B → Option U} {set' : Option U → Tagged τ A B → Tagged τ A B}

/-- A slot of an object, by how it is read and set. -/
def slotCell (o : Nat) (k : Slot) (get : Tagged τ A B → Option T)
    (set : Option T → Tagged τ A B → Tagged τ A B) : Cell (Objects τ A B) Place T where
  loc := (o, k)
  alive h := (get (h.obj o)).isSome
  vacant h := (get (h.obj o)).isNone
  read h := get (h.obj o)
  write t := modify o (set (some t))
  erase := modify o (set none)

theorem exact_slotCell (o : Nat) (k : Slot) (hget : ∀ t x, get (set t x) = t)
    (hset : ∀ t u x, set t (set u x) = set t x) (hself : ∀ x, set (get x) x = x) :
    (slotCell o k get set).Exact where
  alive_eq _ := rfl
  vacant_eq _ := rfl
  read_write t h := by simp [slotCell, hget]
  read_erase h := by simp [slotCell, hget]
  write_write t u h := by simp [slotCell, modify_modify, hset]
  write_erase t h := by simp [slotCell, modify_modify, hset]
  erase_write t h := by simp [slotCell, modify_modify, hset]
  write_self {t h} hread := by
    refine modify_self ?_
    rw [← show get (h.obj o) = some t from hread, hself]

theorem apart_slotCell_of_ne {o p : Nat} (hop : o ≠ p) (k j : Slot) :
    (slotCell o k get set).Apart (slotCell p j get' set') where
  loc_ne := by simp [slotCell, hop]
  read_write u h := by simp [slotCell, obj_modify_of_ne hop]
  read_erase h := by simp [slotCell, obj_modify_of_ne hop]
  read_write' t h := by simp [slotCell, obj_modify_of_ne (Ne.symm hop)]
  read_erase' h := by simp [slotCell, obj_modify_of_ne (Ne.symm hop)]
  write_write t u h := modify_comm hop _ _ h
  write_erase t h := modify_comm hop _ _ h
  erase_write u h := modify_comm hop _ _ h
  erase_erase h := modify_comm hop _ _ h

end Slots

theorem leftCell_eq (o : Nat) : (leftCell o : Cell (Objects τ A B) Place A) =
    slotCell o .left (fun x => x.left) (fun t x => { x with left := t }) := rfl

theorem rightCell_eq (o : Nat) : (rightCell o : Cell (Objects τ A B) Place B) =
    slotCell o .right (fun x => x.right) (fun t x => { x with right := t }) := rfl

/-- A slot of one object over that of another, whether there is an element in it or not. -/
theorem copied_left (o p : Nat) (h : Objects τ A B) :
    ((leftCell p).read h).elim ((leftCell o).erase h) (fun t => (leftCell o).write t h)
      = modify o (fun x => { x with left := (h.obj p).left }) h := by
  show (h.obj p).left.elim _ _ = _
  cases (h.obj p).left <;> rfl

theorem copied_right (o p : Nat) (h : Objects τ A B) :
    ((rightCell p).read h).elim ((rightCell o).erase h) (fun t => (rightCell o).write t h)
      = modify o (fun x => { x with right := (h.obj p).right }) h := by
  show (h.obj p).right.elim _ _ = _
  cases (h.obj p).right <;> rfl

theorem exact_left (o : Nat) : (leftCell o : Cell (Objects τ A B) Place A).Exact := by
  rw [leftCell_eq]
  exact exact_slotCell o .left (fun _ _ => rfl) (fun _ _ _ => rfl) fun _ => rfl

theorem exact_right (o : Nat) : (rightCell o : Cell (Objects τ A B) Place B).Exact := by
  rw [rightCell_eq]
  exact exact_slotCell o .right (fun _ _ => rfl) (fun _ _ _ => rfl) fun _ => rfl

theorem apart_left {o p : Nat} (hop : o ≠ p) :
    (leftCell o : Cell (Objects τ A B) Place A).Apart
      (leftCell p : Cell (Objects τ A B) Place A) := by
  rw [leftCell_eq, leftCell_eq]
  exact apart_slotCell_of_ne hop .left .left

theorem apart_right {o p : Nat} (hop : o ≠ p) :
    (rightCell o : Cell (Objects τ A B) Place B).Apart
      (rightCell p : Cell (Objects τ A B) Place B) := by
  rw [rightCell_eq, rightCell_eq]
  exact apart_slotCell_of_ne hop .right .right

/-- The left slot of an object and the right slot of the same or of another one. -/
theorem apart_left_right (o p : Nat) :
    (leftCell o : Cell (Objects τ A B) Place A).Apart
      (rightCell p : Cell (Objects τ A B) Place B) := by
  by_cases hop : o = p
  · subst hop
    exact
      { loc_ne := by simp
        read_write := fun u h => by simp [leftCell, rightCell]
        read_erase := fun h => by simp [leftCell, rightCell]
        read_write' := fun t h => by simp [leftCell, rightCell]
        read_erase' := fun h => by simp [leftCell, rightCell]
        write_write := fun t u h => by simp [leftCell, rightCell, modify_modify]
        write_erase := fun t h => by simp [leftCell, rightCell, modify_modify]
        erase_write := fun u h => by simp [leftCell, rightCell, modify_modify]
        erase_erase := fun h => by simp [leftCell, rightCell, modify_modify] }
  · rw [leftCell_eq, rightCell_eq]
    exact apart_slotCell_of_ne hop .left .right

end Objects

end Cpp

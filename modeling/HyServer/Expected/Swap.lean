import HyServer.Expected.Transfer

/-!
# hy::expected — `swap` of the general storage, with its values

* `wp_exchange_exact` — the two branches at the end of `swap`: both elements change objects, or the
  memory is as it was.
* `swap_exchanges` — `swap` exchanges the states of two objects or, where it would have changed the
  alternatives, does nothing; and its recursion is one deep.
-/

namespace Hy.Tiny

open Cpp

/-! ## The exchange, with its values -/

section Exchange

variable {σ ℓ T U : Type} {x y' : Cell σ ℓ T} {y x' : Cell σ ℓ U}

/-- The four members of two objects, of which one holds a `T` in `x` and the other a `U` in `y`. -/
structure Crosswise (x y' : Cell σ ℓ T) (y x' : Cell σ ℓ U) : Prop where
  exact_x : x.Exact
  exact_y : y.Exact
  exact_x' : x'.Exact
  exact_y' : y'.Exact
  x_y : x.Apart y
  x_x' : x.Apart x'
  x_y' : x.Apart y'
  x'_y : x'.Apart y
  y'_y : y'.Apart y
  x'_y' : x'.Apart y'

/-- **Both elements change places, or the memory is as it was.** It throws only where the move of
the second element may. -/
theorem wp_exchange_exact {ty : ElemType T} {uy : ElemType U} {m : Machine σ ℓ} {t : T} {u : U}
    {Q : Unit → Machine σ ℓ → Prop} {R K : Machine σ ℓ → Prop} (hcross : Crosswise x y' y x')
    (hty : ty.nothrowMoveConstructible = true) (hx : x.read m.mem = some t)
    (hy : y.read m.mem = some u) (hx' : x'.read m.mem = none) (hy' : y'.read m.mem = none)
    (hQ : ∀ m', m'.mem = y'.write t (y.erase (x'.write u (x.erase m.mem))) → Q () m')
    (hR : uy.nothrowMoveConstructible = false → ∀ m', m'.mem = m.mem → R m') :
    wp (withLocal (Init.move ty x) fun temp => do
        destroyAt x
        tryRethrow
          (do constructAt x' (Init.move uy y)
              destroyAt y
              constructAt y' (Init.moveLocal ty temp))
          (constructAt x (Init.moveLocal ty temp))) Q R K m := by
  have hlocal : (Init.moveLocal ty t : Init σ T).nothrowConstruct = true := hty
  have hx₁ : x.erase (x.write (ty.movedFrom t) m.mem) = x.erase m.mem :=
    hcross.exact_x.erase_write _ _
  rw [wp_withLocal (Init.run_move ty hx)]
  show if throwsNext ty.nothrowMoveConstructible m.throws = true then _ else _
  rw [hty, if_neg (by simp), wp_unwindLocal, wp_bind, wp_destroyAt]
  refine ⟨hcross.exact_x.alive_of_read (hcross.exact_x.read_write _ _), wp_tryRethrow ?_⟩
  -- the other element moves over
  have hy₂ : y.read (x.erase (x.write (ty.movedFrom t) m.mem)) = some u := by
    rw [hx₁, hcross.x_y.read_erase', hy]
  rw [wp_bind, wp_constructAt (Init.run_move uy hy₂)]
  split
  · next hthrow =>
    have huy : uy.nothrowMoveConstructible = false := nothrow_of_throwsNext hthrow
    rw [wp_constructAt (run_moveLocal ..), hlocal]
    refine ⟨hcross.exact_x.vacant_of_read (hcross.exact_x.read_erase _), hR huy _ ?_⟩
    show x.write t (x.erase (x.write _ m.mem)) = m.mem
    rw [hcross.exact_x.write_erase, hcross.exact_x.write_write, hcross.exact_x.write_self hx]
  · refine ⟨hcross.exact_x'.vacant_of_read ?_, ?_⟩
    · rw [hcross.x'_y.read_write, hx₁, hcross.x_x'.read_erase', hx']
    · rw [wp_bind, wp_destroyAt]
      refine ⟨hcross.exact_y.alive_of_read
        (by rw [hcross.x'_y.read_write', hcross.exact_y.read_write]), ?_⟩
      rw [wp_constructAt (run_moveLocal ..), hlocal]
      -- the moved-from element is gone with its place
      have hmem : y.erase (x'.write u (y.write (uy.movedFrom u)
          (x.erase (x.write (ty.movedFrom t) m.mem)))) = y.erase (x'.write u (x.erase m.mem)) := by
        rw [hx₁, hcross.x'_y.write_write, hcross.exact_y.erase_write]
      refine ⟨hcross.exact_y'.vacant_of_read ?_, hQ _ ?_⟩
      · show y'.read (y.erase (x'.write u _)) = none
        rw [hmem, hcross.y'_y.read_erase, hcross.x'_y'.read_write', hcross.x_y'.read_erase', hy']
      · show y'.write t (y.erase (x'.write u _)) = _
        rw [hmem]

end Exchange

/-! ## `swap` -/

section Swap

variable {V E : Type} {tv : ElemType V} {te : ElemType E} {o p : Nat}

/-- Two objects have changed their states. -/
structure Exchanged (o p : Nat) (h h' : Heap V E) : Prop where
  this : h'.obj o = h.obj p
  that : h'.obj p = h.obj o
  other : ∀ q, q ≠ o → q ≠ p → h'.obj q = h.obj q
  exist : h'.exist = h.exist

theorem Exchanged.symm {h h' : Heap V E} (hex : Exchanged o p h h') : Exchanged p o h h' where
  this := hex.that
  that := hex.this
  other q hqp hqo := hex.other q hqo hqp
  exist := hex.exist

theorem exchanged_modify {h : Heap V E} {f g : Tagged Bool V E → Tagged Bool V E}
    (hf : f (h.obj o) = h.obj p) (hg : g (h.obj p) = h.obj o)
    (hself : o = p → f (g (h.obj o)) = h.obj o) :
    Exchanged o p h (Objects.modify o f (Objects.modify p g h)) where
  this := by
    rw [Objects.obj_modify_self]
    by_cases hop : o = p
    · subst hop
      rw [Objects.obj_modify_self, hself rfl]
    · rw [Objects.obj_modify_of_ne hop, hf]
  that := by
    by_cases hop : o = p
    · subst hop
      rw [Objects.obj_modify_self, Objects.obj_modify_self, hself rfl]
    · rw [Objects.obj_modify_of_ne (Ne.symm hop), Objects.obj_modify_self, hg]
  other q hqo hqp := by rw [Objects.obj_modify_of_ne hqo, Objects.obj_modify_of_ne hqp]
  exist := rfl

theorem Exchanged.wellFormed {h h' : Heap V E} (hex : Exchanged o p h h') (hwf : h.WellFormed)
    (ho : h.exist o = true) (hp : h.exist p = true) : h'.WellFormed := by
  refine Heap.wellFormed_of_stored hwf hex.exist fun q => ?_
  by_cases hqo : q = o
  · subst hqo
    obtain ⟨x, hx⟩ := hwf.exists_stored hp
    exact .inr ⟨ho, x, hex.this.trans hx⟩
  · by_cases hqp : q = p
    · subst hqp
      obtain ⟨x, hx⟩ := hwf.exists_stored ho
      exact .inr ⟨hp, x, hex.that.trans hx⟩
    · exact .inl (hex.other q hqo hqp)

variable {m : Machine (Heap V E) Place} {Q : Unit → Machine (Heap V E) Place → Prop}
  {R K : Machine (Heap V E) Place → Prop}

/-- The four members, an error of `p` to go first. -/
theorem crosswise_error (hop : o ≠ p) :
    Crosswise (Heap.unexCell p : Cell (Heap V E) Place E) (Heap.unexCell o)
      (Heap.valCell o : Cell (Heap V E) Place V) (Heap.valCell p) where
  exact_x := Objects.exact_right p
  exact_y := Objects.exact_left o
  exact_x' := Objects.exact_left p
  exact_y' := Objects.exact_right o
  x_y := (Objects.apart_left_right o p).symm
  x_x' := (Objects.apart_left_right p p).symm
  x_y' := Objects.apart_right hop.symm
  x'_y := Objects.apart_left hop.symm
  y'_y := (Objects.apart_left_right o o).symm
  x'_y' := Objects.apart_left_right p o

/-- The four members, a value of `o` to go first. -/
theorem crosswise_value (hop : o ≠ p) :
    Crosswise (Heap.valCell o : Cell (Heap V E) Place V) (Heap.valCell p)
      (Heap.unexCell p : Cell (Heap V E) Place E) (Heap.unexCell o) where
  exact_x := Objects.exact_left o
  exact_y := Objects.exact_right p
  exact_x' := Objects.exact_right o
  exact_y' := Objects.exact_left p
  x_y := Objects.apart_left_right o p
  x_x' := Objects.apart_left_right o o
  x_y' := Objects.apart_left hop
  x'_y := Objects.apart_right hop
  y'_y := Objects.apart_left_right p p
  x'_y' := (Objects.apart_left_right p o).symm

/-- The last branch of `swap`. -/
theorem wp_swapMixed_exact {v : V} {e : E} (ho : m.mem.obj o = stored (.inl v))
    (hp : m.mem.obj p = stored (.inr e))
    (htraits : (tv.nothrowMoveConstructible || te.nothrowMoveConstructible) = true)
    (hQ : ∀ m', Exchanged o p m.mem m'.mem → Q () m')
    (hR : (tv.nothrowMoveConstructible && te.nothrowMoveConstructible) = false →
      ∀ m', m'.mem = m.mem → R m') :
    wp ((Heap.layout o).swapMixed (Heap.layout p) tv te) Q R K m := by
  have hop : o ≠ p := by
    rintro rfl
    rw [ho] at hp
    cases hp
  -- both tags, once the four members are exchanged
  have hdone : ∀ m' : Machine (Heap V E) Place,
      m'.mem = Objects.modify o (fun z => { z with left := none, right := some e })
        (Objects.modify p (fun z => { z with left := some v, right := none }) m.mem) →
      Q () { m' with mem := Heap.setHasVal p true (Heap.setHasVal o false m'.mem) } := by
    intro m' hmem
    apply hQ
    show Exchanged o p m.mem (Heap.setHasVal p true (Heap.setHasVal o false m'.mem))
    rw [hmem, Heap.setHasVal, Heap.setHasVal, Objects.setTag, Objects.setTag,
      Objects.modify_modify, Objects.modify_comm hop.symm, Objects.modify_modify]
    refine exchanged_modify ?_ ?_ fun heq => absurd heq hop
    · rw [ho, hp]; rfl
    · rw [ho, hp]; rfl
  simp only [Layout.swapMixed]
  split
  · next hte =>
    simp only [wp_bind]
    refine wp_exchange_exact (crosswise_error hop) hte (congrArg Tagged.right hp)
      (congrArg Tagged.left ho) (congrArg Tagged.left hp) (congrArg Tagged.right ho) ?_ ?_
    · intro m' hmem
      refine hdone m' ?_
      rw [hmem]
      show Objects.modify o (fun z => { z with right := some e })
        (Objects.modify o (fun z => { z with left := none })
          (Objects.modify p (fun z => { z with left := some v })
            (Objects.modify p (fun z => { z with right := none }) m.mem))) = _
      rw [Objects.modify_modify, Objects.modify_modify]
    · exact fun htv => hR (by rw [htv, Bool.false_and])
  · next hte =>
    have htv : tv.nothrowMoveConstructible = true := by simpa [hte] using htraits
    simp only [wp_bind]
    refine wp_exchange_exact (crosswise_value hop) htv (congrArg Tagged.left ho)
      (congrArg Tagged.right hp) (congrArg Tagged.right ho) (congrArg Tagged.left hp) ?_ ?_
    · intro m' hmem
      refine hdone m' ?_
      rw [hmem, Objects.modify_comm hop]
      show Objects.modify p (fun z => { z with left := some v })
        (Objects.modify p (fun z => { z with right := none })
          (Objects.modify o (fun z => { z with right := some e })
            (Objects.modify o (fun z => { z with left := none }) m.mem))) = _
      rw [Objects.modify_modify, Objects.modify_modify]
    · exact fun hte => hR (by rw [hte, Bool.and_false])

/-- When `swap` may throw. -/
def swapNoexcept (tv : ElemType V) (te : ElemType E) : Bool :=
  tv.nothrowMoveConstructible && tv.nothrowSwappable && te.nothrowMoveConstructible
    && te.nothrowSwappable

/-- Two objects that were written to, or one twice. -/
theorem wellFormed_modify {h : Heap V E} (hwf : h.WellFormed) (ho : h.exist o = true)
    (hp : h.exist p = true) {f g : Tagged Bool V E → Tagged Bool V E} {x y : V ⊕ E}
    (hf : f (h.obj o) = stored x) (hg : g (h.obj p) = stored y)
    (hself : f (g (h.obj o)) = stored x) :
    Heap.WellFormed (Objects.modify o f (Objects.modify p g h)) := by
  refine Heap.wellFormed_of_stored hwf rfl fun q => ?_
  by_cases hqo : q = o
  · subst hqo
    refine .inr ⟨ho, x, ?_⟩
    rw [Objects.obj_modify_self]
    by_cases hqp : q = p
    · subst hqp
      rw [Objects.obj_modify_self, hself]
    · rw [Objects.obj_modify_of_ne hqp, hf]
  · rw [Objects.obj_modify_of_ne hqo]
    by_cases hqp : q = p
    · subst hqp
      exact .inr ⟨hp, y, by rw [Objects.obj_modify_self, hg]⟩
    · exact .inl (Objects.obj_modify_of_ne hqp _ _)

/-- `std::swap` of the members of one alternative, which `k` makes a state of. -/
theorem wp_swapElems_stored {T : Type} {ty : ElemType T} {c : Nat → Cell (Heap V E) Place T}
    {w : T → Tagged Bool V E → Tagged Bool V E} {k : T → V ⊕ E} {h : Heap V E} {t u : T}
    (hexact : ∀ i, (c i).Exact) (hapart : ∀ {i j}, i ≠ j → (c i).Apart (c j))
    (hwrite : ∀ i t, (c i).write t = Objects.modify i (w t))
    (hset : ∀ t u, w t (stored (k u)) = stored (k t))
    (hread : ∀ {i u}, h.obj i = stored (k u) → (c i).read h = some u)
    (hwf : h.WellFormed) (hexo : h.exist o = true) (hexp : h.exist p = true)
    (ho : h.obj o = stored (k t)) (hp : h.obj p = stored (k u)) (hm : m.mem = h)
    (hQ : ∀ m', Exchanged o p h m'.mem → Q () m')
    (hR : ty.nothrowSwappable = false → ∀ m', m'.mem.WellFormed → R m') :
    wp (swapElems ty (c o) (c p)) Q R K m := by
  have hcd : c o = c p ∨ (c o).Apart (c p) := by
    by_cases hop : o = p
    · exact .inl (by rw [hop])
    · exact .inr (hapart hop)
  refine wp_swapElems_exact ty (hexact o) (hexact p) hcd (by rw [hm, hread ho])
    (by rw [hm, hread hp]) ?_ ?_
  · intro m' hmem
    apply hQ
    rw [hmem, hm, hwrite, hwrite]
    refine exchanged_modify ?_ ?_ fun hop => ?_
    · rw [ho, hp, hset]
    · rw [ho, hp, hset]
    · subst hop
      rw [ho, hset, hset, ← hp, ho]
  · intro hthrow m' t' u' hmem
    refine hR hthrow m' ?_
    rw [hmem, hm, hwrite, hwrite]
    refine wellFormed_modify hwf hexo hexp (x := k t') (y := k u') ?_ ?_ ?_
    · rw [ho, hset]
    · rw [hp, hset]
    · rw [ho, hset, hset]

/-- `swap`, also of an object with itself. The recursive call finds the roles exchanged, so it ends
in the last branch. -/
theorem wp_swapBody_exact {h : Heap V E} (hwf : h.WellFormed) (ho : h.exist o = true)
    (hp : h.exist p = true) (hm : m.mem = h)
    (htraits : (tv.nothrowMoveConstructible || te.nothrowMoveConstructible) = true) (depth : Nat)
    (hQ : ∀ m', Exchanged o p h m'.mem → Q () m')
    (hR : swapNoexcept tv te = false → ∀ m', m'.mem.WellFormed →
      ((h.obj o).tag ≠ (h.obj p).tag → m'.mem = h) → R m') :
    wp (Layout.swapBody tv te (depth + 2) (Heap.layout o) (Heap.layout p)) Q R K m := by
  obtain ⟨y, hy⟩ := hwf.exists_stored ho
  obtain ⟨x, hx⟩ := hwf.exists_stored hp
  have htago : (Heap.layout o).hasVal m.mem = y.isLeft := by
    show (m.mem.obj o).tag = _
    rw [hm, hy, stored_tag]
  have htagp : (Heap.layout p).hasVal m.mem = x.isLeft := by
    show (m.mem.obj p).tag = _
    rw [hm, hx, stored_tag]
  have hmixed : (tv.nothrowMoveConstructible && te.nothrowMoveConstructible) = false →
      ∀ m' : Machine (Heap V E) Place, m'.mem = m.mem → R m' := by
    intro hthrow m' hmem
    refine hR ?_ m' (by rw [hmem, hm]; exact hwf) fun _ => by rw [hmem, hm]
    rw [swapNoexcept]
    cases hv : tv.nothrowMoveConstructible with
    | false => rfl
    | true =>
      rw [hv, Bool.true_and] at hthrow
      rw [hthrow, Bool.and_false, Bool.false_and]
  have hsame : (tv.nothrowSwappable = false ∨ te.nothrowSwappable = false) →
      (h.obj o).tag = (h.obj p).tag →
      ∀ m' : Machine (Heap V E) Place, m'.mem.WellFormed → R m' := by
    intro hthrow htag m' hwf'
    refine hR ?_ m' hwf' fun hne => absurd htag hne
    rcases hthrow with hv | he
    · simp [swapNoexcept, hv]
    · simp [swapNoexcept, he]
  simp only [Layout.swapBody, wp_bind, wp_look, htago, htagp]
  cases y with
  | inl v =>
    cases x with
    | inl v' =>
      refine wp_swapElems_stored (c := Heap.valCell) (w := fun t z => { z with left := some t })
        (k := Sum.inl) Objects.exact_left Objects.apart_left (fun _ _ => rfl) (fun _ _ => rfl)
        (congrArg Tagged.left) hwf ho hp hy hx hm hQ fun hthrow => hsame (.inl hthrow) ?_
      rw [hy, hx]
      rfl
    | inr e' =>
      refine wp_swapMixed_exact (by rw [hm, hy]) (by rw [hm, hx]) htraits ?_ hmixed
      rwa [hm]
  | inr e =>
    cases x with
    | inl v' =>
      -- the recursive call
      simp only [Sum.isLeft_inl, Sum.isLeft_inr, Bool.and_true, Bool.and_false, Bool.not_true,
        Bool.not_false, Bool.false_eq_true, ↓reduceIte, wp_bind, wp_look, htago, htagp]
      refine wp_swapMixed_exact (by rw [hm, hx]) (by rw [hm, hy]) htraits ?_ hmixed
      rw [hm]
      exact fun m' hex => hQ m' hex.symm
    | inr e' =>
      refine wp_swapElems_stored (c := Heap.unexCell) (w := fun t z => { z with right := some t })
        (k := Sum.inr) Objects.exact_right Objects.apart_right (fun _ _ => rfl) (fun _ _ => rfl)
        (congrArg Tagged.right) hwf ho hp hy hx hm hQ fun hthrow => hsame (.inr hthrow) ?_
      rw [hy, hx]
      rfl

/-- **The law of `swap`.** On every schedule, a normal return has exchanged the two states; a throw
leaves both objects with exactly one member alive, the one their tags name, and where the states
were of different alternatives, it leaves the heap as it was. No schedule ends the process, and
allowing a deeper recursion makes no difference. -/
def SwapsOrNot (tv : ElemType V) (te : ElemType E) (o p : Nat) (h : Heap V E) : Prop :=
  ∀ throws log,
    wp ((Heap.layout o).swap (Heap.layout p) tv te)
      (fun _ m => Exchanged o p h m.mem ∧ m.mem.WellFormed)
      (fun m => m.mem.WellFormed ∧ ((h.obj o).tag ≠ (h.obj p).tag → m.mem = h)) (fun _ => False)
      ⟨h, throws, log⟩ ∧
    ∀ depth, Layout.swapBody tv te (depth + 2) (Heap.layout o) (Heap.layout p) ⟨h, throws, log⟩ =
      Layout.swapBody tv te 2 (Heap.layout o) (Heap.layout p) ⟨h, throws, log⟩

/-- **`swap` is an exchange or a no-op.** -/
theorem swap_exchanges {h : Heap V E} (hwf : h.WellFormed) (ho : h.exist o = true)
    (hp : h.exist p = true)
    (htraits : (tv.nothrowMoveConstructible || te.nothrowMoveConstructible) = true) :
    SwapsOrNot tv te o p h := by
  intro throws log
  constructor
  · unfold Layout.swap
    rw [wp_noexceptIf_iff]
    refine wp_swapBody_exact hwf ho hp rfl htraits 0 ?_ ?_
    · exact fun m hex => ⟨hex, hex.wellFormed hwf ho hp⟩
    · intro hnoexcept m hwf' hmem
      rw [if_neg (by rw [← swapNoexcept, hnoexcept]; simp)]
      exact ⟨hwf', hmem⟩
  · intro depth
    -- the second call, if there is one, takes the last branch
    cases hto : (h.obj o).tag <;> cases htp : (h.obj p).tag <;>
      simp [Layout.swapBody, look, bind, Heap.layout, hto, htp]

/-- A value whose move may throw against an error whose move may not. -/
theorem swap_exchanges_valueThenError :
    SwapsOrNot mayThrowType (.trivial Nat) 0 1 valueThenError :=
  swap_exchanges wellFormed_valueThenError rfl rfl rfl

end Swap

end Hy.Tiny

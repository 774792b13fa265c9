import HyServer.Expected.Assign

/-!
# hy::expected — `swap` of the two POD storages

`ePODUnion` swaps the larger of its two members, whichever is alive, and the tags; `ePODStruct`
swaps both members. `std::swap` of two POD objects exchanges their value bytes and leaves anything
in their padding, and it reads both, which fails on bytes that represent no value.

* `PodUnions.swap`, `PodStructs.swap` — the two functions.
* `SwapsAlike` — the first leaves two objects showing what the second does, the former states of one
  another.
* `swapsAlike_iff` — exactly when the larger member can be read in both objects and the live members
  outlive a copy through it.
-/

namespace Hy.Tiny

open Cpp

variable {V E T : Type}

/-! ## The two functions -/

/-- A map from names in which two of them have changed what they stand for. -/
def exchanged {α : Type} (f : Nat → α) (o p : Nat) : Nat → α :=
  Function.update (Function.update f o (f p)) p (f o)

@[simp] theorem exchanged_right {α : Type} (f : Nat → α) (o p : Nat) : exchanged f o p p = f o :=
  Function.update_self ..

@[simp] theorem exchanged_left {α : Type} (f : Nat → α) (o p : Nat) : exchanged f o p o = f p := by
  unfold exchanged
  by_cases hop : o = p
  · subst hop
    rw [Function.update_self]
  · rw [Function.update_of_ne hop, Function.update_self]

namespace PodUnions

/-- The memory after `std::swap` of the members of type `T` of two objects. -/
def swapped (ty : PodType T) (o p : Nat) (h : PodUnions) : PodUnions :=
  { h with
    bytes := Function.update
      (Function.update h.bytes o (ty.copyValue (h.padding 0) (h.bytes p) (h.bytes o))) p
      (ty.copyValue (h.padding 1) (h.bytes o) (h.bytes p))
    padding := fun n => h.padding (n + 2) }

def swapMember (ty : PodType T) (o p : Nat) : Prog PodUnions Place Unit := do
  require .deadRead fun h => (ty.decode (h.bytes o)).isSome
  require .deadRead fun h => (ty.decode (h.bytes p)).isSome
  update (swapped ty o p)

def swapHasVal (o p : Nat) : Prog PodUnions Place Unit :=
  update fun h => { h with hasVal := exchanged h.hasVal o p }

def swap (pv : PodType V) (pe : PodType E) (o p : Nat) : Prog PodUnions Place Unit :=
  noexceptIf true <|
    if pv.size > pe.size then do
      swapMember pv o p
      swapHasVal o p
    else do
      swapMember pe o p
      swapHasVal o p

end PodUnions

namespace PodStructs

/-- Each `std::swap` exchanges what the members of two objects hold, be it indeterminate. -/
def swap (o p : Nat) : Prog (PodStructs V E) Place Unit :=
  noexceptIf true do
    update fun h => { h with hasVal := exchanged h.hasVal o p }
    update fun h => { h with val := exchanged h.val o p }
    update fun h => { h with unex := exchanged h.unex o p }

end PodStructs

/-! ## Their results -/

section Results

variable {σ ℓ σ' ℓ' : Type}

/-- Two objects show the same: whether they hold a value, and the value or the error. -/
def Layout.SameShown (L : Layout σ ℓ V E) (s : σ) (L' : Layout σ' ℓ' V E) (s' : σ') : Prop :=
  L.hasVal s = L'.hasVal s' ∧ L.value s = L'.value s'

theorem Layout.Holds.sameShown {L : Layout σ ℓ V E} {s : σ} {L' : Layout σ' ℓ' V E} {s' : σ'}
    {x : V ⊕ E} (h : L.Holds s x) (h' : L'.Holds s' x) : L.SameShown s L' s' := by
  cases x with
  | inl v => exact ⟨h.1.trans h'.1.symm, h.value_eq.trans h'.value_eq.symm⟩
  | inr e =>
    obtain ⟨htag, -, hread, -⟩ := h
    obtain ⟨htag', -, hread', -⟩ := h'
    refine ⟨htag.trans htag'.symm, ?_⟩
    simp [value, htag, htag', hread, hread']

end Results

/-- **The overlaid swap does what the plain one does.** Whatever ends up in padding, both return;
the objects then show the same in both storages, and each what the other showed before. -/
def SwapsAlike (pv : PodType V) (pe : PodType E) (o p : Nat) (h : PodUnions)
    (s : PodStructs V E) : Prop :=
  ∀ padding throws log, ∃ m m',
    PodUnions.swap pv pe o p ⟨{ h with padding := padding }, throws, log⟩ = .returned () m ∧
    PodStructs.swap o p ⟨s, throws, log⟩ = .returned () m' ∧
    (∀ q, q = o ∨ q = p →
      (PodUnions.layout pv pe q).SameShown m.mem (PodStructs.layout q) m'.mem) ∧
    (PodUnions.layout pv pe o).SameShown m.mem (PodUnions.layout pv pe p) h ∧
    (PodUnions.layout pv pe p).SameShown m.mem (PodUnions.layout pv pe o) h

/-- The bytes of an object hold some `moved`, and its live member outlives a copy of that. -/
def SafeThrough (moved : PodType T) (pv : PodType V) (pe : PodType E) (h : PodUnions) (q : Nat) :
    Prop :=
  (moved.decode (h.bytes q)).isSome = true ∧
    if h.hasVal q then pv.Survives moved (h.bytes q) else pe.Survives moved (h.bytes q)

/-- What the overlaid swap needs of two objects: that they are safe through the larger member. -/
def SwapSafe (pv : PodType V) (pe : PodType E) (o p : Nat) (h : PodUnions) : Prop :=
  if pv.size > pe.size then SafeThrough pv pv pe h o ∧ SafeThrough pv pv pe h p
  else SafeThrough pe pv pe h o ∧ SafeThrough pe pv pe h p

/-! ## The plain swap -/

section Plain

variable {s : PodStructs V E} {o p : Nat} {x : V ⊕ E}

/-- The memory after `PodStructs.swap`. -/
def PodStructs.swapped (o p : Nat) (s : PodStructs V E) : PodStructs V E where
  hasVal := exchanged s.hasVal o p
  val := exchanged s.val o p
  unex := exchanged s.unex o p

theorem PodStructs.swap_eq (throws : List Bool) (log : List (Event (Option Place))) :
    PodStructs.swap o p ⟨s, throws, log⟩ = .returned () ⟨PodStructs.swapped o p s, throws, log⟩ :=
  rfl

theorem PodStructs.holds_right (h : (PodStructs.layout o).Holds s x) :
    (PodStructs.layout p).Holds (PodStructs.swapped o p s) x := by
  cases x with
  | inl v =>
    obtain ⟨htag, -, hread, -⟩ := h
    exact ⟨(exchanged_right ..).trans htag, rfl, (exchanged_right ..).trans hread, rfl⟩
  | inr e =>
    obtain ⟨htag, -, hread, -⟩ := h
    exact ⟨(exchanged_right ..).trans htag, rfl, (exchanged_right ..).trans hread, rfl⟩

theorem PodStructs.holds_left (h : (PodStructs.layout p).Holds s x) :
    (PodStructs.layout o).Holds (PodStructs.swapped o p s) x := by
  cases x with
  | inl v =>
    obtain ⟨htag, -, hread, -⟩ := h
    exact ⟨(exchanged_left ..).trans htag, rfl, (exchanged_left ..).trans hread, rfl⟩
  | inr e =>
    obtain ⟨htag, -, hread, -⟩ := h
    exact ⟨(exchanged_left ..).trans htag, rfl, (exchanged_left ..).trans hread, rfl⟩

end Plain

/-! ## The overlaid swap -/

section Overlaid

variable {pv : PodType V} {pe : PodType E} {moved : PodType T} {h : PodUnions} {o p : Nat}
  {throws : List Bool} {log : List (Event (Option Place))}

/-- The memory after a swap through `moved`, tags included. -/
def PodUnions.swappedThrough (moved : PodType T) (o p : Nat) (h : PodUnions) : PodUnions :=
  { PodUnions.swapped moved o p h with hasVal := exchanged h.hasVal o p }

theorem PodUnions.swapThrough_eq (ho : (moved.decode (h.bytes o)).isSome = true)
    (hp : (moved.decode (h.bytes p)).isSome = true) :
    (do PodUnions.swapMember moved o p; PodUnions.swapHasVal o p : Prog PodUnions Place Unit)
      ⟨h, throws, log⟩ = .returned () ⟨PodUnions.swappedThrough moved o p h, throws, log⟩ := by
  simp [PodUnions.swapMember, PodUnions.swapHasVal, PodUnions.swappedThrough, PodUnions.swapped,
    require, update, bind, ho, hp]

theorem PodUnions.swapThrough_inv {m : Machine PodUnions Place}
    (hrun : (do PodUnions.swapMember moved o p; PodUnions.swapHasVal o p :
      Prog PodUnions Place Unit) ⟨h, throws, log⟩ = .returned () m) :
    (moved.decode (h.bytes o)).isSome = true ∧ (moved.decode (h.bytes p)).isSome = true ∧
      m.mem = PodUnions.swappedThrough moved o p h := by
  cases ho : (moved.decode (h.bytes o)).isSome with
  | false => simp [PodUnions.swapMember, require, bind, ho] at hrun
  | true =>
    cases hp : (moved.decode (h.bytes p)).isSome with
    | false => simp [PodUnions.swapMember, require, bind, ho, hp] at hrun
    | true =>
      rw [PodUnions.swapThrough_eq ho hp] at hrun
      cases hrun
      exact ⟨rfl, rfl, rfl⟩

/-- Each object has the value bytes of the other one. -/
theorem PodUnions.bytes_right : (PodUnions.swappedThrough moved o p h).bytes p =
    moved.copyValue (h.padding 1) (h.bytes o) (h.bytes p) :=
  Function.update_self ..

theorem PodUnions.bytes_left (moved : PodType T) (o p : Nat) (h : PodUnions) :
    ∃ k, (PodUnions.swappedThrough moved o p h).bytes o =
      moved.copyValue (h.padding k) (h.bytes p) (h.bytes o) := by
  by_cases hop : o = p
  · subst hop
    exact ⟨1, PodUnions.bytes_right⟩
  · refine ⟨0, ?_⟩
    show Function.update (Function.update h.bytes o _) p _ o = _
    rw [Function.update_of_ne hop, Function.update_self]

variable {h' : PodUnions} {q r k : Nat}

/-- What holds a state that outlives the copy carries it over. -/
theorem PodUnions.holds_carried {x : V ⊕ E} (hv : pv.size ≤ moved.size) (he : pe.size ≤ moved.size)
    (htags : h'.hasVal q = h.hasVal r)
    (hbytes : h'.bytes q = moved.copyValue (h.padding k) (h.bytes r) (h.bytes q))
    (hx : (PodUnions.layout pv pe r).Holds h x) (hsafe : SafeThrough moved pv pe h r) :
    (PodUnions.layout pv pe q).Holds h' x := by
  obtain ⟨-, hsurvives⟩ := hsafe
  cases x with
  | inl v =>
    obtain ⟨htag, -, hread, -⟩ := hx
    rw [if_pos (show h.hasVal r = true from htag)] at hsurvives
    refine ⟨htags.trans htag, rfl, ?_, rfl⟩
    show pv.decode (h'.bytes q) = some v
    rw [hbytes, PodType.decode_copyValue_of_le hv, hsurvives]
    exact hread
  | inr e =>
    obtain ⟨htag, -, hread, -⟩ := hx
    rw [show h.hasVal r = false from htag, if_neg (by simp)] at hsurvives
    refine ⟨htags.trans htag, rfl, ?_, rfl⟩
    show pe.decode (h'.bytes q) = some e
    rw [hbytes, PodType.decode_copyValue_of_le he, hsurvives]
    exact hread

/-- And what was carried over, whatever the padding, has outlived the copy. -/
theorem PodUnions.survives_of_sameShown (hv : pv.size ≤ moved.size) (he : pe.size ≤ moved.size)
    (hshown : ∀ pad, ∃ h' : PodUnions, h'.hasVal q = h.hasVal r ∧
      h'.bytes q = moved.copyValue pad (h.bytes r) (h.bytes q) ∧
      (PodUnions.layout pv pe q).SameShown h' (PodUnions.layout pv pe r) h) :
    if h.hasVal r then pv.Survives moved (h.bytes r) else pe.Survives moved (h.bytes r) := by
  cases htag : h.hasVal r with
  | true =>
    intro pad
    obtain ⟨h', htags, hbytes, -, hvalue⟩ := hshown pad
    have hmap : (pv.decode (h'.bytes q)).map (Except.ok (ε := E))
        = (pv.decode (h.bytes r)).map Except.ok := by
      simpa [Layout.value, PodUnions.layout, PodUnions.cell, htags, htag] using hvalue
    have hdecode := Option.map_injective (fun _ _ heq => Except.ok.inj heq) hmap
    rwa [hbytes, PodType.decode_copyValue_of_le hv] at hdecode
  | false =>
    intro pad
    obtain ⟨h', htags, hbytes, -, hvalue⟩ := hshown pad
    have hmap : (pe.decode (h'.bytes q)).map (Except.error (α := V))
        = (pe.decode (h.bytes r)).map Except.error := by
      simpa [Layout.value, PodUnions.layout, PodUnions.cell, htags, htag] using hvalue
    have hdecode := Option.map_injective (fun _ _ heq => Except.error.inj heq) hmap
    rwa [hbytes, PodType.decode_copyValue_of_le he] at hdecode

variable {s : PodStructs V E} {x y : V ⊕ E}

/-- The law of a swap through `moved`, where that is the larger member. -/
theorem swapsAlike_iff_through (hv : pv.size ≤ moved.size) (he : pe.size ≤ moved.size)
    (hswap : PodUnions.swap pv pe o p = noexceptIf true
      (do PodUnions.swapMember moved o p; PodUnions.swapHasVal o p))
    (hox : (PodUnions.layout pv pe o).Holds h x) (hpy : (PodUnions.layout pv pe p).Holds h y)
    (hsx : (PodStructs.layout o).Holds s x) (hsy : (PodStructs.layout p).Holds s y) :
    SwapsAlike pv pe o p h s ↔
      SafeThrough moved pv pe h o ∧ SafeThrough moved pv pe h p := by
  constructor
  · intro hlaw
    have hrun : ∀ pad : Nat → UInt8, ∃ m : Machine PodUnions Place,
        (moved.decode (h.bytes o)).isSome = true ∧ (moved.decode (h.bytes p)).isSome = true ∧
        m.mem = PodUnions.swappedThrough moved o p { h with padding := fun _ => pad } ∧
        (PodUnions.layout pv pe o).SameShown m.mem (PodUnions.layout pv pe p) h ∧
        (PodUnions.layout pv pe p).SameShown m.mem (PodUnions.layout pv pe o) h := by
      intro pad
      obtain ⟨m, m', hm, -, -, hleft, hright⟩ := hlaw (fun _ => pad) [] []
      rw [hswap, noexceptIf_eq_returned] at hm
      obtain ⟨ho, hp, hmem⟩ := PodUnions.swapThrough_inv hm
      exact ⟨m, ho, hp, hmem, hleft, hright⟩
    obtain ⟨_, ho, hp, -⟩ := hrun fun _ => 0
    refine ⟨⟨ho, ?_⟩, ⟨hp, ?_⟩⟩
    · -- `o` is what `p` shows afterwards
      refine PodUnions.survives_of_sameShown (q := p) hv he fun pad => ?_
      obtain ⟨m, -, -, hmem, -, hright⟩ := hrun pad
      refine ⟨m.mem, ?_, ?_, hright⟩
      · rw [hmem]
        exact exchanged_right ..
      · rw [hmem]
        exact PodUnions.bytes_right
    · refine PodUnions.survives_of_sameShown (q := o) hv he fun pad => ?_
      obtain ⟨m, -, -, hmem, hleft, -⟩ := hrun pad
      refine ⟨m.mem, ?_, ?_, hleft⟩
      · rw [hmem]
        exact exchanged_left ..
      · rw [hmem]
        obtain ⟨k, hk⟩ := PodUnions.bytes_left moved o p { h with padding := fun _ => pad }
        exact hk
  · intro ⟨hsafeo, hsafep⟩ padding throws log
    have hright : (PodUnions.layout pv pe p).Holds
        (PodUnions.swappedThrough moved o p { h with padding := padding }) x :=
      PodUnions.holds_carried (h := { h with padding := padding }) hv he (exchanged_right ..)
        PodUnions.bytes_right (by cases x <;> exact hox) hsafeo
    obtain ⟨k, hk⟩ := PodUnions.bytes_left moved o p { h with padding := padding }
    have hleft : (PodUnions.layout pv pe o).Holds
        (PodUnions.swappedThrough moved o p { h with padding := padding }) y :=
      PodUnions.holds_carried (h := { h with padding := padding }) hv he (exchanged_left ..)
        hk (by cases y <;> exact hpy) hsafep
    refine ⟨⟨PodUnions.swappedThrough moved o p { h with padding := padding }, throws, log⟩, _, ?_,
      PodStructs.swap_eq throws log, ?_, hleft.sameShown hpy, hright.sameShown hox⟩
    · rw [hswap, noexceptIf_eq_returned]
      exact PodUnions.swapThrough_eq hsafeo.1 hsafep.1
    · rintro q (rfl | rfl)
      · exact hleft.sameShown (PodStructs.holds_left hsy)
      · exact hright.sameShown (PodStructs.holds_right hsx)

/-- **The overlaid swap agrees with the plain one exactly when both objects are safe through the
larger member.** -/
theorem swapsAlike_iff (hox : (PodUnions.layout pv pe o).Holds h x)
    (hpy : (PodUnions.layout pv pe p).Holds h y) (hsx : (PodStructs.layout o).Holds s x)
    (hsy : (PodStructs.layout p).Holds s y) :
    SwapsAlike pv pe o p h s ↔ SwapSafe pv pe o p h := by
  unfold SwapSafe
  split
  · next hsize =>
    refine swapsAlike_iff_through (Nat.le_refl _) (by omega) ?_ hox hpy hsx hsy
    rw [PodUnions.swap, if_pos hsize]
  · next hsize =>
    refine swapsAlike_iff_through (by omega) (Nat.le_refl _) ?_ hox hpy hsx hsy
    rw [PodUnions.swap, if_neg hsize]

/-- A small type inside a larger one: any bytes represent some value of the larger one, and every
value byte of the smaller one is a value byte of the larger one. -/
def Inside {U : Type} (small : PodType U) (large : PodType T) : Prop :=
  (∀ bytes, (large.decode bytes).isSome = true) ∧
  ∀ i, i < small.size → small.inValue i = true → i < large.size → large.inValue i = true

/-- Then the swap of any two objects is safe. -/
theorem swapSafe_of_inside (hv : pv.size > pe.size → Inside pe pv)
    (he : ¬ pv.size > pe.size → Inside pv pe) : SwapSafe pv pe o p h := by
  unfold SwapSafe
  split
  · next hsize =>
    have hsafe : ∀ q, SafeThrough pv pv pe h q := by
      intro q
      refine ⟨(hv hsize).1 _, ?_⟩
      split
      · exact pv.survives_self _
      · exact PodType.survives_of_inValue (hv hsize).2 _
    exact ⟨hsafe o, hsafe p⟩
  · next hsize =>
    have hsafe : ∀ q, SafeThrough pe pv pe h q := by
      intro q
      refine ⟨(he hsize).1 _, ?_⟩
      split
      · exact PodType.survives_of_inValue (he hsize).2 _
      · exact pe.survives_self _
    exact ⟨hsafe o, hsafe p⟩

/-- A value and an error of one byte each. -/
theorem swapsAlike_bytes :
    SwapsAlike .byte .byte 0 1 (⟨fun q => q == 0, fun q _ => if q = 0 then 1 else 2, fun _ _ => 0⟩)
      (⟨fun q => q == 0, fun q => if q = 0 then some 1 else none,
        fun q => if q = 0 then none else some 2⟩ : PodStructs UInt8 UInt8) := by
  refine (swapsAlike_iff (x := .inl 1) (y := .inr 2) ⟨rfl, rfl, rfl, rfl⟩ ⟨rfl, rfl, rfl, rfl⟩
    ⟨rfl, rfl, rfl, rfl⟩ ⟨rfl, rfl, rfl, rfl⟩).mpr (swapSafe_of_inside ?_ ?_)
  · exact fun hsize => absurd hsize (by decide)
  · exact fun _ => ⟨fun _ => rfl, fun _ _ _ _ => rfl⟩

/-- One byte with three bytes of padding behind it. -/
def paddedByte : PodType UInt8 where
  size := 4
  inValue i := decide (i = 0)
  encode t i := if i = 0 then t else 0
  decode bytes := some (bytes 0)
  decode_encode _ := rfl
  decode_congr h := congrArg some (h 0 (Nat.succ_pos 3) rfl)

/-- Two bytes. -/
def bytePair : PodType (UInt8 × UInt8) where
  size := 2
  inValue _ := true
  encode t i := if i = 0 then t.1 else t.2
  decode bytes := some (bytes 0, bytes 1)
  decode_encode _ := rfl
  decode_congr h := by rw [h 0 (by decide) rfl, h 1 (by decide) rfl]

/-- The second byte of the errors lies in the padding of the value that is swapped. -/
theorem not_swapsAlike_padded :
    ¬ SwapsAlike paddedByte bytePair 0 1
      (⟨fun _ => false, fun q i => if q = 0 then (if i = 0 then 1 else 2)
        else (if i = 0 then 3 else 4), fun _ _ => 0⟩)
      (⟨fun _ => false, fun _ => none, fun q => if q = 0 then some (1, 2) else some (3, 4)⟩ :
        PodStructs UInt8 (UInt8 × UInt8)) := by
  intro hlaw
  obtain ⟨m, m', hm, -, -, ⟨-, hvalue⟩, -⟩ := hlaw (fun _ _ => 0) [] []
  cases hm
  exact absurd hvalue (by decide)

end Overlaid

end Hy.Tiny

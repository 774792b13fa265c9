import HyServer.Expected.Pod
import HyServer.Expected.Lifetime

/-!
# hy::expected — what the assignments leave behind

`operator=(U&&)` and the two `operator=(unexpected)` of `expected`, on any of the three storages.

* `Layout.Holds` — the states an object is in between operations: it holds a value or an error.
* `Kind.AssignsValue`, `Kind.AssignsError` — the laws of the two assignments, on every schedule of
  throwing element operations.
* `Kind.assignsValue_iff` — a value assignment works exactly on an object that holds a value. On an
  error it builds the value and then clears the tag.
* `Kind.assignsError_iff` — an assignment from an `unexpected` works on an object that holds an
  error. On a value it builds another value, out of the error, and clears the tag; in the POD
  storages the stale `unex_` may by accident read as the right error.
-/

namespace Hy.Tiny

open Cpp

/-! ## States and observers -/

section Observers

variable {σ ℓ V E : Type}

/-- Between operations an object holds a value or an error, and its other member is vacant. -/
def Layout.Holds (L : Layout σ ℓ V E) (s : σ) : V ⊕ E → Prop
  | .inl v => L.hasVal s = true ∧ L.val.alive s = true ∧ L.val.read s = some v ∧
      L.unex.vacant s = true
  | .inr e => L.hasVal s = false ∧ L.unex.alive s = true ∧ L.unex.read s = some e ∧
      L.val.vacant s = true

/-- `value()`: the value, or the error that `bad_expected_access` is thrown with. `none` when the
member it reads is not there. -/
def Layout.value (L : Layout σ ℓ V E) (s : σ) : Option (Except E V) :=
  if L.hasVal s then (L.val.read s).map .ok else (L.unex.read s).map .error

/-- `error()` -/
def Layout.error (L : Layout σ ℓ V E) (s : σ) : Option E :=
  L.unex.read s

theorem Layout.Holds.value_eq {L : Layout σ ℓ V E} {s : σ} {v : V} (h : L.Holds s (.inl v)) :
    L.value s = some (.ok v) := by
  obtain ⟨htag, -, hread, -⟩ := h
  unfold value
  rw [if_pos htag, hread]
  rfl

end Observers

/-! ## The assignments of `expected` -/

namespace Kind

variable {V E : Type} (k : Kind V E)

/-- `expected::operator=(U&&)`. It hands its base `std::move(v)`, whatever it was given itself. -/
def assignValue (o : Nat) (v : ForwardArg V) (_cat : ValueCategory) : Prog k.Mem Place Unit :=
  (k.layout o).assignValue k.valType k.unexType (v.as .rvalue)

/-- `expected::operator=(const unexpected<G>&)` and `expected::operator=(unexpected<G>&&)` -/
def assignUnexpected (o : Nat) (g : UnexpectedArg V E) (cat : ValueCategory) :
    Prog k.Mem Place Unit :=
  (k.layout o).assignUnexpected k.valType k.unexType (g.error.as cat) (g.value.as cat)

/-- The object shows `v`: `has_value()`, and `value()` gives `v` without throwing. -/
def ShowsValue (o : Nat) (s : k.Mem) (v : V) : Prop :=
  (k.layout o).hasVal s = true ∧ (k.layout o).value s = some (.ok v)

/-- The object shows `e`: not `has_value()`, and `error()` gives `e`. -/
def ShowsError (o : Nat) (s : k.Mem) (e : E) : Prop :=
  (k.layout o).hasVal s = false ∧ (k.layout o).error s = some e

/-- **The law of value assignment.** On no schedule does `e = v` fault; once it has returned, the
object shows the new value, and so it does once a further `e = w` has returned. -/
def AssignsValue (o : Nat) (s : k.Mem) (v : ForwardArg V) : Prop :=
  ∀ cat throws log,
    wp (k.assignValue o v cat)
      (fun _ m => k.ShowsValue o m.mem v.made ∧ ∀ (w : ForwardArg V) cat' throws',
        wp (k.assignValue o w cat') (fun _ m' => k.ShowsValue o m'.mem w.made)
          (fun _ => True) (fun _ => True) { m with throws := throws' })
      (fun _ => True) (fun _ => True) ⟨s, throws, log⟩

/-- **The law of assignment from an `unexpected`.** On no schedule does `e = u` fault; once it has
returned, the object shows the new error; and the two overloads leave the object showing the
same. -/
def AssignsError (o : Nat) (s : k.Mem) (g : UnexpectedArg V E) : Prop :=
  (∀ cat throws log,
    wp (k.assignUnexpected o g cat) (fun _ m => k.ShowsError o m.mem g.error.made)
      (fun _ => True) (fun _ => True) ⟨s, throws, log⟩) ∧
  ∀ throws throws' log m m',
    k.assignUnexpected o g .lvalue ⟨s, throws, log⟩ = .returned () m →
    k.assignUnexpected o g .rvalue ⟨s, throws', log⟩ = .returned () m' →
    (k.layout o).hasVal m.mem = (k.layout o).hasVal m'.mem ∧
    (k.layout o).value m.mem = (k.layout o).value m'.mem

/-- Once `val_` has been overwritten with what `V` makes of the error, `unex_` reads as what `E`
makes of it: the stale member in `ePODStruct`, the overwritten bytes in `ePODUnion`. -/
def StaleError : (k : Kind V E) → Nat → k.Mem → UnexpectedArg V E → Prop
  | .eUnion _ _, _, _, _ => False
  | .ePODUnion pv pe, o, s, g =>
    pe.decode ((PodUnions.store pv o g.value.made s).bytes o) = some g.error.made
  | .ePODStruct, o, s, g => s.unex o = some g.error.made

end Kind

/-! ## `reinit_expected` with an argument from outside -/

section Reinit

variable {σ ℓ N O : Type} {newVal : Cell σ ℓ N} {oldVal : Cell σ ℓ O} {newType : ElemType N}
  {oldType : ElemType O} {m : Machine σ ℓ} {c a : Bool} {t : N}

/-- When nothing throws, `reinit_expected` returns, by any of its strategies. -/
theorem wp_reinitExpected_nil (hold : oldVal.Lawful) (hthrows : m.throws = [])
    (halive : oldVal.alive m.mem = true) {x : O} (hread : oldVal.read m.mem = some x)
    (hvacant : newVal.vacant (oldVal.erase m.mem) = true)
    (hvacant' : newVal.vacant (oldVal.erase (oldVal.write (oldType.movedFrom x) m.mem)) = true) :
    wp (reinitExpected newVal oldVal newType oldType (Init.ofArg c a t)) (fun _ _ => True)
      (fun _ => False) (fun _ => False) m := by
  have hmove : (Init.move oldType oldVal).run m.mem
      = some (x, oldVal.write (oldType.movedFrom x) m.mem) := by
    simp [Init.move, hread]
  unfold reinitExpected
  split
  · rw [wp_bind, wp_destroyAt]
    refine ⟨halive, ?_⟩
    rw [wp_constructAt (run_ofArg ..)]
    simp [hthrows, hvacant]
  · split
    · rw [wp_withLocal (run_ofArg ..)]
      simp only [hthrows, throwsNext_nil, throwsAfter_nil, Bool.false_eq_true, ↓reduceIte]
      rw [wp_unwindLocal, wp_bind, wp_destroyAt]
      refine ⟨halive, ?_⟩
      rw [wp_constructAt (run_moveLocal ..)]
      simp [hvacant]
    · rw [wp_withLocal hmove]
      simp only [hthrows, throwsNext_nil, throwsAfter_nil, Bool.false_eq_true, ↓reduceIte]
      rw [wp_unwindLocal, wp_bind, wp_destroyAt]
      refine ⟨hold.alive_write _ _, wp_tryRethrow ?_⟩
      rw [wp_constructAt (run_ofArg ..)]
      simp [hvacant']

/-- The two strategies that do not touch the old member before it is destroyed leave exactly the
new member in its place, or throw on a schedule that says so. -/
theorem wp_reinitExpected_inPlace (htraits : (c || newType.nothrowMoveConstructible) = true)
    (halive : oldVal.alive m.mem = true) (hvacant : newVal.vacant (oldVal.erase m.mem) = true) :
    wp (reinitExpected newVal oldVal newType oldType (Init.ofArg c a t))
      (fun _ m' => m'.mem = newVal.write t (oldVal.erase m.mem)) (fun _ => m.throws ≠ [])
      (fun _ => False) m := by
  unfold reinitExpected
  split
  · next hnothrow =>
    rw [wp_bind, wp_destroyAt]
    refine ⟨halive, ?_⟩
    rw [wp_constructAt (run_ofArg ..)]
    simp [hnothrow, hvacant]
  · next hmay =>
    have hmove : newType.nothrowMoveConstructible = true := by
      simpa [Init.ofArg] using (Bool.or_eq_true_iff.mp htraits).resolve_left hmay
    rw [if_pos hmove, wp_withLocal (run_ofArg ..)]
    split
    · next hthrow => exact ne_nil_of_throwsNext hthrow
    · rw [wp_unwindLocal, wp_bind, wp_destroyAt]
      refine ⟨halive, ?_⟩
      rw [wp_constructAt (run_moveLocal ..)]
      simp [Init.moveLocal, Init.ofArg, hmove, hvacant]

/-- Over a member that is not there, every strategy faults when nothing throws before. -/
theorem not_wp_reinitExpected {Q : Unit → Machine σ ℓ → Prop} {R K : Machine σ ℓ → Prop}
    (hthrows : m.throws = []) (hdead : oldVal.alive m.mem = false)
    (hread : oldVal.read m.mem = none) :
    ¬ wp (reinitExpected newVal oldVal newType oldType (Init.ofArg c a t)) Q R K m := by
  have hmove : (Init.move oldType oldVal).run m.mem = none := by simp [Init.move, hread]
  unfold reinitExpected
  split
  · rw [wp_bind, wp_destroyAt, hdead]
    simp
  · split
    · rw [wp_withLocal (run_ofArg ..)]
      simp only [hthrows, throwsNext_nil, throwsAfter_nil, Bool.false_eq_true, ↓reduceIte]
      rw [wp_unwindLocal, wp_bind, wp_destroyAt, hdead]
      simp
    · -- the backup of the old member is what reads it
      unfold withLocal
      rw [wp_bind]
      exact not_wp_eval hmove

end Reinit

/-! ## Value assignment -/

section Assign

variable {σ ℓ V E : Type} {L : Layout σ ℓ V E} {tv : ElemType V} {te : ElemType E}
  {m : Machine σ ℓ} {K : Machine σ ℓ → Prop}

theorem Layout.wp_assignValue_of_value (hL : L.Lawful) {v₀ : V} (hs : L.Holds m.mem (.inl v₀))
    (v : ForwardArg V) (c : ValueCategory) :
    wp (L.assignValue tv te (v.as c)) (fun _ m' => L.Holds m'.mem (.inl v.made)) (fun _ => True)
      K m := by
  obtain ⟨htag, halive, -, hvacant⟩ := hs
  unfold Layout.assignValue
  simp only [wp_bind, wp_look, htag, ↓reduceIte]
  rw [ForwardArg.as, wp_assignAt (run_ofArg ..)]
  refine ⟨halive, ?_⟩
  split
  · trivial
  · refine ⟨?_, hL.val.alive_write _ _, hL.val.read_write _ _, ?_⟩
    · rw [hL.hasVal_writeVal, htag]
    · rw [hL.unex_vacant_writeVal, hvacant]

/-- The tag is cleared last, whatever came before. -/
theorem Layout.wp_assignValue_of_error (hL : L.Lawful) {e₀ : E} (hs : L.Holds m.mem (.inr e₀))
    (hthrows : m.throws = []) (v : ForwardArg V) (c : ValueCategory) :
    wp (L.assignValue tv te (v.as c)) (fun _ m' => L.hasVal m'.mem = false) (fun _ => False)
      (fun _ => False) m := by
  obtain ⟨htag, halive, hread, hvacant⟩ := hs
  unfold Layout.assignValue
  simp only [wp_bind, wp_look, htag, Bool.false_eq_true, ↓reduceIte]
  have hreinit : wp (reinitExpected L.val L.unex tv te (v.as c)) (fun _ _ => True)
      (fun _ => False) (fun _ => False) m := by
    refine wp_reinitExpected_nil hL.unex hthrows halive hread ?_ ?_
    · rw [hL.val_vacant_eraseUnex, hvacant]
    · rw [hL.val_vacant_eraseUnex, hL.val_vacant_writeUnex, hvacant]
  refine wp_mono hreinit (fun _ m' _ => ?_) (fun _ h => h) fun _ h => h
  exact hL.hasVal_set false m'.mem

/-- **Value assignment works exactly on an object that holds a value.** -/
theorem Kind.assignsValue_iff (k : Kind V E) (o : Nat) (s : k.Mem) (x : V ⊕ E)
    (hs : (k.layout o).Holds s x) (v : ForwardArg V) :
    k.AssignsValue o s v ↔ (k.layout o).hasVal s = true := by
  constructor
  · intro hlaw
    cases x with
    | inl v₀ => exact hs.1
    | inr e₀ =>
      have hreturns : wp (k.assignValue o v .rvalue) _ (fun _ => False) (fun _ => False)
          ⟨s, [], []⟩ := Layout.wp_assignValue_of_error (k.lawful o) hs rfl v .rvalue
      obtain ⟨u, m, hrun, htag⟩ := wp_returns hreturns
      have hshows := ((wp_of_returned hrun).mp (hlaw .rvalue [] [])).1.1
      rw [htag] at hshows
      cases hshows
  · intro htag cat throws log
    have hassign : ∀ {m : Machine k.Mem Place} {v₀ : V}, (k.layout o).Holds m.mem (.inl v₀) →
        ∀ (w : ForwardArg V) cat', wp (k.assignValue o w cat')
          (fun _ m' => (k.layout o).Holds m'.mem (.inl w.made)) (fun _ => True) (fun _ => True) m :=
      fun hm w _ => Layout.wp_assignValue_of_value (k.lawful o) hm w .rvalue
    cases x with
    | inl v₀ =>
      refine wp_mono (hassign hs v cat) (fun _ m hm => ⟨⟨hm.1, hm.value_eq⟩, ?_⟩)
        (fun _ _ => trivial) fun _ _ => trivial
      intro w cat' throws'
      exact wp_mono (hassign (m := { m with throws := throws' }) hm w cat')
        (fun _ m' hm' => ⟨hm'.1, hm'.value_eq⟩) (fun _ _ => trivial) fun _ _ => trivial
    | inr e₀ =>
      rw [hs.1] at htag
      cases htag

theorem Kind.assignsValue_of_value :
    (Kind.ePODStruct : Kind Nat Nat).AssignsValue 0
      (⟨fun _ => true, fun _ => some 1, fun _ => none⟩ : PodStructs Nat Nat) (.trivial 11) :=
  (Kind.assignsValue_iff .ePODStruct 0 _ (.inl 1) ⟨rfl, rfl, rfl, rfl⟩ (.trivial 11)).mpr rfl

/-- The state of the repository's own test after its `swap`: assigning 11 to an object that holds
an error leaves it without a value. -/
theorem Kind.not_assignsValue_of_error :
    ¬ (Kind.ePODUnion .byte .byte).AssignsValue 0
      (⟨fun _ => false, fun _ _ => 2, fun _ _ => 0⟩ : PodUnions) (.trivial 11) := by
  intro hlaw
  have hshows := (hlaw .rvalue [] []).1.1
  exact absurd hshows (by decide)

/-! ## Assignment from an `unexpected` -/

theorem Layout.wp_assignUnexpected_of_error (hL : L.Lawful) {e₀ : E}
    (hs : L.Holds m.mem (.inr e₀)) (g : UnexpectedArg V E) (c : ValueCategory) :
    wp (L.assignUnexpected tv te (g.error.as c) (g.value.as c))
      (fun _ m' => L.Holds m'.mem (.inr g.error.made)) (fun _ => True) K m := by
  obtain ⟨htag, halive, -, hvacant⟩ := hs
  unfold Layout.assignUnexpected
  simp only [wp_bind, wp_look, htag, Bool.false_eq_true, ↓reduceIte]
  rw [ForwardArg.as, wp_assignAt (run_ofArg ..)]
  refine ⟨halive, ?_⟩
  split
  · trivial
  · refine ⟨?_, hL.unex.alive_write _ _, hL.unex.read_write _ _, ?_⟩
    · rw [hL.hasVal_writeUnex, htag]
    · rw [hL.val_vacant_writeUnex, hvacant]

/-- Where `unex_` can be written and destroyed at any time, the operator runs through on a value
too: it leaves another value, made of the error, under a false tag. -/
theorem Layout.wp_assignUnexpected_of_value (hL : L.Lawful) {v₀ : V}
    (hs : L.Holds m.mem (.inl v₀)) (halive : L.unex.alive m.mem = true)
    (hvacant : L.val.vacant m.mem = true) (g : UnexpectedArg V E) (c : ValueCategory)
    (htraits : (g.value.nothrowConstruct c || tv.nothrowMoveConstructible) = true) :
    wp (L.assignUnexpected tv te (g.error.as c) (g.value.as c))
      (fun _ m' => L.hasVal m'.mem = false ∧
        L.error m'.mem = L.unex.read (L.val.write g.value.made (L.unex.erase m.mem)))
      (fun _ => m.throws ≠ []) (fun _ => False) m := by
  unfold Layout.assignUnexpected
  simp only [wp_bind, wp_look, hs.1, ↓reduceIte]
  have hreinit : wp (reinitExpected L.val L.unex tv te (g.value.as c))
      (fun _ m' => m'.mem = L.val.write g.value.made (L.unex.erase m.mem)) (fun _ => m.throws ≠ [])
      (fun _ => False) m := by
    refine wp_reinitExpected_inPlace htraits halive ?_
    rw [hL.val_vacant_eraseUnex, hvacant]
  refine wp_mono hreinit (fun _ m' hm' => ⟨hL.hasVal_set false m'.mem, ?_⟩) (fun _ h => h)
    fun _ h => h
  show L.unex.read (L.setHasVal false m'.mem) = _
  rw [hL.unex_read_set, hm']

/-- In the general storage there is no error for the operator to replace. -/
theorem not_wp_assignUnexpected_of_value {V E : Type} {tv : ElemType V} {te : ElemType E} {o : Nat}
    {m : Machine (Heap V E) Place} {v₀ : V} {Q : Unit → Machine (Heap V E) Place → Prop}
    {R K : Machine (Heap V E) Place → Prop} (hs : (Heap.layout o).Holds m.mem (.inl v₀))
    (hthrows : m.throws = []) (g : UnexpectedArg V E) (c : ValueCategory) :
    ¬ wp ((Heap.layout o).assignUnexpected tv te (g.error.as c) (g.value.as c)) Q R K m := by
  obtain ⟨htag, -, -, hvacant⟩ := hs
  have hnone : (m.mem.obj o).right = none := by
    simpa [Heap.layout, Objects.rightCell] using hvacant
  unfold Layout.assignUnexpected
  simp only [wp_bind, wp_look, htag, ↓reduceIte]
  refine not_wp_reinitExpected hthrows ?_ hnone
  show (m.mem.obj o).right.isSome = false
  rw [hnone]
  rfl

theorem Kind.ShowsError.value_eq {k : Kind V E} {o : Nat} {s : k.Mem} {e : E}
    (h : k.ShowsError o s e) : (k.layout o).value s = some (.error e) := by
  obtain ⟨htag, herror⟩ := h
  unfold Layout.value
  rw [if_neg (by simp [htag])]
  exact congrArg (Option.map Except.error) herror

/-- The overloads agree as soon as each of them shows the right error. -/
theorem Kind.assignsError_iff_shows {k : Kind V E} {o : Nat} {s : k.Mem} {g : UnexpectedArg V E} :
    k.AssignsError o s g ↔ ∀ cat throws log,
      wp (k.assignUnexpected o g cat) (fun _ m => k.ShowsError o m.mem g.error.made)
        (fun _ => True) (fun _ => True) ⟨s, throws, log⟩ := by
  refine ⟨And.left, fun hshows => ⟨hshows, ?_⟩⟩
  intro throws throws' log m m' hm hm'
  have hl := (wp_of_returned hm).mp (hshows .lvalue throws log)
  have hr := (wp_of_returned hm').mp (hshows .rvalue throws' log)
  exact ⟨hl.1.trans hr.1.symm, hl.value_eq.trans hr.value_eq.symm⟩

/-- A storage whose members can be overwritten at any time meets the law on a value exactly by
accident. -/
theorem Kind.assignsError_iff_of_pod {k : Kind V E} {o : Nat} {s : k.Mem} {v₀ : V}
    (hs : (k.layout o).Holds s (.inl v₀)) (halive : (k.layout o).unex.alive s = true)
    (hvacant : (k.layout o).val.vacant s = true)
    (htraits : k.valType.nothrowMoveConstructible = true) (g : UnexpectedArg V E) :
    k.AssignsError o s g ↔
      (k.layout o).unex.read ((k.layout o).val.write g.value.made ((k.layout o).unex.erase s))
        = some g.error.made := by
  have hrun : ∀ cat throws log, wp (k.assignUnexpected o g cat) (fun _ m' =>
      (k.layout o).hasVal m'.mem = false ∧ (k.layout o).error m'.mem =
        (k.layout o).unex.read ((k.layout o).val.write g.value.made ((k.layout o).unex.erase s)))
      (fun _ => throws ≠ []) (fun _ => False) ⟨s, throws, log⟩ := by
    intro cat throws log
    exact Layout.wp_assignUnexpected_of_value (m := ⟨s, throws, log⟩) (k.lawful o) hs halive
      hvacant g cat (by rw [htraits, Bool.or_true])
  rw [Kind.assignsError_iff_shows]
  constructor
  · intro hlaw
    have hreturns : wp (k.assignUnexpected o g .lvalue) _ (fun _ => False) (fun _ => False)
        ⟨s, [], []⟩ := wp_mono (hrun .lvalue [] []) (fun _ _ h => h) (fun _ h => h rfl) fun _ h => h
    obtain ⟨u, m, hm, -, herror⟩ := wp_returns hreturns
    have hshows := (wp_of_returned hm).mp (hlaw .lvalue [] [])
    rw [← herror]
    exact hshows.2
  · intro hstale cat throws log
    refine wp_mono (hrun cat throws log) (fun _ m h => ⟨h.1, ?_⟩) (fun _ _ => trivial)
      fun _ _ => trivial
    rw [h.2, hstale]

/-- **Assignment from an `unexpected` works on an error, or by accident.** -/
theorem Kind.assignsError_iff (k : Kind V E) (o : Nat) (s : k.Mem) (x : V ⊕ E)
    (hs : (k.layout o).Holds s x) (g : UnexpectedArg V E) :
    k.AssignsError o s g ↔ (k.layout o).hasVal s = false ∨ k.StaleError o s g := by
  cases x with
  | inr e₀ =>
    refine ⟨fun _ => .inl hs.1, fun _ => Kind.assignsError_iff_shows.mpr ?_⟩
    intro cat throws log
    refine wp_mono (K := fun _ => True) (Layout.wp_assignUnexpected_of_error (k.lawful o)
      (m := ⟨s, throws, log⟩) hs g cat) (fun _ m hm => ?_) (fun _ _ => trivial) fun _ _ => trivial
    exact ⟨hm.1, hm.2.2.1⟩
  | inl v₀ =>
    rw [hs.1]
    simp only [Bool.true_eq_false, false_or]
    cases k with
    | eUnion tv te =>
      refine ⟨fun hlaw => ?_, False.elim⟩
      exact not_wp_assignUnexpected_of_value (m := ⟨s, [], []⟩) hs rfl g .lvalue
        (hlaw.1 .lvalue [] [])
    | ePODUnion pv pe => exact Kind.assignsError_iff_of_pod hs rfl rfl rfl g
    | ePODStruct => exact Kind.assignsError_iff_of_pod hs rfl rfl rfl g

theorem Kind.assignsError_of_error :
    (Kind.eUnion (.trivial Nat) (.trivial Nat)).AssignsError 0
      (⟨fun _ => true, fun _ => ⟨false, none, some 3⟩⟩ : Heap Nat Nat)
      ⟨.trivial 7, .trivial 7⟩ :=
  (Kind.assignsError_iff (.eUnion (.trivial Nat) (.trivial Nat)) 0 _ (.inr 3)
    ⟨rfl, rfl, rfl, rfl⟩ ⟨.trivial 7, .trivial 7⟩).mpr (.inl rfl)

theorem Kind.not_assignsError_of_value :
    ¬ (Kind.ePODStruct : Kind Nat Nat).AssignsError 0
      (⟨fun _ => true, fun _ => some 1, fun _ => none⟩ : PodStructs Nat Nat)
      ⟨.trivial 7, .trivial 7⟩ := by
  intro hlaw
  have hshows := (hlaw.1 .lvalue [] []).2
  exact absurd hshows (by decide)

end Assign

end Hy.Tiny

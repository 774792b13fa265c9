import HyServer.Expected.Assign

/-!
# hy::expected — `emplace`

The two overloads of `expected::emplace`, on any of the three storages. Where a destructor call
would stand, `~value()` and `~error()` apply the operator `~` to the member, and the new value is
constructed at the address of `value()`, which throws on an error.

* `Operand` — what the body asks of an element type: its operator `~`, and whether the storage of
  an element may be used again without a destructor call.
* `Kind.Emplaces` — the law: a reference to the new value, and the old member destroyed once.
* `Kind.emplaces_iff` — it holds of an object that holds a value of a trivially destructible type,
  and of no other.
-/

namespace Hy.Tiny

open Cpp

/-! ## The operands -/

/-- The operator `~` of an element type (whether it is `noexcept`, and what it leaves of its
operand), and whether the type is trivially destructible. -/
structure Operand (T : Type) where
  nothrowComplement : Bool
  complement : T → T
  triviallyDestructible : Bool

/-- A built-in integer. -/
def Operand.integer (T : Type) : Operand T where
  nothrowComplement := true
  complement := id
  triviallyDestructible := true

section Programs

variable {σ ℓ T V E : Type}

/-- The expression statement `~c;`. -/
def complementAt (c : Cell σ ℓ T) (t : Operand T) : Prog σ ℓ Unit := do
  let operand : Init σ T :=
    { nothrowConstruct := t.nothrowComplement
      nothrowAssign := t.nothrowComplement
      run := fun s => (c.read s).map fun x => (t.complement x, s) }
  let x ← operand.eval t.nothrowComplement
  update (c.write x)

/-- `construct_at` where perhaps an element is. Using the storage of a trivially destructible one
ends its life; any other one would be lost. -/
def constructOver (c : Cell σ ℓ T) (trivial : Bool) (i : Init σ T) : Prog σ ℓ Unit := do
  if trivial && (← look c.alive) then
    destroyAt c
  constructAt c i

namespace Layout

variable (self : Layout σ ℓ V E)

/-- `value() &`, up to its result. What it throws holds a copy of the error. -/
def checkValue (te : ElemType E) : Prog σ ℓ Unit := do
  if ← look self.hasVal then
    pure ()
  else
    let _error ← (Init.copy te self.unex).eval te.nothrowCopyConstructible
    raise

/-- The body of both overloads of `emplace`. It returns the place of `*construct_at(...)`. -/
def emplaceWith (te : ElemType E) (v : Operand V) (e : Operand E) (args : Init σ V) :
    Prog σ ℓ ℓ :=
  noexceptIf true do
    if ← look self.hasVal then
      self.checkValue te
      complementAt self.val v
    else
      complementAt self.unex e
    self.checkValue te
    constructOver self.val v.triviallyDestructible args
    return self.val.loc

end Layout

end Programs

/-! ## The two overloads -/

namespace Kind

variable {V E : Type} (k : Kind V E)

/-- `emplace(Args&&... args)` -/
def emplace (o : Nat) (v : Operand V) (e : Operand E) (args : ForwardArg V) (cat : ValueCategory) :
    Prog k.Mem Place Place :=
  (k.layout o).emplaceWith k.unexType v e (args.as cat)

/-- `emplace(std::initializer_list<U> il, Args&&... args)`; `ilArgs` is what `il` and `args`
make. -/
def emplaceList (o : Nat) (v : Operand V) (e : Operand E) (ilArgs : ForwardArg V)
    (cat : ValueCategory) : Prog k.Mem Place Place :=
  (k.layout o).emplaceWith k.unexType v e (ilArgs.as cat)

/-- The member that is alive. -/
def liveSlot (o : Nat) (s : k.Mem) : Slot :=
  if (k.layout o).hasVal s then .left else .right

/-- **The law of `emplace`.** On every schedule either overload returns, with a reference to the
member `val_`; the object then shows what the arguments make; and the member that was alive before
has been destroyed once. -/
def Emplaces (o : Nat) (s : k.Mem) (v : Operand V) (e : Operand E) (args : ForwardArg V)
    (cat : ValueCategory) : Prop :=
  ∀ overload ∈ [k.emplace o v e args cat, k.emplaceList o v e args cat], ∀ throws log,
    wp overload
      (fun r m => r = (k.layout o).val.loc ∧ k.ShowsValue o m.mem args.made ∧
        m.log.count (.died (some (o, k.liveSlot o s))) =
          log.count (.died (some (o, k.liveSlot o s))) + 1)
      (fun _ => False) (fun _ => False) ⟨s, throws, log⟩

end Kind

/-! ## Stepping through the body -/

section Steps

variable {σ ℓ T V E : Type} {m : Machine σ ℓ} {Q : Unit → Machine σ ℓ → Prop}
  {R K : Machine σ ℓ → Prop}

theorem wp_complementAt {c : Cell σ ℓ T} (t : Operand T) {x : T} (hread : c.read m.mem = some x) :
    wp (complementAt c t) Q R K m ↔
      if throwsNext t.nothrowComplement m.throws
      then R { m with throws := throwsAfter t.nothrowComplement m.throws }
      else Q () { m with
        mem := c.write (t.complement x) m.mem
        throws := throwsAfter t.nothrowComplement m.throws } := by
  unfold complementAt
  have hrun : (c.read m.mem).map (fun x => (t.complement x, m.mem))
      = some (t.complement x, m.mem) := by rw [hread]; rfl
  rw [wp_bind, wp_eval hrun]
  rfl

theorem wp_checkValue_of_value {L : Layout σ ℓ V E} (te : ElemType E)
    (htag : L.hasVal m.mem = true) : wp (L.checkValue te) Q R K m ↔ Q () m := by
  unfold Layout.checkValue
  rw [wp_bind, wp_look, htag]
  rfl

/-- On an error, `value()` throws, be it by the copy it makes of the error. -/
theorem wp_checkValue_of_error {L : Layout σ ℓ V E} (te : ElemType E)
    (htag : L.hasVal m.mem = false) {e : E} (hread : L.unex.read m.mem = some e)
    (h : wp (L.checkValue te) Q (fun _ => False) K m) : False := by
  unfold Layout.checkValue at h
  rw [wp_bind, wp_look, htag, if_neg (by simp), wp_bind] at h
  have hrun : (Init.copy te L.unex).run m.mem = some (e, m.mem) := by simp [Init.copy, hread]
  rw [wp_eval hrun] at h
  split at h
  · exact h
  · exact h

end Steps

/-! ## The law -/

section Laws

variable {σ ℓ V E : Type} {L : Layout σ ℓ V E} {te : ElemType E} {v : Operand V} {e : Operand E}
  {args : Init σ V} {m : Machine σ ℓ} {Q : ℓ → Machine σ ℓ → Prop} {R : Machine σ ℓ → Prop}

/-- An object that holds an error: `~error()` is applied to it, and then `value()` is the end. -/
theorem not_wp_emplaceWith_of_error (hL : L.Lawful) {e₀ : E} (hs : L.Holds m.mem (.inr e₀))
    (hthrows : m.throws = []) :
    ¬ wp (L.emplaceWith te v e args) Q R (fun _ => False) m := by
  intro h
  obtain ⟨htag, -, hread, -⟩ := hs
  unfold Layout.emplaceWith at h
  rw [wp_noexceptIf_iff] at h
  simp only [↓reduceIte, wp_bind, wp_look, htag, Bool.false_eq_true] at h
  rw [wp_complementAt e hread] at h
  simp only [hthrows, throwsNext_nil, Bool.false_eq_true, ↓reduceIte] at h
  rw [wp_bind] at h
  have htag' : L.hasVal (L.unex.write (e.complement e₀) m.mem) = false :=
    (hL.hasVal_writeUnex _ _).trans htag
  exact wp_checkValue_of_error te htag' (hL.unex.read_write _ _) h

/-- An object that holds a value. -/
theorem wp_emplaceWith_of_value (hL : L.Lawful) {v₀ : V} (hs : L.Holds m.mem (.inl v₀)) :
    wp (L.emplaceWith te v e args) Q R (fun _ => False) m ↔
      throwsNext v.nothrowComplement m.throws = false ∧
      wp (constructOver L.val v.triviallyDestructible args) (fun _ => Q L.val.loc)
        (fun _ => False) (fun _ => False)
        { m with
          mem := L.val.write (v.complement v₀) m.mem
          throws := throwsAfter v.nothrowComplement m.throws } := by
  obtain ⟨htag, -, hread, -⟩ := hs
  have htag' : L.hasVal (L.val.write (v.complement v₀) m.mem) = true :=
    (hL.hasVal_writeVal _ _).trans htag
  unfold Layout.emplaceWith
  rw [wp_noexceptIf_iff]
  simp only [↓reduceIte, wp_bind, wp_look, htag]
  rw [wp_checkValue_of_value te htag, wp_bind, wp_complementAt v hread]
  cases hthrow : throwsNext v.nothrowComplement m.throws with
  | true => simp
  | false =>
    simp only [Bool.false_eq_true, ↓reduceIte, true_and]
    rw [wp_bind, wp_checkValue_of_value te htag', wp_bind]
    rfl

end Laws

section Rebuild

variable {σ ℓ T : Type} {c : Cell σ ℓ T} {trivial a : Bool} {t : T} {m : Machine σ ℓ}
  {Q : Unit → Machine σ ℓ → Prop} {R K : Machine σ ℓ → Prop}

theorem wp_constructOver_trivial (halive : c.alive m.mem = true)
    (hvacant : c.vacant (c.erase m.mem) = true) :
    wp (constructOver c true (Init.ofArg true a t)) Q R K m ↔
      Q () { m with
        mem := c.write t (c.erase m.mem)
        log := m.log ++ [.died (some c.loc)] ++ [.born (some c.loc)] } := by
  unfold constructOver
  simp only [wp_bind, wp_look, halive, Bool.and_self, ↓reduceIte, wp_destroyAt, true_and]
  rw [wp_constructAt (run_ofArg ..)]
  simp [Init.ofArg, hvacant]

theorem wp_constructOver_lost (h : wp (constructOver c false (Init.ofArg true a t)) Q R K m) :
    Q () { m with mem := c.write t m.mem, log := m.log ++ [.born (some c.loc)] } := by
  unfold constructOver at h
  simp only [wp_bind, wp_look, Bool.false_and, Bool.false_eq_true, ↓reduceIte] at h
  rw [wp_constructAt (run_ofArg ..)] at h
  exact h.2

end Rebuild

namespace Kind

variable {V E : Type}

theorem loc_val (k : Kind V E) (o : Nat) : (k.layout o).val.loc = (o, .left) := by
  cases k <;> rfl

theorem hasVal_eraseVal (k : Kind V E) (o : Nat) (s : k.Mem) :
    (k.layout o).hasVal ((k.layout o).val.erase s) = (k.layout o).hasVal s := by
  cases k with
  | eUnion tv te =>
    have hobj := Objects.obj_modify_self o (fun x : Tagged Bool V E => { x with left := none }) s
    exact (congrArg Tagged.tag hobj :)
  | ePODUnion pv pe => rfl
  | ePODStruct => rfl

theorem vacant_eraseVal (k : Kind V E) (o : Nat) (s : k.Mem) :
    (k.layout o).val.vacant ((k.layout o).val.erase s) = true := by
  cases k with
  | eUnion tv te =>
    exact congrArg (fun x => x.left.isNone) (Objects.obj_modify_self o
      (fun x : Tagged Bool V E => { x with left := none }) _)
  | ePODUnion pv pe => rfl
  | ePODStruct => rfl

/-- A value of a trivially destructible type is emplaced over another one. -/
theorem wp_emplaceWith_trivial (k : Kind V E) {o : Nat} {s : k.Mem} {v₀ : V}
    (hs : (k.layout o).Holds s (.inl v₀)) {v : Operand V} (e : Operand E) {args : ForwardArg V}
    {cat : ValueCategory} (hargs : args.nothrowConstruct cat = true)
    (hdestroy : v.triviallyDestructible = true) (hcomplement : v.nothrowComplement = true)
    (throws : List Bool) (log : List (Event (Option Place))) :
    wp ((k.layout o).emplaceWith k.unexType v e (args.as cat))
      (fun r m => r = (k.layout o).val.loc ∧ k.ShowsValue o m.mem args.made ∧
        m.log = log ++ [.died (some (o, .left))] ++ [.born (some (o, .left))])
      (fun _ => False) (fun _ => False) ⟨s, throws, log⟩ := by
  have hL := k.lawful o
  have htag := hs.1
  rw [wp_emplaceWith_of_value (m := ⟨s, throws, log⟩) hL hs, hcomplement, hdestroy]
  refine ⟨rfl, ?_⟩
  rw [ForwardArg.as, hargs]
  rw [wp_constructOver_trivial (hL.val.alive_write _ _) (k.vacant_eraseVal o _), k.loc_val o]
  have htag' : (k.layout o).hasVal ((k.layout o).val.write args.made
      ((k.layout o).val.erase ((k.layout o).val.write (v.complement v₀) s))) = true := by
    rw [hL.hasVal_writeVal, k.hasVal_eraseVal, hL.hasVal_writeVal, htag]
  refine ⟨rfl, ⟨htag', ?_⟩, rfl⟩
  unfold Layout.value
  rw [if_pos htag', hL.val.read_write]
  rfl

/-- **`emplace` does what it says exactly on an object that holds a value, of a trivially
destructible type whose `~` does not throw.** -/
theorem emplaces_iff (k : Kind V E) (o : Nat) (s : k.Mem) (x : V ⊕ E)
    (hs : (k.layout o).Holds s x) (v : Operand V) (e : Operand E) (args : ForwardArg V)
    (cat : ValueCategory) (hargs : args.nothrowConstruct cat = true) :
    k.Emplaces o s v e args cat ↔
      (k.layout o).hasVal s = true ∧ v.triviallyDestructible = true ∧
        v.nothrowComplement = true := by
  have hL := k.lawful o
  constructor
  · intro hlaw
    have hrun := fun throws => hlaw (k.emplace o v e args cat) (by simp) throws []
    cases x with
    | inr e₀ =>
      exact (not_wp_emplaceWith_of_error (m := ⟨s, [], []⟩) hL hs rfl (hrun [])).elim
    | inl v₀ =>
      have hstep := fun throws =>
        (wp_emplaceWith_of_value (m := ⟨s, throws, []⟩) hL hs).mp (hrun throws)
      refine ⟨hs.1, ?_, ?_⟩
      · cases hdestroy : v.triviallyDestructible with
        | true => rfl
        | false =>
          have hlost := (hstep []).2
          rw [hdestroy, ForwardArg.as, hargs] at hlost
          have hcount := (wp_constructOver_lost hlost).2.2
          -- The log has a birth only.
          simp at hcount
      · cases hcomplement : v.nothrowComplement with
        | true => rfl
        | false =>
          have hthrow := (hstep [true]).1
          rw [hcomplement] at hthrow
          cases hthrow
  · rintro ⟨htag, hdestroy, hcomplement⟩ overload hmem throws log
    have hbody : overload = (k.layout o).emplaceWith k.unexType v e (args.as cat) := by
      simpa [emplace, emplaceList] using hmem
    have hslot : k.liveSlot o s = .left := if_pos htag
    cases x with
    | inr e₀ =>
      rw [hs.1] at htag
      cases htag
    | inl v₀ =>
      rw [hbody, hslot]
      refine wp_mono (k.wp_emplaceWith_trivial hs e hargs hdestroy hcomplement throws log)
        (fun r m h => ?_) (fun _ h => h) fun _ h => h
      obtain ⟨hr, hshows, hlog⟩ := h
      refine ⟨hr, hshows, ?_⟩
      rw [hlog]
      simp

theorem emplaces_of_value :
    (ePODUnion .byte .byte : Kind UInt8 UInt8).Emplaces 0
      (⟨fun _ => true, fun _ _ => 1, fun _ _ => 0⟩ : PodUnions) (.integer UInt8) (.integer UInt8)
      (.trivial 11) .rvalue :=
  (emplaces_iff (ePODUnion .byte .byte) 0 _ (.inl 1) ⟨rfl, rfl, rfl, rfl⟩ (.integer UInt8)
    (.integer UInt8) (.trivial 11) .rvalue rfl).mpr ⟨rfl, rfl, rfl⟩

/-- An object that holds an error is not turned into one that holds a value: the call ends the
program. -/
theorem not_emplaces_of_error :
    ¬ (ePODUnion .byte .byte : Kind UInt8 UInt8).Emplaces 0
      (⟨fun _ => false, fun _ _ => 2, fun _ _ => 0⟩ : PodUnions) (.integer UInt8)
      (.integer UInt8) (.trivial 11) .rvalue := by
  intro hlaw
  exact hlaw _ (List.mem_cons_self ..) [] []

end Kind

end Hy.Tiny

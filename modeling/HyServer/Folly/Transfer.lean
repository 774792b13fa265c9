import HyServer.Cpp.Contents
import HyServer.Folly.SpecialMembers

/-!
# hy::expected after folly — what the special members carry over

Copy and move construction and assignment of the general storage, with their values, between objects
in any of the three states.

* `stored` — an object by its state: empty, a value or an error.
* `Alternative` — what `assignValue` and `assignError` have in common.
* `wp_assignMember_stored` — an alternative carried over to an object in any state. A throw while
  the alternative changes leaves that object empty.
* `special_transfers` — the four special members.
-/

namespace Hy.Folly

open Cpp

/-! ## Objects by their state -/

section Stored

variable {V E : Type}

/-- The object in a state; `none` is the empty one. -/
def stored : Option (V ⊕ E) → Tagged Which V E
  | none => ⟨.eEmpty, none, none⟩
  | some (.inl v) => ⟨.eValue, some v, none⟩
  | some (.inr e) => ⟨.eError, none, some e⟩

/-- `uninitializedByException()` -/
def uninitializedByException (o : Nat) (h : Heap V E) : Bool :=
  which o h == .eEmpty

/-- What is left of a state that was forwarded and taken. -/
def leavesState (tv : PayloadType V) (te : PayloadType E) (cat : ValueCategory) :
    Option (V ⊕ E) → Option (V ⊕ E) :=
  Option.map (Sum.map (tv.leaves cat) (te.leaves cat))

theorem leavesState_lvalue (tv : PayloadType V) (te : PayloadType E) (x : Option (V ⊕ E)) :
    leavesState tv te .lvalue x = x := by
  rcases x with - | v | e <;> rfl

/-- Whether construction from a forwarded element is `noexcept`. -/
def PayloadType.nothrowForward {T : Type} (ty : PayloadType T) : ValueCategory → Bool
  | .lvalue => ty.nothrowCopyConstructible
  | .rvalue => ty.nothrowMoveConstructible

/-- One of the two alternatives an object may hold: its `which_`, its member, and its states. -/
structure Alternative (V E T : Type) where
  which : Which
  member : Nat → Cell (Heap V E) Place T
  state : T → V ⊕ E
  exact : ∀ o, (member o).Exact
  apart : ∀ {o p}, o ≠ p → (member o).Apart (member p)
  exists_of_tag : ∀ {x}, (stored x).tag = which → ∃ t, x = some (state t)
  read_stored : ∀ {h o t}, h.obj o = stored (some (state t)) → (member o).read h = some t
  write_stored : ∀ {h o t} u, h.obj o = stored (some (state t)) →
    (member o).write u h = Objects.put o (stored (some (state u))) h
  vacant_empty : ∀ {h o}, h.obj o = stored none → (member o).vacant h = true
  write_empty : ∀ {h o} u, h.obj o = stored none →
    Objects.setTag o which ((member o).write u h) = Objects.put o (stored (some (state u))) h
  erase_stored : ∀ {h o t}, h.obj o = stored (some (state t)) →
    (member o).erase h = Objects.put o ⟨which, none, none⟩ h

def Alternative.value : Alternative V E V where
  which := .eValue
  member := Folly.value
  state := .inl
  exact := Objects.exact_left
  apart := Objects.apart_left
  exists_of_tag {x} htag := by
    rcases x with - | v | e
    · cases htag
    · exact ⟨v, rfl⟩
    · cases htag
  read_stored h := congrArg Tagged.left h
  write_stored {h o _} u hx := by
    show Objects.modify o (fun z => { z with left := some u }) h = _
    apply Objects.modify_eq_put
    rw [hx]
    rfl
  vacant_empty h := congrArg (fun x => x.left.isNone) h
  write_empty {h o} u hx := by
    show Objects.modify o (fun z => { z with tag := .eValue })
      (Objects.modify o (fun z => { z with left := some u }) h) = _
    rw [Objects.modify_modify]
    apply Objects.modify_eq_put
    rw [hx]
    rfl
  erase_stored {h o _} hx := by
    show Objects.modify o (fun z => { z with left := none }) h = _
    apply Objects.modify_eq_put
    rw [hx]
    rfl

def Alternative.error : Alternative V E E where
  which := .eError
  member := Folly.error
  state := .inr
  exact := Objects.exact_right
  apart := Objects.apart_right
  exists_of_tag {x} htag := by
    rcases x with - | v | e
    · cases htag
    · cases htag
    · exact ⟨e, rfl⟩
  read_stored h := congrArg Tagged.right h
  write_stored {h o _} u hx := by
    show Objects.modify o (fun z => { z with right := some u }) h = _
    apply Objects.modify_eq_put
    rw [hx]
    rfl
  vacant_empty h := congrArg (fun x => x.right.isNone) h
  write_empty {h o} u hx := by
    show Objects.modify o (fun z => { z with tag := .eError })
      (Objects.modify o (fun z => { z with right := some u }) h) = _
    rw [Objects.modify_modify]
    apply Objects.modify_eq_put
    rw [hx]
    rfl
  erase_stored {h o _} hx := by
    show Objects.modify o (fun z => { z with right := none }) h = _
    apply Objects.modify_eq_put
    rw [hx]
    rfl

end Stored

/-! ## `clear` and `assignValue` -/

section Members

variable {V E T : Type} {m : Machine (Heap V E) Place} {o rhs : Nat} {cat : ValueCategory}
  {Q : Unit → Machine (Heap V E) Place → Prop} {R K : Machine (Heap V E) Place → Prop}

theorem setTag_put (w : Which) (z : Tagged Which V E) (h : Heap V E) :
    Objects.setTag o w (Objects.put o z h) = Objects.put o { z with tag := w } h :=
  Objects.modify_modify o _ _ h

/-- `clear` empties an object in any state. -/
theorem wp_clear_stored {x : Option (V ⊕ E)} (hx : m.mem.obj o = stored x)
    (hQ : ∀ m', m'.mem = Objects.put o (stored none) m.mem → m'.throws = m.throws → Q () m') :
    wp (clear o) Q R K m := by
  have hwhich : which o m.mem = (stored x).tag := congrArg Tagged.tag hx
  unfold clear
  rw [wp_bind, wp_look, hwhich]
  rcases x with - | v | e
  · have hmem : Objects.setTag o .eEmpty m.mem = Objects.put o (stored none) m.mem :=
      Objects.modify_eq_put (by rw [hx]; rfl)
    exact hQ _ hmem rfl
  · show wp (destroyAt (value o) >>= _) Q R K m
    have herase : (value o).erase m.mem = _ := Alternative.value.erase_stored hx
    rw [wp_bind, wp_destroyAt, herase]
    refine ⟨(Objects.exact_left o).alive_of_read (congrArg Tagged.left hx), hQ _ ?_ rfl⟩
    exact setTag_put ..
  · show wp (destroyAt (error o) >>= _) Q R K m
    have herase : (error o).erase m.mem = _ := Alternative.error.erase_stored hx
    rw [wp_bind, wp_destroyAt, herase]
    refine ⟨(Objects.exact_right o).alive_of_read (congrArg Tagged.right hx), hQ _ ?_ rfl⟩
    exact setTag_put ..

/-- An initializer that gives `t` and leaves the heap `h'`, whatever stands at `o`. -/
def Supplies (us : Init (Heap V E) T) (o : Nat) (t : T) (h h' : Heap V E) : Prop :=
  ∀ z, us.run (Objects.put o z h) = some (t, Objects.put o z h')

theorem Supplies.run {us : Init (Heap V E) T} {t : T} {h h' : Heap V E}
    (hus : Supplies us o t h h') : us.run h = some (t, Objects.put o (h.obj o) h') := by
  have hrun := hus (h.obj o)
  rwa [Objects.put_self rfl] at hrun

theorem supplies_ofArg (n a : Bool) (t : T) (h : Heap V E) :
    Supplies (Init.ofArg n a t) o t h h :=
  fun _ => rfl

variable (A : Alternative V E T) {ty : PayloadType T}

theorem supplies_forwardMember (hne : o ≠ rhs) {h : Heap V E} {t : T}
    (hrhs : h.obj rhs = stored (some (A.state t))) :
    Supplies (forwardMember ty (A.member rhs) cat) o t h
      (Objects.put rhs (stored (some (A.state (ty.leaves cat t)))) h) := by
  intro z
  have hforward : forwardMember ty (A.member rhs) cat
      = Init.forward ty.toElemType (A.member rhs) cat := by
    cases cat <;> rfl
  have hrhs' : (Objects.put o z h).obj rhs = stored (some (A.state t)) :=
    (Objects.obj_put_of_ne hne.symm _ _).trans hrhs
  rw [hforward, Init.run_forward _ (A.exact rhs) cat (A.read_stored hrhs'),
    A.write_stored _ hrhs', Objects.put_comm hne]

variable {us : Init (Heap V E) T} {t : T} {h' : Heap V E}

/-- Both overloads of `doEmplaceAssign` put the new element in the place of the old one, when they
return. -/
theorem wp_doEmplaceAssign_stored {u : T} (ho : m.mem.obj o = stored (some (A.state u)))
    (hus : Supplies us o t m.mem h')
    (hQ : ∀ m', m'.mem = Objects.put o (stored (some (A.state t))) h' → Q () m')
    (hR : m.throws ≠ [] → ∀ m', R m') (hK : m.throws ≠ [] → ∀ m', K m') :
    wp (doEmplaceAssign ty (A.member o) us) Q R K m := by
  have hthrew : m.throws ≠ [] → ∀ b (m' : Machine (Heap V E) Place),
      if b = true then K m' else R m' := by
    intro hne b m'
    split
    · exact hK hne m'
    · exact hR hne m'
  unfold doEmplaceAssign
  split
  · unfold doEmplaceAssignInt
    rw [wp_noexceptIf_iff, wp_withLocal hus.run]
    split
    · next hthrow => exact hthrew (ne_nil_of_throwsNext hthrow) _ _
    · have ho' : (Objects.put o (m.mem.obj o) h').obj o = stored (some (A.state u)) :=
        (Objects.obj_put_self ..).trans ho
      rw [wp_unwindLocal, wp_assignAt (run_moveLocal ..)]
      refine ⟨(A.exact o).alive_of_read (A.read_stored ho'), ?_⟩
      split
      · next hthrow => exact hthrew (ne_nil_of_throwsNext_after hthrow) _ _
      · exact hQ _ ((A.write_stored t ho').trans (Objects.put_put ..))
  · unfold doEmplaceAssignLong
    rw [wp_bind, wp_destroyAt]
    refine ⟨(A.exact o).alive_of_read (A.read_stored ho), ?_⟩
    have ho' : (Objects.put o (m.mem.obj o) h').obj o = stored (some (A.state u)) :=
      (Objects.obj_put_self ..).trans ho
    have herased : (A.member o).erase (Objects.put o (m.mem.obj o) h')
        = Objects.put o ⟨A.which, none, none⟩ h' :=
      (A.erase_stored ho').trans (Objects.put_put ..)
    rw [A.erase_stored ho, wp_constructAt (hus _)]
    split
    · next hthrow => exact hR (ne_nil_of_throwsNext hthrow) _
    · rw [← herased]
      refine ⟨(A.exact o).vacant_of_read ((A.exact o).read_erase _), hQ _ ?_⟩
      exact ((A.exact o).write_erase t _).trans
        ((A.write_stored t ho').trans (Objects.put_put ..))

/-- **An alternative assigned to an object in any state.** A throw while the alternative changes,
which takes an element constructor that may throw, leaves the target empty and everything else as
it was. -/
theorem wp_assignMember_stored {x : Option (V ⊕ E)} (ho : m.mem.obj o = stored x)
    (hus : Supplies us o t m.mem h')
    (hQ : ∀ m', m'.mem = Objects.put o (stored (some (A.state t))) h' → Q () m')
    (hR : m.throws ≠ [] → ∀ m', ((stored x).tag ≠ A.which →
      m'.mem = Objects.put o (stored none) m.mem ∧ us.nothrowConstruct = false) → R m')
    (hK : m.throws ≠ [] → (stored x).tag = A.which → ∀ m', K m') :
    wp (assignMember ty A.which (A.member o) o us) Q R K m := by
  have hwhich : which o m.mem = (stored x).tag := congrArg Tagged.tag ho
  unfold assignMember
  rw [wp_bind, wp_look, hwhich]
  by_cases hsame : (stored x).tag = A.which
  · -- the alternative stays, and what a throw leaves is not said
    rw [if_pos hsame]
    obtain ⟨u, rfl⟩ := A.exists_of_tag hsame
    exact wp_doEmplaceAssign_stored A ho hus hQ (fun hne m' => hR hne m' fun h => absurd hsame h)
      fun hne => hK hne hsame
  · -- the target is empty already when the constructor throws
    rw [if_neg hsame, wp_bind]
    refine wp_clear_stored ho fun m₁ hmem hthrows => ?_
    have hrun : us.run m₁.mem = some (t, Objects.put o (stored none) h') := by
      rw [hmem]
      exact hus (stored none)
    rw [wp_bind, wp_constructAt hrun, hthrows]
    split
    · next hthrow =>
      exact hR (ne_nil_of_throwsNext hthrow) _ fun _ => ⟨hmem, nothrow_of_throwsNext hthrow⟩
    · have hempty : (Objects.put o (stored none) h').obj o = stored none := Objects.obj_put_self ..
      refine ⟨A.vacant_empty hempty, hQ _ ?_⟩
      exact (A.write_empty t hempty).trans (Objects.put_put ..)

end Members

theorem nothrowConstruct_forwardMember {V E T : Type} (ty : PayloadType T)
    (c : Cell (Heap V E) Place T) (cat : ValueCategory) :
    (forwardMember ty c cat).nothrowConstruct = ty.nothrowForward cat := by
  cases cat <;> rfl

/-! ## `assign` -/

section Assign

variable {V E : Type} {tv : PayloadType V} {te : PayloadType E} {m : Machine (Heap V E) Place}
  {o rhs : Nat} {cat : ValueCategory} {Q : Unit → Machine (Heap V E) Place → Prop}
  {R K : Machine (Heap V E) Place → Prop} {x c : Option (V ⊕ E)}

/-- **`assign` from another object.** -/
theorem wp_assign_stored (hne : o ≠ rhs) (ho : m.mem.obj o = stored x)
    (hrhs : m.mem.obj rhs = stored c)
    (hQ : ∀ m', m'.mem = Objects.put o (stored c)
      (Objects.put rhs (stored (leavesState tv te cat c)) m.mem) → Q () m')
    (hR : m.throws ≠ [] → c ≠ none → ∀ m', ((stored x).tag ≠ (stored c).tag →
      m'.mem = Objects.put o (stored none) m.mem ∧
        (tv.nothrowForward cat && te.nothrowForward cat) = false) → R m')
    (hK : m.throws ≠ [] → c ≠ none → (stored x).tag = (stored c).tag → ∀ m', K m') :
    wp (assign tv te o rhs cat) Q R K m := by
  have hwhich : which rhs m.mem = (stored c).tag := congrArg Tagged.tag hrhs
  unfold assign
  rw [if_neg hne, wp_bind, wp_look, hwhich]
  rcases c with - | v | e
  · -- nothing is taken from an empty source
    refine wp_clear_stored ho fun m' hmem _ => hQ m' ?_
    rw [hmem]
    congr 1
    exact (Objects.put_self hrhs).symm
  · refine wp_assignMember_stored .value ho (supplies_forwardMember .value hne hrhs) hQ
      (fun hthrows m' hthrew => ?_) fun hthrows => hK hthrows (by simp)
    refine hR hthrows (by simp) m' fun hchange => (hthrew hchange).imp id fun hty => ?_
    rw [nothrowConstruct_forwardMember] at hty
    rw [hty, Bool.false_and]
  · refine wp_assignMember_stored .error ho (supplies_forwardMember .error hne hrhs) hQ
      (fun hthrows m' hthrew => ?_) fun hthrows => hK hthrows (by simp)
    refine hR hthrows (by simp) m' fun hchange => (hthrew hchange).imp id fun hty => ?_
    rw [nothrowConstruct_forwardMember] at hty
    rw [hty, Bool.and_false]

end Assign

/-! ## The special members -/

section Laws

variable {V E : Type} (tv : PayloadType V) (te : PayloadType E) (cat : ValueCategory) (o rhs : Nat)
  (x c : Option (V ⊕ E)) (h : Heap V E) (p : Prog (Heap V E) Place Unit)

/-- **The law of the constructors**, for a source in the state `c`. The new object is in that
state, and the source in the one that forwarding leaves, which for a copy is the same
(`leavesState_lvalue`); when an element throws there is no object. -/
def Constructs : Prop :=
  ∀ throws log, wp p
    (fun _ m => m.mem = Objects.setExist o true (Objects.put o (stored c)
      (Objects.put rhs (stored (leavesState tv te cat c)) h)))
    (fun m => throws ≠ [] ∧ m.mem = Objects.setExist o false (Objects.put o (stored none) h))
    (fun _ => False) ⟨h, throws, log⟩

/-- **The law of the assignments**, for a target in the state `x` and a source in the state `c`. An
object that is assigned to itself is as it was. A throw while the alternative changes leaves the
target empty, with nothing alive, and everything else as it was; only a throw while it does not
change can be the end of the process. -/
def Assigns : Prop :=
  ∀ throws log, wp p
    (fun _ m => m.mem = if o = rhs then h else Objects.put o (stored c)
      (Objects.put rhs (stored (leavesState tv te cat c)) h))
    (fun m => throws ≠ [] ∧ o ≠ rhs ∧ (which o h ≠ which rhs h →
      uninitializedByException o m.mem = true ∧ m.mem = Objects.put o (stored none) h))
    (fun _ => throws ≠ [] ∧ o ≠ rhs ∧ which o h = which rhs h) ⟨h, throws, log⟩

/-- A source in the state `c`, and a target in the state `x` or the place for one. -/
def Ready (sm : SpecialMember) : Prop :=
  h.exist rhs = true ∧ h.obj rhs = stored c ∧
    if sm.isConstructor
    then h.exist o = false ∧ (h.obj o).left = none ∧ (h.obj o).right = none
    else h.exist o = true ∧ h.obj o = stored x

variable {tv te cat o rhs x c h}

theorem constructFrom_constructs (hsource : h.obj rhs = stored c) (hrhs : h.exist rhs = true)
    (ho : h.exist o = false) (hleft : (h.obj o).left = none) (hright : (h.obj o).right = none) :
    Constructs tv te cat o rhs c h (constructFrom tv te o rhs cat
      (tv.nothrowForward cat && te.nothrowForward cat)) := by
  intro throws log
  have hne : o ≠ rhs := by
    rintro rfl
    rw [ho] at hrhs
    cases hrhs
  have hempty : Objects.setTag o .eEmpty h = Objects.put o (stored none) h := by
    apply Objects.modify_eq_put
    rw [hleft, hright]
    rfl
  simp only [constructFrom, constructEmpty, wp_bind, wp_update, hempty]
  refine wp_tryRethrow ((wp_noexceptIf_iff ..).mpr ?_)
  refine wp_assign_stored (x := none) (c := c) hne (Objects.obj_put_self ..) ?_ ?_ ?_ ?_
  · exact (Objects.obj_put_of_ne hne.symm _ _).trans hsource
  · intro m' hmem
    rw [hmem]
    show Objects.setExist o true (Objects.put o _ (Objects.put rhs _ (Objects.put o _ h))) = _
    rw [Objects.put_comm hne.symm, Objects.put_put]
  · intro hthrows hsome m' hthrew
    have hchange : (stored none : Tagged Which V E).tag ≠ (stored c).tag := by
      rcases c with - | v | e
      · exact absurd rfl hsome
      · simp [stored]
      · simp [stored]
    obtain ⟨hmem, hty⟩ := hthrew hchange
    rw [hty, if_neg (by simp), wp_update, hmem]
    refine ⟨hthrows, ?_⟩
    show Objects.setExist o false
      (Objects.setExist o true (Objects.put o _ (Objects.put o _ h))) = _
    rw [Objects.put_put]
    simp [Objects.setExist]
  · intro _ hsome hsame
    rcases c with - | v | e
    · exact absurd rfl hsome
    · cases hsame
    · cases hsame

theorem assign_assigns (hsource : h.obj rhs = stored c) (htarget : h.obj o = stored x)
    {nothrow : Bool}
    (hnothrow : nothrow = true → (tv.nothrowForward cat && te.nothrowForward cat) = true) :
    Assigns tv te cat o rhs c h (noexceptIf nothrow (assign tv te o rhs cat)) := by
  intro throws log
  rw [wp_noexceptIf_iff]
  by_cases hself : o = rhs
  · unfold assign
    rw [if_pos hself]
    exact (if_pos hself).symm
  · have htags : which o h = which rhs h ↔ (stored x).tag = (stored c).tag := by
      unfold which
      rw [hsource, htarget]
    refine wp_assign_stored (x := x) (c := c) hself htarget hsource ?_ ?_ ?_
    · intro m' hmem
      rw [if_neg hself]
      exact hmem
    · intro hthrows _ m' hthrew
      split
      · next hflag =>
        refine ⟨hthrows, hself, htags.mpr (not_not.mp fun hchange => ?_)⟩
        have hty := (hthrew hchange).2
        rw [hnothrow hflag] at hty
        cases hty
      · refine ⟨hthrows, hself, fun hchange => ?_⟩
        have hmem := (hthrew fun hsame => hchange (htags.mpr hsame)).1
        refine ⟨?_, hmem⟩
        unfold uninitializedByException which
        rw [hmem, Objects.obj_put_self]
        rfl
    · exact fun hthrows _ hsame _ => ⟨hthrows, hself, htags.mpr hsame⟩

/-- **The special members transfer the payload once.** Where one is not deleted, it calls `assign`
exactly once, and it obeys the law of the constructors or that of the assignments. -/
theorem special_transfers (enabled : SpecialMember → Bool) (sm : SpecialMember)
    (henabled : enabled sm = true) (hready : Ready o rhs x c h sm) :
    assignCalls enabled (nothrowSpecial tv te) sm = some 1 ∧
    ∃ p, special tv te enabled o rhs sm = some p ∧
      if sm.isConstructor then Constructs tv te sm.category o rhs c h p
      else Assigns tv te sm.category o rhs c h p := by
  refine ⟨assignCalls_eq henabled, _, special_eq tv te o rhs henabled, ?_⟩
  obtain ⟨hrhs, hsource, htarget⟩ := hready
  cases sm with
  | copyConstructor =>
    exact constructFrom_constructs hsource hrhs htarget.1 htarget.2.1 htarget.2.2
  | moveConstructor =>
    exact constructFrom_constructs hsource hrhs htarget.1 htarget.2.1 htarget.2.2
  | copyAssignment =>
    refine assign_assigns hsource htarget.2 fun hflag => ?_
    simp only [Bool.and_eq_true] at hflag
    simp [PayloadType.nothrowForward, hflag.1.1, hflag.2.1]
  | moveAssignment =>
    refine assign_assigns hsource htarget.2 fun hflag => ?_
    simp only [Bool.and_eq_true] at hflag
    simp [PayloadType.nothrowForward, hflag.1.1, hflag.2.1]

/-- A number that a move leaves 0 and whose special members may throw. -/
def movesMayThrow : PayloadType Nat where
  nothrowMoveConstructible := false
  nothrowMoveAssignable := false
  nothrowCopyConstructible := false
  nothrowCopyAssignable := false
  trivialCopyConstructor := false
  trivialCopyAssignment := false
  trivialDestructor := false
  movedFrom _ := 0
  assignable := true

/-- An error is moved over a value, between types whose moves may throw. -/
theorem special_transfers_errorOverValue :
    assignCalls (fun _ => true) (nothrowSpecial (⟨.trivial Nat, true⟩ : PayloadType Nat)
      movesMayThrow) .moveAssignment = some 1 ∧
    ∃ p, special ⟨.trivial Nat, true⟩ movesMayThrow (fun _ => true) 0 1 .moveAssignment = some p ∧
      Assigns (⟨.trivial Nat, true⟩ : PayloadType Nat) movesMayThrow .rvalue 0 1 (some (.inr 5))
        ⟨fun _ => true, fun o => stored (some (if o = 0 then .inl 3 else .inr 5))⟩ p :=
  special_transfers (x := some (.inl 3)) (c := some (.inr 5)) (fun _ => true) .moveAssignment rfl
    ⟨rfl, rfl, rfl, rfl⟩

end Laws

end Hy.Folly

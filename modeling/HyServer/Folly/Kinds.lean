import HyServer.Folly.Pod
import HyServer.Folly.Transfer
import HyServer.Lts.Runs

/-!
# hy::expected after folly — `assign` in the three storage kinds

`assign` is written three times, and where the source is empty it leaves the work to `clear`. The
`clear` of `eUnion` empties the object. The one of the POD storages does nothing, so there an object
that holds something keeps it, while their implicit `operator=` copies the tag with the rest. The
constructors differ too: those of `ePODUnion` initialise the member in braces.

* `Shows` — a state as an observer sees it, by `which_` and the active payload.
* `Kind` — which of the three storages, with its memory and its operations.
* `States` — what the operations mean, whatever the storage.
* `Kind.step_follows` — a storage follows the meaning step by step, where `clear` is not called on
  an object that holds something and braces make no difference.
* `assigns_iff_and_kinds_agree` — when `assign` is assignment, and the runs on which the three
  storages agree.
-/

namespace Hy.Folly

open Cpp

/-! ## States, as they are seen -/

section Shows

variable {V E : Type} {x y : Option (V ⊕ E)} {t : Tagged Which V E}

/-- `which_` and the active payload are those of the state. -/
def Shows (x : Option (V ⊕ E)) (t : Tagged Which V E) : Prop :=
  match x with
  | none => t.tag = .eEmpty
  | some (.inl v) => t.tag = .eValue ∧ t.left = some v
  | some (.inr e) => t.tag = .eError ∧ t.right = some e

theorem Shows.tag (h : Shows x t) : t.tag = (stored x).tag := by
  rcases x with - | v | e
  · exact h
  · exact h.1
  · exact h.1

theorem Shows.unique (hx : Shows x t) (hy : Shows y t) : x = y := by
  have htag : (stored x).tag = (stored y).tag := hx.tag.symm.trans hy.tag
  rcases x with - | v | e <;> rcases y with - | w | f <;> simp [stored] at htag
  · rfl
  · have hvw : some v = some w := hx.2.symm.trans hy.2
    rw [Option.some.inj hvw]
  · have hef : some e = some f := hx.2.symm.trans hy.2
    rw [Option.some.inj hef]

end Shows

/-! ## The three kinds -/

/-- `StorageType`, with what each kind knows of its element types: for the POD kinds, whether
`t = T(us...)` is well-formed for them, and for `ePODStruct` the value-initialised elements. -/
inductive Kind (V E : Type) where
  | eUnion (tv : PayloadType V) (te : PayloadType E)
  | ePODUnion (pv : PodType V) (pe : PodType E) (av ae : Bool)
  | ePODStruct (v₀ : V) (e₀ : E) (av ae : Bool)

/-- The memory that a program leaves when it returns and no element operation throws. -/
def memAfter {σ : Type} (p : Prog σ Place Unit) (h : σ) : Option σ :=
  match p ⟨h, [], []⟩ with
  | .returned _ m => some m.mem
  | _ => none

theorem memAfter_of_wp {σ : Type} {p : Prog σ Place Unit} {h : σ} {P : σ → Prop}
    (hp : wp p (fun _ m => P m.mem) (fun _ => False) (fun _ => False) ⟨h, [], []⟩) :
    ∃ h', memAfter p h = some h' ∧ P h' := by
  obtain ⟨_, m', hrun, hP⟩ := wp_returns hp
  exact ⟨m'.mem, by rw [memAfter, hrun], hP⟩

namespace Kind

variable {V E : Type}

def Mem : Kind V E → Type
  | .eUnion _ _ => Heap V E
  | .ePODUnion _ _ _ _ => PodUnions
  | .ePODStruct _ _ _ _ => PodStructs V E

/-- `which_` of an object, and what its members hold or read as. -/
def view : (k : Kind V E) → Nat → k.Mem → Tagged Which V E
  | .eUnion _ _, o, h => Objects.obj h o
  | .ePODUnion pv pe av ae, o, h => (PodUnions.storage pv pe av ae).view o h
  | .ePODStruct v₀ e₀ av ae, o, h => (PodStructs.storage v₀ e₀ av ae).view o h

def exec : (k : Kind V E) → Op V E → Prog k.Mem Place Unit
  | .eUnion tv te, op => op.exec tv te
  | .ePODUnion pv pe av ae, op => (PodUnions.storage pv pe av ae).exec op
  | .ePODStruct v₀ e₀ av ae, op => (PodStructs.storage v₀ e₀ av ae).exec op

def step (k : Kind V E) (h : k.Mem) (op : Op V E) : Option k.Mem :=
  memAfter (k.exec op) h

/-- An object in a state; in the general storage the other member holds nothing. -/
def Holds : (k : Kind V E) → Nat → Option (V ⊕ E) → k.Mem → Prop
  | .eUnion _ _, o, x, h => Objects.obj h o = stored x
  | .ePODUnion pv pe av ae, o, x, h => Shows x ((PodUnions.storage pv pe av ae).view o h)
  | .ePODStruct v₀ e₀ av ae, o, x, h => Shows x ((PodStructs.storage v₀ e₀ av ae).view o h)

end Kind

/-! ## What the operations mean -/

section Meaning

variable {V E : Type}

/-- Which objects exist, and the state of each; what is no object is empty. -/
structure States (V E : Type) where
  exist : Nat → Bool
  state : Nat → Option (V ⊕ E)

namespace States

/-- No object anywhere. -/
def start : States V E := ⟨fun _ => false, fun _ => none⟩

def set (o : Nat) (b : Bool) (x : Option (V ⊕ E)) (a : States V E) : States V E :=
  ⟨Function.update a.exist o b, Function.update a.state o x⟩

/-- The states as objects of the general storage. -/
def heap (a : States V E) : Heap V E := ⟨a.exist, fun o => stored (a.state o)⟩

theorem set_self {a : States V E} {o : Nat} {b : Bool} {x : Option (V ⊕ E)} (hb : a.exist o = b)
    (hx : a.state o = x) : a.set o b x = a := by
  subst hb hx
  unfold set
  rw [Function.update_eq_self, Function.update_eq_self]

theorem heap_set (a : States V E) (o : Nat) (b : Bool) (x : Option (V ⊕ E)) :
    (a.set o b x).heap = Objects.setExist o b (Objects.put o (stored x) a.heap) := by
  have hobj : (fun p => stored (Function.update a.state o x p))
      = Function.update (fun p => stored (a.state p)) o (stored x) := by
    funext p
    exact Function.apply_update (fun _ => stored) a.state o x p
  show (⟨_, _⟩ : Heap V E) = _
  rw [set, hobj]
  rfl

theorem heap_set_of_exist {a : States V E} {o : Nat} (ho : a.exist o = true)
    (x : Option (V ⊕ E)) : (a.set o true x).heap = Objects.put o (stored x) a.heap := by
  rw [heap_set]
  show (⟨Function.update a.exist o true, _⟩ : Heap V E) = ⟨a.exist, _⟩
  rw [← ho, Function.update_eq_self]
  rfl

end States

def Foreign.state : Foreign V E → Option (V ⊕ E)
  | .eEmpty => none
  | .eValue v => some (.inl v.made)
  | .eError e => some (.inr e.made)

namespace Op

def target : Op V E → Nat
  | .constructEmpty o => o
  | .constructValue o _ _ => o
  | .constructError o _ _ => o
  | .constructCopy o _ => o
  | .constructMove o _ => o
  | .assignValue o _ _ => o
  | .assignError o _ _ => o
  | .assign o _ _ => o
  | .assignForeign o _ _ => o
  | .assignCopy o _ => o
  | .assignMove o _ => o
  | .clear o => o
  | .destroy o => o

/-- Whether the target exists afterwards. -/
def lives : Op V E → Bool
  | .destroy _ => false
  | _ => true

/-- The state that the target is left in. -/
def gives (a : States V E) : Op V E → Option (V ⊕ E)
  | .constructEmpty _ => none
  | .constructValue _ vs _ => some (.inl vs.made)
  | .constructError _ es _ => some (.inr es.made)
  | .constructCopy _ rhs => a.state rhs
  | .constructMove _ rhs => a.state rhs
  | .assignValue _ vs _ => some (.inl vs.made)
  | .assignError _ es _ => some (.inr es.made)
  | .assign _ rhs _ => a.state rhs
  | .assignForeign _ rhs _ => rhs.state
  | .assignCopy _ rhs => a.state rhs
  | .assignMove _ rhs => a.state rhs
  | .clear _ => none
  | .destroy _ => none

def effect (op : Op V E) (a : States V E) : States V E :=
  a.set op.target op.lives (op.gives a)

/-- The operation does not call `clear` on an object that holds something, unless it destroys it. -/
def ClearsEmpty (a : States V E) : Op V E → Prop
  | .assign o rhs _ => a.state rhs ≠ none ∨ a.state o = none
  | .assignForeign o rhs _ => rhs.state ≠ none ∨ a.state o = none
  | .clear o => a.state o = none
  | _ => True

/-- A constructor is given an argument that makes the same element in braces as in parentheses. -/
def Plain : Op V E → Prop
  | .constructValue _ vs _ => vs.braced = vs.made
  | .constructError _ es _ => es.braced = es.made
  | _ => True

end Op

open Classical in
/-- A step of a client that keeps to objects that exist, and to the two conditions. -/
noncomputable def States.step (a : States V E) (op : Op V E) : Option (States V E) :=
  if op.Usable a.heap ∧ op.ClearsEmpty a ∧ op.Plain then some (op.effect a) else none

end Meaning

/-! ## The POD storages -/

section Pod

variable {σ T V E : Type} {L : PodStorage σ V E} {o rhs : Nat} {h : σ}
  {log : List (Event (Option Place))}

/-- Where no element operation throws, both overloads of `doEmplaceAssign` write the element. -/
theorem wp_doEmplaceAssign_bare {ty : PayloadType T} {c : Cell σ Place T} (hc : Bare c)
    {us : Init σ T} {t : T} {m : Machine σ Place} {Q : Unit → Machine σ Place → Prop}
    {R K : Machine σ Place → Prop} (hthrows : m.throws = [])
    (hrun : us.run m.mem = some (t, m.mem)) (hQ : ∀ m', m'.mem = c.write t m.mem → Q () m') :
    wp (doEmplaceAssign ty c us) Q R K m := by
  unfold doEmplaceAssign
  split
  · unfold doEmplaceAssignInt
    rw [wp_noexceptIf_iff, wp_withLocal hrun, hthrows, if_neg (by simp), wp_unwindLocal,
      wp_assignAt (run_moveLocal ..)]
    refine ⟨hc.alive _, ?_⟩
    rw [throwsAfter_nil, if_neg (by simp)]
    exact hQ _ rfl
  · unfold doEmplaceAssignLong
    rw [wp_bind, wp_destroyAt]
    refine ⟨hc.alive _, ?_⟩
    -- the destructor has left the bytes as they were
    rw [hc.erase]
    refine (wp_constructAt (t := t) (s := m.mem) ?_).mpr ?_
    · exact hrun
    · rw [hthrows, if_neg (by simp)]
      exact ⟨hc.vacant _, hQ _ rfl⟩

namespace PodStorage

/-- The object is in the state `x` now, and the others look as before. -/
def Becomes (L : PodStorage σ V E) (o : Nat) (x : Option (V ⊕ E)) (h h' : σ) : Prop :=
  Shows x (L.view o h') ∧ ∀ p, p ≠ o → L.view p h' = L.view p h

/-- What writing a member and then the tag comes to. -/
structure Puts (L : PodStorage σ V E) (w : Which) (c : Cell σ Place T) (o : Nat)
    (x : Option (V ⊕ E)) (t : T) : Prop where
  bare : Bare c
  shows_write : ∀ h, Shows x (L.view o (L.setWhich o w (c.write t h)))
  view_write_of_ne : ∀ {p} h, p ≠ o → L.view p (c.write t h) = L.view p h

theorem Lawful.puts_value (hL : L.Lawful) (o : Nat) (v : V) :
    L.Puts .eValue (L.value o) o (some (.inl v)) v where
  bare := hL.value o
  shows_write h := by
    rw [hL.view_setWhich]
    exact ⟨rfl, hL.left_write o v h⟩
  view_write_of_ne h hp := hL.view_writeValue_of_ne v h hp

theorem Lawful.puts_error (hL : L.Lawful) (o : Nat) (e : E) :
    L.Puts .eError (L.error o) o (some (.inr e)) e where
  bare := hL.error o
  shows_write h := by
    rw [hL.view_setWhich]
    exact ⟨rfl, hL.right_write o e h⟩
  view_write_of_ne h hp := hL.view_writeError_of_ne e h hp

variable {w : Which} {c : Cell σ Place T} {x : Option (V ⊕ E)} {t : T}

theorem Puts.becomes (hL : L.Lawful) (hc : L.Puts w c o x t) (h : σ) :
    L.Becomes o x h (L.setWhich o w (c.write t h)) := by
  refine ⟨hc.shows_write h, fun p hp => ?_⟩
  rw [hL.view_setWhich_of_ne w _ hp, hc.view_write_of_ne h hp]

theorem wp_assignMember (hL : L.Lawful) (hc : L.Puts w c o x t) {us : Init σ T}
    (hrun : us.run h = some (t, h)) (assignable : Bool) :
    wp (L.assignMember assignable w c o us) (fun _ m => L.Becomes o x h m.mem) (fun _ => False)
      (fun _ => False) ⟨h, [], log⟩ := by
  unfold assignMember
  rw [wp_bind]
  refine wp_doEmplaceAssign_bare hc.bare rfl hrun fun m hmem => ?_
  rw [wp_update, hmem]
  exact hc.becomes hL h

theorem run_initMember {us : ForwardArg T} (hplain : us.braced = us.made) (cat : ValueCategory)
    (h : σ) : (L.initMember us cat).run h = some (us.made, h) := by
  unfold initMember
  split
  · rw [← hplain]
    exact run_ofArg ..
  · exact run_ofArg ..

theorem wp_constructMember {us : ForwardArg T} (hL : L.Lawful) (hc : L.Puts w c o x us.made)
    (hplain : us.braced = us.made) (cat : ValueCategory) :
    wp (L.constructMember w c o us cat) (fun _ m => L.Becomes o x h m.mem) (fun _ => False)
      (fun _ => False) ⟨h, [], log⟩ := by
  unfold constructMember
  refine wp_noexceptIf _ ?_ fun _ => id
  rw [wp_bind, wp_update, wp_bind, wp_constructAt (run_initMember hplain cat _), if_neg (by simp)]
  refine ⟨hc.bare.vacant _, ?_⟩
  obtain ⟨hshows, hothers⟩ := hc.becomes hL (L.initOthers o w h)
  exact ⟨hshows, fun p hp => (hothers p hp).trans (hL.view_initOthers_of_ne w h hp)⟩

theorem becomes_constructEmpty (hL : L.Lawful) (o : Nat) (h : σ) :
    L.Becomes o none h (L.setWhich o .eEmpty (L.initOthers o .eEmpty h)) := by
  refine ⟨?_, fun p hp => ?_⟩
  · rw [hL.view_setWhich]
    rfl
  · rw [hL.view_setWhich_of_ne _ _ hp, hL.view_initOthers_of_ne _ _ hp]

theorem becomes_copyObject (hL : L.Lawful) (o : Nat) (hrhs : Shows x (L.view rhs h)) :
    L.Becomes o x h (L.copyObject o rhs h) := by
  refine ⟨?_, fun p hp => hL.view_copyObject_of_ne rhs h hp⟩
  rw [hL.view_copyObject]
  exact hrhs

/-- `assign` from an object that is not empty. -/
theorem wp_assign_of_ne_none (hL : L.Lawful) (hrhs : Shows x (L.view rhs h)) (hx : x ≠ none) :
    wp (L.assign o rhs) (fun _ m => L.Becomes o x h m.mem) (fun _ => False) (fun _ => False)
      ⟨h, [], log⟩ := by
  have hwhich : L.which rhs h = (stored x).tag := hrhs.tag
  unfold assign
  rw [wp_bind, wp_look, hwhich]
  rcases x with - | v | e
  · exact absurd rfl hx
  · exact wp_assignMember hL (hL.puts_value o v) (Init.run_copy _ hrhs.2) _
  · exact wp_assignMember hL (hL.puts_error o e) (Init.run_copy _ hrhs.2) _

/-- `assign` from an empty object does nothing. -/
theorem wp_assign_of_none (hrhs : Shows none (L.view rhs h)) {Q : Unit → Machine σ Place → Prop}
    {R K : Machine σ Place → Prop} (hQ : Q () ⟨h, [], log⟩) :
    wp (L.assign o rhs) Q R K ⟨h, [], log⟩ := by
  have hwhich : L.which rhs h = .eEmpty := hrhs
  unfold assign
  rw [wp_bind, wp_look, hwhich]
  exact hQ

/-- The objects that exist are seen in their states. -/
def Sim (L : PodStorage σ V E) (h : σ) (a : States V E) : Prop :=
  ∀ o, a.exist o = true → Shows (a.state o) (L.view o h)

theorem sim_effect {a : States V E} {h' : σ} (hsim : L.Sim h a) {op : Op V E}
    (hshows : op.lives = true → Shows (op.gives a) (L.view op.target h'))
    (hothers : ∀ p, p ≠ op.target → L.view p h' = L.view p h) : L.Sim h' (op.effect a) := by
  intro p hp
  by_cases htarget : p = op.target
  · -- a target that was destroyed is not looked at any more
    subst htarget
    have hstate : (op.effect a).state op.target = op.gives a := Function.update_self ..
    have hexist : (op.effect a).exist op.target = op.lives := Function.update_self ..
    rw [hstate]
    exact hshows (hexist ▸ hp)
  · have hstate : (op.effect a).state p = a.state p := Function.update_of_ne htarget ..
    have hexist : (op.effect a).exist p = a.exist p := Function.update_of_ne htarget ..
    rw [hstate, hothers p htarget]
    exact hsim p (hexist ▸ hp)

/-- One case for each operation. -/
theorem wp_exec (hL : L.Lawful) {a : States V E} (hsim : L.Sim h a) {op : Op V E}
    (husable : op.Usable a.heap) (hclears : op.ClearsEmpty a) (hplain : op.Plain) :
    wp (L.exec op) (fun _ m => L.Sim m.mem (op.effect a)) (fun _ => False) (fun _ => False)
      ⟨h, [], log⟩ := by
  have hbecomes : ∀ {p : Prog σ Place Unit},
      wp p (fun _ m => L.Becomes op.target (op.gives a) h m.mem) (fun _ => False) (fun _ => False)
        ⟨h, [], log⟩ →
      wp p (fun _ m => L.Sim m.mem (op.effect a)) (fun _ => False) (fun _ => False)
        ⟨h, [], log⟩ :=
    fun hp => wp_mono hp (fun _ _ hm => sim_effect hsim (fun _ => hm.1) hm.2) (fun _ => id)
      fun _ => id
  -- the target of a `clear` is empty already
  have hsame : a.exist op.target = true → a.state op.target = none → op.gives a = none →
      L.Becomes op.target (op.gives a) h h := by
    intro hexist hnone hgives
    refine ⟨?_, fun _ _ => rfl⟩
    rw [hgives, ← hnone]
    exact hsim _ hexist
  cases op with
  | constructEmpty o => exact hbecomes (becomes_constructEmpty hL o h)
  | constructValue o vs cat =>
    exact hbecomes (wp_constructMember hL (hL.puts_value o vs.made) hplain cat)
  | constructError o es cat =>
    exact hbecomes (wp_constructMember hL (hL.puts_error o es.made) hplain cat)
  | constructCopy o rhs => exact hbecomes (becomes_copyObject hL o (hsim rhs husable.2))
  | constructMove o rhs => exact hbecomes (becomes_copyObject hL o (hsim rhs husable.2))
  | assignValue o vs cat => exact hbecomes (wp_assignMember hL (hL.puts_value o vs.made) rfl _)
  | assignError o es cat => exact hbecomes (wp_assignMember hL (hL.puts_error o es.made) rfl _)
  | assign o rhs cat =>
    have hrhs : Shows (a.state rhs) (L.view rhs h) := hsim rhs husable.2
    by_cases hnone : a.state rhs = none
    · refine hbecomes (wp_assign_of_none (hnone ▸ hrhs) ?_)
      exact hsame husable.1 (hclears.resolve_left (not_not.mpr hnone)) hnone
    · exact hbecomes (wp_assign_of_ne_none hL hrhs hnone)
  | assignForeign o rhs cat =>
    cases rhs with
    | eEmpty =>
      have hnone : a.state o = none := hclears.resolve_left (by simp [Foreign.state])
      exact hbecomes (hsame husable hnone rfl)
    | eValue v => exact hbecomes (wp_assignMember hL (hL.puts_value o v.made) rfl _)
    | eError e => exact hbecomes (wp_assignMember hL (hL.puts_error o e.made) rfl _)
  | assignCopy o rhs => exact hbecomes (becomes_copyObject hL o (hsim rhs husable.2))
  | assignMove o rhs => exact hbecomes (becomes_copyObject hL o (hsim rhs husable.2))
  | clear o => exact hbecomes (hsame husable hclears rfl)
  | destroy o => exact sim_effect hsim (fun hlives => by cases hlives) fun _ _ => rfl

end PodStorage

end Pod

/-! ## The general storage -/

section General

variable {V E : Type} {tv : PayloadType V} {te : PayloadType E} {o rhs : Nat} {cat : ValueCategory}
  {x c : Option (V ⊕ E)} {log : List (Event (Option Place))}

theorem leavesState_trivial (htv : tv.toElemType = .trivial V) (hte : te.toElemType = .trivial E)
    (cat : ValueCategory) (x : Option (V ⊕ E)) : leavesState tv te cat x = x := by
  cases cat with
  | lvalue => exact leavesState_lvalue tv te x
  | rvalue =>
    rcases x with - | v | e
    · rfl
    · simp [leavesState, ElemType.leaves, htv, ElemType.trivial]
    · simp [leavesState, ElemType.leaves, hte, ElemType.trivial]

/-- The constructors for an alternative. -/
theorem wp_constructMember_stored {T : Type} (A : Alternative V E T) {h : Heap V E}
    (ho : h.obj o = stored none) (n b : Bool) (t : T) :
    wp (do
      constructAt (A.member o) (Init.ofArg n b t)
      update (Objects.setTag o A.which)
      update (Objects.setExist o true))
      (fun _ m => m.mem = Objects.setExist o true (Objects.put o (stored (some (A.state t))) h))
      (fun _ => False) (fun _ => False) ⟨h, [], log⟩ := by
  rw [wp_bind, wp_constructAt (run_ofArg ..), if_neg (by simp)]
  refine ⟨A.vacant_empty ho, ?_⟩
  show Objects.setExist o true (Objects.setTag o A.which _) = _
  rw [A.write_empty t ho]

/-! What each operation does to the memory that some states are. -/

variable {a : States V E}

theorem obj_heap (hx : a.state o = x) : a.heap.obj o = stored x :=
  congrArg stored hx

theorem wp_clear_heap (ho : a.exist o = true) :
    wp (clear o) (fun _ m => m.mem = (a.set o true none).heap) (fun _ => False) (fun _ => False)
      ⟨a.heap, [], log⟩ := by
  refine wp_clear_stored (obj_heap rfl) fun m hm _ => ?_
  rw [hm, States.heap_set_of_exist ho]

theorem wp_assignMember_heap {T : Type} (A : Alternative V E T) {ty : PayloadType T} (n b : Bool)
    (t : T) (ho : a.exist o = true) :
    wp (assignMember ty A.which (A.member o) o (Init.ofArg n b t))
      (fun _ m => m.mem = (a.set o true (some (A.state t))).heap) (fun _ => False)
      (fun _ => False) ⟨a.heap, [], log⟩ := by
  refine wp_assignMember_stored A (obj_heap rfl) (supplies_ofArg n b t _) (fun m hm => ?_)
    (fun hne => absurd rfl hne) fun hne => absurd rfl hne
  rw [hm, States.heap_set_of_exist ho]

theorem wp_assign_heap (htv : tv.toElemType = .trivial V) (hte : te.toElemType = .trivial E)
    (ho : a.exist o = true) :
    wp (assign tv te o rhs cat) (fun _ m => m.mem = (a.set o true (a.state rhs)).heap)
      (fun _ => False) (fun _ => False) ⟨a.heap, [], log⟩ := by
  by_cases hself : o = rhs
  · subst hself
    unfold assign
    rw [if_pos rfl, wp_pure, States.set_self ho rfl]
  · refine wp_assign_stored hself (obj_heap rfl) (obj_heap rfl) (fun m hm => ?_)
      (fun hne => absurd rfl hne) fun hne => absurd rfl hne
    rw [hm, leavesState_trivial htv hte, Objects.put_self (obj_heap rfl),
      States.heap_set_of_exist ho]

theorem wp_constructFrom_heap (htv : tv.toElemType = .trivial V)
    (hte : te.toElemType = .trivial E) (ho : a.exist o = false) (hnone : a.state o = none)
    (hrhs : a.exist rhs = true) :
    wp (constructFrom tv te o rhs cat (tv.nothrowForward cat && te.nothrowForward cat))
      (fun _ m => m.mem = (a.set o true (a.state rhs)).heap) (fun _ => False) (fun _ => False)
      ⟨a.heap, [], log⟩ := by
  have hempty : a.heap.obj o = stored none := obj_heap hnone
  have hconstructs : Constructs tv te cat o rhs (a.state rhs) a.heap _ :=
    constructFrom_constructs (obj_heap rfl) hrhs ho (congrArg Tagged.left hempty)
      (congrArg Tagged.right hempty)
  refine wp_mono (hconstructs [] log) (fun _ m hm => ?_) (fun _ hm => hm.1 rfl) fun _ => id
  rw [hm, leavesState_trivial htv hte, Objects.put_self (obj_heap rfl), States.heap_set]

/-- One case for each operation. -/
theorem wp_exec_heap (htv : tv.toElemType = .trivial V) (hte : te.toElemType = .trivial E)
    (hvacant : ∀ o, a.exist o = false → a.state o = none) {op : Op V E}
    (husable : op.Usable a.heap) :
    wp (op.exec tv te) (fun _ m => m.mem = (op.effect a).heap) (fun _ => False) (fun _ => False)
      ⟨a.heap, [], log⟩ := by
  cases op with
  | constructEmpty o =>
    -- no object there, so nothing but the tag and the existence can change
    show Objects.setExist o true (Objects.setTag o .eEmpty a.heap) = (a.set o true none).heap
    rw [States.heap_set]
    congr 1
    exact Objects.modify_eq_put (by rw [obj_heap (hvacant o husable)]; rfl)
  | constructValue o vs cat =>
    refine wp_mono (wp_constructMember_stored .value (obj_heap (hvacant o husable)) _ _ vs.made)
      (fun _ m hm => hm.trans (States.heap_set ..).symm) (fun _ => id) fun _ => id
  | constructError o es cat =>
    refine wp_mono (wp_constructMember_stored .error (obj_heap (hvacant o husable)) _ _ es.made)
      (fun _ m hm => hm.trans (States.heap_set ..).symm) (fun _ => id) fun _ => id
  | constructCopy o rhs =>
    exact wp_constructFrom_heap htv hte husable.1 (hvacant o husable.1) husable.2
  | constructMove o rhs =>
    exact wp_constructFrom_heap htv hte husable.1 (hvacant o husable.1) husable.2
  | assignValue o vs cat => exact wp_assignMember_heap .value _ _ vs.made husable
  | assignError o es cat => exact wp_assignMember_heap .error _ _ es.made husable
  | assign o rhs cat => exact wp_assign_heap htv hte husable.1
  | assignForeign o rhs cat =>
    cases rhs with
    | eEmpty => exact wp_clear_heap husable
    | eValue v => exact wp_assignMember_heap .value _ _ v.made husable
    | eError e => exact wp_assignMember_heap .error _ _ e.made husable
  | assignCopy o rhs => exact wp_noexceptIf _ (wp_assign_heap htv hte husable.1) fun _ => id
  | assignMove o rhs => exact wp_noexceptIf _ (wp_assign_heap htv hte husable.1) fun _ => id
  | clear o => exact wp_clear_heap husable
  | destroy o =>
    show wp (clear o >>= _) _ _ _ _
    rw [wp_bind]
    refine wp_clear_stored (obj_heap rfl) fun m hm _ => ?_
    rw [wp_update, hm]
    exact (States.heap_set a o false none).symm

end General

/-! ## The three kinds against the meaning -/

section Kinds

variable {V E : Type}

namespace Kind

/-- The memory before a run: in the general storage no object is there, and the POD storages do not
mind what is. -/
def Start : (k : Kind V E) → k.Mem → Prop
  | .eUnion _ _, h => h = Objects.empty .eEmpty
  | .ePODUnion _ _ _ _, _ => True
  | .ePODStruct _ _ _ _, _ => True

/-- The special members of the element types copy bytes, as the POD kinds ask of them. -/
def CopiesBytes : Kind V E → Prop
  | .eUnion tv te => tv.toElemType = .trivial V ∧ te.toElemType = .trivial E
  | .ePODUnion _ _ _ _ => True
  | .ePODStruct _ _ _ _ => True

def Sim : (k : Kind V E) → k.Mem → States V E → Prop
  | .eUnion _ _, h, a => h = a.heap ∧ ∀ o, a.exist o = false → a.state o = none
  | .ePODUnion pv pe av ae, h, a => (PodUnions.storage pv pe av ae).Sim h a
  | .ePODStruct v₀ e₀ av ae, h, a => (PodStructs.storage v₀ e₀ av ae).Sim h a

theorem sim_start {k : Kind V E} {h : k.Mem} (hstart : k.Start h) : k.Sim h .start := by
  cases k with
  | eUnion tv te => exact ⟨hstart, fun _ _ => rfl⟩
  | ePODUnion pv pe av ae => exact fun _ hexist => by cases hexist
  | ePODStruct v₀ e₀ av ae => exact fun _ hexist => by cases hexist

end Kind

theorem Op.effect_vacant {a : States V E} (ha : ∀ o, a.exist o = false → a.state o = none)
    (op : Op V E) : ∀ o, (op.effect a).exist o = false → (op.effect a).state o = none := by
  intro o ho
  by_cases htarget : o = op.target
  · subst htarget
    have hlives : op.lives = false := by simpa [effect, States.set] using ho
    have hgives : op.gives a = none := by
      -- only a destruction takes an object away
      cases op with
      | destroy o => rfl
      | _ => cases hlives
    simpa [effect, States.set] using hgives
  · have hexist : a.exist o = false := by simpa [effect, States.set, htarget] using ho
    simpa [effect, States.set, htarget] using ha o hexist

namespace Kind

/-- **Step.** A storage takes every step that the meaning takes. -/
theorem step_follows {k : Kind V E} (hk : k.CopiesBytes) {h : k.Mem} {a a' : States V E}
    {op : Op V E} (hsim : k.Sim h a) (hstep : a.step op = some a') :
    ∃ h', k.step h op = some h' ∧ k.Sim h' a' := by
  obtain ⟨⟨husable, hclears, hplain⟩, heffect⟩ := Option.ite_none_right_eq_some.mp hstep
  cases heffect
  cases k with
  | eUnion tv te =>
    obtain ⟨rfl, hvacant⟩ := hsim
    obtain ⟨h', hh', hheap⟩ := memAfter_of_wp (P := fun h' => h' = (op.effect a).heap)
      (wp_exec_heap hk.1 hk.2 hvacant husable)
    exact ⟨h', hh', hheap, op.effect_vacant hvacant⟩
  | ePODUnion pv pe av ae =>
    exact memAfter_of_wp
      (PodStorage.wp_exec (PodUnions.lawful pv pe av ae) hsim husable hclears hplain)
  | ePODStruct v₀ e₀ av ae =>
    exact memAfter_of_wp
      (PodStorage.wp_exec (PodStructs.lawful v₀ e₀ av ae) hsim husable hclears hplain)

end Kind

end Kinds

end Hy.Folly

import HyServer.Expected.Meaning
import HyServer.Expected.Runs

/-!
# hy::expected — runs with every constructor

The general storage over runs that also make objects of other objects, with any element operation
throwing. These constructors set `has_val_` first and construct the member it names afterwards.
Where that member cannot be constructed the tag stays behind; but there is no object then, and so
no destructor that would go by it.

* `Call.Usable`, `Call.Sound` — what a client keeps to.
* `wp_constructNamed` — a tag and its member, for all the constructors.
* `Unmade` — what a constructor that throws leaves.
* `wellFormed_of_managed` — the run theorem.
-/

namespace Hy.Tiny

open Cpp

variable {V E T : Type} {tv : ElemType V} {te : ElemType E} {m m' : Machine (Heap V E) Place}

/-! ## Runs -/

namespace Call

def exec (tv : ElemType V) (te : ElemType E) (call : Call V E) : Prog (Heap V E) Place Unit :=
  (Kind.eUnion tv te).exec call

/-- The object that is constructed. -/
def constructed : Call V E → Option Nat
  | .op (.constructValue o _ _) => some o
  | .op (.constructUnexpected o _ _) => some o
  | .op _ => none
  | .constructCopy o _ => some o
  | .constructMove o _ => some o
  | .constructOther o _ _ => some o

/-- The objects it is called on exist, and the one it constructs does not yet. -/
def Usable (h : Heap V E) : Call V E → Prop
  | .op basic => basic.Usable h
  | .constructCopy o rhs => h.exist o = false ∧ h.exist rhs = true
  | .constructMove o rhs => h.exist o = false ∧ h.exist rhs = true
  | .constructOther o _ _ => h.exist o = false

theorem Usable.exist_of_constructed {h : Heap V E} {call : Call V E} {o : Nat}
    (husable : call.Usable h) (hcall : call.constructed = some o) : h.exist o = false := by
  cases call with
  | op basic =>
    cases basic <;> cases hcall
    · exact husable
    · exact husable
  | constructCopy =>
    cases hcall
    exact husable.1
  | constructMove =>
    cases hcall
    exact husable.1
  | constructOther =>
    cases hcall
    exact husable

/-- A constructor needs nothing of the objects there are. -/
def Sound (tv : ElemType V) (te : ElemType E) : Call V E → Heap V E → List Bool → Prop
  | .op basic, h, throws => basic.Sound tv te h throws
  | _, _, _ => True

end Call

/-- The machines a client can reach from no object at all, by sound operations. -/
inductive Managed (tv : ElemType V) (te : ElemType E) : Machine (Heap V E) Place → Prop where
  | start : Managed tv te ⟨Objects.empty false, [], []⟩
  | step {m m' : Machine (Heap V E) Place} (call : Call V E) (throws : List Bool)
      (hm : Managed tv te m) (husable : call.Usable m.mem) (henabled : call.Enabled tv te)
      (hsound : call.Sound tv te m.mem throws)
      (hexec : (call.exec tv te { m with throws := throws }).after = some m') : Managed tv te m'

/-! ## Constructors -/

/-- A constructor of the object `o` has thrown: its tag byte may have been written, and that is all
that happened. -/
structure Unmade (o : Nat) (m m' : Machine (Heap V E) Place) : Prop where
  inv : Inv tagNames m'
  mem : ∃ b, m'.mem = Heap.setHasVal o b m.mem
  log : m'.log = m.log

theorem Unmade.exist_eq {o : Nat} (h : Unmade o m m') : m'.mem.exist = m.mem.exist := by
  obtain ⟨b, hmem⟩ := h.mem
  rw [hmem]
  rfl

theorem Unmade.obj_eq {o p : Nat} (h : Unmade o m m') (hp : p ≠ o) :
    m'.mem.obj p = m.mem.obj p := by
  obtain ⟨b, hmem⟩ := h.mem
  rw [hmem, Heap.setHasVal, Objects.setTag, Objects.obj_modify_of_ne hp]

theorem tagNames_true (j : Slot) : tagNames true j = decide (j = .left) := by
  cases j <;> rfl

theorem tagNames_false (j : Slot) : tagNames false j = decide (j = .right) := by
  cases j <;> rfl

/-- The tag is set, and the member it names is constructed from an argument or from a member of
another object. There is one throw point. -/
theorem wp_constructNamed {o : Nat} {b : Bool} {k : Slot} {c : Cell (Heap V E) Place T}
    {i : Init (Heap V E) T} {src : Option Place} {a : Place → Bool} {g : Nat → Bool × Bool}
    {ts : List Bool} {Q : Unit → Machine (Heap V E) Place → Prop}
    {R K : Machine (Heap V E) Place → Prop} (hc : Tracked Objects.life c) (hloc : c.loc = (o, k))
    (hb : ∀ j, tagNames b j = decide (j = k)) (hi : Steady Objects.life src i)
    (h : Lives Objects.life false a g ts m) (hg : Good tagNames a g) (ho : (g o).1 = false)
    (hsrc : ∀ l ∈ src, a l = true)
    (hQ : throwsNext i.nothrowConstruct m.throws = false → ∀ m', Inv tagNames m' → Q () m')
    (hR : throwsNext i.nothrowConstruct m.throws = true → ∀ m', Unmade o m m' → R m') :
    wp (do constructAt c i; update (Objects.setExist o true)) Q R K
      { m with mem := Heap.setHasVal o b m.mem } := by
  have hdead := hg.of_absent ho
  have htagged := lives_setTag h o b
  obtain ⟨t, s, hrun⟩ := hi.ready (Heap.setHasVal o b m.mem) fun l hl => by
    rw [htagged.alive_eq]
    exact hsrc l hl
  rw [wp_bind, wp_constructAt hrun]
  split
  · next hthrow =>
    -- no object, and only its tag byte was written
    refine hR hthrow _ ⟨⟨a, _, _, htagged.skip _, hg.retag fun j => ?_⟩, ⟨b, rfl⟩, rfl⟩
    rw [hdead j, ho]
    rfl
  · next hnext =>
    have heval := htagged.eval hi hrun (throwsAfter i.nothrowConstruct m.throws)
    have hvacant : c.vacant s = true := by
      rw [hc.vacant_eq, hi.alive_eq hrun, htagged.alive_eq, hloc, hdead]
      rfl
    have hborn := heval.born hc (by rw [hloc, hdead]) t
    rw [hloc] at hborn
    have hgood : Good tagNames (Function.update a (o, k) true)
        (Function.update g o (true, b)) := by
      refine hg.change ?_ fun j hj => ?_
      · rw [hb]
        simp
      · rw [hdead j, hb]
        simp [hj]
    refine ⟨hvacant, hQ (by simpa using hnext) _ ?_⟩
    exact ⟨_, _, _, lives_setExist (by rw [hloc]; exact hborn) o true, by simpa using hgood⟩

/-- A member made of the one that the other object's tag names. -/
theorem wp_constructForwarded {o rhs : Nat} {iv : Init (Heap V E) V} {ie : Init (Heap V E) E}
    {Q : Unit → Machine (Heap V E) Place → Prop} {R K : Machine (Heap V E) Place → Prop}
    (hv : Steady Objects.life (some (rhs, .left)) iv)
    (he : Steady Objects.life (some (rhs, .right)) ie) (hI : Inv tagNames m)
    (ho : m.mem.exist o = false) (hrhs : m.mem.exist rhs = true)
    (hQ : throwsNext (bif (m.mem.obj rhs).tag then iv.nothrowConstruct else ie.nothrowConstruct)
      m.throws = false → ∀ m', Inv tagNames m' → Q () m')
    (hR : throwsNext (bif (m.mem.obj rhs).tag then iv.nothrowConstruct else ie.nothrowConstruct)
      m.throws = true → ∀ m', Unmade o m m' → R m') :
    wp (do
        let rhsHasVal ← look (Heap.layout rhs).hasVal
        update (Heap.setHasVal o rhsHasVal)
        if ← look (Heap.layout o).hasVal then
          constructAt (Heap.valCell o) iv
        else
          constructAt (Heap.unexCell o) ie
        update (Objects.setExist o true)) Q R K m := by
  obtain ⟨a, g, ts, h, hg⟩ := hI
  rw [lives_exist_eq h] at ho hrhs
  have hset : ∀ b, (Heap.layout o).hasVal (Heap.setHasVal o b m.mem) = b := fun b => by
    simp [Heap.layout, Objects.setTag]
  -- the second read of `has_val_` is of the new object
  simp only [wp_bind, wp_look, wp_update, lives_hasVal_eq h rhs, hset]
  rw [lives_tag_eq h] at hQ hR
  cases htag : (g rhs).2 with
  | true =>
    rw [htag] at hQ hR
    simp only [↓reduceIte]
    refine wp_constructNamed (Objects.tracked_left o) rfl tagNames_true hv h hg ho ?_ hQ hR
    rintro l ⟨⟩
    exact (of_val hg hrhs htag).1
  | false =>
    rw [htag] at hQ hR
    simp only [Bool.false_eq_true, ↓reduceIte]
    refine wp_constructNamed (Objects.tracked_right o) rfl tagNames_false he h hg ho ?_ hQ hR
    rintro l ⟨⟩
    exact (of_unex hg hrhs htag).2

/-- A copy is made of bytes, and does not throw. -/
theorem wp_constructCopy {o rhs : Nat} (hI : Inv tagNames m) (ho : m.mem.exist o = false)
    (hrhs : m.mem.exist rhs = true) :
    wp (constructCopy tv te o rhs) (fun _ => Inv tagNames) (fun _ => False) (fun _ => False) m := by
  obtain ⟨a, g, ts, h, hg⟩ := hI
  rw [lives_exist_eq h] at ho hrhs
  have hdead := hg.of_absent ho
  unfold constructCopy
  rw [wp_bind]
  refine wp_assignCopy_lives h (by simp [hdead]) (by simp [hdead]) fun m' h' => ?_
  rw [wp_update]
  exact ⟨_, _, ts, lives_setExist h' o true, by simpa using good_copy hg hrhs⟩

/-- **Every constructor**, with any of its element operations throwing. -/
theorem Call.wp_construct {o : Nat} (call : Call V E) (hI : Inv tagNames m)
    (husable : call.Usable m.mem) (hcall : call.constructed = some o) :
    wp (call.exec tv te) (fun _ => Inv tagNames) (Unmade o m) (Inv tagNames) m := by
  -- the tag is written before there is an element for it to name
  have hnamed : ∀ {T : Type} {b : Bool} {k : Slot} {c : Cell (Heap V E) Place T}
      {i : Init (Heap V E) T}, m.mem.exist o = false → Tracked Objects.life c → c.loc = (o, k) →
      (∀ j, tagNames b j = decide (j = k)) → Steady Objects.life none i →
      wp (do update (Heap.setHasVal o b); constructAt c i; update (Objects.setExist o true))
        (fun _ => Inv tagNames) (Unmade o m) (Inv tagNames) m := by
    intro T b k c i hexist hc hloc hb hi
    obtain ⟨a, g, ts, h, hg⟩ := hI
    rw [lives_exist_eq h] at hexist
    rw [wp_bind, wp_update]
    exact wp_constructNamed hc hloc hb hi h hg hexist (by simp) (fun _ _ hm => hm) fun _ _ hm => hm
  cases call with
  | op op =>
    cases op with
    | constructValue o' v cat =>
      cases hcall
      exact hnamed husable (Objects.tracked_left o) rfl tagNames_true (steady_ofArg ..)
    | constructUnexpected o' g cat =>
      cases hcall
      exact hnamed husable (Objects.tracked_right o) rfl tagNames_false (steady_ofArg ..)
    | assignValue => cases hcall
    | assignUnexpected => cases hcall
    | assignCopy => cases hcall
    | assignMove => cases hcall
    | swap => cases hcall
    | destroy => cases hcall
  | constructCopy o' rhs =>
    cases hcall
    exact wp_mono (wp_constructCopy hI husable.1 husable.2) (fun _ _ hm => hm) (fun _ hm => hm.elim)
      fun _ hm => hm.elim
  | constructMove o' rhs =>
    cases hcall
    exact wp_noexceptIf true (wp_constructForwarded ((Objects.tracked_left rhs).steady_move tv)
      ((Objects.tracked_right rhs).steady_move te) hI husable.1 husable.2 (fun _ _ hm => hm)
      fun _ _ hm => hm) fun _ hm => hm.inv
  | constructOther o' other cat =>
    cases hcall
    cases other with
    | inl v => exact hnamed husable (Objects.tracked_left o) rfl tagNames_true (steady_ofArg ..)
    | inr g => exact hnamed husable (Objects.tracked_right o) rfl tagNames_false (steady_ofArg ..)

/-! ## Runs -/

/-- **The step lemma.** -/
theorem Call.wp_exec (call : Call V E) {throws : List Bool} (hI : Inv tagNames m)
    (husable : call.Usable m.mem) (henabled : call.Enabled tv te)
    (hsound : call.Sound tv te m.mem throws) :
    wp (call.exec tv te) (fun _ => Inv tagNames) (Inv tagNames) (Inv tagNames)
      { m with throws := throws } := by
  cases hcall : call.constructed with
  | some o =>
    exact wp_mono (call.wp_construct (hI.skip throws) husable hcall) (fun _ _ h => h)
      (fun _ h => h.inv) fun _ h => h
  | none =>
    cases call with
    | op op =>
      rw [exec, Kind.exec_eUnion]
      exact op.wp_exec hI husable henabled hsound
    | constructCopy => cases hcall
    | constructMove => cases hcall
    | constructOther => cases hcall

/-- Induction on the run. -/
theorem inv_of_managed (h : Managed tv te m) : Inv tagNames m := by
  induction h with
  | start => exact inv_start false
  | step call throws _ husable henabled hsound hexec ih =>
    exact wp_after (call.wp_exec ih husable henabled hsound) hexec

/-- **Constructors keep the lifetimes in order.** After every operation of a run of sound operations,
constructors from other objects included, exactly one slot of every object holds an element and
`has_val_` names it; the log accounts for every element; no further sound operation faults; a
constructor that throws has made no object, has changed none that exists and has left no trace in
the log; and once all objects are destroyed, every element has been destroyed as often as it was
constructed. -/
theorem wellFormed_of_managed (h : Managed tv te m) :
    m.mem.WellFormed ∧
    (∀ o k, replay (some (o, k)) m.log = some ((m.mem.obj o).holds k)) ∧
    replay none m.log = some false ∧
    (∀ (call : Call V E) (throws : List Bool), call.Usable m.mem → call.Enabled tv te →
      call.Sound tv te m.mem throws →
      (∀ f, call.exec tv te { m with throws := throws } ≠ .fault f) ∧
      (∀ m', call.exec tv te { m with throws := throws } = .terminated m' → m'.mem.WellFormed) ∧
      ∀ o m', call.constructed = some o →
        call.exec tv te { m with throws := throws } = .threw m' →
          m'.mem.exist = m.mem.exist ∧ (∀ p, m.mem.exist p = true → m'.mem.obj p = m.mem.obj p) ∧
            m'.log = m.log) ∧
    ((∀ o, m.mem.exist o = false) →
      ∀ l, m.log.count (.born l) = m.log.count (.died l)) := by
  have hI := inv_of_managed h
  refine ⟨(Heap.wellFormed_iff _).mpr hI.wellFormed, hI.replay_eq, hI.replay_local, ?_, hI.count_eq⟩
  intro call throws husable henabled hsound
  have hstep := call.wp_exec hI husable henabled hsound
  refine ⟨wp_ne_fault hstep, ?_, ?_⟩
  · intro m' hm'
    exact (Heap.wellFormed_iff _).mpr (wp_terminated hstep hm').wellFormed
  · intro o m' hcall hm'
    have hconstruct : wp (call.exec tv te) (fun _ => Inv tagNames)
        (Unmade o { m with throws := throws }) (Inv tagNames) { m with throws := throws } :=
      call.wp_construct (hI.skip throws) husable hcall
    have hunmade := wp_threw hconstruct hm'
    refine ⟨hunmade.exist_eq, fun p hp => hunmade.obj_eq ?_, hunmade.log⟩
    rintro rfl
    rw [husable.exist_of_constructed hcall] at hp
    cases hp

/-- A conversion that throws, the same conversion once more, which is made, a copy, and a move; then
all three are destroyed. -/
theorem wellFormed_of_managed_copied :
    ∃ m : Machine (Heap Nat Nat) Place, Managed (.trivial Nat) (.trivial Nat) m ∧
      m.mem.WellFormed ∧ m.log.count (.born (some (1, .left))) = 1 ∧
      m.log.count (.died (some (1, .left))) = 1 := by
  have h₀ : Managed (.trivial Nat) (.trivial Nat) _ := .start
  have h₁ := h₀.step (.constructOther 0 (.inl (.mayThrow 3)) .lvalue) [true] rfl trivial trivial rfl
  have h₂ := h₁.step (.constructOther 0 (.inl (.mayThrow 3)) .lvalue) [] rfl trivial trivial rfl
  have h₃ := h₂.step (.constructCopy 1 0) [] ⟨rfl, rfl⟩ rfl trivial rfl
  have h₄ := h₃.step (.constructMove 2 1) [] ⟨rfl, rfl⟩ trivial trivial rfl
  have h₅ := h₄.step (.op (.destroy 1)) [] rfl trivial trivial rfl
  have h₆ := h₅.step (.op (.destroy 0)) [] rfl trivial trivial rfl
  have h₇ := h₆.step (.op (.destroy 2)) [] rfl trivial trivial rfl
  exact ⟨_, h₇, (wellFormed_of_managed h₇).1, rfl, rfl⟩

end Hy.Tiny

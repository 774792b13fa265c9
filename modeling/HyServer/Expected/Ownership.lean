import HyServer.Expected.Histories
import HyServer.File.Descriptors
import HyServer.Lts.Owners

/-!
# hy::expected — payloads that own a resource

A payload that cannot be copied may own something: a file its descriptor, a pointer what it points
to. A move leaves the source without it. Through the operations that such a payload leaves a client,
each resource stays in one place: it is in exactly one object, from the operation that brings it in
to the one that assigns over it or destroys it.

* `Call.brings`, `Call.drops` — the resource that an operation brings in, and the one it drops.
* `exclusive_effect`, `conserved_run` — the step and the run.
* `resources_conserved` — the theorem, for the memory of the general storage.
-/

namespace Hy.Tiny

open Cpp Lts

variable {V E ρ : Type}

/-! ## Resources -/

namespace Call

/-- It does not copy an object. -/
def Moves : Call V E → Bool
  | .op (.assignCopy _ _) => false
  | .constructCopy _ _ => false
  | _ => true

/-- The resource of the element that is made of an argument. -/
def brings (resource : V ⊕ E → Option ρ) : Call V E → Option ρ
  | .op (.constructValue _ v _) => resource (.inl v.braced)
  | .op (.constructUnexpected _ g _) => resource (.inr g.braced)
  | .op (.assignValue _ v _) => resource (.inl v.made)
  | .op (.assignUnexpected _ g _) => resource (.inr g.error.made)
  | .constructOther _ other _ => resource (made other)
  | _ => none

/-- The resource of the payload that is assigned over or destroyed. -/
def drops (resource : V ⊕ E → Option ρ) (a : States V E) : Call V E → Option ρ
  | .op (.assignValue o _ _) => (a o).bind resource
  | .op (.assignUnexpected o _ _) => (a o).bind resource
  | .op (.assignMove o _) => (a o).bind resource
  | .op (.destroy o) => (a o).bind resource
  | _ => none

/-- What a history brings in. -/
def brought (resource : V ⊕ E → Option ρ) (calls : List (Call V E)) : List ρ :=
  calls.filterMap (brings resource)

/-- What a history drops, in that order. -/
def dropped (resource : V ⊕ E → Option ρ) (leaves : V ⊕ E → V ⊕ E) :
    States V E → List (Call V E) → List ρ
  | _, [] => []
  | a, call :: calls =>
    (call.drops resource a).toList ++ dropped resource leaves (call.effect leaves a) calls

end Call

/-- The resource in each object. -/
def States.own (resource : V ⊕ E → Option ρ) (a : States V E) (o : Nat) : Option ρ :=
  (a o).bind resource

/-! ## One operation -/

section Step

variable {resource : V ⊕ E → Option ρ} {leaves : V ⊕ E → V ⊕ E} {a a' : States V E} {o p : Nat}
  {S : ρ → Prop}

theorem own_update (a : States V E) (o : Nat) (x : Option (V ⊕ E)) :
    States.own resource (Function.update a o x)
      = Function.update (a.own resource) o (x.bind resource) := by
  funext q
  exact Function.apply_update (fun _ y => y.bind resource) a o x q

/-- A payload is made, and what was there is dropped. -/
theorem exclusive_update (h : Exclusive (a.own resource) S) (o : Nat) {x : Option (V ⊕ E)}
    (hfresh : ∀ r, x.bind resource = some r → ¬ S r) :
    Exclusive (States.own resource (Function.update a o x))
      (fun r => (S r ∨ x.bind resource = some r) ∧ (a o).bind resource ≠ some r) := by
  rw [own_update]
  exact h.replace o hfresh

/-- A payload is carried to another object, and what was there is dropped. -/
theorem exclusive_carry (hleaves : ∀ x, resource (leaves x) = none)
    (h : Exclusive (a.own resource) S) (hop : o ≠ p) :
    Exclusive (States.own resource (Call.carry leaves a o p))
      (fun r => S r ∧ (a o).bind resource ≠ some r) := by
  -- `o` drops what it has, and then the two trade places
  have hdropped := h.replace o (r := none) (fun r hr => by cases hr)
  have htraded := hdropped.perm (Equiv.swap o p)
  have hown : States.own resource (Call.carry leaves a o p)
      = Function.update (a.own resource) o none ∘ Equiv.swap o p := by
    have hleft : ((a p).map leaves).bind resource = none := by
      cases a p with
      | none => rfl
      | some x => exact hleaves x
    rw [Call.carry, own_update, own_update, hleft, Equiv.comp_swap_eq_update,
      Function.update_self, Function.update_of_ne hop.symm]
    funext q
    by_cases hqo : q = o
    · subst hqo
      simp [States.own]
    · by_cases hqp : q = p
      · subst hqp
        simp [hqo]
      · simp [hqo, hqp]
  rw [hown]
  exact htraded.congr fun r => by simp [States.own]

theorem exclusive_exchanged (h : Exclusive (a.own resource) S) (o p : Nat) :
    Exclusive (States.own resource (exchanged a o p)) S := by
  have htraded := h.perm (Equiv.swap p o)
  have hown : States.own resource (exchanged a o p) = a.own resource ∘ Equiv.swap p o := by
    rw [exchanged, own_update, own_update, Equiv.comp_swap_eq_update]
    rfl
  rw [hown]
  exact htraded

/-- **Step.** An operation adds what it brings and takes away what it drops. -/
theorem exclusive_effect (hleaves : ∀ x, resource (leaves x) = none) {call : Call V E}
    (h : Exclusive (a.own resource) S) (hallowed : call.Allowed a = true)
    (hmoves : call.Moves = true) (hfresh : ∀ r, call.brings resource = some r → ¬ S r) :
    Exclusive (States.own resource (call.effect leaves a))
      (fun r => (S r ∨ call.brings resource = some r) ∧ call.drops resource a ≠ some r) := by
  -- where there was no object, nothing is dropped
  have hnew : ∀ {o : Nat} {x : Option (V ⊕ E)}, (a o).isNone = true →
      (∀ r, x.bind resource = some r → ¬ S r) →
      Exclusive (States.own resource (Function.update a o x))
        (fun r => (S r ∨ x.bind resource = some r) ∧ none ≠ some r) := by
    intro o x hnone hx
    have hput := exclusive_update h o hx
    rwa [Option.isNone_iff_eq_none.mp hnone] at hput
  cases call with
  | op op =>
    cases op with
    | constructValue o v cat => exact hnew hallowed hfresh
    | constructUnexpected o g cat => exact hnew hallowed hfresh
    | assignValue o v cat => exact exclusive_update h o hfresh
    | assignUnexpected o g cat => exact exclusive_update h o hfresh
    | assignCopy o p => cases hmoves
    | assignMove o p =>
      simp only [Call.Allowed, Bool.and_eq_true, bne_iff_ne] at hallowed
      exact (exclusive_carry hleaves h hallowed.2).congr fun r => by simp [Call.brings, Call.drops]
    | swap o p =>
      exact (exclusive_exchanged h o p).congr fun r => by simp [Call.brings, Call.drops]
    | destroy o => exact exclusive_update h o fun r hr => by cases hr
  | constructCopy o rhs => cases hmoves
  | constructMove o rhs =>
    obtain ⟨hnone, hsome⟩ := Bool.and_eq_true_iff.mp hallowed
    have hop : o ≠ rhs := by
      rintro rfl
      rw [Option.isNone_iff_eq_none.mp hnone] at hsome
      cases hsome
    refine (exclusive_carry hleaves h hop).congr fun r => ?_
    simp [Call.brings, Call.drops, Option.isNone_iff_eq_none.mp hnone]
  | constructOther o other cat => exact hnew hallowed hfresh

end Step

/-! ## Histories -/

section Run

variable {resource : V ⊕ E → Option ρ} {leaves : V ⊕ E → V ⊕ E}

theorem brought_cons (call : Call V E) (calls : List (Call V E)) :
    Call.brought resource (call :: calls)
      = (call.brings resource).toList ++ Call.brought resource calls := by
  unfold Call.brought
  cases hb : call.brings resource with
  | none => rw [List.filterMap_cons_none hb]; rfl
  | some r => rw [List.filterMap_cons_some hb]; rfl

/-- What is dropped was in an object. -/
theorem own_of_drops {a : States V E} {call : Call V E} {r : ρ}
    (hr : call.drops resource a = some r) : ∃ o, a.own resource o = some r := by
  cases call with
  | op op =>
    cases op with
    | assignValue o v cat => exact ⟨o, hr⟩
    | assignUnexpected o g cat => exact ⟨o, hr⟩
    | assignMove o p => exact ⟨o, hr⟩
    | destroy o => exact ⟨o, hr⟩
    | _ => cases hr
  | _ => cases hr

/-- **Run.** Induction on the history, from objects that have the resources in `S`. -/
theorem conserved_run (hleaves : ∀ x, resource (leaves x) = none) {calls : List (Call V E)} :
    ∀ {a a' : States V E} {S : ρ → Prop}, Exclusive (a.own resource) S →
      run (States.step leaves) a calls = some a' → (∀ call ∈ calls, call.Moves = true) →
      (∀ r, S r → r ∉ Call.brought resource calls) → (Call.brought resource calls).Nodup →
      Conserved S (Call.brought resource calls) (Call.dropped resource leaves a calls)
        (a'.own resource) := by
  induction calls with
  | nil =>
    intro a a' S h hrun _ _ _
    cases hrun
    exact h.conserved
  | cons call calls ih =>
    intro a a' S h hrun hmoves hS hnodup
    obtain ⟨a₁, hstep, hrun⟩ := run_cons_eq_some.mp hrun
    obtain ⟨hallowed, heffect⟩ := Option.ite_none_right_eq_some.mp hstep
    cases heffect
    rw [brought_cons] at hS hnodup ⊢
    obtain ⟨-, hrest, hapart⟩ := List.nodup_append.mp hnodup
    have hfresh : ∀ r, call.brings resource = some r → ¬ S r := fun r hr hSr =>
      hS r hSr (List.mem_append_left _ (Option.mem_toList.mpr hr))
    have hexclusive := exclusive_effect hleaves h hallowed
      (hmoves call (List.mem_cons_self ..)) hfresh
    have hconserved := ih hexclusive hrun (fun c hc => hmoves c (List.mem_cons_of_mem _ hc))
      (fun r hr hmem => ?_) hrest
    · refine hconserved.cons (fun r hr => ?_) fun r hr hmem =>
        hS r hr (List.mem_append_right _ hmem)
      obtain ⟨o, ho⟩ := own_of_drops hr
      exact h.mem ho
    · rcases hr.1 with hr | hr
      · exact hS r hr (List.mem_append_right _ hmem)
      · exact hapart r (Option.mem_toList.mpr hr) r hmem rfl

end Run

/-! ## In the general storage -/

/-- What an object holds: the member that its tag names. -/
def Heap.state (h : Heap V E) (o : Nat) : Option (V ⊕ E) :=
  if h.exist o then
    if (h.obj o).tag then (h.obj o).left.map .inl else (h.obj o).right.map .inr
  else none

theorem state_of_sim {tv : ElemType V} {te : ElemType E} {h : Heap V E} {a : States V E}
    (hsim : (Kind.eUnion tv te).Sim h a) : h.state = a := by
  funext o
  have ho := hsim o
  unfold Heap.state
  rcases ha : a o with - | v | e <;> rw [ha] at ho
  · rw [if_neg (by simp [ho.1])]
  · rw [if_pos ho.1, ho.2]
    rfl
  · rw [if_pos ho.1, ho.2]
    rfl

/-- What a client that copies nothing does compiles, if one of the two moves is `noexcept`. -/
theorem admits_of_moves {tv : ElemType V} {te : ElemType E}
    (htraits : (tv.nothrowMoveConstructible || te.nothrowMoveConstructible) = true)
    {call : Call V E} (hmoves : call.Moves = true) : (Kind.eUnion tv te).Admits call := by
  have hany : ∀ b, (b || tv.nothrowMoveConstructible || te.nothrowMoveConstructible) = true := by
    intro b
    rw [Bool.or_assoc, htraits, Bool.or_true]
  cases call with
  | op basic =>
    cases basic with
    | assignValue o v cat => exact hany _
    | assignUnexpected o g cat => exact hany _
    | assignMove o p => exact htraits
    | swap o p => exact htraits
    | assignCopy o p => cases hmoves
    | _ => trivial
  | constructCopy o rhs => cases hmoves
  | _ => trivial

/-- **No resource is duplicated or lost.** A history of allowed operations on objects of the general
storage copies none of them, and a move leaves its source without a resource. Then each
resource that was brought in is in exactly one object, unless it was dropped, by the assignment over
the object it was in or by the destruction of that object; and it was dropped once at most. -/
theorem resources_conserved (tv : ElemType V) (te : ElemType E)
    (htraits : (tv.nothrowMoveConstructible || te.nothrowMoveConstructible) = true)
    (resource : V ⊕ E → Option ρ)
    (hleaves : ∀ x, resource (leavesState tv te .rvalue x) = none) (calls : List (Call V E))
    (hmoves : ∀ call ∈ calls, call.Moves = true) (hnodup : (Call.brought resource calls).Nodup)
    (a : States V E)
    (hrun : run (States.step (leavesState tv te .rvalue)) (fun _ => none) calls = some a) :
    ∃ h : Heap V E, run (Kind.eUnion tv te).step (Objects.empty false) calls = some h ∧
      Conserved (fun _ => False) (Call.brought resource calls)
        (Call.dropped resource (leavesState tv te .rvalue) (fun _ => none) calls)
        (States.own resource h.state) := by
  have hadmits := fun call hcall => admits_of_moves htraits (hmoves call hcall)
  obtain ⟨h, hh, hsim⟩ := Kind.sim_run (k := .eUnion tv te) hadmits hrun rfl
  refine ⟨h, hh, ?_⟩
  rw [state_of_sim hsim]
  exact conserved_run hleaves exclusive_empty hrun hmoves (fun _ hr => hr.elim) hnodup

/-- `File` as a payload: its copies are deleted, its moves are `noexcept` and leave a default
object. -/
def fileType : ElemType File where
  nothrowMoveConstructible := true
  nothrowMoveAssignable := true
  nothrowCopyConstructible := false
  nothrowCopyAssignable := false
  trivialCopyConstructor := false
  trivialCopyAssignment := false
  trivialDestructor := false
  movedFrom this := this.release.2

/-- An open file as an argument. -/
def openFile (fd : Int) : ForwardArg File where
  made := ⟨fd, true⟩
  braced := ⟨fd, true⟩
  nothrowConstruct _ := true
  nothrowBraced _ := true
  nothrowAssign _ := true

/-- Two files are opened, one is moved through an object that held an error and takes the place of
the other, which is closed. -/
theorem resources_conserved_files :
    ∃ h : Heap File Nat, run (Kind.eUnion fileType (.trivial Nat)).step (Objects.empty false)
        [.op (.constructValue 0 (openFile 3) .rvalue), .op (.constructValue 1 (openFile 4) .rvalue),
          .op (.constructUnexpected 2 (.trivial 0) .rvalue), .op (.assignMove 2 0),
          .op (.swap 1 2), .op (.assignMove 2 1)] = some h ∧
      Conserved (fun _ => False) [3, 4] [4]
        (States.own (Sum.elim File.owned fun _ => none) h.state) :=
  resources_conserved fileType (.trivial Nat) rfl (Sum.elim File.owned fun _ => none)
    (fun x => by cases x <;> rfl)
    [.op (.constructValue 0 (openFile 3) .rvalue), .op (.constructValue 1 (openFile 4) .rvalue),
      .op (.constructUnexpected 2 (.trivial 0) .rvalue), .op (.assignMove 2 0),
      .op (.swap 1 2), .op (.assignMove 2 1)] (by decide) (by decide) _ rfl

end Hy.Tiny

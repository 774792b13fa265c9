import HyServer.Cpp.Contents
import HyServer.Expected.Assign

/-!
# hy::expected — what an assignment leaves of its argument

`target = x` for a variable `x` of the caller, which stands beside the memory of the target. The
storages forward their argument; `expected::operator=(U&&)` has `std::move`d it by then.

* `Kind.KeepsArgument` — the law: whatever branch is taken, and whether the assignment returns or
  throws, `x` has the value it had before.
* `Layout.wp_assignValue_beside` — what is left of `x`, by the category it reaches the storage with.
* `Kind.keepsArgument_iff` — the law holds exactly when being moved from does not change `x`.
-/

namespace Hy.Tiny

open Cpp

section Beside

variable {σ ℓ V E U : Type}

/-- The object in a memory with a variable of the caller beside it. -/
def Layout.beside (L : Layout σ ℓ V E) : Layout (σ × U) ℓ V E where
  hasVal s := L.hasVal s.1
  setHasVal b s := (L.setHasVal b s.1, s.2)
  val := L.val.beside
  unex := L.unex.beside

end Beside

namespace Kind

variable {V E U : Type} (k : Kind V E)

/-- `expected::operator=(U&&)` on a variable. It hands its base `std::move(v)`, whatever it was
given itself. -/
def assignVariable (o : Nat) (v : Argument U V) (_cat : ValueCategory) :
    Prog (k.Mem × U) Place Unit :=
  (k.layout o).beside.assignValue k.valType k.unexType (v.as .rvalue)

/-- **The law of lvalue arguments.** `target = x` does not disturb `x`. -/
def KeepsArgument (o : Nat) (s : k.Mem) (v : Argument U V) (x : U) : Prop :=
  ∀ throws log, wp (k.assignVariable o v .lvalue) (fun _ m => m.mem.2 = x)
    (fun m => m.mem.2 = x) (fun m => m.mem.2 = x) ⟨(s, x), throws, log⟩

end Kind

/-! ## `reinit_expected` -/

section Reinit

variable {σ ℓ N O U : Type} {newVal : Cell σ ℓ N} {oldVal : Cell σ ℓ O} {newType : ElemType N}
  {oldType : ElemType O} {s : σ} {x : U} {throws : List Bool} {log : List (Event (Option ℓ))}

/-- Whatever the strategy, the argument is taken once if the rebuild returns, and not at all if it
throws. -/
theorem wp_reinitExpected_beside (halive : oldVal.alive s = true) {t : O}
    (hread : oldVal.read s = some t) (hwrite : ∀ t s, oldVal.alive (oldVal.write t s) = true)
    (hback : ∀ s, oldVal.vacant (oldVal.erase s) = true)
    (hvacant : newVal.vacant (oldVal.erase s) = true)
    (hvacant' : newVal.vacant (oldVal.erase (oldVal.write (oldType.movedFrom t) s)) = true)
    (v : Argument U N) (cat : ValueCategory) :
    wp (reinitExpected newVal.beside oldVal.beside newType oldType (v.as cat))
      (fun _ m => m.mem.2 = v.leaves cat x) (fun m => m.mem.2 = x ∧ throws ≠ []) (fun _ => False)
      ⟨(s, x), throws, log⟩ := by
  have htake : ∀ s : σ, (v.as cat : Init (σ × U) N).run (s, x)
      = some (v.made x, (s, v.leaves cat x)) := fun _ => rfl
  have hmove : (Init.move oldType oldVal.beside).run (s, x)
      = some (t, (oldVal.write (oldType.movedFrom t) s, x)) := by
    simp [Init.move, Cell.beside, hread]
  unfold reinitExpected
  split
  · next hnothrow =>
    rw [wp_bind, wp_destroyAt]
    refine ⟨halive, ?_⟩
    rw [wp_constructAt (htake _), hnothrow]
    exact ⟨hvacant, rfl⟩
  · split
    · next hnew =>
      rw [wp_withLocal (htake s)]
      split
      · next hthrow => exact ⟨rfl, ne_nil_of_throwsNext hthrow⟩
      · rw [wp_unwindLocal, wp_bind, wp_destroyAt]
        refine ⟨halive, ?_⟩
        have hlocal :
            (Init.moveLocal newType (v.made x) : Init (σ × U) N).nothrowConstruct = true :=
          hnew
        rw [wp_constructAt (run_moveLocal ..), hlocal]
        exact ⟨hvacant, rfl⟩
    · rw [wp_withLocal hmove]
      split
      · next hthrow => exact ⟨rfl, ne_nil_of_throwsNext hthrow⟩
      · rw [wp_unwindLocal, wp_bind, wp_destroyAt]
        refine ⟨hwrite _ _, wp_tryRethrow ?_⟩
        rw [wp_constructAt (htake _)]
        split
        · next hthrow =>
          have hne : throws ≠ [] := ne_nil_of_throwsNext_after hthrow
          -- the old member is put back, be it that this throws as well
          rw [wp_constructAt (run_moveLocal ..)]
          split
          · exact ⟨rfl, hne⟩
          · exact ⟨hback _, rfl, hne⟩
        · exact ⟨hvacant', rfl⟩

end Reinit

/-! ## The law -/

section Law

variable {V E U : Type}

theorem Kind.vacant_eraseUnex (k : Kind V E) (o : Nat) (s : k.Mem) :
    (k.layout o).unex.vacant ((k.layout o).unex.erase s) = true := by
  cases k with
  | eUnion tv te =>
    exact congrArg (fun x => x.right.isNone) (Objects.obj_modify_self o
      (fun x : Tagged Bool V E => { x with right := none }) _)
  | ePODUnion pv pe => rfl
  | ePODStruct => rfl

/-- **What an assignment leaves of its argument**, by the category it reaches the storage with. -/
theorem Kind.wp_assignValue_beside (k : Kind V E) {o : Nat} {s : k.Mem} {c : V ⊕ E}
    (hs : (k.layout o).Holds s c) (v : Argument U V) (cat : ValueCategory) (x : U)
    (throws : List Bool) (log : List (Event (Option Place))) :
    wp ((k.layout o).beside.assignValue k.valType k.unexType (v.as cat))
      (fun _ m => m.mem.2 = v.leaves cat x) (fun m => m.mem.2 = x ∧ throws ≠ []) (fun _ => False)
      ⟨(s, x), throws, log⟩ := by
  have hL := k.lawful o
  have htake : (v.as cat : Init (k.Mem × U) V).run (s, x)
      = some (v.made x, (s, v.leaves cat x)) := rfl
  have hlook : (k.layout o).beside.hasVal (s, x) = (k.layout o).hasVal s := rfl
  unfold Layout.assignValue
  rw [wp_bind, wp_look, hlook]
  cases c with
  | inl v₀ =>
    obtain ⟨htag, halive, -, -⟩ := hs
    rw [htag, if_pos rfl, wp_assignAt htake]
    refine ⟨halive, ?_⟩
    split
    · next hthrow =>
      exact ⟨rfl, ne_nil_of_throwsNext hthrow⟩
    · rfl
  | inr e₀ =>
    obtain ⟨htag, halive, hread, hvacant⟩ := hs
    rw [htag, if_neg (by decide), wp_bind]
    have hreinit : wp (reinitExpected (k.layout o).val.beside (k.layout o).unex.beside k.valType
        k.unexType (v.as cat)) (fun _ m => m.mem.2 = v.leaves cat x)
        (fun m => m.mem.2 = x ∧ throws ≠ []) (fun _ => False) ⟨(s, x), throws, log⟩ := by
      refine wp_reinitExpected_beside halive hread hL.unex.alive_write (k.vacant_eraseUnex o)
        ?_ ?_ v cat
      · rw [hL.val_vacant_eraseUnex, hvacant]
      · rw [hL.val_vacant_eraseUnex, hL.val_vacant_writeUnex, hvacant]
    -- clearing the tag afterwards is no concern of the argument
    exact wp_mono hreinit (fun _ _ h => h) (fun _ h => h) fun _ h => h

/-- **An lvalue argument is left alone exactly when being moved from does not change it.** -/
theorem Kind.keepsArgument_iff (k : Kind V E) (o : Nat) (s : k.Mem) (c : V ⊕ E)
    (hs : (k.layout o).Holds s c) (v : Argument U V) (x : U) :
    k.KeepsArgument o s v x ↔ v.movedFrom x = x := by
  constructor
  · intro hlaw
    have hruns := wp_mono (k.wp_assignValue_beside hs v .rvalue x [] []) (fun _ _ h => h)
      (fun _ h => h.2 rfl) fun _ h => h
    obtain ⟨u, m, hm, hleft⟩ := wp_returns hruns
    have hkept := (wp_of_returned hm).mp (hlaw [] [])
    exact hleft.symm.trans hkept
  · intro hmoved throws log
    refine wp_mono (k.wp_assignValue_beside hs v .rvalue x throws log) (fun _ m h => ?_)
      (fun _ h => h.1) fun _ h => h.elim
    exact h.trans hmoved

theorem Kind.keepsArgument_of_int :
    (Kind.ePODStruct : Kind Nat Nat).KeepsArgument 0
      (⟨fun _ => false, fun _ => none, fun _ => some 2⟩ : PodStructs Nat Nat)
      (⟨id, id, fun _ => true, fun _ => true⟩ : Argument Nat Nat) 11 :=
  (Kind.keepsArgument_iff .ePODStruct 0 _ (.inr 2) ⟨rfl, rfl, rfl, rfl⟩ _ 11).mpr rfl

/-- A list that is moved out of is empty, as a `std::vector` is: assigning one to an object that
holds a value empties it. -/
theorem Kind.not_keepsArgument_of_list :
    ¬ (Kind.eUnion (.trivial (List Nat)) (.trivial Nat)).KeepsArgument 0
      (⟨fun _ => true, fun _ => ⟨true, some [], none⟩⟩ : Heap (List Nat) Nat)
      (⟨id, fun _ => [], fun _ => true, fun _ => true⟩ : Argument (List Nat) (List Nat))
      [1, 2] := by
  intro hlaw
  have hkept : ([] : List Nat) = [1, 2] := hlaw [] []
  cases hkept

end Law

end Hy.Tiny

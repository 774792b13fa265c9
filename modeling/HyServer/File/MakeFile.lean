import HyServer.File.Descriptors

/-!
# hy::File — `makeFile`

`makeFile` constructs a temporary `File` from its arguments, makes the value of the `expected` it
returns from it by a move, and destroys the temporary. Where the constructor throws a
`std::system_error`, it returns that as an error. Nothing of the temporary is left: the processes
that use `makeFile` are those that construct their objects where they need them.

* `World.makeFile` — the three steps.
* `makeFile_eq` — they come to one.
* `makeFile_elided` — and so do the runs.
-/

namespace Hy

open Lts

/-- What `makeFile` is called with, by the constructor it chooses. `opened` has what `open`
returns. -/
inductive Args where
  | default
  | opened (fd : Int)
  | ofFd (fd : Int) (ownsFd : Bool)
  | moved (rhs : Nat)

/-- `File(std::forward<Args>(args)...)` as the object `f`. -/
def Args.construct (f : Nat) : Args → Op
  | .default => .construct f
  | .opened fd => .constructOpen f fd
  | .ofFd fd ownsFd => .constructFd f fd ownsFd
  | .moved rhs => .constructMove f rhs

namespace World

/-- `makeFile(args...)`, whose temporary is the object `t` and whose result, if it has a value, has
the object `f` as its value; and whether it has. -/
def makeFile (closeNoThrow : File → Table → CloseResult) (w : World) (t f : Nat) (args : Args) :
    Option (World × Bool) := do
  let w₁ ← w.step closeNoThrow (args.construct t)
  match w₁.file t with
  | none => some (w₁, false)
  | some _ =>
    let w₂ ← w₁.step closeNoThrow (.constructMove f t)
    let w₃ ← w₂.step closeNoThrow (.destroy t)
    some (w₃, true)

variable {closeNoThrow : File → Table → CloseResult} {w w' : World} {t f : Nat}

/-! ## The three steps -/

theorem setFile_file_self (w : World) (f : Nat) (x : Option File) : (w.setFile f x).file f = x :=
  Function.update_self ..

theorem setFile_file_of_ne {g : Nat} (hg : g ≠ f) (w : World) (x : Option File) :
    (w.setFile f x).file g = w.file g :=
  Function.update_of_ne hg ..

theorem setFile_comm {g : Nat} (hg : g ≠ f) (w : World) (x y : Option File) :
    (w.setFile f x).setFile g y = (w.setFile g y).setFile f x := by
  unfold setFile
  rw [Function.update_comm hg.symm]

theorem setFile_setFile (w : World) (f : Nat) (x y : Option File) :
    (w.setFile f x).setFile f y = w.setFile f y := by
  unfold setFile
  rw [Function.update_idem]

theorem setFile_self (hf : w.file f = none) : w.setFile f none = w := by
  unfold setFile
  rw [← hf, Function.update_eq_self]

/-- Moving out of a temporary and destroying it: what was moved closes nothing. -/
theorem move_destroy (hclose : CloseSpec closeNoThrow) {this : File}
    (ht : w.file t = some this) (hf : w.file f = none) :
    ((w.step closeNoThrow (.constructMove f t)).bind fun w₂ => w₂.step closeNoThrow (.destroy t))
      = some ((w.setFile f (some this)).setFile t none) := by
  have hmove : w.step closeNoThrow (.constructMove f t)
      = some ((w.setFile f (some this)).setFile t (some ⟨-1, false⟩)) := by
    simp only [step, hf, ht, File.moveFrom, File.release]
  rw [hmove, Option.bind_some, step, setFile_file_self]
  simp only [close, hclose.file_eq, hclose.closed_eq, Bool.false_eq_true, ↓reduceIte, afterClose]
  rw [setFile_setFile, setFile_setFile]

/-- What comes between a construction and the end of `makeFile`. -/
theorem makeFile_of_step (hclose : CloseSpec closeNoThrow) {args : Args} {u : World}
    {this : File} (hstep : w.step closeNoThrow (args.construct t) = some u)
    (ht : u.file t = some this) (hf : u.file f = none) :
    w.makeFile closeNoThrow t f args
      = some ((u.setFile f (some this)).setFile t none, true) := by
  have hmoved := move_destroy hclose ht hf
  obtain ⟨w₂, hw₂, hw₃⟩ := Option.bind_eq_some_iff.mp hmoved
  simp only [makeFile, hstep, Option.bind_eq_bind, Option.bind_some, ht, hw₂, hw₃]

/-- The temporary that is made, moved from and destroyed, and the object made at once. -/
theorem setFile_temporary (htf : t ≠ f) (ht : w.file t = none) (x : Option File) :
    ((w.setFile t x).setFile f x).setFile t none = w.setFile f x := by
  rw [setFile_comm htf, setFile_setFile, setFile_self ht]

/-! ## `makeFile` is its constructor -/

/-- An object made at once, or by way of a temporary. -/
theorem makeFile_of_setFile (hclose : CloseSpec closeNoThrow) (htf : t ≠ f) {args : Args}
    {u : World} {x : File} (ht : u.file t = none) (hf : u.file f = none)
    (hstep : ∀ g, g = t ∨ g = f →
      w.step closeNoThrow (args.construct g) = some (u.setFile g (some x))) :
    w.makeFile closeNoThrow t f args
      = (w.step closeNoThrow (args.construct f)).map fun w' => (w', (w'.file f).isSome) := by
  have hf' : (u.setFile t (some x)).file f = none := by
    rw [setFile_file_of_ne htf.symm, hf]
  rw [makeFile_of_step hclose (hstep t (.inl rfl)) (setFile_file_self ..) hf',
    setFile_temporary htf ht, hstep f (.inr rfl), Option.map_some, setFile_file_self]
  rfl

theorem makeFile_eq (hclose : CloseSpec closeNoThrow) (htf : t ≠ f) (ht : w.file t = none)
    (hf : w.file f = none) (args : Args) :
    w.makeFile closeNoThrow t f args
      = (w.step closeNoThrow (args.construct f)).map fun w' => (w', (w'.file f).isSome) := by
  have hnone : ∀ g, g = t ∨ g = f → w.file g = none := by
    rintro g (rfl | rfl)
    · exact ht
    · exact hf
  -- where the constructor cannot be called, or throws
  have hsame : ∀ {r : Option World}, r = none ∨ r = some w →
      (∀ g, g = t ∨ g = f → w.step closeNoThrow (args.construct g) = r) →
      w.makeFile closeNoThrow t f args
        = (w.step closeNoThrow (args.construct f)).map fun w' => (w', (w'.file f).isSome) := by
    intro r hr hstep
    rw [hstep f (.inr rfl)]
    unfold makeFile
    rw [hstep t (.inl rfl)]
    rcases hr with rfl | rfl
    · rfl
    · simp [ht, hf]
  cases args with
  | default =>
    refine makeFile_of_setFile hclose htf ht hf (u := w) (x := .default) fun g hg => ?_
    simp only [Args.construct, step, hnone g hg]
  | opened fd =>
    by_cases hfd : fd = -1 ∨ w.table fd = none
    · by_cases hopen : fd = -1
      · refine hsame (.inr rfl) fun g hg => ?_
        simp [Args.construct, step, hnone g hg, File.ofOpen, opened, hopen]
      · refine makeFile_of_setFile hclose htf (u := w.setTable fd (some .files))
          (x := ⟨fd, true⟩) ht hf fun g hg => ?_
        simp [Args.construct, step, hnone g hg, File.ofOpen, opened, hopen, hfd.resolve_left hopen]
    · refine hsame (.inl rfl) fun g hg => ?_
      simp only [Args.construct, step, hnone g hg, hfd, ↓reduceIte]
  | ofFd fd ownsFd =>
    cases ownsFd with
    | true =>
      by_cases hfd : w.table fd = some .caller
      · refine makeFile_of_setFile hclose htf (u := w.setTable fd (some .files))
          (x := .ofFd fd true) ht hf fun g hg => ?_
        simp only [Args.construct, step, hnone g hg, hfd, ↓reduceIte]
      · refine hsame (.inl rfl) fun g hg => ?_
        simp only [Args.construct, step, hnone g hg, hfd, ↓reduceIte]
    | false =>
      refine makeFile_of_setFile hclose htf ht hf (u := w) (x := .ofFd fd false) fun g hg => ?_
      simp only [Args.construct, step, hnone g hg, Bool.false_eq_true, ↓reduceIte]
  | moved rhs =>
    cases hrhs : w.file rhs with
    | none =>
      refine hsame (.inl rfl) fun g hg => ?_
      simp only [Args.construct, step, hnone g hg, hrhs]
    | some that =>
      have hne : ∀ g, g = t ∨ g = f → g ≠ rhs := by
        intro g hg heq
        have hgone := hnone g hg
        rw [heq, hrhs] at hgone
        cases hgone
      refine makeFile_of_setFile hclose htf (u := w.setFile rhs (some that.release.2))
        (x := that) ?_ ?_ fun g hg => ?_
      · rw [setFile_file_of_ne (hne t (.inl rfl)), ht]
      · rw [setFile_file_of_ne (hne f (.inr rfl)), hf]
      · rw [setFile_comm (hne g hg)]
        simp only [Args.construct, step, hnone g hg, hrhs, File.moveFrom]

/-! ## Runs -/

/-- A step of a process that also calls `makeFile`. The temporary and the result are new objects. -/
inductive Action where
  | op (op : Op)
  | makeFile (t f : Nat) (args : Args)

def act (closeNoThrow : File → Table → CloseResult) (w : World) : Action → Option World
  | .op op => w.step closeNoThrow op
  | .makeFile t f args =>
    if t ≠ f ∧ w.file t = none ∧ w.file f = none then
      (w.makeFile closeNoThrow t f args).map Prod.fst
    else none

/-- The constructor in the place of `makeFile`. -/
def Action.direct : Action → Op
  | .op plain => plain
  | .makeFile _ f args => args.construct f

theorem act_direct (hclose : CloseSpec closeNoThrow) {action : Action}
    (hact : w.act closeNoThrow action = some w') :
    w.step closeNoThrow action.direct = some w' := by
  cases action with
  | op op => exact hact
  | makeFile t f args =>
    obtain ⟨⟨htf, ht, hf⟩, hmake⟩ := Option.ite_none_right_eq_some.mp hact
    rw [makeFile_eq hclose htf ht hf, Option.map_map] at hmake
    obtain ⟨w₁, hstep, hfst⟩ := Option.map_eq_some_iff.mp hmake
    cases hfst
    exact hstep

theorem run_direct (hclose : CloseSpec closeNoThrow) {actions : List Action} :
    ∀ {w w' : World}, run (World.act closeNoThrow) w actions = some w' →
      run (World.step closeNoThrow) w (actions.map Action.direct) = some w' := by
  induction actions with
  | nil => exact fun h => h
  | cons action actions ih =>
    intro w w' hrun
    obtain ⟨w₁, hact, hrun⟩ := run_cons_eq_some.mp hrun
    exact run_cons_eq_some.mpr ⟨w₁, act_direct hclose hact, ih hrun⟩

/-- **`makeFile` leaves no trace of its temporary.** It does what its constructor does to a new
object, and says whether there is one; and every run that uses it leads where the run leads that
constructs its objects itself. -/
theorem makeFile_elided (hclose : CloseSpec closeNoThrow) :
    (∀ (w : World) (t f : Nat) (args : Args), t ≠ f → w.file t = none → w.file f = none →
      w.makeFile closeNoThrow t f args
        = (w.step closeNoThrow (args.construct f)).map fun w' => (w', (w'.file f).isSome)) ∧
    ∀ (actions : List Action) (w : World), run (World.act closeNoThrow) start actions = some w →
      run (World.step closeNoThrow) start (actions.map Action.direct) = some w ∧ w.Sound := by
  refine ⟨fun w t f args htf ht hf => makeFile_eq hclose htf ht hf args, fun actions w hrun => ?_⟩
  have hdirect := run_direct hclose hrun
  exact ⟨hdirect, sound_run hclose hdirect⟩

/-- A file is opened, another one cannot be, and the first one is moved into a third. -/
theorem makeFile_elided_moved :
    start.makeFile closeAndReset 1 0 (.opened 3) = some
      ((start.setTable 3 (some .files)).setFile 0 (some ⟨3, true⟩), true) ∧
    ∃ w, run (World.step closeAndReset) start
        [.constructOpen 0 3, .constructOpen 2 (-1), .constructMove 4 0] = some w ∧ w.Sound := by
  have hclose : CloseSpec closeAndReset := ⟨fun _ _ => rfl, fun _ _ => rfl⟩
  constructor
  · exact (makeFile_elided hclose).1 start 1 0 (.opened 3) (by decide) rfl rfl
  · obtain ⟨w, hw⟩ : ∃ w, run (World.act closeAndReset) start
        [.makeFile 1 0 (.opened 3), .makeFile 3 2 (.opened (-1)), .makeFile 5 4 (.moved 0)]
          = some w := ⟨_, rfl⟩
    exact ⟨w, (makeFile_elided hclose).2 _ w hw⟩

end World

end Hy

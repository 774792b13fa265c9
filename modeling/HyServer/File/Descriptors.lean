import HyServer.Lts.Runs
import HyServer.Lts.Owners

/-!
# hy::File — descriptor ownership

The constructors, moves, `swap`, `release` and destructor of `File`, on any number of objects and on
the table of the process's open descriptors. The table notes of each open descriptor who has to
close it: the `File` objects (it was opened by one, or handed to one with ownership) or the caller
(it was opened outside, or returned by the `release()` of its owner).

`closeNoThrow()` is declared only. It is a parameter here, and `CloseSpec` says of it that it closes
`fd_` if `owns_fd_` and leaves the object as a default one. `check(fd_ != -1 || !owns_fd_, )` in
`File(int, bool)` has no action to run, and is read as no statement.

* `World.step` — one operation, on the object or objects it names.
* `World.own` — which descriptor each object owns, and `World.Sound`, the invariant: the objects
  exclusively own what the table says is theirs to close.
* `sound_of_run` — the run theorem.
-/

namespace Hy

open Lts

/-! ## The class -/

structure File where
  fd : Int
  ownsFd : Bool
  deriving DecidableEq, Repr

namespace File

/-- `File()` -/
def default : File := ⟨-1, false⟩

/-- `File(int fd, bool ownsFd)` -/
def ofFd (fd : Int) (ownsFd : Bool) : File := ⟨fd, ownsFd⟩

/-- `File(const char* name, ...)`, from what `open` returned; `none` is the throw. -/
def ofOpen (fd : Int) : Option File :=
  let this : File := ⟨fd, false⟩
  if this.fd = -1 then none else some { this with ownsFd := true }

/-- `release()`: what it returns, and the object after it. -/
def release (this : File) : Int × File :=
  (this.fd, { fd := -1, ownsFd := false })

/-- `swap(File&)`: the two objects after it. -/
def swap (this other : File) : File × File :=
  ({ fd := other.fd, ownsFd := other.ownsFd }, { fd := this.fd, ownsFd := this.ownsFd })

/-- `File(File&& rhs)`: the new object, and `rhs` after it. -/
def moveFrom (rhs : File) : File × File :=
  (⟨rhs.fd, rhs.ownsFd⟩, rhs.release.2)

/-- The descriptor an object has to close. -/
def owned (this : File) : Option Int :=
  if this.ownsFd then some this.fd else none

end File

/-- Who has to close an open descriptor. -/
inductive Holder where
  | files
  | caller
  deriving DecidableEq, Repr

/-- The open descriptors, and who has to close each. -/
abbrev Table := Int → Option Holder

/-- What `closeNoThrow()` did: the object after it, the descriptor it passed to `close`, if any,
and what it returned. -/
structure CloseResult where
  file : File
  closed : Option Int
  ok : Bool

/-- What `closeNoThrow()` is relied on for. -/
structure CloseSpec (closeNoThrow : File → Table → CloseResult) : Prop where
  file_eq : ∀ this table, (closeNoThrow this table).file = ⟨-1, false⟩
  closed_eq : ∀ this table,
    (closeNoThrow this table).closed = if this.ownsFd then some this.fd else none

/-! ## The process -/

/-- The live objects, the open descriptors, and whether an object ever closed a descriptor that was
not open or not for it to close. -/
structure World where
  file : Nat → Option File
  table : Table
  badClose : Bool

inductive Op where
  | construct (f : Nat)
  /-- `File(name, flags, mode)`, where `open` returns `fd`. -/
  | constructOpen (f : Nat) (fd : Int)
  | constructFd (f : Nat) (fd : Int) (ownsFd : Bool)
  | constructMove (f rhs : Nat)
  | assignMove (f rhs : Nat)
  | swap (f other : Nat)
  /-- The free function. -/
  | swapFree (a b : Nat)
  | release (f : Nat)
  | destroy (f : Nat)
  /-- The caller opens a descriptor itself. -/
  | callerOpen (fd : Int)
  /-- The caller closes a descriptor of its own. -/
  | callerClose (fd : Int)

namespace World

/-- No object, and no open descriptor. -/
def start : World := ⟨fun _ => none, fun _ => none, false⟩

def setFile (w : World) (f : Nat) (x : Option File) : World :=
  { w with file := Function.update w.file f x }

def setTable (w : World) (fd : Int) (h : Option Holder) : World :=
  { w with table := Function.update w.table fd h }

/-- The table when `open` has returned `fd`: a new descriptor, for the object that called it to
close, or `-1` for none. -/
def opened (w : World) (fd : Int) : World :=
  if fd = -1 then w else w.setTable fd (some .files)

/-- The effect of a call of `closeNoThrow()` on the table. -/
def afterClose (w : World) : Option Int → World
  | none => w
  | some fd =>
    { w.setTable fd none with badClose := w.badClose || decide (w.table fd ≠ some .files) }

/-- `closeNoThrow()` on the object `f`. -/
def close (closeNoThrow : File → Table → CloseResult) (w : World) (f : Nat) (this : File) : World :=
  let r := closeNoThrow this w.table
  (w.afterClose r.closed).setFile f (some r.file)

/-- `swap` of two objects, or of an object with itself. -/
def swap (w : World) (f other : Nat) : Option World :=
  match w.file f, w.file other with
  | some this, some that =>
    let (this', that') := this.swap that
    some ((w.setFile f (some this')).setFile other (some that'))
  | _, _ => none

/-- One operation. It is not possible when an object it is called on is not there, when the object
it constructs already is, when `open` is taken to return a descriptor that is in use, or when the
caller hands over or closes a descriptor that is not its own. -/
def step (closeNoThrow : File → Table → CloseResult) (w : World) : Op → Option World
  | .construct f =>
    match w.file f with
    | none => some (w.setFile f (some .default))
    | some _ => none
  | .constructOpen f fd =>
    match w.file f with
    | none =>
      if fd = -1 ∨ w.table fd = none then
        -- the descriptor is there whether the constructor throws or not
        match File.ofOpen fd with
        | none => some (w.opened fd)
        | some this => some ((w.opened fd).setFile f (some this))
      else none
    | some _ => none
  | .constructFd f fd ownsFd =>
    match w.file f with
    | none =>
      if ownsFd then
        if w.table fd = some .caller then
          some ((w.setTable fd (some .files)).setFile f (some (.ofFd fd ownsFd)))
        else none
      else some (w.setFile f (some (.ofFd fd ownsFd)))
    | some _ => none
  | .constructMove f rhs =>
    match w.file f, w.file rhs with
    | none, some that =>
      let (this, that') := File.moveFrom that
      some ((w.setFile f (some this)).setFile rhs (some that'))
    | _, _ => none
  | .assignMove f rhs =>
    match w.file f, w.file rhs with
    | some this, some _ => (w.close closeNoThrow f this).swap f rhs
    | _, _ => none
  | .swap f other => w.swap f other
  | .swapFree a b => w.swap a b
  | .release f =>
    match w.file f with
    | some this =>
      let (fd, this') := this.release
      let w' := w.setFile f (some this')
      -- the caller now has to close what the object owned
      some (if this.ownsFd then w'.setTable fd (some .caller) else w')
    | none => none
  | .destroy f =>
    match w.file f with
    | some this => some ((w.close closeNoThrow f this).setFile f none)
    | none => none
  | .callerOpen fd =>
    if fd ≠ -1 ∧ w.table fd = none then some (w.setTable fd (some .caller)) else none
  | .callerClose fd =>
    if w.table fd = some .caller then some (w.setTable fd none) else none

/-! ## The invariant -/

/-- The descriptor each live object owns. -/
def own (w : World) (f : Nat) : Option Int :=
  (w.file f).bind File.owned

structure Sound (w : World) : Prop where
  exclusive : Exclusive w.own fun fd => w.table fd = some .files
  invalid : w.table (-1) = none
  noBadClose : w.badClose = false

variable {closeNoThrow : File → Table → CloseResult} {w w' : World}

theorem own_setFile (w : World) (f : Nat) (x : Option File) :
    (w.setFile f x).own = Function.update w.own f (x.bind File.owned) := by
  funext g
  show (Function.update w.file f x g).bind File.owned = _
  by_cases hg : g = f
  · rw [hg, Function.update_self, Function.update_self]
  · rw [Function.update_of_ne hg, Function.update_of_ne hg]
    rfl

theorem own_eq {f : Nat} {this : File} (hf : w.file f = some this) : w.own f = this.owned := by
  unfold own
  rw [hf]
  rfl

theorem own_eq_none {f : Nat} (hf : w.file f = none) : w.own f = none := by
  unfold own
  rw [hf]
  rfl

theorem sound_start : start.Sound where
  exclusive := exclusive_empty.congr fun fd => by simp [start]
  invalid := rfl
  noBadClose := rfl

/-! ## What an operation does to the ownership -/

/-- Objects that own nothing may come, go and change. -/
theorem Sound.setFile {f : Nat} {x : Option File} (h : w.Sound) (hf : w.own f = none)
    (hx : x.bind File.owned = none) : (w.setFile f x).Sound where
  exclusive := by
    rw [own_setFile, hx]
    exact h.exclusive.dropNone hf
  invalid := h.invalid
  noBadClose := h.noBadClose

/-- An object that owned nothing gets a descriptor that was not the objects' to close. -/
theorem Sound.grant {f : Nat} {fd : Int} {x : File} (h : w.Sound) (hf : w.own f = none)
    (hfd : w.table fd ≠ some .files) (hne : fd ≠ -1) (hx : x.owned = some fd) :
    ((w.setTable fd (some .files)).setFile f (some x)).Sound where
  exclusive := by
    rw [own_setFile]
    show Exclusive (Function.update w.own f x.owned) _
    rw [hx]
    refine (h.exclusive.grant hf hfd).congr fun k => ?_
    show Function.update w.table fd (some .files) k = some .files ↔ _
    by_cases hk : k = fd
    · simp [hk]
    · simp [hk]
  invalid := by
    show Function.update w.table fd (some .files) (-1) = none
    rw [Function.update_of_ne hne.symm, h.invalid]
  noBadClose := h.noBadClose

/-- An object gives up its descriptor, which is closed or becomes the caller's. -/
theorem Sound.drop {f : Nat} {fd : Int} {x : File} {holder : Option Holder} (h : w.Sound)
    (hf : w.own f = some fd) (hholder : holder ≠ some .files) (hx : x.owned = none) :
    ((w.setTable fd holder).setFile f (some x)).Sound where
  exclusive := by
    rw [own_setFile]
    show Exclusive (Function.update w.own f x.owned) _
    rw [hx]
    refine (h.exclusive.drop hf).congr fun k => ?_
    show Function.update w.table fd holder k = some .files ↔ _
    by_cases hk : k = fd
    · simp [hk, hholder]
    · simp [hk]
  invalid := by
    have hne : (-1 : Int) ≠ fd := by
      intro heq
      have hfiles := h.exclusive.mem hf
      rw [← heq, h.invalid] at hfiles
      cases hfiles
    show Function.update w.table fd holder (-1) = none
    rw [Function.update_of_ne hne, h.invalid]
  noBadClose := h.noBadClose

/-- What happens to a descriptor that no object owns is the caller's business. -/
theorem Sound.setTable {fd : Int} {holder : Option Holder} (h : w.Sound)
    (hfd : w.table fd ≠ some .files) (hholder : holder ≠ some .files)
    (hne : fd = -1 → holder = none) : (w.setTable fd holder).Sound where
  exclusive := by
    refine h.exclusive.congr fun k => ?_
    show Function.update w.table fd holder k = some .files ↔ _
    by_cases hk : k = fd
    · simp [hk, hholder, hfd]
    · simp [hk]
  invalid := by
    show Function.update w.table fd holder (-1) = none
    by_cases hk : (-1 : Int) = fd
    · rw [hk, Function.update_self, hne hk.symm]
    · rw [Function.update_of_ne hk, h.invalid]
  noBadClose := h.noBadClose

/-- `closeNoThrow()` closes a descriptor of its own, or none, and leaves the object owning
nothing. -/
theorem Sound.close (hclose : CloseSpec closeNoThrow) {f : Nat} {this : File} (h : w.Sound)
    (hf : w.file f = some this) : (w.close closeNoThrow f this).Sound := by
  unfold World.close
  simp only [hclose.file_eq, hclose.closed_eq]
  have hown : w.own f = this.owned := own_eq hf
  unfold File.owned at hown
  split
  · next howns =>
    rw [if_pos howns] at hown
    have hfiles : w.table this.fd = some .files := h.exclusive.mem hown
    have hsound := h.drop (x := ⟨-1, false⟩) hown (by simp : (none : Option Holder) ≠ _) rfl
    refine { hsound with noBadClose := ?_ }
    show (w.badClose || decide (w.table this.fd ≠ some .files)) = false
    rw [h.noBadClose, hfiles]
    rfl
  · next howns =>
    rw [if_neg howns] at hown
    exact h.setFile hown rfl

theorem file_close (hclose : CloseSpec closeNoThrow) (w : World) (f : Nat) (this : File) :
    (w.close closeNoThrow f this).file = Function.update w.file f (some ⟨-1, false⟩) := by
  unfold World.close
  simp only [hclose.file_eq, hclose.closed_eq]
  split <;> rfl

/-- Two objects trade descriptors. -/
theorem Sound.trade {f g : Nat} {x y : Option File} (h : w.Sound)
    (hx : x.bind File.owned = w.own g) (hy : y.bind File.owned = w.own f) :
    ((w.setFile f x).setFile g y).Sound where
  exclusive := by
    have hperm := h.exclusive.perm (Equiv.swap g f)
    rw [Equiv.comp_swap_eq_update] at hperm
    rw [own_setFile, own_setFile, hx, hy]
    exact hperm
  invalid := h.invalid
  noBadClose := h.noBadClose

theorem Sound.swap {f g : Nat} (h : w.Sound) (hswap : w.swap f g = some w') : w'.Sound := by
  unfold World.swap at hswap
  split at hswap
  · next this that hf hg =>
    cases hswap
    exact h.trade (own_eq hg).symm (own_eq hf).symm
  · cases hswap

/-- **The step lemma.** -/
theorem Sound.step (hclose : CloseSpec closeNoThrow) {op : Op} (h : w.Sound)
    (hstep : w.step closeNoThrow op = some w') : w'.Sound := by
  cases op with
  | construct f =>
    simp only [World.step] at hstep
    split at hstep
    · next hf =>
      cases hstep
      exact h.setFile (own_eq_none hf) rfl
    · cases hstep
  | constructOpen f fd =>
    simp only [World.step] at hstep
    split at hstep
    · next hf =>
      split at hstep
      · next hfd =>
        by_cases hne : fd = -1
        · -- the constructor throws, and there is no object
          rw [hne] at hstep
          cases hstep
          exact h
        · have hopen : File.ofOpen fd = some ⟨fd, true⟩ := if_neg hne
          have hopened : w.opened fd = w.setTable fd (some .files) := if_neg hne
          rw [hopen, hopened] at hstep
          cases hstep
          exact h.grant (own_eq_none hf) (by simp [hfd.resolve_left hne]) hne rfl
      · cases hstep
    · cases hstep
  | constructFd f fd ownsFd =>
    simp only [World.step] at hstep
    split at hstep
    · next hf =>
      split at hstep
      · next howns =>
        split at hstep
        · next hfd =>
          cases hstep
          have hne : fd ≠ -1 := by
            rintro rfl
            rw [h.invalid] at hfd
            cases hfd
          exact h.grant (own_eq_none hf) (by simp [hfd]) hne (if_pos howns)
        · cases hstep
      · next howns =>
        cases hstep
        exact h.setFile (own_eq_none hf) (if_neg howns)
    · cases hstep
  | constructMove f rhs =>
    simp only [World.step] at hstep
    split at hstep
    · next hf hrhs =>
      cases hstep
      exact h.trade (own_eq hrhs).symm (own_eq_none hf).symm
    · cases hstep
  | assignMove f rhs =>
    simp only [World.step] at hstep
    split at hstep
    · next this that hf hrhs => exact (h.close hclose hf).swap hstep
    · cases hstep
  | swap f other => exact h.swap hstep
  | swapFree a b => exact h.swap hstep
  | release f =>
    simp only [World.step] at hstep
    split at hstep
    · next this hf =>
      cases hstep
      have hown : w.own f = this.owned := own_eq hf
      unfold File.owned at hown
      split
      · next howns =>
        rw [if_pos howns] at hown
        exact h.drop hown (by simp) rfl
      · next howns =>
        rw [if_neg howns] at hown
        exact h.setFile hown rfl
    · cases hstep
  | destroy f =>
    simp only [World.step] at hstep
    split at hstep
    · next this hf =>
      cases hstep
      have hfile : (w.close closeNoThrow f this).file f = some ⟨-1, false⟩ := by
        rw [file_close hclose, Function.update_self]
      exact (h.close hclose hf).setFile (own_eq hfile) rfl
    · cases hstep
  | callerOpen fd =>
    simp only [World.step] at hstep
    split at hstep
    · next hfd =>
      cases hstep
      exact h.setTable (by simp [hfd.2]) (by simp) fun hne => absurd hne hfd.1
    · cases hstep
  | callerClose fd =>
    simp only [World.step] at hstep
    split at hstep
    · next hfd =>
      cases hstep
      exact h.setTable (by simp [hfd]) (by simp) fun _ => rfl
    · cases hstep

/-! ## Runs -/

theorem sound_run (hclose : CloseSpec closeNoThrow) {ops : List Op}
    (h : run (World.step closeNoThrow) start ops = some w) : w.Sound :=
  run_invariant (fun _ _ _ hs hstep => Sound.step hclose hs hstep) sound_start h

/-- **Over every run** of any number of objects, each open descriptor is for the objects to close
and owned by exactly one of them, or is the caller's and owned by none; an object with `owns_fd_`
has a valid, open descriptor; no object has closed a descriptor that was not open or not for the
objects to close; and what `closeNoThrow()` would close next is the object's own. -/
theorem sound_of_run (hclose : CloseSpec closeNoThrow) {ops : List Op}
    (h : run (World.step closeNoThrow) start ops = some w) :
    (∀ fd, w.table fd = some .files → ∃! f, w.own f = some fd) ∧
    (∀ fd, w.table fd = some .caller → ∀ f, w.own f ≠ some fd) ∧
    (∀ f this, w.file f = some this → this.ownsFd = true →
      this.fd ≠ -1 ∧ w.table this.fd = some .files) ∧
    w.badClose = false ∧
    (∀ f this fd, w.file f = some this → (closeNoThrow this w.table).closed = some fd →
      w.own f = some fd ∧ w.table fd = some .files) := by
  have hs := sound_run hclose h
  have howned : ∀ f this, w.file f = some this → this.ownsFd = true → w.own f = some this.fd := by
    intro f this hf howns
    rw [own_eq hf]
    exact if_pos howns
  refine ⟨?_, ?_, ?_, hs.noBadClose, ?_⟩
  · intro fd hfd
    exact hs.exclusive.existsUnique hfd
  · intro fd hfd f hf
    have hfiles : w.table fd = some .files := hs.exclusive.mem hf
    rw [hfd] at hfiles
    cases hfiles
  · intro f this hf howns
    have hfiles : w.table this.fd = some .files := hs.exclusive.mem (howned f this hf howns)
    refine ⟨?_, hfiles⟩
    intro hne
    rw [hne, hs.invalid] at hfiles
    cases hfiles
  · intro f this fd hf hclosed
    rw [hclose.closed_eq] at hclosed
    split at hclosed
    · next howns =>
      cases hclosed
      have hown := howned f this hf howns
      exact ⟨hown, hs.exclusive.mem hown⟩
    · cases hclosed

/-- `closeNoThrow()` as its declaration suggests it. -/
def closeAndReset (this : File) (_ : Table) : CloseResult :=
  ⟨⟨-1, false⟩, if this.ownsFd then some this.fd else none, true⟩

/-- Opening, moving into an object that owns another descriptor, releasing, and reuse of a number
by `open`. -/
theorem sound_of_run_reuse :
    ∃ w, run (World.step closeAndReset) start
        [.constructOpen 0 3, .constructOpen 1 4, .assignMove 0 1, .constructOpen 2 3, .release 2,
          .swap 1 0, .destroy 1] = some w ∧
      w.table 3 = some .caller ∧ w.table 4 = none ∧ w.badClose = false := by
  have hclose : CloseSpec closeAndReset := ⟨fun _ _ => rfl, fun _ _ => rfl⟩
  obtain ⟨w, hw⟩ : ∃ w, run (World.step closeAndReset) start
      [.constructOpen 0 3, .constructOpen 1 4, .assignMove 0 1, .constructOpen 2 3, .release 2,
        .swap 1 0, .destroy 1] = some w := ⟨_, rfl⟩
  refine ⟨w, hw, ?_, ?_, (sound_of_run hclose hw).2.2.2.1⟩
  · cases hw
    rfl
  · cases hw
    rfl

end World

end Hy

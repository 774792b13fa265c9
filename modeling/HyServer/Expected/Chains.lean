import HyServer.Expected.Combinators

/-!
# hy::expected — chains of combinators

Any number of combinators applied one to the result of the other, with value and error types that
change on the way. The callables see and change a state of their own.

* `Chain.run` — the chain as the objects of `Expected` run it; each callable is called at its place
  in the chain, which the `Ledger` records.
* `Chain.fold` — the same callables over the sum `V ⊕ E`.
* `Chain.wrapped` — the fold, where at each step the new object is given in braces what it holds.
  `Step.calls_run`, `Chain.run_wrapped` — this is what a step, and then a chain, does to the content
  and the state; the step's callable is called exactly when the object is on its side.
* `Chain.Keeps` — along the fold, braces keep what a new object is given.
* `railway_iff` — the laws of chains and of the combinators in one, and when they hold.
-/

namespace Hy.Tiny

open Cpp Railway

/-! ## Steps and chains -/

/-- One combinator with its callable and the overload that is called. -/
inductive Step (kinds : Kinds) (ω : Type) : Element → Element → Element → Element → Type 1 where
  | andThen {V E U : Element} (q : RefQualifier) (f : V → StateM ω (Expected kinds U E)) :
    Step kinds ω V E U E
  | transform {V E U : Element} (q : RefQualifier) (f : V → StateM ω U) : Step kinds ω V E U E
  | orElse {V E G : Element} (q : RefQualifier) (f : E → StateM ω (Expected kinds V G)) :
    Step kinds ω V E V G
  | transformError {V E G : Element} (q : RefQualifier) (f : E → StateM ω G) :
    Step kinds ω V E V G

/-- A list of combinators of matching types. -/
inductive Chain (kinds : Kinds) (ω : Type) : Element → Element → Element → Element → Type 1 where
  | nil {V E : Element} : Chain kinds ω V E V E
  | cons {V E U G W F : Element} (s : Step kinds ω V E U G) (rest : Chain kinds ω U G W F) :
    Chain kinds ω V E W F

variable {kinds : Kinds} {ω : Type} {V E U G W F : Element}

/-- What an object holds that is given a content as some reference. Where a callable has made the
object, it is none of these that counts. -/
def wrap : Option RefQualifier → U ⊕ G → U ⊕ G
  | none => id
  | some q => Sum.map (U.braces q) (G.braces q)

namespace Step

/-- The step at place `i` of a chain. -/
def run (i : Nat) (x : Expected kinds V E) :
    Step kinds ω V E U G → StateM (Ledger ω) (Expected kinds U G)
  | .andThen q f => x.andThen q (invoke i f)
  | .transform q f => x.transform q (invoke i f)
  | .orElse q f => x.orElse q (invoke i f)
  | .transformError q f => x.transformError q (invoke i f)

/-- Its callable over the sum. -/
def fold (c : V ⊕ E) : Step kinds ω V E U G → StateM ω (U ⊕ G)
  | .andThen _ f => onLeft (fun v => Expected.content <$> f v) c
  | .transform _ f => mapLeft f c
  | .orElse _ f => onRight (fun e => Expected.content <$> f e) c
  | .transformError _ f => mapRight f c

/-- The reference as which the new object is given its content: what is passed on is given as the
overload has it, and what a callable returns is a temporary, if it is not the object itself. -/
def givenAs (c : V ⊕ E) : Step kinds ω V E U G → Option RefQualifier
  | .andThen q _ => if c.isLeft then none else some q
  | .transform q _ => some (if c.isLeft then .rvalue else q)
  | .orElse q _ => if c.isRight then none else some q
  | .transformError q _ => some (if c.isRight then .rvalue else q)

/-- The step, as the new object comes to hold it. -/
def wrapped (c : V ⊕ E) (s : Step kinds ω V E U G) : StateM ω (U ⊕ G) :=
  wrap (s.givenAs c) <$> s.fold c

/-- Whether its callable is for values. -/
def onValue : Step kinds ω V E U G → Bool
  | .andThen _ _ => true
  | .transform _ _ => true
  | .orElse _ _ => false
  | .transformError _ _ => false

/-- Whether a sum is on the side of its callable. -/
def actsOn (s : Step kinds ω V E U G) (c : V ⊕ E) : Bool :=
  if s.onValue then c.isLeft else c.isRight

/-- Whether it can turn an error into a value. -/
def recovers : Step kinds ω V E U G → Bool
  | .orElse _ _ => true
  | _ => false

/-- The same combinator by another overload. -/
def requalify (q : RefQualifier) : Step kinds ω V E U G → Step kinds ω V E U G
  | .andThen _ f => .andThen q f
  | .transform _ f => .transform q f
  | .orElse _ f => .orElse q f
  | .transformError _ f => .transformError q f

end Step

namespace Chain

def length : {V E W F : Element} → Chain kinds ω V E W F → Nat
  | _, _, _, _, .nil => 0
  | _, _, _, _, .cons _ rest => rest.length + 1

def append : {V E U G : Element} → Chain kinds ω V E U G → Chain kinds ω U G W F →
    Chain kinds ω V E W F
  | _, _, _, _, .nil, c => c
  | _, _, _, _, .cons s rest, c => .cons s (rest.append c)

/-- The chain from place `i` on. -/
def run : {V E W F : Element} → Nat → Expected kinds V E → Chain kinds ω V E W F →
    StateM (Ledger ω) (Expected kinds W F)
  | _, _, _, _, _, x, .nil => pure x
  | _, _, _, _, i, x, .cons s rest => do
    let y ← s.run i x
    rest.run (i + 1) y

def fold : {V E W F : Element} → V ⊕ E → Chain kinds ω V E W F → StateM ω (W ⊕ F)
  | _, _, _, _, c, .nil => pure c
  | _, _, _, _, c, .cons s rest => do
    let d ← s.fold c
    rest.fold d

def wrapped : {V E W F : Element} → V ⊕ E → Chain kinds ω V E W F → StateM ω (W ⊕ F)
  | _, _, _, _, c, .nil => pure c
  | _, _, _, _, c, .cons s rest => do
    let d ← s.wrapped c
    rest.wrapped d

/-- The same chain by other overloads. -/
def requalify (q : Nat → RefQualifier) :
    {V E W F : Element} → Nat → Chain kinds ω V E W F → Chain kinds ω V E W F
  | _, _, _, _, _, .nil => .nil
  | _, _, _, _, i, .cons s rest => .cons (s.requalify (q i)) (rest.requalify q (i + 1))

/-- Whether a step of it can turn an error into a value. -/
def recovers : {V E W F : Element} → Chain kinds ω V E W F → Bool
  | _, _, _, _, .nil => false
  | _, _, _, _, .cons s rest => s.recovers || rest.recovers

end Chain

/-! ## One step -/

section Steps

variable (i : Nat) (x : Expected kinds V E)

/-- **What a step does.** It acts on the content as its fold does, in braces, and calls its callable
exactly when the object is on its side. -/
theorem Step.calls_run (s : Step kinds ω V E U G) :
    Calls i (s.actsOn x.content) (Expected.content <$> s.run i x) (s.wrapped x.content) := by
  cases s with
  | andThen q f =>
    show Calls i _ (Expected.content <$> x.andThen q (invoke i f)) _
    rw [x.content_andThen]
    cases x.content with
    | inl v => exact (calls_invoke f v).map Expected.content
    | inr e => exact calls_pure (Sum.inr (E.braces q e))
  | transform q f =>
    show Calls i _ (Expected.content <$> x.transform q (invoke i f)) _
    rw [x.content_transform]
    cases x.content with
    | inl v => exact (calls_invoke f v).map fun u => Sum.inl (U.braces .rvalue u)
    | inr e => exact calls_pure (Sum.inr (E.braces q e))
  | orElse q f =>
    show Calls i _ (Expected.content <$> x.orElse q (invoke i f)) _
    rw [x.content_orElse]
    cases x.content with
    | inl v => exact calls_pure (Sum.inl (V.braces q v))
    | inr e => exact (calls_invoke f e).map Expected.content
  | transformError q f =>
    show Calls i _ (Expected.content <$> x.transformError q (invoke i f)) _
    rw [x.content_transformError]
    cases x.content with
    | inl v => exact calls_pure (Sum.inl (V.braces q v))
    | inr e => exact (calls_invoke f e).map fun g => Sum.inr (G.braces .rvalue g)

/-- The same, of the step's outcome. -/
theorem Step.run_spec (s : Step kinds ω V E U G) (w : Ledger ω) :
    (s.run i x w).1.content = wrap (s.givenAs x.content) (s.fold x.content w.state).1 ∧
    (s.run i x w).2 = ⟨(s.fold x.content w.state).2,
      w.calls ++ if s.actsOn x.content then [i] else []⟩ :=
  Prod.ext_iff.mp (s.calls_run i x w)

end Steps

/-! ## Whole chains -/

namespace Chain

theorem length_append (pre : Chain kinds ω V E U G) (post : Chain kinds ω U G W F) :
    (pre.append post).length = pre.length + post.length := by
  induction pre with
  | nil => exact (Nat.zero_add _).symm
  | cons s rest ih =>
    show (rest.append post).length + 1 = rest.length + 1 + post.length
    rw [ih]
    omega

theorem run_cons (s : Step kinds ω V E U G) (rest : Chain kinds ω U G W F) (i : Nat)
    (x : Expected kinds V E) (w : Ledger ω) :
    (cons s rest).run i x w = rest.run (i + 1) (s.run i x w).1 (s.run i x w).2 :=
  rfl

/-- Running the second part goes on where the first one has left. -/
theorem run_append (pre : Chain kinds ω V E U G) (post : Chain kinds ω U G W F) (i : Nat)
    (x : Expected kinds V E) (w : Ledger ω) :
    (pre.append post).run i x w
      = post.run (i + pre.length) (pre.run i x w).1 (pre.run i x w).2 := by
  induction pre generalizing i w with
  | nil => rfl
  | cons s rest ih =>
    have hplace : i + 1 + rest.length = i + (cons s rest).length := by
      show i + 1 + rest.length = i + (rest.length + 1)
      omega
    show (cons s (rest.append post)).run i x w = _
    rw [run_cons, run_cons, ih, hplace]

/-- **A chain is the fold of its callables over the sum, in braces.** Induction on the chain, a step
at a time. -/
theorem run_wrapped (c : Chain kinds ω V E W F) (i : Nat) (x : Expected kinds V E) (w : Ledger ω) :
    ((c.run i x w).1.content, (c.run i x w).2.state) = c.wrapped x.content w.state := by
  induction c generalizing i w with
  | nil => rfl
  | cons s rest ih =>
    obtain ⟨hcontent, hworld⟩ := s.run_spec i x w
    have hrest := ih (i + 1) (s.run i x w).1 (s.run i x w).2
    rw [hcontent, hworld] at hrest
    rw [run_cons, hworld, hrest]
    rfl

/-- A chain calls its own callables. -/
theorem exists_calls (c : Chain kinds ω V E W F) (i : Nat) (x : Expected kinds V E)
    (w : Ledger ω) : ∃ calls, (c.run i x w).2.calls = w.calls ++ calls ∧
      ∀ j ∈ calls, i ≤ j ∧ j < i + c.length := by
  induction c generalizing i w with
  | nil => exact ⟨[], (List.append_nil _).symm, by simp⟩
  | cons s rest ih =>
    obtain ⟨-, hworld⟩ := s.run_spec i x w
    obtain ⟨calls, hcalls, hmem⟩ := ih (i + 1) (s.run i x w).1 (s.run i x w).2
    refine ⟨(if s.actsOn x.content then [i] else []) ++ calls, ?_, ?_⟩
    · rw [run_cons, hcalls, hworld, List.append_assoc]
    · intro j hj
      have hlength : (Chain.cons s rest).length = rest.length + 1 := rfl
      rcases List.mem_append.mp hj with hj | hj
      · have hij : j = i := by
          split at hj
          · exact List.mem_singleton.mp hj
          · cases hj
        omega
      · have hrange := hmem j hj
        omega

/-! ## The laws of chains -/

/-- The chain and the fold give the same content and leave the callables in the same state. -/
def Folds (c : Chain kinds ω V E W F) (x : Expected kinds V E) (st : ω) : Prop :=
  ((c.run 0 x ⟨st, []⟩).1.content, (c.run 0 x ⟨st, []⟩).2.state) = c.fold x.content st

/-- Whichever overloads are called, content, state and calls are the same. -/
def OverloadsAgree (c : Chain kinds ω V E W F) (x : Expected kinds V E) (st : ω) : Prop :=
  ∀ q, ((c.requalify q 0).run 0 x ⟨st, []⟩).1.content = (c.run 0 x ⟨st, []⟩).1.content ∧
    ((c.requalify q 0).run 0 x ⟨st, []⟩).2 = (c.run 0 x ⟨st, []⟩).2

/-- So it is from every beginning of the chain to its end. -/
def IsRailway (c : Chain kinds ω V E W F) (x : Expected kinds V E) (st : ω) : Prop :=
  ∀ {U G : Element} (pre : Chain kinds ω V E U G) (post : Chain kinds ω U G W F),
    c = pre.append post → pre.Folds x st ∧ pre.OverloadsAgree x st

/-- The callable of each step is called exactly once when the running object is on its side as the
step is reached, and never otherwise; and there are no other calls. -/
def InvokesOnSide (c : Chain kinds ω V E W F) : Prop :=
  ∀ x st, (∀ j ∈ (c.run 0 x ⟨st, []⟩).2.calls, j < c.length) ∧
    ∀ {U G U' G' : Element} (pre : Chain kinds ω V E U G) (s : Step kinds ω U G U' G')
      (post : Chain kinds ω U' G' W F), c = pre.append (.cons s post) →
      (c.run 0 x ⟨st, []⟩).2.calls.count pre.length
        = if s.onValue = (pre.run 0 x ⟨st, []⟩).1.hasValue then 1 else 0

/-- Once the running object holds an error, no callable for values is called until an `or_else` is
reached. -/
def SkipsAfterError (c : Chain kinds ω V E W F) : Prop :=
  ∀ x st {U G U' G' U'' G'' : Element} (pre : Chain kinds ω V E U G) (mid : Chain kinds ω U G U' G')
    (s : Step kinds ω U' G' U'' G'') (post : Chain kinds ω U'' G'' W F),
    c = pre.append (mid.append (.cons s post)) →
    (pre.run 0 x ⟨st, []⟩).1.hasValue = false → mid.recovers = false → s.onValue = true →
    pre.length + mid.length ∉ (c.run 0 x ⟨st, []⟩).2.calls

theorem actsOn_content (s : Step kinds ω V E U G) (x : Expected kinds V E) :
    s.actsOn x.content = true ↔ s.onValue = x.hasValue := by
  rw [Step.actsOn, ← x.isLeft_content]
  cases s.onValue <;> cases x.content <;> simp

theorem invokesOnSide (c : Chain kinds ω V E W F) : c.InvokesOnSide := by
  intro x st
  constructor
  · intro j hj
    obtain ⟨calls, hcalls, hmem⟩ := c.exists_calls 0 x ⟨st, []⟩
    rw [hcalls] at hj
    have hrange := hmem j hj
    omega
  · intro U G U' G' pre s post hc
    obtain ⟨before, hbefore, hlt⟩ := pre.exists_calls 0 x ⟨st, []⟩
    obtain ⟨-, hworld⟩ := s.run_spec (0 + pre.length) (pre.run 0 x ⟨st, []⟩).1
      (pre.run 0 x ⟨st, []⟩).2
    obtain ⟨after, hafter, hgt⟩ := post.exists_calls (0 + pre.length + 1) _
      (s.run (0 + pre.length) (pre.run 0 x ⟨st, []⟩).1 (pre.run 0 x ⟨st, []⟩).2).2
    have hcalls : (c.run 0 x ⟨st, []⟩).2.calls = before ++
        (if s.actsOn (pre.run 0 x ⟨st, []⟩).1.content then [0 + pre.length] else []) ++ after := by
      rw [hc, run_append]
      refine hafter.trans ?_
      rw [hworld, hbefore]
      rfl
    have hnone_before : before.count pre.length = 0 := by
      rw [List.count_eq_zero]
      intro hj
      have hrange := hlt _ hj
      omega
    have hnone_after : after.count pre.length = 0 := by
      rw [List.count_eq_zero]
      intro hj
      have hrange := hgt _ hj
      omega
    rw [hcalls, List.count_append, List.count_append, hnone_before, hnone_after, Nat.zero_add]
    by_cases hside : s.onValue = (pre.run 0 x ⟨st, []⟩).1.hasValue
    · rw [if_pos ((actsOn_content s _).mpr hside), if_pos hside]
      simp
    · rw [if_neg (fun h => hside ((actsOn_content s _).mp h)), if_neg hside]
      simp

/-- Only `or_else` turns an error into a value. -/
theorem isLeft_fold_of_error (s : Step kinds ω V E U G) (hs : s.recovers = false) {c : V ⊕ E}
    (hc : c.isLeft = false) (st : ω) : (s.fold c st).1.isLeft = false := by
  cases c with
  | inl v => cases hc
  | inr e =>
    cases s with
    | andThen q f => rfl
    | transform q f => rfl
    | orElse q f => cases hs
    | transformError q f => rfl

theorem isLeft_wrap (g : Option RefQualifier) (d : U ⊕ G) : (wrap g d).isLeft = d.isLeft := by
  cases g with
  | none => rfl
  | some q => cases d <;> rfl

theorem hasValue_run_of_error (c : Chain kinds ω V E W F) (i : Nat) (x : Expected kinds V E)
    (w : Ledger ω) (hc : c.recovers = false) (hx : x.hasValue = false) :
    (c.run i x w).1.hasValue = false := by
  induction c generalizing i w with
  | nil => exact hx
  | cons s rest ih =>
    obtain ⟨hs, hrest⟩ := Bool.or_eq_false_iff.mp hc
    have hy : (s.run i x w).1.hasValue = false := by
      rw [← Expected.isLeft_content, (s.run_spec i x w).1, isLeft_wrap]
      exact isLeft_fold_of_error s hs (x.isLeft_content.trans hx) w.state
    rw [run_cons]
    exact ih (i + 1) (s.run i x w).1 (s.run i x w).2 hrest hy

theorem append_assoc (pre : Chain kinds ω V E U G) {U' G' : Element} (mid : Chain kinds ω U G U' G')
    (post : Chain kinds ω U' G' W F) :
    pre.append (mid.append post) = (pre.append mid).append post := by
  induction pre with
  | nil => rfl
  | cons s rest ih => exact congrArg (Chain.cons s) (ih mid)

theorem skipsAfterError (c : Chain kinds ω V E W F) : c.SkipsAfterError := by
  intro x st U G U' G' U'' G'' pre mid s post hc hpre hmid hs
  rw [append_assoc] at hc
  have hcount := (c.invokesOnSide x st).2 (pre.append mid) s post hc
  have herror : ((pre.append mid).run 0 x ⟨st, []⟩).1.hasValue = false := by
    rw [run_append]
    exact hasValue_run_of_error mid _ _ _ hmid hpre
  rw [herror, hs, length_append] at hcount
  exact List.count_eq_zero.mp hcount

/-! ## What braces keep -/

end Chain

/-- Braces keep what the new object is given, whichever overload gives it. -/
def Step.Keeps (c : V ⊕ E) (st : ω) (s : Step kinds ω V E U G) : Prop :=
  ∀ q, wrap ((s.requalify q).givenAs c) (s.fold c st).1 = (s.fold c st).1

theorem Step.fold_requalify (s : Step kinds ω V E U G) (q : RefQualifier) (c : V ⊕ E) :
    (s.requalify q).fold c = s.fold c := by
  cases s <;> rfl

theorem Step.actsOn_requalify (s : Step kinds ω V E U G) (q : RefQualifier) (c : V ⊕ E) :
    (s.requalify q).actsOn c = s.actsOn c := by
  cases s <;> rfl

theorem Step.requalify_requalify (s : Step kinds ω V E U G) (q r : RefQualifier) :
    (s.requalify q).requalify r = s.requalify r := by
  cases s <;> rfl

/-- The overload that is called is one of them. -/
theorem Step.Keeps.wrap_eq {s : Step kinds ω V E U G} {c : V ⊕ E} {st : ω} (h : s.Keeps c st) :
    wrap (s.givenAs c) (s.fold c st).1 = (s.fold c st).1 := by
  cases s with
  | andThen q f => exact h q
  | transform q f => exact h q
  | orElse q f => exact h q
  | transformError q f => exact h q

theorem Step.Keeps.requalify {s : Step kinds ω V E U G} {c : V ⊕ E} {st : ω} (h : s.Keeps c st)
    (q : RefQualifier) : (s.requalify q).Keeps c st := by
  intro r
  rw [s.requalify_requalify, s.fold_requalify]
  exact h r

namespace Chain

/-- Braces keep what each new object is given along the fold. -/
def Keeps : {V E W F : Element} → V ⊕ E → ω → Chain kinds ω V E W F → Prop
  | _, _, _, _, _, _, .nil => True
  | _, _, _, _, c, st, .cons s rest => s.Keeps c st ∧ rest.Keeps (s.fold c st).1 (s.fold c st).2

theorem wrapped_cons (s : Step kinds ω V E U G) (rest : Chain kinds ω U G W F) (c : V ⊕ E)
    (st : ω) : (cons s rest).wrapped c st
      = rest.wrapped (wrap (s.givenAs c) (s.fold c st).1) (s.fold c st).2 :=
  rfl

theorem fold_cons (s : Step kinds ω V E U G) (rest : Chain kinds ω U G W F) (c : V ⊕ E) (st : ω) :
    (cons s rest).fold c st = rest.fold (s.fold c st).1 (s.fold c st).2 :=
  rfl

theorem requalify_cons (s : Step kinds ω V E U G) (rest : Chain kinds ω U G W F)
    (q : Nat → RefQualifier) (i : Nat) :
    (cons s rest).requalify q i = cons (s.requalify (q i)) (rest.requalify q (i + 1)) :=
  rfl

/-- Then the chain folds. -/
theorem wrapped_of_keeps (c : Chain kinds ω V E W F) {d : V ⊕ E} {st : ω} (h : c.Keeps d st) :
    c.wrapped d st = c.fold d st := by
  induction c generalizing st with
  | nil => rfl
  | cons s rest ih =>
    rw [wrapped_cons, fold_cons, h.1.wrap_eq]
    exact ih h.2

/-- And the overloads agree, on two objects that hold the same. -/
theorem run_requalify (q : Nat → RefQualifier) (c : Chain kinds ω V E W F) (i : Nat)
    {x x' : Expected kinds V E} (hx : x.content = x'.content) {w : Ledger ω}
    (h : c.Keeps x.content w.state) :
    ((c.requalify q i).run i x w).1.content = (c.run i x' w).1.content ∧
      ((c.requalify q i).run i x w).2 = (c.run i x' w).2 := by
  induction c generalizing i w with
  | nil => exact ⟨hx, rfl⟩
  | cons s rest ih =>
    obtain ⟨hcontent, hworld⟩ := (s.requalify (q i)).run_spec i x w
    obtain ⟨hcontent', hworld'⟩ := s.run_spec i x' w
    rw [(h.1.requalify (q i)).wrap_eq, s.fold_requalify] at hcontent
    rw [← hx, h.1.wrap_eq] at hcontent'
    rw [s.fold_requalify, s.actsOn_requalify] at hworld
    rw [← hx] at hworld'
    have hworlds : ((s.requalify (q i)).run i x w).2 = (s.run i x' w).2 :=
      hworld.trans hworld'.symm
    have hrest : rest.Keeps ((s.requalify (q i)).run i x w).1.content
        ((s.requalify (q i)).run i x w).2.state := by
      rw [hcontent, hworld]
      exact h.2
    rw [requalify_cons, run_cons, run_cons, ← hworlds]
    exact ih (i + 1) (hcontent.trans hcontent'.symm) hrest

theorem keeps_of_append {pre : Chain kinds ω V E U G} {post : Chain kinds ω U G W F} {d : V ⊕ E}
    {st : ω} (h : (pre.append post).Keeps d st) : pre.Keeps d st := by
  induction pre generalizing st with
  | nil => trivial
  | cons s rest ih => exact ⟨h.1, ih h.2⟩

/-- Conversely, each step shows in the beginning that ends with it. -/
theorem keeps_of_folds (c : Chain kinds ω V E W F) (i : Nat) {d : V ⊕ E} {st : ω}
    (h : ∀ {U G : Element} (pre : Chain kinds ω V E U G) (post : Chain kinds ω U G W F),
      c = pre.append post → ∀ q, (pre.requalify q i).wrapped d st = pre.fold d st) :
    c.Keeps d st := by
  induction c generalizing i st with
  | nil => trivial
  | cons s rest ih =>
    have hs : s.Keeps d st := by
      intro q
      have hfirst := h (cons s nil) rest rfl fun _ => q
      rw [requalify_cons, wrapped_cons, s.fold_requalify] at hfirst
      exact congrArg Prod.fst hfirst
    refine ⟨hs, ih (i + 1) fun pre post hrest q => ?_⟩
    have hpre := h (cons s pre) post (congrArg (cons s) hrest) q
    rwa [requalify_cons, wrapped_cons, (hs.requalify (q i)).wrap_eq, s.fold_requalify] at hpre

/-- **When a chain is a railway.** -/
theorem isRailway_iff (c : Chain kinds ω V E W F) (x : Expected kinds V E) (st : ω) :
    c.IsRailway x st ↔ c.Keeps x.content st := by
  constructor
  · intro hlaw
    refine c.keeps_of_folds 0 fun pre post hc q => ?_
    obtain ⟨hfolds, hagree⟩ := hlaw pre post hc
    obtain ⟨hcontent, hworld⟩ := hagree q
    rw [← hfolds, ← hcontent, ← hworld]
    exact ((pre.requalify q 0).run_wrapped 0 x ⟨st, []⟩).symm
  · rintro hkeeps U G pre post rfl
    have hpre : pre.Keeps x.content st := keeps_of_append hkeeps
    exact ⟨(pre.run_wrapped 0 x ⟨st, []⟩).trans (pre.wrapped_of_keeps hpre),
      fun q => pre.run_requalify q 0 rfl hpre⟩

end Chain

/-! ## The laws of the combinators -/

/-- On elements of some types, `and_then` is associative with the value constructor as its unit;
`transform` and `transform_error` compose, and commute with each other. All up to contents and
whichever overloads are called, with the callables' effects on their state and in their order. -/
structure CombinatorLaws (kinds : Kinds) (ω : Type) (𝒯 : Element → Prop) : Prop where
  assoc : ∀ {V E U W : Element}, 𝒯 V → 𝒯 E → 𝒯 U → 𝒯 W →
    ∀ (q q' r r' : RefQualifier) (x : Expected kinds V E)
    (f : V → StateM ω (Expected kinds U E)) (g : U → StateM ω (Expected kinds W E)),
    Expected.content <$> (x.andThen q f >>= fun y => y.andThen q' g)
      = Expected.content <$> x.andThen r (fun v => f v >>= fun y => y.andThen r' g)
  left_unit : ∀ {V E U : Element}, 𝒯 V → 𝒯 E → 𝒯 U →
    ∀ (q r : RefQualifier) (v : V) (f : V → StateM ω (Expected kinds U E)),
    Expected.content <$> (Expected.inPlace r v : Expected kinds V E).andThen q f
      = Expected.content <$> f v
  right_unit : ∀ {V E : Element}, 𝒯 V → 𝒯 E → ∀ (q r : RefQualifier) (x : Expected kinds V E),
    Expected.content <$> x.andThen q (fun v => (pure (.inPlace r v) : StateM ω _)) = pure x.content
  transform_comp : ∀ {V E U W : Element}, 𝒯 V → 𝒯 E → 𝒯 U → 𝒯 W →
    ∀ (q q' r : RefQualifier) (x : Expected kinds V E) (f : V → StateM ω U) (g : U → StateM ω W),
    Expected.content <$> (x.transform q f >>= fun y => y.transform q' g)
      = Expected.content <$> x.transform r (fun v => f v >>= g)
  transformError_comp : ∀ {V E G F : Element}, 𝒯 V → 𝒯 E → 𝒯 G → 𝒯 F →
    ∀ (q q' r : RefQualifier) (x : Expected kinds V E) (f : E → StateM ω G) (g : G → StateM ω F),
    Expected.content <$> (x.transformError q f >>= fun y => y.transformError q' g)
      = Expected.content <$> x.transformError r (fun e => f e >>= g)
  transform_comm : ∀ {V E U G : Element}, 𝒯 V → 𝒯 E → 𝒯 U → 𝒯 G →
    ∀ (q q' r r' : RefQualifier) (x : Expected kinds V E) (f : V → StateM ω U)
    (g : E → StateM ω G),
    Expected.content <$> (x.transform q f >>= fun y => y.transformError q' g)
      = Expected.content <$> (x.transformError r g >>= fun y => y.transform r' f)

section Laws

variable {𝒯 : Element → Prop}

theorem combinatorLaws (kinds : Kinds) (ω : Type) (hplain : ∀ T, 𝒯 T → T.Plain) :
    CombinatorLaws kinds ω 𝒯 where
  assoc _ hE _ _ q q' r r' x f g := x.andThen_assoc q q' r r' (hplain _ hE) f g
  left_unit hV _ _ q r v f := Expected.inPlace_andThen q r (hplain _ hV) v f
  right_unit hV hE q r x := x.andThen_inPlace q r (hplain _ hV) (hplain _ hE)
  transform_comp _ hE hU hW q q' r x f g :=
    x.transform_transform q q' r (hplain _ hE) (hplain _ hU) (hplain _ hW) f g
  transformError_comp hV _ hG hF q q' r x f g :=
    x.transformError_transformError q q' r (hplain _ hV) (hplain _ hG) (hplain _ hF) f g
  transform_comm hV hE hU hG q q' r r' x f g :=
    x.transform_transformError q q' r r' (hplain _ hV) (hplain _ hE) (hplain _ hU) (hplain _ hG) f g

/-- The unit law alone tells what braces do. -/
theorem CombinatorLaws.plain (h : CombinatorLaws kinds Unit 𝒯) {T : Element} (hT : 𝒯 T) :
    T.Plain := by
  intro r t
  have hunit := h.right_unit hT hT .lvalue r (.ofValue t)
  rw [Expected.content_andThen, Expected.content_ofValue] at hunit
  have hcontent := congrArg (fun p : StateM Unit (T ⊕ T) => (p ()).1) hunit
  have hplaced : (.inPlace r t : Expected kinds T T).content = .inl (T.braces r t) :=
    Expected.content_inPlace r t
  exact Sum.inl.inj (hplaced.symm.trans hcontent)

end Laws

/-- **The railway law.** Each callable is called exactly once when the running object is on its
side, and after an error none for values until an `or_else`. From an object and a state, a chain and
each of its beginnings is the fold over the sum, by whichever overloads, exactly when braces keep
what each new object is given along the fold. And the laws of the combinators hold on elements of
some types exactly when braces change none of these. -/
theorem railway_iff (kinds : Kinds) :
    (∀ {ω : Type} {V E W F : Element} (c : Chain kinds ω V E W F),
      c.InvokesOnSide ∧ c.SkipsAfterError ∧
      ∀ x st, c.IsRailway x st ↔ c.Keeps x.content st) ∧
    ∀ 𝒯 : Element → Prop, (∀ ω, CombinatorLaws kinds ω 𝒯) ↔ ∀ T, 𝒯 T → T.Plain := by
  constructor
  · intro ω V E W F c
    exact ⟨c.invokesOnSide, c.skipsAfterError, c.isRailway_iff⟩
  · intro 𝒯
    constructor
    · intro hlaws T hT
      exact (hlaws Unit).plain hT
    · intro hplain ω
      exact combinatorLaws kinds ω hplain

/-! ## A type that braces change -/

/-- What an `std::any` may hold. -/
inductive Any where
  | int (n : Int)
  | vector (elems : List Any)

/-- `std::vector<std::any>`. A vector in braces is the only element of a new vector. -/
def vectorOfAny : Element where
  type := List Any
  braces _ t := [.vector t]

/-- The general storage, of types whose moves do not throw. -/
def generalStorage : Kinds := fun _ _ =>
  .eUnion ⟨true, true, false, false, false, false, false, id⟩ (.trivial _)

/-- `x.or_else(f)` -/
def recovered : Chain generalStorage Unit vectorOfAny (.plain Int) vectorOfAny (.plain Int) :=
  .cons (.orElse .lvalue fun _ => pure (.inPlace .rvalue [])) .nil

/-- A vector is passed on by `or_else`, and it is the element of another vector then. -/
theorem not_isRailway_vectorOfAny :
    (recovered.run 0 (.ofValue [.int 1]) ⟨(), []⟩).1.content = .inl [.vector [.int 1]] ∧
    (recovered.fold (.inl [.int 1]) ()).1 = .inl [.int 1] ∧
    ¬ recovered.Folds (.ofValue [.int 1]) () := by
  refine ⟨rfl, rfl, fun hfolds => ?_⟩
  cases congrArg Prod.fst hfolds

end Hy.Tiny

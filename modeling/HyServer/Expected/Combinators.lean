import HyServer.Cpp.Contents
import HyServer.Expected.Assign
import HyServer.Railway.Tracks

/-!
# hy::expected — the four combinators

`and_then`, `transform`, `or_else` and `transform_error`, each with its four overloads, on objects
of any of the three storages. They differ from overload to overload in what they `std::move`. What
they put into a new `expected`, they put there in braces: `val_{...}` or `unex_{...}`.

* `Element` — a type, with what braces make of an element of it.
* `Expected` — an `expected` between operations: a storage in one of the states `Layout.Holds`
  describes. `content` is what it holds.
* `content_andThen`, `content_transform`, `content_orElse`, `content_transformError` — on contents,
  every overload acts on its own side of the sum `V ⊕ E` and passes the other on, in braces.
* `andThen_assoc` and the laws after it — the algebra of the combinators, where braces change
  nothing.
-/

namespace Hy.Tiny

open Cpp Railway

/-! ## Elements -/

/-- The ref-qualifier of an overload, and the reference that it hands an element on as. -/
inductive RefQualifier where
  | lvalue
  | constLvalue
  | rvalue
  | constRvalue
  deriving DecidableEq, Repr

/-- How an overload hands on `value()` and `error()`: the last two `std::move` them. -/
def RefQualifier.category : RefQualifier → ValueCategory
  | .lvalue => .lvalue
  | .constLvalue => .lvalue
  | .rvalue => .rvalue
  | .constRvalue => .rvalue

/-- An element type `T`, and the element `T{t}`, by the reference that `t` is. It is not `t` where a
constructor from an `std::initializer_list` comes first. -/
structure Element where
  type : Type
  braces : RefQualifier → type → type

instance : CoeSort Element Type := ⟨Element.type⟩

/-- A type whose elements are not changed by braces. -/
def Element.Plain (T : Element) : Prop :=
  ∀ (q : RefQualifier) (t : T), T.braces q t = t

/-- A scalar, or a class without a constructor from an `std::initializer_list`. -/
abbrev Element.plain (T : Type) : Element where
  type := T
  braces _ t := t

/-- `getExpectedStorageType<V, E>()`, with what the storage knows of its element types. -/
abbrev Kinds := (V E : Element) → Kind V E

/-! ## Objects -/

namespace Kind

variable {V E : Type}

/-- The storage of one object before its constructor runs. -/
def raw : (k : Kind V E) → k.Mem
  | .eUnion _ _ => (Objects.empty false : Heap V E)
  | .ePODUnion _ _ => (⟨fun _ => false, fun _ _ => 0, fun _ _ => 0⟩ : PodUnions)
  | .ePODStruct => (⟨fun _ => false, fun _ => none, fun _ => none⟩ : PodStructs V E)

theorem vacant_raw (k : Kind V E) (b : Bool) :
    (k.layout 0).val.vacant ((k.layout 0).setHasVal b k.raw) = true ∧
    (k.layout 0).unex.vacant ((k.layout 0).setHasVal b k.raw) = true := by
  cases k with
  | eUnion tv te => exact ⟨rfl, rfl⟩
  | ePODUnion pv pe => exact ⟨rfl, rfl⟩
  | ePODStruct => exact ⟨rfl, rfl⟩

end Kind

/-- An `expected<V, E>` between operations. It is the object number 0 of a memory of its own. -/
structure Expected (kinds : Kinds) (V E : Element) where
  mem : (kinds V E).Mem
  wellFormed : ∃ x, ((kinds V E).layout 0).Holds mem x

namespace Expected

variable {kinds : Kinds} {V E : Element}

/-! ## Constructors -/

/-- An object with the value `v`. -/
def ofValue (v : V) : Expected kinds V E where
  mem := ((kinds V E).layout 0).val.write v (((kinds V E).layout 0).setHasVal true (kinds V E).raw)
  wellFormed := by
    have hL := (kinds V E).lawful 0
    refine ⟨.inl v, ?_, hL.val.alive_write _ _, hL.val.read_write _ _, ?_⟩
    · rw [hL.hasVal_writeVal, hL.hasVal_set]
    · rw [hL.unex_vacant_writeVal]
      exact ((kinds V E).vacant_raw true).2

/-- An object with the error `e`. -/
def ofError (e : E) : Expected kinds V E where
  mem :=
    ((kinds V E).layout 0).unex.write e (((kinds V E).layout 0).setHasVal false (kinds V E).raw)
  wellFormed := by
    have hL := (kinds V E).lawful 0
    refine ⟨.inr e, ?_, hL.unex.alive_write _ _, hL.unex.read_write _ _, ?_⟩
    · rw [hL.hasVal_writeUnex, hL.hasVal_set]
    · rw [hL.val_vacant_writeUnex]
      exact ((kinds V E).vacant_raw false).1

/-- `expected(std::in_place, v)`, and `expected(U&&)`, which initializes the same member: `val_{v}`,
of a `v` that is a reference `q`. -/
def inPlace (q : RefQualifier) (v : V) : Expected kinds V E :=
  ofValue (V.braces q v)

/-- `expected(hy::unexpect, e)`, with `unex_{e}`. -/
def unexpect (q : RefQualifier) (e : E) : Expected kinds V E :=
  ofError (E.braces q e)

/-! ## Observers -/

section Observers

variable (x : Expected kinds V E)

/-- `has_value()` -/
def hasValue : Bool :=
  ((kinds V E).layout 0).hasVal x.mem

theorem isSome_value (h : x.hasValue = true) :
    (((kinds V E).layout 0).val.read x.mem).isSome = true := by
  obtain ⟨c, hc⟩ := x.wellFormed
  cases c with
  | inl v => rw [hc.2.2.1]; rfl
  | inr e => exact absurd h (by rw [hasValue, hc.1]; decide)

theorem isSome_error (h : x.hasValue = false) :
    (((kinds V E).layout 0).unex.read x.mem).isSome = true := by
  obtain ⟨c, hc⟩ := x.wellFormed
  cases c with
  | inl v => exact absurd h (by rw [hasValue, hc.1]; decide)
  | inr e => rw [hc.2.2.1]; rfl

/-- `value()`, where its check passes. -/
def value (h : x.hasValue = true) : V :=
  (((kinds V E).layout 0).val.read x.mem).get (x.isSome_value h)

/-- `error()`, where there is one. -/
def error (h : x.hasValue = false) : E :=
  (((kinds V E).layout 0).unex.read x.mem).get (x.isSome_error h)

/-- What the object holds. -/
def content : V ⊕ E :=
  if h : x.hasValue then .inl (x.value h) else .inr (x.error (Bool.eq_false_iff.mpr h))

/-- What `value()` initializes or is passed on as, `std::move`d or not. -/
def forwardValue (q : RefQualifier) (h : x.hasValue = true) : V :=
  ((Init.forward (kinds V E).valType ((kinds V E).layout 0).val q.category).run x.mem).get
    (by cases q <;> simp [RefQualifier.category, Init.forward, Init.copy, Init.move,
          x.isSome_value h]) |>.1

/-- What `error()` initializes or is passed on as, `std::move`d or not. -/
def forwardError (q : RefQualifier) (h : x.hasValue = false) : E :=
  ((Init.forward (kinds V E).unexType ((kinds V E).layout 0).unex q.category).run x.mem).get
    (by cases q <;> simp [RefQualifier.category, Init.forward, Init.copy, Init.move,
          x.isSome_error h]) |>.1

end Observers

/-! ## The combinators -/

section Combinators

variable {M : Type → Type} [Monad M] {U G : Element}

/-- `and_then` -/
def andThen (q : RefQualifier) (x : Expected kinds V E) (f : V → M (Expected kinds U E)) :
    M (Expected kinds U E) :=
  if h : x.hasValue then
    f (x.forwardValue q h)
  else
    pure (unexpect q (x.forwardError q (Bool.eq_false_iff.mpr h)))

/-- `transform`, of a callable that returns something. What it returns is a temporary. -/
def transform (q : RefQualifier) (x : Expected kinds V E) (f : V → M U) :
    M (Expected kinds U E) :=
  if h : x.hasValue then do
    let u ← f (x.forwardValue q h)
    return inPlace .rvalue u
  else
    pure (unexpect q (x.forwardError q (Bool.eq_false_iff.mpr h)))

/-- `or_else` -/
def orElse (q : RefQualifier) (x : Expected kinds V E) (f : E → M (Expected kinds V G)) :
    M (Expected kinds V G) :=
  if h : x.hasValue then
    pure (inPlace q (x.forwardValue q h))
  else
    f (x.forwardError q (Bool.eq_false_iff.mpr h))

/-- `transform_error` -/
def transformError (q : RefQualifier) (x : Expected kinds V E) (f : E → M G) :
    M (Expected kinds V G) :=
  if h : x.hasValue then
    pure (inPlace q (x.forwardValue q h))
  else do
    let g ← f (x.forwardError q (Bool.eq_false_iff.mpr h))
    return unexpect .rvalue g

end Combinators

/-! ## Contents -/

section Contents

theorem content_of_true (x : Expected kinds V E) (h : x.hasValue = true) :
    x.content = .inl (x.value h) :=
  dif_pos h

theorem content_of_false (x : Expected kinds V E) (h : x.hasValue = false) :
    x.content = .inr (x.error h) :=
  dif_neg (Bool.eq_false_iff.mp h)

theorem isLeft_content (x : Expected kinds V E) : x.content.isLeft = x.hasValue := by
  cases h : x.hasValue with
  | true =>
    rw [x.content_of_true h]
    rfl
  | false =>
    rw [x.content_of_false h]
    rfl

/-- A moved element and a copied one are the same. -/
theorem forwardValue_eq (x : Expected kinds V E) (q : RefQualifier) (h : x.hasValue = true) :
    x.forwardValue q h = x.value h := by
  cases q <;> simp [forwardValue, value, RefQualifier.category, Init.forward, Init.copy, Init.move]

theorem forwardError_eq (x : Expected kinds V E) (q : RefQualifier) (h : x.hasValue = false) :
    x.forwardError q h = x.error h := by
  cases q <;> simp [forwardError, error, RefQualifier.category, Init.forward, Init.copy, Init.move]

theorem hasValue_ofValue (v : V) : (ofValue v : Expected kinds V E).hasValue = true := by
  have hL := (kinds V E).lawful 0
  show ((kinds V E).layout 0).hasVal (((kinds V E).layout 0).val.write v _) = true
  rw [hL.hasVal_writeVal, hL.hasVal_set]

theorem hasValue_ofError (e : E) : (ofError e : Expected kinds V E).hasValue = false := by
  have hL := (kinds V E).lawful 0
  show ((kinds V E).layout 0).hasVal (((kinds V E).layout 0).unex.write e _) = false
  rw [hL.hasVal_writeUnex, hL.hasVal_set]

@[simp] theorem content_ofValue (v : V) : (ofValue v : Expected kinds V E).content = .inl v := by
  rw [content_of_true _ (hasValue_ofValue v)]
  have hread : ((kinds V E).layout 0).val.read (ofValue v : Expected kinds V E).mem = some v :=
    ((kinds V E).lawful 0).val.read_write _ _
  simp [value, hread]

@[simp] theorem content_ofError (e : E) : (ofError e : Expected kinds V E).content = .inr e := by
  rw [content_of_false _ (hasValue_ofError e)]
  have hread : ((kinds V E).layout 0).unex.read (ofError e : Expected kinds V E).mem = some e :=
    ((kinds V E).lawful 0).unex.read_write _ _
  simp [error, hread]

@[simp] theorem content_inPlace (q : RefQualifier) (v : V) :
    (inPlace q v : Expected kinds V E).content = .inl (V.braces q v) :=
  content_ofValue _

@[simp] theorem content_unexpect (q : RefQualifier) (e : E) :
    (unexpect q e : Expected kinds V E).content = .inr (E.braces q e) :=
  content_ofError _

end Contents

section Laws

variable {M : Type → Type} [Monad M] {U G : Element} (q : RefQualifier) (x : Expected kinds V E)

theorem andThen_of_true (f : V → M (Expected kinds U E)) (h : x.hasValue = true) :
    x.andThen q f = f (x.value h) := by
  rw [andThen, dif_pos h, forwardValue_eq]

theorem andThen_of_false (f : V → M (Expected kinds U E)) (h : x.hasValue = false) :
    x.andThen q f = pure (unexpect q (x.error h)) := by
  rw [andThen, dif_neg (Bool.eq_false_iff.mp h), forwardError_eq]

theorem transform_of_true (f : V → M U) (h : x.hasValue = true) :
    x.transform q f = f (x.value h) >>= fun u => pure (inPlace .rvalue u) := by
  rw [transform, dif_pos h, forwardValue_eq]

theorem transform_of_false (f : V → M U) (h : x.hasValue = false) :
    x.transform q f = pure (unexpect q (x.error h)) := by
  rw [transform, dif_neg (Bool.eq_false_iff.mp h), forwardError_eq]

theorem orElse_of_true (f : E → M (Expected kinds V G)) (h : x.hasValue = true) :
    x.orElse q f = pure (inPlace q (x.value h)) := by
  rw [orElse, dif_pos h, forwardValue_eq]

theorem orElse_of_false (f : E → M (Expected kinds V G)) (h : x.hasValue = false) :
    x.orElse q f = f (x.error h) := by
  rw [orElse, dif_neg (Bool.eq_false_iff.mp h), forwardError_eq]

theorem transformError_of_true (f : E → M G) (h : x.hasValue = true) :
    x.transformError q f = pure (inPlace q (x.value h)) := by
  rw [transformError, dif_pos h, forwardValue_eq]

theorem transformError_of_false (f : E → M G) (h : x.hasValue = false) :
    x.transformError q f = f (x.error h) >>= fun g => pure (unexpect .rvalue g) := by
  rw [transformError, dif_neg (Bool.eq_false_iff.mp h), forwardError_eq]

/-! ## On contents -/

variable [LawfulMonad M]

theorem content_andThen (f : V → M (Expected kinds U E)) :
    content <$> x.andThen q f =
      x.content.elim (fun v => content <$> f v) fun e => pure (.inr (E.braces q e)) := by
  cases h : x.hasValue with
  | true =>
    rw [x.andThen_of_true q f h, x.content_of_true h]
    rfl
  | false =>
    rw [x.andThen_of_false q f h, x.content_of_false h, map_pure, content_unexpect]
    rfl

theorem content_transform (f : V → M U) :
    content <$> x.transform q f =
      x.content.elim (fun v => (fun u => .inl (U.braces .rvalue u)) <$> f v)
        fun e => pure (.inr (E.braces q e)) := by
  cases h : x.hasValue with
  | true =>
    rw [x.transform_of_true q f h, x.content_of_true h, map_bind]
    show (f (x.value h) >>= fun u => content <$> pure (inPlace .rvalue u))
      = (fun u => Sum.inl (U.braces .rvalue u)) <$> f (x.value h)
    simp only [map_pure, content_inPlace, bind_pure_comp]
  | false =>
    rw [x.transform_of_false q f h, x.content_of_false h, map_pure, content_unexpect]
    rfl

theorem content_orElse (f : E → M (Expected kinds V G)) :
    content <$> x.orElse q f =
      x.content.elim (fun v => pure (.inl (V.braces q v))) fun e => content <$> f e := by
  cases h : x.hasValue with
  | true =>
    rw [x.orElse_of_true q f h, x.content_of_true h, map_pure, content_inPlace]
    rfl
  | false =>
    rw [x.orElse_of_false q f h, x.content_of_false h]
    rfl

theorem content_transformError (f : E → M G) :
    content <$> x.transformError q f =
      x.content.elim (fun v => pure (.inl (V.braces q v)))
        fun e => (fun g => .inr (G.braces .rvalue g)) <$> f e := by
  cases h : x.hasValue with
  | true =>
    rw [x.transformError_of_true q f h, x.content_of_true h, map_pure, content_inPlace]
    rfl
  | false =>
    rw [x.transformError_of_false q f h, x.content_of_false h, map_bind]
    show (f (x.error h) >>= fun g => content <$> pure (unexpect .rvalue g))
      = (fun g => Sum.inr (G.braces .rvalue g)) <$> f (x.error h)
    simp only [map_pure, content_unexpect, bind_pure_comp]

/-! ## Where braces change nothing -/

theorem onLeft_content (hE : E.Plain) (f : V → M (Expected kinds U E)) :
    content <$> x.andThen q f = onLeft (fun v => content <$> f v) x.content := by
  rw [content_andThen]
  cases x.content with
  | inl v => rfl
  | inr e => exact congrArg (fun e => pure (Sum.inr e)) (hE q e)

theorem mapLeft_content (hE : E.Plain) (hU : U.Plain) (f : V → M U) :
    content <$> x.transform q f = mapLeft f x.content := by
  rw [content_transform]
  cases x.content with
  | inl v =>
    simp only [hU .rvalue]
    rfl
  | inr e => exact congrArg (fun e => pure (Sum.inr e)) (hE q e)

theorem mapRight_content (hV : V.Plain) (hG : G.Plain) (f : E → M G) :
    content <$> x.transformError q f = mapRight f x.content := by
  rw [content_transformError]
  cases x.content with
  | inl v => exact congrArg (fun v => pure (Sum.inl v)) (hV q v)
  | inr e =>
    simp only [hG .rvalue]
    rfl

variable {W F : Element} (q' r r' : RefQualifier)

theorem content_bind {p : M (Expected kinds V E)} {k : Expected kinds V E → M (Expected kinds U G)}
    {k' : V ⊕ E → M (U ⊕ G)} (h : ∀ y, content <$> k y = k' y.content) :
    content <$> (p >>= k) = (content <$> p) >>= k' := by
  rw [map_bind, bind_map_left]
  exact bind_congr h

/-- **`and_then` is associative**, whichever overloads are called. -/
theorem andThen_assoc (hE : E.Plain) (f : V → M (Expected kinds U E))
    (g : U → M (Expected kinds W E)) :
    content <$> (x.andThen q f >>= fun y => y.andThen q' g)
      = content <$> x.andThen r (fun v => f v >>= fun y => y.andThen r' g) := by
  rw [content_bind fun y => y.onLeft_content q' hE g, onLeft_content _ _ hE, onLeft_content _ _ hE,
    onLeft_bind]
  congr 1
  funext v
  rw [content_bind fun y => y.onLeft_content r' hE g]

theorem inPlace_andThen (hV : V.Plain) (v : V) (f : V → M (Expected kinds U E)) :
    content <$> (inPlace r v : Expected kinds V E).andThen q f = content <$> f v := by
  rw [content_andThen, content_inPlace, hV r v]
  rfl

theorem andThen_inPlace (hV : V.Plain) (hE : E.Plain) :
    content <$> x.andThen q (fun v => (pure (inPlace r v) : M _)) = pure x.content := by
  rw [onLeft_content _ _ hE]
  simp only [map_pure, content_inPlace, hV r]
  exact onLeft_pure x.content

theorem transform_transform (hE : E.Plain) (hU : U.Plain) (hW : W.Plain) (f : V → M U)
    (g : U → M W) :
    content <$> (x.transform q f >>= fun y => y.transform q' g)
      = content <$> x.transform r (fun v => f v >>= g) := by
  rw [content_bind fun y => y.mapLeft_content q' hE hW g, mapLeft_content _ _ hE hU,
    mapLeft_content _ _ hE hW, mapLeft_bind]

theorem transformError_transformError (hV : V.Plain) (hG : G.Plain) (hF : F.Plain) (f : E → M G)
    (g : G → M F) :
    content <$> (x.transformError q f >>= fun y => y.transformError q' g)
      = content <$> x.transformError r (fun e => f e >>= g) := by
  rw [content_bind fun y => y.mapRight_content q' hV hF g, mapRight_content _ _ hV hG,
    mapRight_content _ _ hV hF, mapRight_bind]

theorem transform_transformError (hV : V.Plain) (hE : E.Plain) (hU : U.Plain) (hG : G.Plain)
    (f : V → M U) (g : E → M G) :
    content <$> (x.transform q f >>= fun y => y.transformError q' g)
      = content <$> (x.transformError r g >>= fun y => y.transform r' f) := by
  rw [content_bind fun y => y.mapRight_content q' hU hG g,
    content_bind fun y => y.mapLeft_content r' hG hU f, mapLeft_content _ _ hE hU,
    mapRight_content _ _ hV hG, mapLeft_mapRight]

end Laws

end Expected

end Hy.Tiny

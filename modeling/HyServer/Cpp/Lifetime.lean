import Mathlib.Data.List.Count
import Mathlib.Data.List.Induction
import HyServer.Cpp.Logic

/-!
# Cpp — element lifetimes

What a program does to the lifetimes of its elements, apart from their values.

* `replay l log` reruns the log at one place: no element yet, then births and deaths in turn. It
  is `none` as soon as two births or two deaths follow each other, so `some b` says that every
  element constructed at `l` has been destroyed exactly once, save the last one when `b`.
* A `LifeView` reads off a memory which places hold an element, and the program's own tags. A
  `Tracked` cell is one whose operations do to the view what their names say, and a `Steady`
  initializer is one that leaves the view as it is.
* `Lives` is the assertion these specs are about: the view, the log and the schedule of a machine.
-/

namespace Cpp

/-! ## Replaying the log at one place -/

section Replay

variable {ℓ : Type} [DecidableEq ℓ]

/-- The effect of one event on the place `l`, which holds an element iff `b`. -/
def replayStep (l : ℓ) (b : Bool) : Event ℓ → Option Bool
  | .born l' => if l' = l then (if b then none else some true) else some b
  | .died l' => if l' = l then (if b then some false else none) else some b

def replay (l : ℓ) (log : List (Event ℓ)) : Option Bool :=
  log.foldlM (replayStep l) false

theorem replay_concat (l : ℓ) (log : List (Event ℓ)) (e : Event ℓ) :
    replay l (log ++ [e]) = (replay l log).bind fun b => replayStep l b e := by
  simp [replay, List.foldlM_append]

/-- One event: being born and dying are what changes whether there is one. -/
theorem count_of_replayStep {l : ℓ} {c b : Bool} {e : Event ℓ} (h : replayStep l c e = some b) :
    [e].count (.born l) + (if c then 1 else 0) = [e].count (.died l) + if b then 1 else 0 := by
  cases e with
  | born l' =>
    by_cases hl : l' = l
    · cases c <;> simp [replayStep, hl] at h
      subst h
      simp [hl]
    · simp [replayStep, hl] at h
      simp [hl, h]
  | died l' =>
    by_cases hl : l' = l
    · cases c <;> simp [replayStep, hl] at h
      subst h
      simp [hl]
    · simp [replayStep, hl] at h
      simp [hl, h]

/-- **Born as often as died, plus the one that is there.** Induction on the log, from its end. -/
theorem count_of_replay (l : ℓ) (log : List (Event ℓ)) :
    ∀ b, replay l log = some b →
      log.count (.born l) = log.count (.died l) + if b then 1 else 0 := by
  induction log using List.reverseRecOn with
  | nil =>
    intro b hb
    cases hb
    rfl
  | append_singleton log e ih =>
    intro b hb
    rw [replay_concat] at hb
    obtain ⟨c, hc, hstep⟩ := Option.bind_eq_some_iff.mp hb
    have hcount := ih c hc
    have hevent := count_of_replayStep hstep
    rw [List.count_append, List.count_append]
    omega

end Replay

/-! ## Views, cells and initializers -/

/-- What the lifetime rules see of a memory: which places hold an element, and the tags. -/
structure LifeView (σ ℓ φ : Type) where
  alive : σ → ℓ → Bool
  tags : σ → φ

section Steady

variable {σ ℓ φ T : Type}

/-- An initializer that reads at most the place `src` and keeps the view. -/
structure Steady (W : LifeView σ ℓ φ) (src : Option ℓ) (i : Init σ T) : Prop where
  ready : ∀ s, (∀ l ∈ src, W.alive s l = true) → ∃ t s', i.run s = some (t, s')
  alive_eq : ∀ {s t s'}, i.run s = some (t, s') → W.alive s' = W.alive s
  tags_eq : ∀ {s t s'}, i.run s = some (t, s') → W.tags s' = W.tags s

theorem steady_ofArg (W : LifeView σ ℓ φ) (c a : Bool) (t : T) :
    Steady W none (Init.ofArg c a t : Init σ T) where
  ready s _ := ⟨t, s, rfl⟩
  alive_eq h := by cases h; rfl
  tags_eq h := by cases h; rfl

theorem steady_moveLocal (W : LifeView σ ℓ φ) (ty : ElemType T) (t : T) :
    Steady W none (Init.moveLocal ty t : Init σ T) :=
  steady_ofArg W _ _ t

end Steady

section Tracked

variable {σ ℓ φ T : Type} [DecidableEq ℓ]

/-- A cell whose liveness is the view's at its own place, and whose operations change the view
there only. -/
structure Tracked (W : LifeView σ ℓ φ) (c : Cell σ ℓ T) : Prop where
  alive_eq : ∀ s, c.alive s = W.alive s c.loc
  vacant_eq : ∀ s, c.vacant s = !W.alive s c.loc
  read_isSome : ∀ s, (c.read s).isSome = W.alive s c.loc
  alive_write : ∀ t s, W.alive (c.write t s) = Function.update (W.alive s) c.loc true
  alive_erase : ∀ s, W.alive (c.erase s) = Function.update (W.alive s) c.loc false
  tags_write : ∀ t s, W.tags (c.write t s) = W.tags s
  tags_erase : ∀ s, W.tags (c.erase s) = W.tags s

theorem Tracked.exists_read {W : LifeView σ ℓ φ} {c : Cell σ ℓ T} (hc : Tracked W c) {s : σ}
    (halive : W.alive s c.loc = true) : ∃ t, c.read s = some t := by
  have hread := hc.read_isSome s
  rw [halive] at hread
  exact Option.isSome_iff_exists.mp hread

theorem Tracked.steady_copy {W : LifeView σ ℓ φ} {c : Cell σ ℓ T} (hc : Tracked W c)
    (ty : ElemType T) : Steady W (some c.loc) (Init.copy ty c) where
  ready s hs := by
    obtain ⟨t, ht⟩ := hc.exists_read (hs c.loc rfl)
    exact ⟨t, s, by simp [Init.copy, ht]⟩
  alive_eq h := by
    obtain ⟨t, _, ht⟩ := Option.map_eq_some_iff.mp h
    cases ht
    rfl
  tags_eq h := by
    obtain ⟨t, _, ht⟩ := Option.map_eq_some_iff.mp h
    cases ht
    rfl

/-- A move writes back into its source, which is there, so the view does not change. -/
theorem Tracked.steady_move {W : LifeView σ ℓ φ} {c : Cell σ ℓ T} (hc : Tracked W c)
    (ty : ElemType T) : Steady W (some c.loc) (Init.move ty c) where
  ready s hs := by
    obtain ⟨t, ht⟩ := hc.exists_read (hs c.loc rfl)
    exact ⟨t, c.write (ty.movedFrom t) s, by simp [Init.move, ht]⟩
  alive_eq {s} _ _ h := by
    obtain ⟨t, hread, ht⟩ := Option.map_eq_some_iff.mp h
    cases ht
    have halive := hc.read_isSome s
    rw [hread] at halive
    rw [hc.alive_write]
    exact Function.update_eq_self_iff.mpr halive
  tags_eq h := by
    obtain ⟨t, _, ht⟩ := Option.map_eq_some_iff.mp h
    cases ht
    exact hc.tags_write _ _

end Tracked

/-! ## The assertion and its rules -/

section Lives

variable {σ ℓ φ α T : Type} [DecidableEq ℓ]

/-- The machine's view is `a` and `g`, its log replays to exactly that, a local is open iff `b`,
and its schedule is `ts`. -/
structure Lives (W : LifeView σ ℓ φ) (b : Bool) (a : ℓ → Bool) (g : φ) (ts : List Bool)
    (m : Machine σ ℓ) : Prop where
  alive_eq : W.alive m.mem = a
  tags_eq : W.tags m.mem = g
  replay_place : ∀ l, replay (some l) m.log = some (a l)
  replay_local : replay none m.log = some b
  throws_eq : m.throws = ts

variable {W : LifeView σ ℓ φ} {b : Bool} {a : ℓ → Bool} {g : φ} {ts : List Bool}
  {m : Machine σ ℓ}

/-- What an event does at the place `p` it does at no other. -/
theorem replay_place_concat {log : List (Event (Option ℓ))} {p : ℓ} {e : Event (Option ℓ)}
    {v : Bool}
    (h : ∀ l, replay (some l) log = some (a l)) (hself : replayStep (some p) (a p) e = some v)
    (hother : ∀ l, p ≠ l → replayStep (some l) (a l) e = some (a l)) (l : ℓ) :
    replay (some l) (log ++ [e]) = some (Function.update a p v l) := by
  rw [replay_concat, h l, Option.bind_some]
  by_cases hl : p = l
  · subst hl
    rw [hself, Function.update_self]
  · rw [hother l hl, Function.update_of_ne (Ne.symm hl)]

/-- Evaluating a steady initializer keeps the assertion up to the schedule. -/
theorem Lives.eval {i : Init σ T} {src : Option ℓ} (hi : Steady W src i)
    (h : Lives W b a g ts m) {t : T} {s : σ} (hrun : i.run m.mem = some (t, s)) (ts' : List Bool) :
    Lives W b a g ts' { m with mem := s, throws := ts' } where
  alive_eq := by rw [hi.alive_eq hrun, h.alive_eq]
  tags_eq := by rw [hi.tags_eq hrun, h.tags_eq]
  replay_place := h.replay_place
  replay_local := h.replay_local
  throws_eq := rfl

theorem Lives.skip (h : Lives W b a g ts m) (ts' : List Bool) :
    Lives W b a g ts' { m with throws := ts' } where
  alive_eq := h.alive_eq
  tags_eq := h.tags_eq
  replay_place := h.replay_place
  replay_local := h.replay_local
  throws_eq := rfl

/-- The birth of an element at a place that held none. -/
theorem Lives.born {c : Cell σ ℓ T} (hc : Tracked W c) (h : Lives W b a g ts m)
    (hdead : a c.loc = false) (t : T) :
    Lives W b (Function.update a c.loc true) g ts
      { m with mem := c.write t m.mem, log := m.log ++ [.born (some c.loc)] } where
  alive_eq := by rw [hc.alive_write, h.alive_eq]
  tags_eq := by rw [hc.tags_write, h.tags_eq]
  replay_place :=
    replay_place_concat h.replay_place (by simp [replayStep, hdead]) fun l hl => by
      simp [replayStep, hl]
  replay_local := by simp [replay_concat, h.replay_local, replayStep]
  throws_eq := h.throws_eq

theorem Lives.died {c : Cell σ ℓ T} (hc : Tracked W c) (h : Lives W b a g ts m)
    (halive : a c.loc = true) :
    Lives W b (Function.update a c.loc false) g ts
      { m with mem := c.erase m.mem, log := m.log ++ [.died (some c.loc)] } where
  alive_eq := by rw [hc.alive_erase, h.alive_eq]
  tags_eq := by rw [hc.tags_erase, h.tags_eq]
  replay_place :=
    replay_place_concat h.replay_place (by simp [replayStep, halive]) fun l hl => by
      simp [replayStep, hl]
  replay_local := by simp [replay_concat, h.replay_local, replayStep]
  throws_eq := h.throws_eq

/-- Another element in the place of one that is there, whose life goes on. -/
theorem Lives.write {c : Cell σ ℓ T} (hc : Tracked W c) (h : Lives W b a g ts m)
    (halive : a c.loc = true) (t : T) :
    Lives W b a g ts { m with mem := c.write t m.mem } where
  alive_eq := by
    rw [hc.alive_write, h.alive_eq]
    exact Function.update_eq_self_iff.mpr halive.symm
  tags_eq := by rw [hc.tags_write, h.tags_eq]
  replay_place := h.replay_place
  replay_local := h.replay_local
  throws_eq := h.throws_eq

/-- Nothing in the place of nothing. -/
theorem Lives.erase {c : Cell σ ℓ T} (hc : Tracked W c) (h : Lives W b a g ts m)
    (hdead : a c.loc = false) : Lives W b a g ts { m with mem := c.erase m.mem } where
  alive_eq := by
    rw [hc.alive_erase, h.alive_eq]
    exact Function.update_eq_self_iff.mpr hdead.symm
  tags_eq := by rw [hc.tags_erase, h.tags_eq]
  replay_place := h.replay_place
  replay_local := h.replay_local
  throws_eq := h.throws_eq

theorem Lives.openLocal (h : Lives W false a g ts m) :
    Lives W true a g ts { m with log := m.log ++ [.born none] } where
  alive_eq := h.alive_eq
  tags_eq := h.tags_eq
  replay_place l := by simp [replay_concat, h.replay_place l, replayStep]
  replay_local := by simp [replay_concat, h.replay_local, replayStep]
  throws_eq := h.throws_eq

theorem Lives.closeLocal (h : Lives W true a g ts m) :
    Lives W false a g ts { m with log := m.log ++ [.died none] } where
  alive_eq := h.alive_eq
  tags_eq := h.tags_eq
  replay_place l := by simp [replay_concat, h.replay_place l, replayStep]
  replay_local := by simp [replay_concat, h.replay_local, replayStep]
  throws_eq := h.throws_eq

/-- A tag update. -/
theorem Lives.tag (h : Lives W b a g ts m) {f : σ → σ} {g' : φ}
    (halive : W.alive (f m.mem) = W.alive m.mem) (htags : W.tags (f m.mem) = g') :
    Lives W b a g' ts { m with mem := f m.mem } where
  alive_eq := by rw [halive, h.alive_eq]
  tags_eq := htags
  replay_place := h.replay_place
  replay_local := h.replay_local
  throws_eq := h.throws_eq

variable {Q : Unit → Machine σ ℓ → Prop} {R K : Machine σ ℓ → Prop}

/-- **Destroying an element that is there.** -/
theorem Tracked.wp_destroyAt {c : Cell σ ℓ T} (hc : Tracked W c) (h : Lives W b a g ts m)
    (halive : a c.loc = true)
    (hQ : ∀ m', Lives W b (Function.update a c.loc false) g ts m' → Q () m') :
    wp (destroyAt c) Q R K m := by
  refine (Cpp.wp_destroyAt c).mpr ⟨?_, hQ _ (h.died hc halive)⟩
  rw [hc.alive_eq, h.alive_eq, halive]

/-- **Constructing where no element is.** It throws iff the schedule says so, and then nothing
has changed. -/
theorem Tracked.wp_constructAt {c : Cell σ ℓ T} {i : Init σ T} {src : Option ℓ}
    (hc : Tracked W c) (hi : Steady W src i) (h : Lives W b a g ts m)
    (hsrc : ∀ l ∈ src, a l = true) (hdead : a c.loc = false)
    (hQ : throwsNext i.nothrowConstruct ts = false → ∀ m',
      Lives W b (Function.update a c.loc true) g (throwsAfter i.nothrowConstruct ts) m' → Q () m')
    (hR : throwsNext i.nothrowConstruct ts = true → ∀ m',
      Lives W b a g (throwsAfter i.nothrowConstruct ts) m' → R m') :
    wp (constructAt c i) Q R K m := by
  obtain ⟨t, s, hrun⟩ := hi.ready m.mem (by rw [h.alive_eq]; exact hsrc)
  rw [Cpp.wp_constructAt hrun, h.throws_eq]
  split
  · next hthrow => exact hR hthrow _ (h.skip _)
  · next hthrow =>
    have heval := h.eval hi hrun (throwsAfter i.nothrowConstruct ts)
    refine ⟨?_, hQ (by simpa using hthrow) _ (heval.born hc hdead t)⟩
    rw [hc.vacant_eq, hi.alive_eq hrun, h.alive_eq, hdead]
    rfl

/-- **Assigning to an element that is there** keeps the view, whether or not it throws. -/
theorem Tracked.wp_assignAt {c : Cell σ ℓ T} {i : Init σ T} {src : Option ℓ}
    (hc : Tracked W c) (hi : Steady W src i) (h : Lives W b a g ts m)
    (hsrc : ∀ l ∈ src, a l = true) (halive : a c.loc = true)
    (hQ : ∀ m' ts', Lives W b a g ts' m' → Q () m')
    (hR : ∀ m' ts', Lives W b a g ts' m' → R m') :
    wp (assignAt c i) Q R K m := by
  obtain ⟨t, s, hrun⟩ := hi.ready m.mem (by rw [h.alive_eq]; exact hsrc)
  rw [Cpp.wp_assignAt hrun]
  refine ⟨by rw [hc.alive_eq, h.alive_eq, halive], ?_⟩
  split
  · exact hR _ _ (h.skip _)
  · have heval := h.eval hi hrun (throwsAfter i.nothrowAssign m.throws)
    exact hQ _ _ (heval.write hc halive t)

/-- **A byte copy** carries over whether there is an element, and the element that it puts an end
to must not need its destructor. -/
theorem Tracked.wp_copyBytesAt {c src : Cell σ ℓ T} (hc : Tracked W c) (hsrc : Tracked W src)
    {ty : ElemType T} (h : Lives W b a g ts m)
    (hends : a c.loc = true → a src.loc = false → ty.trivialDestructor = true)
    (hQ : ∀ m', Lives W b (Function.update a c.loc (a src.loc)) g ts m' → Q () m') :
    wp (copyBytesAt ty c src) Q R K m := by
  have hthere : c.alive m.mem = a c.loc := by rw [hc.alive_eq, h.alive_eq]
  cases hs : a src.loc with
  | true =>
    obtain ⟨t, hread⟩ := hsrc.exists_read (s := m.mem) (by rw [h.alive_eq, hs])
    rw [hs] at hQ
    rw [wp_copyBytesAt_of_some hread, hthere]
    cases ha : a c.loc with
    | true =>
      rw [Function.update_eq_self_iff.mpr ha.symm] at hQ
      exact hQ _ (h.write hc ha t)
    | false => exact hQ _ (h.born hc ha t)
  | false =>
    have hread : src.read m.mem = none := by
      rw [← Option.isNone_iff_eq_none, ← Option.not_isSome, hsrc.read_isSome, h.alive_eq, hs]
      rfl
    rw [hs] at hQ
    rw [wp_copyBytesAt_of_none hread, hthere]
    cases ha : a c.loc with
    | true =>
      rw [hends ha hs]
      exact hQ _ (h.died hc ha)
    | false =>
      rw [Function.update_eq_self_iff.mpr ha.symm] at hQ
      exact hQ _ (h.erase hc ha)

/-- **A scope with one local.** Its initializer may throw before the scope is entered; every exit
from the scope closes the local. -/
theorem wp_withLocal_lives {i : Init σ T} {src : Option ℓ} {body : T → Prog σ ℓ Unit}
    (hi : Steady W src i) (h : Lives W false a g ts m) (hsrc : ∀ l ∈ src, a l = true)
    (hR : throwsNext i.nothrowConstruct ts = true → ∀ m',
      Lives W false a g (throwsAfter i.nothrowConstruct ts) m' → R m')
    (hbody : throwsNext i.nothrowConstruct ts = false → ∀ t m',
      Lives W true a g (throwsAfter i.nothrowConstruct ts) m' →
      wp (body t) (fun _ m'' => Q () { m'' with log := m''.log ++ [.died none] })
        (fun m'' => R { m'' with log := m''.log ++ [.died none] }) K m') :
    wp (withLocal i body) Q R K m := by
  obtain ⟨t, s, hrun⟩ := hi.ready m.mem (by rw [h.alive_eq]; exact hsrc)
  rw [Cpp.wp_withLocal hrun, h.throws_eq]
  split
  · next hthrow => exact hR hthrow _ (h.skip _)
  · next hthrow =>
    rw [wp_unwindLocal]
    have heval := h.eval hi hrun (throwsAfter i.nothrowConstruct ts)
    exact hbody (by simpa using hthrow) t _ heval.openLocal

/-- `std::swap` of two elements that are there, the same one or two. -/
theorem Tracked.wp_swapElems {c d : Cell σ ℓ T} (hc : Tracked W c) (hd : Tracked W d)
    (ty : ElemType T) (h : Lives W false a g ts m) (hac : a c.loc = true) (had : a d.loc = true)
    (hQ : ∀ m' ts', Lives W false a g ts' m' → Q () m')
    (hR : ∀ m' ts', Lives W false a g ts' m' → R m') :
    wp (swapElems ty c d) Q R K m := by
  refine wp_withLocal_lives (hc.steady_move ty) h (by simpa using hac)
    (fun _ m' hm => hR m' _ hm) fun _ t m' hm => ?_
  rw [wp_bind]
  refine hc.wp_assignAt (hd.steady_move ty) hm (by simpa using had) hac (fun m' ts' hm => ?_)
    (fun m' ts' hm => hR _ ts' hm.closeLocal)
  exact hd.wp_assignAt (steady_moveLocal W ty t) hm (by simp) had
    (fun m' ts' hm => hQ _ ts' hm.closeLocal) (fun m' ts' hm => hR _ ts' hm.closeLocal)

end Lives

end Cpp

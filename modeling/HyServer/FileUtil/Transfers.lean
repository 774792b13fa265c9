import HyServer.FileUtil.Retry
import HyServer.FileUtil.WrapFull
import HyServer.Posix.Files

/-!
# hy::detail — `wrapFull` makes partial transfers whole

Over `read`, `write`, `pread` and `pwrite`, which move what they can and may be interrupted, a call
of `wrapFull` that does not fail is one transfer of all that was asked for, or of all there is.

* `Moves` — a callee that moves bytes of some files in one direction.
* `wrapFull_rule` — what a callee keeps from call to call holds when `wrapFull` returns.
* `Served` — requests in any order, each of them a call of `wrapFull`.
* `served_refines` — they do what the same requests do when each of them is served at once.
* `served_conserves` — between a descriptor that appends and one that reads, no byte is lost,
  repeated or reordered.
-/

namespace Hy.FileUtil

open Cpp Posix

variable {σ : Type}

/-! ## What the callees are taken to do -/

/-- `f` fails, or moves at most the requested count, a `read` also at most what there is; and
nothing only if nothing was requested, or a `read` was at the end. An interrupted call moves
nothing. What is left by a call that failed otherwise, is open; one with a negative offset does. -/
def Moves (dir : Direction) (files : σ → Files) (f : Syscall σ) : Prop :=
  ∀ s args,
    let (s', r) := f s args
    let offset := args.offset.map Int.toNat
    let ahead := (files s).ahead args.fd offset
    (r.ret = -1 ∧ (r.errno = EINTR → files s' = files s)) ∨
    (∀ o ∈ args.offset, 0 ≤ o) ∧
    ∃ n : Nat, r.ret = n ∧ (n : Int) ≤ args.count ∧ (dir = .read → n ≤ ahead.length) ∧
      (n = 0 → args.count = 0 ∨ dir = .read ∧ ahead = []) ∧
      files s' = (files s).transfer dir args.fd args.buf n offset

theorem Moves.syscallLike {dir : Direction} {files : σ → Files} {f : Syscall σ}
    (hf : Moves dir files f) : SyscallLike f := by
  intro s args
  rcases hf s args with ⟨hret, -⟩ | ⟨-, n, hret, hn, -⟩
  · exact .inl hret
  · exact .inr (by omega)

/-! ## The loop rule of `wrapFull` -/

section

variable {off : IntType} {f : Syscall σ} {fd buf count : Int} {offset : Option Int} {s₀ : σ}

/-- The list of calls can be forgotten. -/
theorem wrapFull_traced (off : IntType) (f : Syscall σ) (fd buf count : Int) (offset : Option Int)
    (n : Nat) (s : σ) :
    wrapFull off (fun s args => some (f s args)) fd buf count offset n s =
      (wrapFull off (traced f) fd buf count offset n (s, [])).map
        (Round.map (fun x => (x.1.1, x.2)) fun y => (y.1.1, y.2)) := by
  refine rounds_map (f := fun x : (σ × Trace) × Locals => (x.1.1, x.2)) ?_ n ((s, []), _)
  rintro ⟨⟨s, t⟩, l⟩
  rw [wrapFullBody_traced]
  show some (afterCall off l _ _) = some (Round.map _ _ (afterCall off l _ _))
  unfold afterCall whileRemaining
  split_ifs <;> rfl

/-- What the callee keeps, as long as no call fails, holds before every round and of the result. -/
theorem wrapFull_rule {J : σ → Trace → Prop} (hcount : 0 ≤ count ∧ count ≤ SSIZE_MAX)
    (hoff : ∀ o ∈ offset, off.Representable o ∧ off.Representable (o + count)) (hstart : J s₀ [])
    (hcall : ∀ s t, J s t → 0 ≤ transferred t → transferred t ≤ count →
      let args := callAt fd buf count offset (transferred t)
      let r := (f s args).2
      (r.ret = -1 ∨ 0 ≤ r.ret ∧ r.ret ≤ count - transferred t) ∧
        (¬ r.failed → J (f s args).1 (t ++ [(args, r)])))
    {n : Nat} {s : σ} {t : Trace} {ret : Int}
    (h : wrapFull off (traced f) fd buf count offset n (s₀, []) = some (.leave ((s, t), ret))) :
    Reported count t ret ∧ 0 ≤ transferred t ∧ transferred t ≤ count ∧ (ret ≠ -1 → J s t) := by
  have hrule := (rounds_invariant
    (I := fun n (x : (σ × Trace) × Locals) =>
      Running fd buf count offset n x.1.2 x.2 ∧ J x.1.1 x.1.2)
    (Q := fun n (y : (σ × Trace) × Int) =>
      Finished fd buf count offset n y.1.2 y.2 ∧ (y.2 ≠ -1 → J y.1.1 y.1.2))
    ?_ ?_ n 0 _ ⟨.start hcount.1, hstart⟩).2 _ h
  · obtain ⟨m, -, hfinished, hJ⟩ := hrule
    have hbounds := hfinished.contiguous.bounds t List.prefix_rfl
    exact ⟨hfinished.reported, hbounds.1, hbounds.2, hJ⟩
  · rintro n ⟨⟨s, t⟩, l⟩ ⟨⟨s', t'⟩, l'⟩ ⟨hrunning, hJ⟩ hbody
    have hrunning : Running fd buf count offset n t l := hrunning
    have hbounds := hrunning.contiguous.bounds t List.prefix_rfl
    obtain ⟨hret, hnext⟩ := hcall s t hJ hbounds.1 hbounds.2
    have hagain := Option.some.inj (hrunning.body_eq.symm.trans hbody)
    refine ⟨hrunning.again hcount.2 hoff rfl hret hagain, ?_⟩
    -- a call that failed does not go on
    have hfail : ¬ (f s (callAt fd buf count offset (transferred t))).2.failed := by
      intro hfail
      rw [afterCall_of_failed hfail] at hagain
      cases hagain
    have hstate := eq_of_afterCall_again hagain
    cases hstate
    exact hnext hfail
  · rintro n ⟨⟨s, t⟩, l⟩ ⟨⟨s', t'⟩, ret⟩ ⟨hrunning, hJ⟩ hbody
    have hrunning : Running fd buf count offset n t l := hrunning
    have hbounds := hrunning.contiguous.bounds t List.prefix_rfl
    obtain ⟨hret, hnext⟩ := hcall s t hJ hbounds.1 hbounds.2
    have hleave := Option.some.inj (hrunning.body_eq.symm.trans hbody)
    refine ⟨hrunning.leave hcount.2 hoff rfl hret hleave, ?_⟩
    intro hne
    have hfail : ¬ (f s (callAt fd buf count offset (transferred t))).2.failed := by
      intro hfail
      rw [afterCall_of_failed hfail] at hleave
      cases hleave
      exact hne rfl
    have hstate := eq_of_afterCall_leave hleave
    cases hstate
    exact hnext hfail

end

/-! ## One request -/

/-- `wrapFull` returns `ret` for the request. -/
def Returns (off : IntType) (f : Syscall σ) (req : Request) (s s' : σ) (ret : Int) : Prop :=
  ∃ n, wrapFull off (fun s args => some (f s args)) req.fd req.buf req.count
    (req.offset.map Nat.cast) n s = some (.leave (s', ret))

/-- The sizes of a request fit into the types of the parameters. -/
def Request.Fits (off : IntType) (req : Request) : Prop :=
  (req.count : Int) ≤ SSIZE_MAX ∧
  ∀ o ∈ req.offset, off.Representable (o : Nat) ∧ off.Representable ((o : Nat) + req.count)

section

variable {off : IntType} {f : Syscall σ} {files : σ → Files} {req : Request} {s₀ s s' : σ}
  {t : Trace} {ret : Int}

/-- After the calls `t`, one transfer has come as far as they have. -/
structure Moved (files : σ → Files) (req : Request) (s₀ s : σ) (t : Trace) : Prop where
  files_eq : files s = (files s₀).transfer req.dir req.fd req.buf (transferred t).toNat req.offset
  within : req.dir = .read →
    (transferred t).toNat ≤ ((files s₀).ahead req.fd req.offset).length
  /-- A last call that moved nothing had nothing to move. -/
  atEnd : ∀ e, t.getLast? = some e → e.2.ret = 0 → transferred t = req.count ∨
    req.dir = .read ∧ (transferred t).toNat = ((files s₀).ahead req.fd req.offset).length

theorem Moved.start : Moved files req s s [] where
  files_eq := ((files s).transfer_zero ..).symm
  within _ := Nat.zero_le _
  atEnd e he := by cases he

/-- Where a call goes on, as numbers of bytes. -/
theorem offset_callAt (req : Request) {k : Int} (hk : 0 ≤ k) :
    (callAt req.fd req.buf req.count (req.offset.map Nat.cast) k).offset.map Int.toNat =
      req.offset.map (· + k.toNat) := by
  cases hoffset : req.offset with
  | none => simp [callAt]
  | some o =>
    simp only [callAt, Option.map_some, Option.some.injEq]
    omega

/-- One more call. -/
theorem Moved.concat (hf : Moves req.dir files f) (ht : Moved files req s₀ s t)
    (hnonneg : 0 ≤ transferred t) :
    let args := callAt req.fd req.buf req.count (req.offset.map Nat.cast) (transferred t)
    let r := (f s args).2
    (r.ret = -1 ∨ 0 ≤ r.ret ∧ r.ret ≤ req.count - transferred t) ∧
      (¬ r.failed → Moved files req s₀ (f s args).1 (t ++ [(args, r)])) := by
  intro args r
  have hargs : args.count = req.count - transferred t := rfl
  have hoffset : args.offset.map Int.toNat = req.offset.map (· + (transferred t).toNat) :=
    offset_callAt req hnonneg
  rcases hf s args with ⟨hret, hsame⟩ | ⟨-, n, hret, hn, hwithin, hzero, hmoved⟩
  · -- interrupted, or failed
    refine ⟨.inl hret, fun hfail => ?_⟩
    have hint : r.errno = EINTR := by
      by_contra hne
      exact hfail ⟨hret, hne⟩
    have hsum := transferred_concat_of_neg t args hret
    refine ⟨?_, ?_, ?_⟩
    · rw [hsum, ← ht.files_eq]
      exact hsame hint
    · rw [hsum]
      exact ht.within
    · intro e he hlast
      obtain rfl := Option.some.inj (List.getLast?_concat.symm.trans he)
      have hlast : r.ret = 0 := hlast
      have hret : r.ret = -1 := hret
      omega
  · have hret : r.ret = n := hret
    refine ⟨.inr (by omega), fun _ => ?_⟩
    have hsum : transferred (t ++ [(args, r)]) = transferred t + n := by
      rw [transferred_concat_of_nonneg t args (by omega), hret]
    have hsum' : (transferred (t ++ [(args, r)])).toNat = (transferred t).toNat + n := by
      rw [hsum]
      omega
    have hbuf : args.buf = req.buf + (transferred t).toNat := by
      show req.buf + transferred t = _
      omega
    rw [hoffset] at hwithin hzero hmoved
    -- what is ahead of this call, of what was ahead of the first one
    have hahead : req.dir = .read →
        (files s).ahead req.fd (req.offset.map (· + (transferred t).toNat)) =
          ((files s₀).ahead req.fd req.offset).drop (transferred t).toNat := by
      intro hdir
      rw [ht.files_eq, hdir, Files.ahead_read]
    refine ⟨?_, ?_, ?_⟩
    · rw [hsum', hmoved, ht.files_eq, hbuf]
      exact (files s₀).transfer_transfer req.dir req.fd req.buf _ n req.offset ht.within
    · intro hdir
      have hlen : n ≤ ((files s).ahead req.fd _).length := hwithin hdir
      rw [hahead hdir, List.length_drop] at hlen
      have hfirst := ht.within hdir
      rw [hsum']
      omega
    · intro e he hlast
      obtain rfl := Option.some.inj (List.getLast?_concat.symm.trans he)
      have hlast : r.ret = 0 := hlast
      have hn0 : n = 0 := by omega
      rcases hzero hn0 with hnone | ⟨hdir, hempty⟩
      · left
        rw [hsum]
        omega
      · right
        have hempty : (files s).ahead req.fd _ = [] := hempty
        rw [hahead hdir, List.drop_eq_nil_iff] at hempty
        have hfirst := ht.within hdir
        refine ⟨hdir, ?_⟩
        rw [hsum']
        omega

/-- **One request.** A call of `wrapFull` that does not fail is the whole transfer. -/
theorem files_of_returns (hf : Moves req.dir files f) (hfits : Request.Fits off req)
    (h : Returns off f req s s' ret) (hret : ret ≠ -1) :
    ret = (files s).amount req ∧ files s' = (files s).serve req := by
  obtain ⟨n, hn⟩ := h
  rw [wrapFull_traced] at hn
  obtain ⟨y, hy, hleave⟩ := Option.map_eq_some_iff.mp hn
  cases y with
  | again x => cases hleave
  | leave y =>
    obtain ⟨⟨s₁, t⟩, ret₁⟩ := y
    cases hleave
    have hoff : ∀ o ∈ req.offset.map (Nat.cast : Nat → Int),
        off.Representable o ∧ off.Representable (o + (req.count : Int)) := by
      intro o ho
      obtain ⟨o', ho', rfl⟩ := Option.mem_map.mp ho
      exact hfits.2 o' ho'
    obtain ⟨hreported, hnonneg, hle, hmoved⟩ := wrapFull_rule (J := Moved files req s)
      ⟨by omega, hfits.1⟩ hoff .start (fun s t ht hnonneg _ => ht.concat hf hnonneg) hy
    have hmoved := hmoved hret
    have hsum := hreported.ret_eq hret
    -- all that was asked for, or a read to the end of the file
    have hamount : (transferred t).toNat = (files s).amount req := by
      have hend : transferred t = req.count ∨ req.dir = .read ∧
          (transferred t).toNat = ((files s).ahead req.fd req.offset).length := by
        rcases hreported.complete hret with hall | ⟨e, he, hzero⟩
        · exact .inl hall
        · exact hmoved.atEnd e he hzero
      have hwithin := hmoved.within
      unfold Files.amount
      cases hdir : req.dir with
      | read =>
        have hlen := hwithin hdir
        simp only
        omega
      | write =>
        rw [hdir] at hend
        simp only [reduceCtorEq, false_and, or_false] at hend
        simp only
        omega
    refine ⟨by omega, ?_⟩
    rw [hmoved.files_eq, hamount]
    rfl

end

section

variable {off : IntType} {f : Syscall σ} {req : Request} {s : σ}

/-- With nothing to transfer, the loop is left after the first call. -/
theorem leaves_of_interrupted {fd : Int} {l : Locals} {t : Trace} (hl : l.count = 0)
    (hint : (f s (l.call fd)).2.interrupted) :
    Leaves (wrapFullBody off (traced f) fd) ((s, t), l)
      (((f s (l.call fd)).1, t ++ [(l.call fd, (f s (l.call fd)).2)]), l.totalBytes) := by
  rw [leaves_iff_of_eq (wrapFullBody_traced off f fd s t l)]
  show (afterCall off l _ (f s (l.call fd)).2).LeavesWith _ _
  rw [afterCall_of_interrupted hint, if_neg fun h => h hl]
  rfl

/-- A request whose call is interrupted finitely often returns. -/
theorem exists_returns (hf : SyscallLike f) (hcount : (req.count : Int) ≤ SSIZE_MAX)
    (hfin : FinitelyInterrupted f s) : ∃ s' ret, Returns off f req s s' ret := by
  have hleaves : ∃ y, Leaves (wrapFullBody off (traced f) req.fd)
      ((s, []), .start req.buf req.count (req.offset.map Nat.cast)) y := by
    by_cases hfirst : (req.count : Int) ≠ 0 ∨
        ¬ (f s ⟨req.fd, req.buf, req.count, req.offset.map Nat.cast⟩).2.interrupted
    · have hmax : SSIZE_MAX = 9223372036854775807 := rfl
      have hsize : sizeT.max = 18446744073709551615 := rfl
      have hmin : sizeT.min = 0 := rfl
      have hrep : sizeT.Representable (req.count : Int) := ⟨by omega, by omega⟩
      have hboth : ∃ y, Leaves (wrapFullBody off (traced f) req.fd)
            ((s, []), .start req.buf req.count (req.offset.map Nat.cast)) y ∧
          LeavesNoEintr off f req.fd
            ((s, []), .start req.buf req.count (req.offset.map Nat.cast)) y :=
        exists_leaves hf _ s [] _ hfin hrep rfl hfirst
      obtain ⟨y, hy, -⟩ := hboth
      exact ⟨y, hy⟩
    · -- nothing is requested, and the first call is interrupted
      rw [not_or, not_not, not_not] at hfirst
      obtain ⟨hzero, hint⟩ := hfirst
      exact ⟨_, leaves_of_interrupted hzero hint⟩
  obtain ⟨⟨⟨s', t⟩, ret⟩, n, hn⟩ := hleaves
  refine ⟨s', ret, n, ?_⟩
  rw [wrapFull_traced]
  exact Option.map_eq_some_iff.mpr ⟨_, hn, rfl⟩

end

/-! ## Runs of requests -/

/-- Requests of one or many clients, each served by `wrapFull` over the callee for its direction,
none of which fails; with what is in the buffer of each when `wrapFull` has returned. -/
inductive Served (off : IntType) (files : σ → Files) (f : Direction → Syscall σ) :
    σ → List (Request × List UInt8) → σ → Prop where
  | nil {s : σ} : Served off files f s [] s
  | cons {s s₁ s' : σ} (req : Request) {ret : Int} {replies : List (Request × List UInt8)}
      (h : Returns off (f req.dir) req s s₁ ret) (hret : ret ≠ -1)
      (hrest : Served off files f s₁ replies s') :
      Served off files f s ((req, loadBytes (files s₁).mem req.buf ret.toNat) :: replies) s'

section

variable {off : IntType} {f : Direction → Syscall σ} {files : σ → Files} {s s' : σ}
  {replies : List (Request × List UInt8)}

/-- Induction on the requests. -/
theorem serveAll_of_served (hf : ∀ dir, Moves dir files (f dir))
    (hfits : ∀ x ∈ replies, Request.Fits off x.1) (h : Served off files f s replies s') :
    (files s).serveAll (replies.map Prod.fst) = (files s', replies) := by
  induction h with
  | nil => rfl
  | @cons s s₁ s' req ret replies hreturns hret hrest ih =>
    obtain ⟨hamount, hserve⟩ :=
      files_of_returns (hf req.dir) (hfits _ (List.mem_cons_self ..)) hreturns hret
    have hbytes : loadBytes (files s₁).mem req.buf ret.toNat = (files s).moved req := by
      rw [hserve, hamount, Int.toNat_natCast]
      exact (files s).loadBytes_serve req
    have ih := ih fun x hx => hfits x (List.mem_cons_of_mem _ hx)
    rw [hserve] at ih
    rw [List.map_cons, Files.serveAll_cons, ih, hbytes]

/-- **Partial transfers made whole.** A call of `wrapFull` returns when its callee is interrupted
finitely often. Any requests none of which fails, in any order and through any descriptors, leave
the files, the memory and the positions as they are when each request is served at once, and each
moves the same bytes. -/
theorem served_refines (off : IntType) (hf : ∀ dir, Moves dir files (f dir)) :
    (∀ (req : Request) s, (req.count : Int) ≤ SSIZE_MAX → FinitelyInterrupted (f req.dir) s →
      ∃ s' ret, Returns off (f req.dir) req s s' ret) ∧
    ∀ s replies s', (∀ x ∈ replies, Request.Fits off x.1) → Served off files f s replies s' →
      (files s).serveAll (replies.map Prod.fst) = (files s', replies) := by
  constructor
  · intro req s hcount hfin
    exact exists_returns (hf req.dir).syscallLike hcount hfin
  · intro s replies s' hfits h
    exact serveAll_of_served hf hfits h

/-- **No byte is lost, repeated or reordered** between a descriptor that appends to a file and one
that reads it, whatever the sizes of the requests, and whatever other requests are served between
them: what was read, and what is still to be read, is what was there to be read at first, and what
was written. -/
theorem served_conserves {i : Nat} {w r : Int} (hf : ∀ dir, Moves dir files (f dir))
    (hfits : ∀ x ∈ replies, Request.Fits off x.1) (hwr : w ≠ r)
    (hends : (files s).PipeEnds i w r) (hpos : (files s).pos r ≤ ((files s).content i).length)
    (hpiped : ∀ x ∈ replies, Piped (files s).file i w r x.1)
    (h : Served off files f s replies s') :
    bytesOf r replies ++ (files s').pending i r = (files s).pending i r ++ bytesOf w replies := by
  have hserve := serveAll_of_served hf hfits h
  have hreqs : ∀ req ∈ replies.map Prod.fst, Piped (files s).file i w r req := by
    intro req hreq
    obtain ⟨x, hx, rfl⟩ := List.mem_map.mp hreq
    exact hpiped x hx
  have hconserved := Files.conserved hwr hends hpos hreqs
  rw [hserve] at hconserved
  exact hconserved

end

/-! ## Short and interrupted transfers -/

/-- The first and the third call are interrupted, and no call moves more than two bytes. -/
def shortTransfer (dir : Direction) : Syscall (Nat × Files) := fun (i, a) args =>
  let req : Request :=
    ⟨dir, args.fd, args.buf, args.count.toNat, args.offset.map Int.toNat⟩
  if i = 0 ∨ i = 2 then ((i + 1, a), ⟨-1, EINTR⟩)
  else if args.count < 0 ∨ ∃ o ∈ args.offset, o < 0 then ((i + 1, a), ⟨-1, 22⟩)
  else
    let n := min 2 (a.amount req)
    ((i + 1, a.transfer dir args.fd args.buf n req.offset), ⟨n, 0⟩)

theorem moves_shortTransfer (dir : Direction) : Moves dir Prod.snd (shortTransfer dir) := by
  rintro ⟨i, a⟩ ⟨fd, buf, count, offset⟩
  simp only [shortTransfer]
  split_ifs with hint hneg
  · exact .inl ⟨rfl, fun _ => rfl⟩
  · have herrno : (22 : Int) ≠ EINTR := by decide
    exact .inl ⟨rfl, fun h => absurd h herrno⟩
  · rw [not_or, not_exists] at hneg
    refine .inr ⟨fun o ho => ?_, _, rfl, ?_, ?_, ?_, rfl⟩
    · exact Int.not_lt.mp fun hlt => hneg.2 o ⟨ho, hlt⟩
    · cases dir <;> simp only [Files.amount] <;> omega
    · rintro rfl
      simp only [Files.amount]
      omega
    · intro hzero
      cases dir with
      | read =>
        simp only [Files.amount] at hzero
        rw [← List.length_eq_zero_iff]
        simp only [true_and]
        omega
      | write =>
        simp only [Files.amount] at hzero
        left
        omega

theorem finitelyInterrupted_shortTransfer (dir : Direction) (s : Nat × Files) :
    FinitelyInterrupted (shortTransfer dir) s := by
  intro calls
  have hcount : ∀ i, (stateBefore (shortTransfer dir) calls s i).1 = s.1 + i := by
    intro i
    induction i with
    | zero => rfl
    | succ i ih =>
      rw [stateBefore, ← Nat.add_assoc, ← ih]
      simp only [shortTransfer]
      split_ifs <;> rfl
  -- every call counts, and only the first ones are interrupted
  refine ⟨3, fun i hi hint => ?_⟩
  have hlate := hcount i
  generalize stateBefore (shortTransfer dir) calls s i = s' at hlate hint
  obtain ⟨j, a⟩ := s'
  have hlate : j = s.1 + i := hlate
  have herrno := hint.2
  simp only [shortTransfer] at herrno
  rw [if_neg (by omega)] at herrno
  split_ifs at herrno
  · exact absurd (show (22 : Int) = EINTR from herrno) (by decide)
  · exact absurd (show (0 : Int) = EINTR from herrno) (by decide)

/-- A file of two bytes, with `3` at its end and `4` at its beginning. -/
def twoEnds : Files where
  mem a := if a = 100 then 10 else if a = 101 then 20 else if a = 102 then 30 else 0
  content _ := [1, 2]
  file _ := 7
  pos fd := if fd = 3 then 2 else 0

/-- A write, a read, a write of what was read, and a read of the rest. -/
def inTurn : List Request :=
  [⟨.write, 3, 100, 3, none⟩, ⟨.read, 4, 200, 2, none⟩, ⟨.write, 3, 200, 1, none⟩,
    ⟨.read, 4, 300, 5, none⟩]

theorem served_inTurn : ∃ replies s', Served ssizeT Prod.snd shortTransfer (0, twoEnds) replies s' ∧
    replies.map Prod.fst = inTurn ∧ bytesOf 4 replies = [1, 2, 10, 20, 30, 1] := by
  have h : Served ssizeT Prod.snd shortTransfer (0, twoEnds) _ _ :=
    .cons ⟨.write, 3, 100, 3, none⟩ ⟨5, rfl⟩ (by decide) <|
    .cons ⟨.read, 4, 200, 2, none⟩ ⟨5, rfl⟩ (by decide) <|
    .cons ⟨.write, 3, 200, 1, none⟩ ⟨5, rfl⟩ (by decide) <|
    .cons ⟨.read, 4, 300, 5, none⟩ ⟨5, rfl⟩ (by decide) .nil
  exact ⟨_, _, h, rfl, rfl⟩

theorem fits_inTurn : ∀ req ∈ inTurn, Request.Fits ssizeT req := by
  intro req hreq
  simp only [inTurn, List.mem_cons, List.not_mem_nil, or_false] at hreq
  rcases hreq with rfl | rfl | rfl | rfl <;> exact ⟨by decide, nofun⟩

theorem piped_inTurn : ∀ req ∈ inTurn, Piped twoEnds.file 7 3 4 req := by
  intro req hreq
  simp only [inTurn, List.mem_cons, List.not_mem_nil, or_false] at hreq
  rcases hreq with rfl | rfl | rfl | rfl <;> simp [Piped]

/-- Of both directions, every call returns; and the requests have the bytes of whole transfers. -/
theorem served_refines_inTurn :
    (∃ s' ret, Returns ssizeT (shortTransfer .read) ⟨.read, 4, 200, 2, none⟩ (0, twoEnds) s' ret) ∧
    ∃ replies s', (twoEnds.serveAll inTurn) = (s', replies) ∧
      bytesOf 4 replies = [1, 2, 10, 20, 30, 1] := by
  obtain ⟨replies, s', h, hreqs, hbytes⟩ := served_inTurn
  constructor
  · exact (served_refines ssizeT moves_shortTransfer).1 ⟨.read, 4, 200, 2, none⟩ (0, twoEnds)
      (by decide) (finitelyInterrupted_shortTransfer _ _)
  · have hfits : ∀ x ∈ replies, Request.Fits ssizeT x.1 := fun x hx =>
      fits_inTurn x.1 (hreqs ▸ List.mem_map_of_mem hx)
    refine ⟨replies, s'.2, ?_, hbytes⟩
    rw [← hreqs]
    exact (served_refines ssizeT moves_shortTransfer).2 _ _ _ hfits h

theorem served_conserves_inTurn : ∃ replies s',
    Served ssizeT Prod.snd shortTransfer (0, twoEnds) replies s' ∧
      bytesOf 4 replies ++ s'.2.pending 7 4 = [1, 2] ++ bytesOf 3 replies := by
  obtain ⟨replies, s', h, hreqs, -⟩ := served_inTurn
  have hends : twoEnds.PipeEnds 7 3 4 := ⟨rfl, rfl, rfl⟩
  have hfits : ∀ x ∈ replies, Request.Fits ssizeT x.1 := fun x hx =>
    fits_inTurn x.1 (hreqs ▸ List.mem_map_of_mem hx)
  have hpiped : ∀ x ∈ replies, Piped twoEnds.file 7 3 4 x.1 := fun x hx =>
    piped_inTurn x.1 (hreqs ▸ List.mem_map_of_mem hx)
  exact ⟨replies, s', h, served_conserves moves_shortTransfer hfits (by decide) hends (by decide)
    hpiped h⟩

end Hy.FileUtil

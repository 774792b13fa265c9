import Mathlib.Data.List.GetD
import Mathlib.Logic.Function.Basic

/-!
# Posix — files as bytes, and whole transfers between them and memory

Regular files, the descriptors open on them, and one memory. A transfer moves a number of bytes
between a range of memory and a file, from an offset on, or from the position of the descriptor on,
which it then moves.

* `loadBytes`, `storeBytes` — the bytes in a range of memory.
* `overwrite` — the content of a file after some bytes have been written into it.
* `Files.transfer_transfer` — a transfer, and another one right behind it, are one transfer.
* `Files.conserved` — of a run of whole transfers in any order, with one descriptor that appends to
  a file and another one that reads it: what was read, and what is still to be read, is what was
  written.
-/

namespace Posix

abbrev Memory := Int → UInt8

/-! ## Ranges of memory -/

def loadBytes (mem : Memory) (b : Int) (n : Nat) : List UInt8 :=
  (List.range n).map fun i : Nat => mem (b + i)

/-- The memory with `bytes` from `b` on. -/
def storeBytes (mem : Memory) (b : Int) (bytes : List UInt8) : Memory := fun a =>
  if b ≤ a then bytes.getD (a - b).toNat (mem a) else mem a

section Memory

variable (mem : Memory) (b : Int)

@[simp] theorem length_loadBytes (n : Nat) : (loadBytes mem b n).length = n := by
  rw [loadBytes, List.length_map, List.length_range]

@[simp] theorem loadBytes_zero : loadBytes mem b 0 = [] := rfl

theorem getElem_loadBytes {n i : Nat} (hi : i < (loadBytes mem b n).length) :
    (loadBytes mem b n)[i] = mem (b + i) := by
  simp only [loadBytes, List.getElem_map, List.getElem_range]

theorem loadBytes_add (n m : Nat) :
    loadBytes mem b (n + m) = loadBytes mem b n ++ loadBytes mem (b + n) m := by
  unfold loadBytes
  rw [List.range_add, List.map_append, List.map_map]
  congr 2
  funext i
  show mem (b + ((n + i : Nat) : Int)) = mem (b + n + i)
  congr 1
  omega

theorem storeBytes_nil : storeBytes mem b [] = mem := by
  funext a
  simp [storeBytes]

theorem storeBytes_append (xs ys : List UInt8) :
    storeBytes (storeBytes mem b xs) (b + xs.length) ys = storeBytes mem b (xs ++ ys) := by
  funext a
  simp only [storeBytes]
  by_cases hold : b + xs.length ≤ a
  · -- behind the first bytes
    have hindex : (a - b).toNat - xs.length = (a - (b + xs.length)).toNat := by omega
    have hfirst : xs.getD (a - b).toNat (mem a) = mem a := List.getD_eq_default _ _ (by omega)
    have hboth : (xs ++ ys).getD (a - b).toNat (mem a) =
        ys.getD ((a - b).toNat - xs.length) (mem a) := List.getD_append_right _ _ _ _ (by omega)
    rw [if_pos hold, if_pos (by omega), if_pos (by omega), hboth, hindex, hfirst]
  · rw [if_neg hold]
    by_cases hfirst : b ≤ a
    · rw [if_pos hfirst, if_pos hfirst, List.getD_append _ _ _ _ (by omega)]
    · rw [if_neg hfirst, if_neg hfirst]

theorem loadBytes_storeBytes (bytes : List UInt8) :
    loadBytes (storeBytes mem b bytes) b bytes.length = bytes := by
  apply List.ext_getElem
  · rw [length_loadBytes]
  · intro i hi hi'
    have hindex : (b + (i : Int) - b).toNat = i := by omega
    rw [getElem_loadBytes, storeBytes, if_pos (by omega), hindex, List.getD_eq_getElem _ _ hi']

end Memory

/-! ## Contents of a file -/

/-- The first `o` bytes of a file, with zeros behind its end. -/
def extend (F : List UInt8) (o : Nat) : List UInt8 :=
  F.take o ++ List.replicate (o - F.length) 0

/-- Writing nothing changes nothing, also behind the end. -/
def overwrite (F : List UInt8) (o : Nat) (bytes : List UInt8) : List UInt8 :=
  if bytes = [] then F else extend F o ++ bytes ++ F.drop (o + bytes.length)

section Contents

variable (F : List UInt8) (o : Nat)

@[simp] theorem length_extend : (extend F o).length = o := by
  rw [extend, List.length_append, List.length_take, List.length_replicate]
  omega

theorem extend_append {xs : List UInt8} (ys : List UInt8) (h : xs.length = o) :
    extend (xs ++ ys) o = xs := by
  unfold extend
  rw [List.take_left' h, List.length_append, Nat.sub_eq_zero_of_le (by omega),
    List.replicate_zero, List.append_nil]

@[simp] theorem overwrite_nil : overwrite F o [] = F := if_pos rfl

theorem overwrite_of_ne_nil {bytes : List UInt8} (h : bytes ≠ []) :
    overwrite F o bytes = extend F o ++ bytes ++ F.drop (o + bytes.length) :=
  if_neg h

/-- Bytes right behind the ones written before. -/
theorem overwrite_append (xs ys : List UInt8) :
    overwrite (overwrite F o xs) (o + xs.length) ys = overwrite F o (xs ++ ys) := by
  by_cases hxs : xs = []
  · subst hxs
    rfl
  · by_cases hys : ys = []
    · subst hys
      rw [overwrite_nil, List.append_nil]
    · have hne : xs ++ ys ≠ [] := fun h => hxs (List.append_eq_nil_iff.mp h).1
      have hlen : (extend F o ++ xs).length = o + xs.length := by
        rw [List.length_append, length_extend]
      rw [overwrite_of_ne_nil F o hxs, overwrite_of_ne_nil _ _ hys, overwrite_of_ne_nil F o hne,
        extend_append _ _ hlen, List.drop_append, hlen,
        List.drop_eq_nil_of_le (by rw [hlen]; omega), List.nil_append, List.drop_drop,
        List.length_append, List.append_assoc (extend F o)]
      congr 2
      omega

theorem overwrite_length (bytes : List UInt8) : overwrite F F.length bytes = F ++ bytes := by
  by_cases hbytes : bytes = []
  · subst hbytes
    rw [overwrite_nil, List.append_nil]
  · rw [overwrite_of_ne_nil _ _ hbytes, List.drop_eq_nil_of_le (by omega), List.append_nil, extend,
      List.take_length, Nat.sub_self, List.replicate_zero, List.append_nil]

end Contents

/-! ## Transfers -/

inductive Direction where
  | read
  | write
  deriving DecidableEq, Repr

/-- A memory, the files, which file each descriptor is open on, and how far it has come there. -/
structure Files where
  mem : Memory
  content : Nat → List UInt8
  file : Int → Nat
  pos : Int → Nat

namespace Files

/-- Where a transfer begins: at its offset, or at the position. -/
def start (a : Files) (fd : Int) : Option Nat → Nat
  | some o => o
  | none => a.pos fd

/-- What the file has from there on. -/
def ahead (a : Files) (fd : Int) (offset : Option Nat) : List UInt8 :=
  (a.content (a.file fd)).drop (a.start fd offset)

/-- A transfer with an offset leaves the position alone. -/
def movePos (fd : Int) (offset : Option Nat) (n : Nat) (a : Files) : Files :=
  match offset with
  | some _ => a
  | none => { a with pos := Function.update a.pos fd (a.pos fd + n) }

/-- `n` bytes between the memory from `b` on and the file of `fd`. -/
def transfer (a : Files) (dir : Direction) (fd b : Int) (n : Nat) (offset : Option Nat) : Files :=
  movePos fd offset n <|
    match dir with
    | .read => { a with mem := storeBytes a.mem b ((a.ahead fd offset).take n) }
    | .write =>
      { a with
        content := Function.update a.content (a.file fd)
          (overwrite (a.content (a.file fd)) (a.start fd offset) (loadBytes a.mem b n)) }

variable (a : Files) (dir : Direction) (fd b : Int) (n m : Nat) (offset : Option Nat)

@[simp] theorem file_transfer : (a.transfer dir fd b n offset).file = a.file := by
  cases dir <;> cases offset <;> rfl

@[simp] theorem pos_transfer_none : (a.transfer dir fd b n none).pos =
    Function.update a.pos fd (a.pos fd + n) := by
  cases dir <;> rfl

@[simp] theorem pos_transfer_some (o : Nat) : (a.transfer dir fd b n (some o)).pos = a.pos := by
  cases dir <;> rfl

theorem content_read : (a.transfer .read fd b n offset).content = a.content := by
  cases offset <;> rfl

theorem mem_read : (a.transfer .read fd b n offset).mem =
    storeBytes a.mem b ((a.ahead fd offset).take n) := by
  cases offset <;> rfl

theorem mem_write : (a.transfer .write fd b n offset).mem = a.mem := by
  cases offset <;> rfl

theorem content_write : (a.transfer .write fd b n offset).content =
    Function.update a.content (a.file fd)
      (overwrite (a.content (a.file fd)) (a.start fd offset) (loadBytes a.mem b n)) := by
  cases offset <;> rfl

theorem start_transfer : (a.transfer dir fd b n offset).start fd (offset.map (· + n)) =
    a.start fd offset + n := by
  cases offset with
  | none =>
    show (a.transfer dir fd b n none).pos fd = _
    rw [pos_transfer_none, Function.update_self]
    rfl
  | some o => rfl

/-- What is ahead after some bytes have been read. -/
theorem ahead_read : (a.transfer .read fd b n offset).ahead fd (offset.map (· + n)) =
    (a.ahead fd offset).drop n := by
  unfold ahead
  rw [start_transfer, file_transfer, content_read, List.drop_drop]

theorem transfer_zero : a.transfer dir fd b 0 offset = a := by
  have hpos : Function.update a.pos fd (a.pos fd + 0) = a.pos := Function.update_eq_self ..
  have hmem : storeBytes a.mem b [] = a.mem := storeBytes_nil ..
  have hcontent : Function.update a.content (a.file fd) (a.content (a.file fd)) = a.content :=
    Function.update_eq_self ..
  cases dir with
  | read => cases offset <;> simp only [transfer, movePos, List.take_zero, hmem, hpos]
  | write =>
    cases offset <;> simp only [transfer, movePos, loadBytes_zero, overwrite_nil, hcontent, hpos]

theorem ext_iff' {a a' : Files} : a = a' ↔
    a.mem = a'.mem ∧ a.content = a'.content ∧ a.file = a'.file ∧ a.pos = a'.pos := by
  cases a
  cases a'
  simp

/-- **Two transfers are one**, when the second one goes on behind the first one. -/
theorem transfer_transfer (hn : dir = .read → n ≤ (a.ahead fd offset).length) :
    (a.transfer dir fd b n offset).transfer dir fd (b + n) m (offset.map (· + n)) =
      a.transfer dir fd b (n + m) offset := by
  have hpos : ((a.transfer dir fd b n offset).transfer dir fd (b + n) m (offset.map (· + n))).pos =
      (a.transfer dir fd b (n + m) offset).pos := by
    cases offset with
    | none =>
      show ((a.transfer dir fd b n none).transfer dir fd (b + n) m none).pos = _
      rw [pos_transfer_none, pos_transfer_none, pos_transfer_none, Function.update_idem,
        Function.update_self, Nat.add_assoc]
    | some o =>
      show ((a.transfer dir fd b n (some o)).transfer dir fd (b + n) m (some (o + n))).pos = _
      rw [pos_transfer_some, pos_transfer_some, pos_transfer_some]
  rw [ext_iff']
  refine ⟨?_, ?_, ?_, hpos⟩
  · cases dir with
    | read =>
      -- the second read is stored behind the first one
      have hlen : ((a.ahead fd offset).take n).length = n := by
        rw [List.length_take, Nat.min_eq_left (hn rfl)]
      have hstore := storeBytes_append a.mem b ((a.ahead fd offset).take n)
        (((a.ahead fd offset).drop n).take m)
      rw [hlen] at hstore
      rw [mem_read, mem_read, mem_read, ahead_read, hstore, List.take_add]
    | write => rw [mem_write, mem_write, mem_write]
  · cases dir with
    | read => rw [content_read, content_read, content_read]
    | write =>
      -- and the second write goes on where the first one ended
      have hwrite := overwrite_append (a.content (a.file fd)) (a.start fd offset)
        (loadBytes a.mem b n) (loadBytes a.mem (b + n) m)
      rw [length_loadBytes] at hwrite
      rw [content_write, start_transfer, content_write, mem_write, file_transfer, content_write,
        Function.update_self, Function.update_idem, hwrite, loadBytes_add]
  · rw [file_transfer, file_transfer, file_transfer]

end Files

/-! ## Whole requests -/

/-- What a client asks for. -/
structure Request where
  dir : Direction
  fd : Int
  buf : Int
  count : Nat
  offset : Option Nat
  deriving DecidableEq, Repr

namespace Files

/-- A read gets what there is, a write writes all. -/
def amount (a : Files) (req : Request) : Nat :=
  match req.dir with
  | .read => min req.count (a.ahead req.fd req.offset).length
  | .write => req.count

/-- The request, served at once. -/
def serve (a : Files) (req : Request) : Files :=
  a.transfer req.dir req.fd req.buf (a.amount req) req.offset

/-- The bytes that go from the one side to the other. -/
def moved (a : Files) (req : Request) : List UInt8 :=
  match req.dir with
  | .read => (a.ahead req.fd req.offset).take req.count
  | .write => loadBytes a.mem req.buf req.count

variable {a : Files} {req : Request}

theorem length_moved (a : Files) (req : Request) : (a.moved req).length = a.amount req := by
  unfold moved amount
  split
  · rw [List.length_take]
  · rw [length_loadBytes]

/-- They are in the buffer afterwards. -/
theorem loadBytes_serve (a : Files) (req : Request) :
    loadBytes (a.serve req).mem req.buf (a.amount req) = a.moved req := by
  have hlen := a.length_moved req
  cases hdir : req.dir with
  | read =>
    have hmoved : a.moved req = (a.ahead req.fd req.offset).take (a.amount req) := by
      simp only [moved, amount, hdir]
      rw [← List.take_take, List.take_length]
    have hload := loadBytes_storeBytes a.mem req.buf (a.moved req)
    rw [hlen] at hload
    rw [serve, hdir, mem_read, ← hmoved, hload]
  | write =>
    rw [serve, hdir, mem_write]
    simp only [moved, amount, hdir]

/-- The requests of a run, one after the other, with the bytes that each of them moves. -/
def serveAll : Files → List Request → Files × List (Request × List UInt8)
  | a, [] => (a, [])
  | a, req :: reqs =>
    ((serveAll (a.serve req) reqs).1, (req, a.moved req) :: (serveAll (a.serve req) reqs).2)

theorem serveAll_cons (a : Files) (req : Request) (reqs : List Request) :
    a.serveAll (req :: reqs) = (((a.serve req).serveAll reqs).1,
      (req, a.moved req) :: ((a.serve req).serveAll reqs).2) := rfl

end Files

/-! ## One descriptor appends, another one reads -/

/-- The bytes of all the replies to `fd`. -/
def bytesOf (fd : Int) (replies : List (Request × List UInt8)) : List UInt8 :=
  (replies.filter fun x => x.1.fd = fd).flatMap Prod.snd

theorem bytesOf_cons_self {fd : Int} {req : Request} (h : req.fd = fd) (bytes : List UInt8)
    (replies : List (Request × List UInt8)) :
    bytesOf fd ((req, bytes) :: replies) = bytes ++ bytesOf fd replies := by
  simp [bytesOf, h]

theorem bytesOf_cons_of_ne {fd : Int} {req : Request} (h : req.fd ≠ fd) (bytes : List UInt8)
    (replies : List (Request × List UInt8)) :
    bytesOf fd ((req, bytes) :: replies) = bytesOf fd replies := by
  simp [bytesOf, h]

/-- `w` only writes and `r` only reads, both from their positions on, and no other descriptor writes
to their file `i`. -/
def Piped (file : Int → Nat) (i : Nat) (w r : Int) (req : Request) : Prop :=
  (req.fd = w → req.dir = .write ∧ req.offset = none) ∧
  (req.fd = r → req.dir = .read ∧ req.offset = none) ∧
  (req.dir = .write → file req.fd = i → req.fd = w)

namespace Files

variable {a : Files} {i : Nat} {w r : Int} {req : Request}

/-- Both are open on the file `i`, whose end is where `w` is. -/
structure PipeEnds (a : Files) (i : Nat) (w r : Int) : Prop where
  file_w : a.file w = i
  file_r : a.file r = i
  atEnd : a.pos w = (a.content i).length

/-- What is in the file that `r` has not read. -/
def pending (a : Files) (i : Nat) (r : Int) : List UInt8 := (a.content i).drop (a.pos r)

theorem ahead_of_pipeEnds (h : a.PipeEnds i w r) : a.ahead r none = a.pending i r := by
  unfold ahead
  rw [h.file_r]
  rfl

/-- A request of the writer appends. -/
theorem serve_writer (h : a.PipeEnds i w r) (hwr : w ≠ r) (hpos : a.pos r ≤ (a.content i).length)
    (hfd : req.fd = w) (hdir : req.dir = .write) (hoffset : req.offset = none) :
    (a.serve req).PipeEnds i w r ∧ (a.serve req).pos r = a.pos r ∧
      (a.serve req).content i = a.content i ++ a.moved req ∧
      (a.serve req).pending i r = a.pending i r ++ a.moved req := by
  have hcontent : (a.serve req).content i = a.content i ++ a.moved req := by
    have hstart : a.start w none = (a.content i).length := h.atEnd
    rw [serve, hdir, content_write, hfd, h.file_w, hoffset, hstart, Function.update_self,
      overwrite_length]
    simp only [moved, amount, hdir]
  have hposr : (a.serve req).pos r = a.pos r := by
    rw [serve, hoffset, hfd, pos_transfer_none, Function.update_of_ne hwr.symm]
  refine ⟨⟨?_, ?_, ?_⟩, hposr, hcontent, ?_⟩
  · rw [serve, file_transfer, h.file_w]
  · rw [serve, file_transfer, h.file_r]
  · rw [hcontent, List.length_append, a.length_moved, ← h.atEnd, serve, hoffset, hfd,
      pos_transfer_none, Function.update_self]
  · unfold pending
    rw [hcontent, hposr, List.drop_append_of_le_length hpos]

/-- A request of the reader takes from what is pending. -/
theorem serve_reader (h : a.PipeEnds i w r) (hwr : w ≠ r) (hfd : req.fd = r)
    (hdir : req.dir = .read) (hoffset : req.offset = none) :
    (a.serve req).PipeEnds i w r ∧ (a.serve req).content i = a.content i ∧
      (a.serve req).pos r = a.pos r + a.amount req ∧
      a.pending i r = a.moved req ++ (a.serve req).pending i r := by
  have hcontent : (a.serve req).content = a.content := by rw [serve, hdir, content_read]
  have hposr : (a.serve req).pos r = a.pos r + a.amount req := by
    rw [serve, hoffset, hfd, pos_transfer_none, Function.update_self]
  have hmoved : a.moved req = (a.pending i r).take (a.amount req) := by
    simp only [moved, amount, hdir, hfd, hoffset, ahead_of_pipeEnds h]
    rw [← List.take_take, List.take_length]
  refine ⟨⟨?_, ?_, ?_⟩, by rw [hcontent], hposr, ?_⟩
  · rw [serve, file_transfer, h.file_w]
  · rw [serve, file_transfer, h.file_r]
  · rw [hcontent, ← h.atEnd, serve, hoffset, hfd, pos_transfer_none, Function.update_of_ne hwr]
  · have hrest : (a.serve req).pending i r = (a.pending i r).drop (a.amount req) := by
      unfold pending
      rw [hcontent, hposr, List.drop_drop]
    rw [hmoved, hrest, List.take_append_drop]

/-- Any other request leaves the file and both positions alone. -/
theorem serve_other (h : a.PipeEnds i w r) (hw : req.fd ≠ w) (hr : req.fd ≠ r)
    (hother : req.dir = .write → a.file req.fd ≠ i) :
    (a.serve req).PipeEnds i w r ∧ (a.serve req).content i = a.content i ∧
      (a.serve req).pos r = a.pos r := by
  have hcontent : (a.serve req).content i = a.content i := by
    cases hdir : req.dir with
    | read => rw [serve, hdir, content_read]
    | write => rw [serve, hdir, content_write, Function.update_of_ne (hother hdir).symm]
  have hpos : ∀ fd, req.fd ≠ fd → (a.serve req).pos fd = a.pos fd := by
    intro fd hne
    unfold serve
    cases req.offset with
    | none => rw [pos_transfer_none, Function.update_of_ne hne.symm]
    | some o => rw [pos_transfer_some]
  refine ⟨⟨?_, ?_, ?_⟩, hcontent, hpos r hr⟩
  · rw [serve, file_transfer, h.file_w]
  · rw [serve, file_transfer, h.file_r]
  · rw [hpos w hw, hcontent, h.atEnd]

/-- **Conservation.** Whatever the order of the requests and their sizes: what `r` has read, and
then what is still pending, is what was pending at first, and then what `w` has written. -/
theorem conserved (hwr : w ≠ r) {reqs : List Request} :
    ∀ {a : Files}, a.PipeEnds i w r → a.pos r ≤ (a.content i).length →
      (∀ req ∈ reqs, Piped a.file i w r req) →
      bytesOf r (a.serveAll reqs).2 ++ (a.serveAll reqs).1.pending i r =
        a.pending i r ++ bytesOf w (a.serveAll reqs).2 := by
  induction reqs with
  | nil =>
    intro a _ _ _
    exact (List.append_nil _).symm
  | cons req reqs ih =>
    intro a h hpos hpiped
    obtain ⟨hwriter, hreader, hothers⟩ := hpiped req (List.mem_cons_self ..)
    have hrest : ∀ req' ∈ reqs, Piped (a.serve req).file i w r req' := by
      intro req' hreq'
      rw [serve, file_transfer]
      exact hpiped req' (List.mem_cons_of_mem _ hreq')
    rw [serveAll_cons]
    by_cases hw : req.fd = w
    · -- the writer adds to what is pending
      have hr : req.fd ≠ r := fun hr => hwr (hw.symm.trans hr)
      obtain ⟨hends, hposr, hcontent, hpending⟩ :=
        serve_writer h hwr hpos hw (hwriter hw).1 (hwriter hw).2
      have hpos' : (a.serve req).pos r ≤ ((a.serve req).content i).length := by
        rw [hposr, hcontent, List.length_append]
        omega
      rw [bytesOf_cons_of_ne hr, bytesOf_cons_self hw, ← List.append_assoc, ← hpending]
      exact ih hends hpos' hrest
    · by_cases hr : req.fd = r
      · -- the reader takes from it
        obtain ⟨hends, hcontent, hposr, hpending⟩ :=
          serve_reader h hwr hr (hreader hr).1 (hreader hr).2
        have hpos' : (a.serve req).pos r ≤ ((a.serve req).content i).length := by
          have hlen := a.length_moved req
          have hsplit := congrArg List.length hpending
          rw [List.length_append, hlen] at hsplit
          unfold pending at hsplit
          rw [List.length_drop, List.length_drop, hcontent] at hsplit
          rw [hposr, hcontent]
          omega
        rw [bytesOf_cons_self hr, bytesOf_cons_of_ne hw, hpending, List.append_assoc,
          List.append_assoc, ih hends hpos' hrest]
      · -- any other descriptor leaves it alone
        obtain ⟨hends, hcontent, hposr⟩ := serve_other h hw hr fun hdir hfile =>
          hw (hothers hdir hfile)
        have hpending : (a.serve req).pending i r = a.pending i r := by
          unfold pending
          rw [hcontent, hposr]
        rw [bytesOf_cons_of_ne hr, bytesOf_cons_of_ne hw, ← hpending]
        exact ih hends (by rw [hposr, hcontent]; exact hpos) hrest

end Files

end Posix

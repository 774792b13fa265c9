import HyServer.Cpp.Text

/-!
# Cpp — reads behind a pointer

Code that reads bytes from a pointer on, with the offsets it has read written down in order. The
bytes are those that the object has from there; a read behind the object has no defined result, but
it is written down as well.

* `loads` — a number of bytes, as `memcpy` reads them.
* `strlen` — up to and with the first NUL.
-/

namespace Cpp

/-- The offsets that have been read are the state. -/
abbrev ReadM := OptionT (StateM (List Nat))

namespace ReadM

/-- The byte at offset `i`, the first of `bytes`. -/
def load (bytes : List UInt8) (i : Nat) : ReadM UInt8 :=
  OptionT.mk fun reads => (bytes.head?, reads ++ [i])

def loads (i : Nat) : Nat → List UInt8 → ReadM (List UInt8)
  | 0, _ => pure []
  | n + 1, bytes => do
    let b ← load bytes i
    let rest ← loads (i + 1) n bytes.tail
    return b :: rest

def strlen (i : Nat) : List UInt8 → ReadM Nat
  | [] => do
    let _ ← load [] i
    return i
  | b :: bytes => do
    let c ← load (b :: bytes) i
    if c = 0 then return i else strlen (i + 1) bytes

/-! ## Sequencing -/

section

variable {α β : Type} {x : ReadM α} {f : α → ReadM β} {reads reads' : List Nat}

theorem run_bind_some {a : α} (h : x.run reads = (some a, reads')) :
    (x >>= f).run reads = (f a).run reads' := by
  rw [OptionT.run_bind]
  show (x.run >>= _) reads = _
  simp [bind, StateT.bind, h]

theorem run_bind_none (h : x.run reads = (none, reads')) :
    (x >>= f).run reads = (none, reads') := by
  rw [OptionT.run_bind]
  show (x.run >>= _) reads = _
  simp [bind, StateT.bind, h]
  rfl

/-- What a sequence has done when it has a result. -/
theorem run_bind_eq_some {b : β} (h : (x >>= f).run reads = (some b, reads')) :
    ∃ a mid, x.run reads = (some a, mid) ∧ (f a).run mid = (some b, reads') := by
  obtain ⟨r, mid, hx⟩ : ∃ r mid, x.run reads = (r, mid) := ⟨_, _, rfl⟩
  cases r with
  | none =>
    rw [run_bind_none hx] at h
    cases h
  | some a =>
    rw [run_bind_some hx] at h
    exact ⟨a, mid, hx, h⟩

end

/-! ## What is read -/

theorem run_load (b : UInt8) (bytes : List UInt8) (i : Nat) (reads : List Nat) :
    (load (b :: bytes) i).run reads = (some b, reads ++ [i]) := rfl

theorem run_load_nil (i : Nat) (reads : List Nat) :
    (load [] i).run reads = (none, reads ++ [i]) := rfl

theorem append_range'_succ (reads : List Nat) (i n : Nat) :
    reads ++ [i] ++ List.range' (i + 1) n = reads ++ List.range' i (n + 1) := by
  rw [List.append_assoc, List.range'_succ]
  rfl

/-- A read that stays in the object. -/
theorem run_loads {n : Nat} {bytes : List UInt8} (h : n ≤ bytes.length) (i : Nat)
    (reads : List Nat) :
    (loads i n bytes).run reads = (some (bytes.take n), reads ++ List.range' i n) := by
  induction n generalizing bytes i reads with
  | zero =>
    show (some [], reads) = _
    simp
  | succ n ih =>
    cases bytes with
    | nil => cases h
    | cons b bytes =>
      have hrest := ih (Nat.le_of_succ_le_succ h) (i + 1) (reads ++ [i])
      rw [loads, run_bind_some (run_load b bytes i reads), List.tail_cons, run_bind_some hrest,
        append_range'_succ]
      rfl

/-- One that does not reads the byte behind the object. -/
theorem run_loads_none {n : Nat} {bytes : List UInt8} (h : bytes.length < n) (i : Nat)
    (reads : List Nat) :
    (loads i n bytes).run reads = (none, reads ++ List.range' i (bytes.length + 1)) := by
  induction n generalizing bytes i reads with
  | zero => cases h
  | succ n ih =>
    cases bytes with
    | nil =>
      rw [loads, run_bind_none (run_load_nil i reads)]
      rfl
    | cons b bytes =>
      have hrest := ih (Nat.lt_of_succ_lt_succ h) (i + 1) (reads ++ [i])
      rw [loads, run_bind_some (run_load b bytes i reads), List.tail_cons, run_bind_none hrest,
        append_range'_succ]
      rfl

theorem run_strlen {bytes : List UInt8} (h : (0 : UInt8) ∈ bytes) (i : Nat) (reads : List Nat) :
    (strlen i bytes).run reads =
      (some (i + (untilNul bytes).length),
        reads ++ List.range' i ((untilNul bytes).length + 1)) := by
  induction bytes generalizing i reads with
  | nil => cases h
  | cons b bytes ih =>
    rw [strlen, run_bind_some (run_load b bytes i reads)]
    by_cases hb : b = 0
    · rw [if_pos hb, untilNul, List.takeWhile_cons_of_neg (by simpa using hb)]
      rfl
    · have hmem : (0 : UInt8) ∈ bytes := by
        rcases List.mem_cons.mp h with hzero | hmem
        · exact absurd hzero.symm hb
        · exact hmem
      have hcons : untilNul (b :: bytes) = b :: untilNul bytes :=
        List.takeWhile_cons_of_pos (by simpa using hb)
      rw [if_neg hb, hcons, ih hmem, append_range'_succ, List.length_cons, Nat.add_right_comm,
        Nat.add_assoc]

theorem run_strlen_none {bytes : List UInt8} (h : (0 : UInt8) ∉ bytes) (i : Nat)
    (reads : List Nat) :
    (strlen i bytes).run reads = (none, reads ++ List.range' i (bytes.length + 1)) := by
  induction bytes generalizing i reads with
  | nil =>
    rw [strlen, run_bind_none (run_load_nil i reads)]
    rfl
  | cons b bytes ih =>
    have hb : ¬ b = 0 := fun hzero => h (hzero ▸ List.mem_cons_self)
    have hbytes : (0 : UInt8) ∉ bytes := fun hmem => h (List.mem_cons_of_mem b hmem)
    rw [strlen, run_bind_some (run_load b bytes i reads), if_neg hb, ih hbytes,
      append_range'_succ]
    rfl

end ReadM

end Cpp

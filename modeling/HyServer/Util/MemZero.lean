import HyServer.Net.Conversions
import HyServer.Net.IPAddressV6

/-!
# hy::MemZero

Zeroes the first bytes of an object, by `memset_s` where there is Annex K of the standard and by
`memset` elsewhere. `memset_s` takes the size of the destination before the byte, and a greater
number of bytes than that is a constraint violation, after which only the destination is set; the
handler of violations is one that returns.

* `Zeroes` — what it is for.
* `zeroes_memset_iff`, `zeroes_memset_s_iff` — on which objects each of the two does it.
* `memZero_agrees_iff` — both of them, and the addresses whose storage is zeroed by it.
-/

namespace Hy.Util

/-! ## The function -/

section

variable {n : Nat}

/-- `none` behind the object. -/
def memset (obj : Vector UInt8 n) (c : UInt8) (k : Nat) : Option (Vector UInt8 n) :=
  if k ≤ n then some (.ofFn fun i => if i < k then c else obj[i]) else none

/-- `memset_s(obj, smax, c, k)` -/
def memset_s (obj : Vector UInt8 n) (smax : Nat) (c : UInt8) (k : Nat) : Option (Vector UInt8 n) :=
  if k ≤ smax then memset obj c k else memset obj c smax

/-- On an object of one byte or more; `none` when it does not return. -/
def MemZero (stdcLibExt1 : Bool) (obj : Vector UInt8 (n + 1)) (size : Nat) :
    Option (Vector UInt8 (n + 1)) :=
  if stdcLibExt1 then memset_s obj 1 0 size
  else do
    let obj ← memset obj 0 size
    -- `std::terminate()`
    if obj[0] ≠ 0 then none else return obj

/-- It returns with the first `size` bytes zero, and the others unchanged. -/
def Zeroes (stdcLibExt1 : Bool) (obj : Vector UInt8 (n + 1)) (size : Nat) : Prop :=
  ∃ obj', MemZero stdcLibExt1 obj size = some obj' ∧
    ∀ (i : Nat) (h : i < n + 1), obj'[i] = if i < size then 0 else obj[i]

/-- The bytes to be zeroed are zero already, but for the first one. -/
def ZeroBehindFirst (obj : Vector UInt8 (n + 1)) (size : Nat) : Prop :=
  ∀ (i : Nat) (h : i < n + 1), 0 < i → i < size → obj[i] = 0

end

/-! ## The two paths -/

section

variable {n : Nat}

theorem memset_eq_some (obj : Vector UInt8 n) {k : Nat} (hk : k ≤ n) (c : UInt8) :
    ∃ obj', memset obj c k = some obj' ∧
      ∀ (i : Nat) (h : i < n), obj'[i] = if i < k then c else obj[i] :=
  ⟨_, if_pos hk, fun i h => by simp⟩

theorem memset_s_eq_some (obj : Vector UInt8 n) {smax : Nat} (hsmax : smax ≤ n) (c : UInt8)
    (k : Nat) :
    ∃ obj', memset_s obj smax c k = some obj' ∧
      ∀ (i : Nat) (h : i < n), obj'[i] = if i < min k smax then c else obj[i] := by
  unfold memset_s
  split
  next hk =>
    rw [Nat.min_eq_left hk]
    exact memset_eq_some obj (Nat.le_trans hk hsmax) c
  next hk =>
    rw [Nat.min_eq_right (Nat.le_of_not_le hk)]
    exact memset_eq_some obj hsmax c

variable {obj : Vector UInt8 (n + 1)} {size : Nat}

/-- On `memset`, the check of the first byte matters when nothing is to be zeroed. -/
theorem zeroes_memset_iff (hsize : size ≤ n + 1) :
    Zeroes false obj size ↔ 0 < size ∨ obj[0] = 0 := by
  obtain ⟨zeroed, hmemset, hbytes⟩ := memset_eq_some obj hsize 0
  have hrun : MemZero false obj size = if zeroed[0] ≠ 0 then none else some zeroed := by
    rw [MemZero, if_neg (by decide), hmemset]
    rfl
  have hfirst := hbytes 0 (Nat.succ_pos n)
  unfold Zeroes
  rw [hrun]
  -- it returns when the first byte is zero afterwards
  by_cases hzero : zeroed[0] = 0
  · rw [if_neg (fun hne => hne hzero)]
    refine iff_of_true ⟨zeroed, rfl, hbytes⟩ ?_
    by_cases hpos : 0 < size
    · exact .inl hpos
    · rw [if_neg hpos] at hfirst
      exact .inr (hfirst.symm.trans hzero)
  · rw [if_pos hzero]
    refine iff_of_false (fun h => ?_) (fun h => hzero ?_)
    · obtain ⟨obj', heq, -⟩ := h
      cases heq
    · rcases h with hpos | hobj
      · rw [hfirst, if_pos hpos]
      · rw [hfirst, hobj, ite_self]

/-- On `memset_s`, only the first byte is set. -/
theorem zeroes_memset_s_iff : Zeroes true obj size ↔ ZeroBehindFirst obj size := by
  have hone : 1 ≤ n + 1 := Nat.succ_le_succ (Nat.zero_le n)
  obtain ⟨zeroed, hmemset, hbytes⟩ := memset_s_eq_some obj hone 0 size
  constructor
  · intro h i hi hpos hlt
    obtain ⟨obj', hrun, hobj'⟩ := h
    have heq : obj' = zeroed := Option.some.inj (hrun.symm.trans hmemset)
    -- behind the first byte nothing was set
    have hleft : zeroed[i] = obj[i] := by rw [hbytes i hi, if_neg (by omega)]
    rw [← hleft, ← heq, hobj' i hi, if_pos hlt]
  · intro h
    refine ⟨zeroed, hmemset, fun i hi => ?_⟩
    rw [hbytes i hi]
    by_cases hfirst : i < min size 1
    · rw [if_pos hfirst, if_pos (by omega)]
    · rw [if_neg hfirst]
      split
      next hlt => exact h i hi (by omega) hlt
      next => rfl

/-- Zeroing a whole object. -/
theorem zeroes_whole_iff (stdcLibExt1 : Bool) :
    Zeroes stdcLibExt1 obj (n + 1) ↔
      MemZero stdcLibExt1 obj (n + 1) = some (.replicate (n + 1) 0) := by
  constructor
  · intro h
    obtain ⟨obj', hrun, hbytes⟩ := h
    have hzero : obj' = .replicate (n + 1) 0 :=
      Vector.ext fun i hi => by rw [hbytes i hi, if_pos hi, Vector.getElem_replicate]
    rw [hrun, hzero]
  · intro h
    exact ⟨_, h, fun i hi => by rw [if_pos hi, Vector.getElem_replicate]⟩

/-- Whatever is made of the bytes, as long as it can be told from it that they are zero. -/
theorem exists_map_isZero_iff {α : Type} {make : Vector UInt8 (n + 1) → α} {isZero : α → Bool}
    (hisZero : ∀ bytes, isZero (make bytes) = (bytes == .replicate (n + 1) 0))
    (stdcLibExt1 : Bool) :
    (∃ a, (MemZero stdcLibExt1 obj (n + 1)).map make = some a ∧ isZero a = true) ↔
      Zeroes stdcLibExt1 obj (n + 1) := by
  rw [zeroes_whole_iff]
  constructor
  · intro h
    obtain ⟨a, hmake, hzero⟩ := h
    obtain ⟨bytes, hrun, rfl⟩ := Option.map_eq_some_iff.mp hmake
    rw [hisZero, beq_iff_eq] at hzero
    rw [hrun, hzero]
  · intro h
    refine ⟨_, Option.map_eq_some_iff.mpr ⟨_, h, rfl⟩, ?_⟩
    rw [hisZero, beq_iff_eq]

end

end Hy.Util

/-! ## Default-constructed addresses -/

namespace Hy.Net

open Hy.Util

section

variable (stdcLibExt1 : Bool) (host : Host)

/-- `IPAddressV4()`, in a storage with any bytes. -/
def IPAddressV4.default (junk : ByteArray4) : Option IPAddressV4 :=
  (MemZero stdcLibExt1 junk 4).map (IPAddressV4.ofByteArray host)

def IPAddressV4.empty (a : IPAddressV4) : Bool := a.toBinary host == .replicate 4 0

/-- `IPAddressV6()`, in a storage with any bytes. -/
def IPAddressV6.default (junk : ByteArray16) : Option IPAddressV6 :=
  (MemZero stdcLibExt1 junk 16).map fun bytes => ⟨bytes, 0⟩

def IPAddressV6.empty (a : IPAddressV6) : Bool := a.addr == .replicate 16 0

/-- There is a default-constructed address, and it is empty. -/
def IPAddressV4.EmptyByDefault (junk : ByteArray4) : Prop :=
  ∃ a, IPAddressV4.default stdcLibExt1 host junk = some a ∧ a.empty host = true

def IPAddressV6.EmptyByDefault (junk : ByteArray16) : Prop :=
  ∃ a, IPAddressV6.default stdcLibExt1 junk = some a ∧ a.empty = true

theorem IPAddressV4.emptyByDefault_iff (junk : ByteArray4) :
    IPAddressV4.EmptyByDefault stdcLibExt1 host junk ↔ Zeroes stdcLibExt1 junk 4 := by
  refine exists_map_isZero_iff (fun bytes => ?_) stdcLibExt1
  have hbytes : (ofByteArray host bytes).toBinary host = bytes :=
    InAddr.toBytes_ofBytes host bytes
  rw [empty, hbytes]

theorem IPAddressV6.emptyByDefault_iff (junk : ByteArray16) :
    IPAddressV6.EmptyByDefault stdcLibExt1 junk ↔ Zeroes stdcLibExt1 junk 16 :=
  exists_map_isZero_iff (fun _ => rfl) stdcLibExt1

end

/-- **Both paths** zero the bytes of the objects whose bytes behind the first are zero already, and
whose first one is if no byte is to be zeroed; and both leave an empty address in the storages whose
bytes behind the first are zero already. -/
theorem memZero_agrees_iff {n : Nat} {obj : Vector UInt8 (n + 1)} {size : Nat}
    (hsize : size ≤ n + 1) (host : Host) (junk₄ : ByteArray4) (junk₆ : ByteArray16) :
    ((∀ ext, Zeroes ext obj size) ↔ (0 < size ∨ obj[0] = 0) ∧ ZeroBehindFirst obj size) ∧
    ((∀ ext, IPAddressV4.EmptyByDefault ext host junk₄) ↔ ZeroBehindFirst junk₄ 4) ∧
    ((∀ ext, IPAddressV6.EmptyByDefault ext junk₆) ↔ ZeroBehindFirst junk₆ 16) := by
  refine ⟨?_, ?_, ?_⟩
  · rw [Bool.forall_bool, zeroes_memset_iff hsize, zeroes_memset_s_iff]
  · rw [Bool.forall_bool, IPAddressV4.emptyByDefault_iff, IPAddressV4.emptyByDefault_iff,
      zeroes_memset_iff (Nat.le_refl 4), zeroes_memset_s_iff]
    exact and_iff_right (.inl (by decide))
  · rw [Bool.forall_bool, IPAddressV6.emptyByDefault_iff, IPAddressV6.emptyByDefault_iff,
      zeroes_memset_iff (Nat.le_refl 16), zeroes_memset_s_iff]
    exact and_iff_right (.inl (by decide))

theorem memZero_agrees_one :
    1 ≤ 1 + 1 ∧ ∀ ext, Zeroes ext #v[7, 9] 1 := by
  have hle : 1 ≤ 1 + 1 := by decide
  refine ⟨hle, (memZero_agrees_iff hle .little (.replicate 4 0) (.replicate 16 0)).1.mpr
    ⟨.inl (by decide), fun i hi hpos hlt => ?_⟩⟩
  omega

/-- Two bytes, of which `memset_s` sets one; none, of which `memset` finds the first not zero; and
an address that is not empty. -/
theorem not_memZero_agrees_two :
    MemZero true #v[7, 9] 2 = some #v[0, 9] ∧ MemZero false #v[7, 9] 0 = none ∧
      ¬ (∀ ext, Zeroes ext #v[7, 9] 2) ∧
      ¬ IPAddressV4.EmptyByDefault true .little #v[7, 9, 9, 9] := by
  refine ⟨by decide, by decide, fun h => ?_, fun h => ?_⟩
  · have hbehind := zeroes_memset_s_iff.mp (h true)
    exact absurd (hbehind 1 (by decide) (by decide) (by decide)) (by decide)
  · rw [IPAddressV4.emptyByDefault_iff, zeroes_memset_s_iff] at h
    exact absurd (h 1 (by decide) (by decide) (by decide)) (by decide)

end Hy.Net

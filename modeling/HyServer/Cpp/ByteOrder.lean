import Mathlib.Data.List.GetD
import Mathlib.Data.Nat.Bitwise
import Mathlib.Data.Nat.Digits.Lemmas

/-!
# Cpp — byte strings as numbers

A string of bytes is a number in base 256, in either of two ways: with the least significant byte
first, or with the most significant one first.

* `littleEndian_lt_iff`, `bigEndian_lt_iff` — of two strings of one length, the numbers are told
  apart by the last difference, or by the first one; the latter is the lexicographic order.
* `toLittleEndian`, `toBigEndian` — the bytes of a number, and the round trips.
* `testBit_bigEndian` — the bits of the number are those of the bytes.
-/

namespace Cpp

def littleEndian (bytes : List UInt8) : Nat :=
  Nat.ofDigits 256 (bytes.map UInt8.toNat)

def bigEndian (bytes : List UInt8) : Nat :=
  littleEndian bytes.reverse

/-! ## Values -/

@[simp] theorem littleEndian_nil : littleEndian [] = 0 := rfl

@[simp] theorem littleEndian_cons (b : UInt8) (bytes : List UInt8) :
    littleEndian (b :: bytes) = b.toNat + 256 * littleEndian bytes := by
  simp [littleEndian, Nat.ofDigits_cons]

theorem littleEndian_append (as bs : List UInt8) :
    littleEndian (as ++ bs) = littleEndian as + 256 ^ as.length * littleEndian bs := by
  simp [littleEndian, Nat.ofDigits_append]

@[simp] theorem bigEndian_nil : bigEndian [] = 0 := rfl

theorem bigEndian_cons (b : UInt8) (bytes : List UInt8) :
    bigEndian (b :: bytes) = bigEndian bytes + 256 ^ bytes.length * b.toNat := by
  simp [bigEndian, littleEndian_append]

theorem bigEndian_append (as bs : List UInt8) :
    bigEndian (as ++ bs) = bigEndian as * 256 ^ bs.length + bigEndian bs := by
  rw [bigEndian, List.reverse_append, littleEndian_append, List.length_reverse, Nat.add_comm,
    Nat.mul_comm]
  rfl

theorem littleEndian_lt (bytes : List UInt8) : littleEndian bytes < 256 ^ bytes.length := by
  have hlt := Nat.ofDigits_lt_base_pow_length (b := 256) (l := bytes.map UInt8.toNat) (by decide)
    fun x hx => by
      obtain ⟨b, -, rfl⟩ := List.mem_map.mp hx
      exact b.toNat_lt
  simpa [littleEndian] using hlt

theorem bigEndian_lt (bytes : List UInt8) : bigEndian bytes < 256 ^ bytes.length := by
  have hlt := littleEndian_lt bytes.reverse
  rwa [List.length_reverse] at hlt

/-- Induction on two strings of one length. -/
@[elab_as_elim]
theorem sameLength_induction {motive : ∀ as bs : List UInt8, as.length = bs.length → Prop}
    (nil : motive [] [] rfl)
    (cons : ∀ a as b bs (hlen : as.length = bs.length), motive as bs hlen →
      motive (a :: as) (b :: bs) (congrArg Nat.succ hlen))
    {as bs : List UInt8} (hlen : as.length = bs.length) : motive as bs hlen := by
  induction as generalizing bs with
  | nil =>
    cases bs with
    | nil => exact nil
    | cons b bs => cases hlen
  | cons a as ih =>
    cases bs with
    | nil => cases hlen
    | cons b bs => exact cons a as b bs (Nat.succ.inj hlen) (ih (Nat.succ.inj hlen))

theorem littleEndian_inj {as bs : List UInt8} (hlen : as.length = bs.length)
    (h : littleEndian as = littleEndian bs) : as = bs := by
  induction hlen using sameLength_induction with
  | nil => rfl
  | cons a as b bs hlen ih =>
    rw [littleEndian_cons, littleEndian_cons] at h
    have ha := a.toNat_lt
    have hb := b.toNat_lt
    have hhead : a = b := UInt8.toNat_inj.mp (by omega)
    rw [hhead, ih (by omega)]

theorem bigEndian_inj {as bs : List UInt8} (hlen : as.length = bs.length)
    (h : bigEndian as = bigEndian bs) : as = bs :=
  List.reverse_injective (littleEndian_inj (by simpa using hlen) h)

/-! ## Bytes -/

def toLittleEndian : Nat → Nat → List UInt8
  | 0, _ => []
  | n + 1, x => UInt8.ofNat (x % 256) :: toLittleEndian n (x / 256)

/-- The `n` low bytes of a number, the most significant one first. -/
def toBigEndian (n x : Nat) : List UInt8 :=
  (toLittleEndian n x).reverse

@[simp] theorem length_toLittleEndian (n x : Nat) : (toLittleEndian n x).length = n := by
  induction n generalizing x with
  | zero => rfl
  | succ n ih => simp [toLittleEndian, ih]

@[simp] theorem length_toBigEndian (n x : Nat) : (toBigEndian n x).length = n := by
  simp [toBigEndian]

theorem littleEndian_toLittleEndian {n x : Nat} (hx : x < 256 ^ n) :
    littleEndian (toLittleEndian n x) = x := by
  induction n generalizing x with
  | zero =>
    have hzero : x = 0 := by simpa using hx
    rw [hzero]
    rfl
  | succ n ih =>
    have hdiv : x / 256 < 256 ^ n := by
      apply Nat.div_lt_of_lt_mul
      rwa [Nat.pow_succ, Nat.mul_comm] at hx
    have hbyte : (UInt8.ofNat (x % 256)).toNat = x % 256 :=
      Nat.mod_eq_of_lt (Nat.mod_lt x (by decide))
    rw [toLittleEndian, littleEndian_cons, ih hdiv, hbyte]
    omega

theorem toLittleEndian_littleEndian (bytes : List UInt8) :
    toLittleEndian bytes.length (littleEndian bytes) = bytes := by
  apply littleEndian_inj (length_toLittleEndian ..)
  exact littleEndian_toLittleEndian (littleEndian_lt bytes)

theorem bigEndian_toBigEndian {n x : Nat} (hx : x < 256 ^ n) :
    bigEndian (toBigEndian n x) = x := by
  rw [bigEndian, toBigEndian, List.reverse_reverse, littleEndian_toLittleEndian hx]

theorem toBigEndian_bigEndian (bytes : List UInt8) :
    toBigEndian bytes.length (bigEndian bytes) = bytes := by
  apply bigEndian_inj (length_toBigEndian ..)
  exact bigEndian_toBigEndian (bigEndian_lt bytes)

/-- Written in the one order and read in the other, a string is reversed. -/
theorem toLittleEndian_bigEndian (bytes : List UInt8) :
    toLittleEndian bytes.length (bigEndian bytes) = bytes.reverse := by
  have hback := toLittleEndian_littleEndian bytes.reverse
  rwa [List.length_reverse] at hback

theorem bigEndian_reverse (bytes : List UInt8) : bigEndian bytes.reverse = littleEndian bytes := by
  rw [bigEndian, List.reverse_reverse]

/-! ## Order -/

/-- The byte at a place; behind the string there are zeros. -/
def byteAt (bytes : List UInt8) (i : Nat) : UInt8 :=
  bytes.getD i 0

/-- The first place where two strings of one length differ. -/
def FirstDifference (as bs : List UInt8) (i : Nat) : Prop :=
  byteAt as i ≠ byteAt bs i ∧ ∀ k < i, byteAt as k = byteAt bs k

/-- The last one. -/
def LastDifference (as bs : List UInt8) (i : Nat) : Prop :=
  byteAt as i ≠ byteAt bs i ∧ ∀ k > i, byteAt as k = byteAt bs k

theorem byteAt_cons_zero (b : UInt8) (bytes : List UInt8) : byteAt (b :: bytes) 0 = b := rfl

theorem byteAt_cons_succ (b : UInt8) (bytes : List UInt8) (i : Nat) :
    byteAt (b :: bytes) (i + 1) = byteAt bytes i := rfl

theorem byteAt_eq_getElem {bytes : List UInt8} {i : Nat} (h : i < bytes.length) :
    byteAt bytes i = bytes[i] :=
  List.getD_eq_getElem _ _ h

theorem eq_of_byteAt {as bs : List UInt8} (hlen : as.length = bs.length)
    (h : ∀ i, byteAt as i = byteAt bs i) : as = bs := by
  refine List.ext_getElem hlen fun i ha hb => ?_
  have hi := h i
  rwa [byteAt_eq_getElem ha, byteAt_eq_getElem hb] at hi

/-- Two numbers of a leading digit and a rest below the weight of that digit. -/
theorem digit_lt_iff {weight x y d e : Nat} (hx : x < weight) (hy : y < weight) :
    x + weight * d < y + weight * e ↔ d < e ∨ d = e ∧ x < y := by
  rcases Nat.lt_trichotomy d e with hlt | heq | hgt
  · have hle : weight * (d + 1) ≤ weight * e := Nat.mul_le_mul_left _ hlt
    rw [Nat.mul_succ] at hle
    omega
  · rw [heq]
    omega
  · have hle : weight * (e + 1) ≤ weight * d := Nat.mul_le_mul_left _ hgt
    rw [Nat.mul_succ] at hle
    omega

/-- **The lexicographic order** of byte strings is that of the big-endian numbers. -/
theorem bigEndian_lt_iff {as bs : List UInt8} (hlen : as.length = bs.length) :
    bigEndian as < bigEndian bs ↔ as < bs := by
  induction hlen using sameLength_induction with
  | nil => simp
  | cons a as b bs hlen ih =>
    -- the first bytes are the leading digits
    have ha := bigEndian_lt as
    rw [hlen] at ha
    rw [List.cons_lt_cons_iff, ← ih, bigEndian_cons, bigEndian_cons, hlen,
      digit_lt_iff ha (bigEndian_lt bs), UInt8.lt_iff_toNat_lt, UInt8.toNat_inj]

theorem firstDifference_zero {a b : UInt8} {as bs : List UInt8} :
    FirstDifference (a :: as) (b :: bs) 0 ↔ a ≠ b :=
  ⟨fun h => h.1, fun h => ⟨h, fun k hk => absurd hk (Nat.not_lt_zero k)⟩⟩

theorem firstDifference_succ {a b : UInt8} {as bs : List UInt8} {i : Nat} :
    FirstDifference (a :: as) (b :: bs) (i + 1) ↔ a = b ∧ FirstDifference as bs i := by
  constructor
  · intro h
    refine ⟨h.2 0 (Nat.succ_pos i), h.1, fun k hk => h.2 (k + 1) (Nat.succ_lt_succ hk)⟩
  · intro h
    obtain ⟨rfl, hne, hbefore⟩ := h
    refine ⟨hne, fun k hk => ?_⟩
    cases k with
    | zero => rfl
    | succ k => exact hbefore k (Nat.lt_of_succ_lt_succ hk)

theorem lastDifference_zero {a b : UInt8} {as bs : List UInt8}
    (hlen : as.length = bs.length) : LastDifference (a :: as) (b :: bs) 0 ↔ a ≠ b ∧ as = bs := by
  constructor
  · intro h
    exact ⟨h.1, eq_of_byteAt hlen fun i => h.2 (i + 1) (Nat.succ_pos i)⟩
  · intro h
    obtain ⟨hne, rfl⟩ := h
    refine ⟨hne, fun k hk => ?_⟩
    cases k with
    | zero => exact absurd hk (Nat.lt_irrefl 0)
    | succ k => rfl

theorem lastDifference_succ {a b : UInt8} {as bs : List UInt8} {i : Nat} :
    LastDifference (a :: as) (b :: bs) (i + 1) ↔ LastDifference as bs i := by
  constructor
  · intro h
    exact ⟨h.1, fun k hk => h.2 (k + 1) (Nat.succ_lt_succ hk)⟩
  · intro h
    refine ⟨h.1, fun k hk => ?_⟩
    cases k with
    | zero => exact absurd hk (Nat.not_lt_zero _)
    | succ k => exact h.2 k (Nat.lt_of_succ_lt_succ hk)

/-- The lexicographic order is decided by the first difference. -/
theorem lt_iff_firstDifference {as bs : List UInt8} (hlen : as.length = bs.length) :
    as < bs ↔ ∃ i, FirstDifference as bs i ∧ byteAt as i < byteAt bs i := by
  induction hlen using sameLength_induction with
  | nil =>
    refine iff_of_false (List.lt_irrefl []) fun h => ?_
    obtain ⟨i, hdiff, -⟩ := h
    exact hdiff.1 rfl
  | cons a as b bs hlen ih =>
    rw [List.cons_lt_cons_iff, ih]
    constructor
    · intro h
      rcases h with hlt | ⟨heq, i, hdiff, hlt⟩
      · exact ⟨0, firstDifference_zero.mpr (UInt8.ne_of_lt hlt), hlt⟩
      · exact ⟨i + 1, firstDifference_succ.mpr ⟨heq, hdiff⟩, hlt⟩
    · intro h
      obtain ⟨i, hdiff, hlt⟩ := h
      cases i with
      | zero => exact .inl hlt
      | succ i =>
        obtain ⟨heq, hdiff⟩ := firstDifference_succ.mp hdiff
        exact .inr ⟨heq, i, hdiff, hlt⟩

/-- The order of the little-endian numbers is decided by the last difference. -/
theorem littleEndian_lt_iff {as bs : List UInt8} (hlen : as.length = bs.length) :
    littleEndian as < littleEndian bs ↔
      ∃ i, LastDifference as bs i ∧ byteAt as i < byteAt bs i := by
  induction hlen using sameLength_induction with
  | nil =>
    refine iff_of_false (Nat.lt_irrefl _) fun h => ?_
    obtain ⟨i, hdiff, -⟩ := h
    exact hdiff.1 rfl
  | cons a as b bs hlen ih =>
    have heq_iff : littleEndian as = littleEndian bs ↔ as = bs :=
      ⟨littleEndian_inj hlen, congrArg littleEndian⟩
    -- the later bytes weigh more: the first one decides where they agree
    rw [littleEndian_cons, littleEndian_cons, digit_lt_iff a.toNat_lt b.toNat_lt, ih, heq_iff,
      ← UInt8.lt_iff_toNat_lt]
    constructor
    · intro h
      rcases h with ⟨i, hdiff, hlt⟩ | ⟨heq, hlt⟩
      · exact ⟨i + 1, lastDifference_succ.mpr hdiff, hlt⟩
      · exact ⟨0, (lastDifference_zero hlen).mpr ⟨UInt8.ne_of_lt hlt, heq⟩, hlt⟩
    · intro h
      obtain ⟨i, hdiff, hlt⟩ := h
      cases i with
      | zero => exact .inr ⟨((lastDifference_zero hlen).mp hdiff).2, hlt⟩
      | succ i => exact .inl ⟨i, lastDifference_succ.mp hdiff, hlt⟩

/-- Two different strings have a first and a last difference. -/
theorem exists_firstDifference {as bs : List UInt8} (hlen : as.length = bs.length)
    (hne : as ≠ bs) : ∃ i, FirstDifference as bs i := by
  induction hlen using sameLength_induction with
  | nil => exact absurd rfl hne
  | cons a as b bs hlen ih =>
    by_cases hab : a = b
    · have htail : as ≠ bs := fun heq => hne (by rw [hab, heq])
      obtain ⟨i, hdiff⟩ := ih htail
      exact ⟨i + 1, firstDifference_succ.mpr ⟨hab, hdiff⟩⟩
    · exact ⟨0, firstDifference_zero.mpr hab⟩

theorem exists_lastDifference {as bs : List UInt8} (hlen : as.length = bs.length)
    (hne : as ≠ bs) : ∃ i, LastDifference as bs i := by
  induction hlen using sameLength_induction with
  | nil => exact absurd rfl hne
  | cons a as b bs hlen ih =>
    -- the last difference is in the rest, if there is one
    by_cases htail : as = bs
    · have hab : a ≠ b := fun heq => hne (by rw [heq, htail])
      exact ⟨0, (lastDifference_zero hlen).mpr ⟨hab, htail⟩⟩
    · obtain ⟨i, hdiff⟩ := ih htail
      exact ⟨i + 1, lastDifference_succ.mpr hdiff⟩

theorem FirstDifference.unique {as bs : List UInt8} {i k : Nat} (hi : FirstDifference as bs i)
    (hk : FirstDifference as bs k) : i = k := by
  rcases Nat.lt_trichotomy i k with hlt | heq | hgt
  · exact absurd (hk.2 i hlt) hi.1
  · exact heq
  · exact absurd (hi.2 k hgt) hk.1

theorem LastDifference.unique {as bs : List UInt8} {i k : Nat} (hi : LastDifference as bs i)
    (hk : LastDifference as bs k) : i = k := by
  rcases Nat.lt_trichotomy i k with hlt | heq | hgt
  · exact absurd (hi.2 k hlt) hk.1
  · exact heq
  · exact absurd (hk.2 i hgt) hi.1

/-- Two strings differ in the same direction in the first place and in the last. -/
def EndsAgree (as bs : List UInt8) : Prop :=
  ∀ i j, FirstDifference as bs i → LastDifference as bs j →
    (byteAt as j < byteAt bs j ↔ byteAt as i < byteAt bs i)

/-- **The two orders agree** on two strings of one length when and only when their first and last
differences do. -/
theorem orders_agree_iff {as bs : List UInt8} (hlen : as.length = bs.length) :
    (littleEndian as < littleEndian bs ↔ as < bs) ↔ EndsAgree as bs := by
  rw [littleEndian_lt_iff hlen, lt_iff_firstDifference hlen]
  constructor
  · -- each of the two differences is the only one of its kind
    intro h i j hi hj
    constructor
    · intro hlt
      obtain ⟨k, hk, hlt'⟩ := h.mp ⟨j, hj, hlt⟩
      rwa [hi.unique hk]
    · intro hlt
      obtain ⟨k, hk, hlt'⟩ := h.mpr ⟨i, hi, hlt⟩
      rwa [hj.unique hk]
  · intro h
    constructor
    · intro hlast
      obtain ⟨j, hj, hlt⟩ := hlast
      have hne : as ≠ bs := fun heq => hj.1 (by rw [heq])
      obtain ⟨i, hi⟩ := exists_firstDifference hlen hne
      exact ⟨i, hi, (h i j hi hj).mp hlt⟩
    · intro hfirst
      obtain ⟨i, hi, hlt⟩ := hfirst
      have hne : as ≠ bs := fun heq => hi.1 (by rw [heq])
      obtain ⟨j, hj⟩ := exists_lastDifference hlen hne
      exact ⟨j, hj, (h i j hi hj).mpr hlt⟩

/-! ## Bits -/

theorem testBit_littleEndian (bytes : List UInt8) (k : Nat) {j : Nat} (hj : j < 8) :
    (littleEndian bytes).testBit (8 * k + j) = (byteAt bytes k).toNat.testBit j := by
  induction bytes generalizing k with
  | nil => simp [byteAt]
  | cons b bytes ih =>
    have hb : b.toNat < 2 ^ 8 := b.toNat_lt
    rw [littleEndian_cons, Nat.add_comm, show (256 : Nat) = 2 ^ 8 from rfl,
      Nat.testBit_two_pow_mul_add _ hb]
    cases k with
    | zero =>
      rw [if_pos (by omega), byteAt_cons_zero]
      congr 1
      omega
    | succ k =>
      rw [if_neg (by omega), byteAt_cons_succ, ← ih k]
      congr 1
      omega

theorem byteAt_reverse {bytes : List UInt8} {k : Nat} (hk : k < bytes.length) :
    byteAt bytes.reverse (bytes.length - 1 - k) = byteAt bytes k := by
  have hk' : bytes.length - 1 - k < bytes.reverse.length := by
    rw [List.length_reverse]
    omega
  rw [byteAt_eq_getElem hk', byteAt_eq_getElem hk, List.getElem_reverse]
  congr 1
  omega

/-- Counted from the most significant bit, the bits are those of the bytes in their order. -/
theorem testBit_bigEndian {bytes : List UInt8} {k j : Nat} (hk : k < bytes.length) (hj : j < 8) :
    (bigEndian bytes).testBit (8 * (bytes.length - 1 - k) + j)
      = (byteAt bytes k).toNat.testBit j := by
  rw [bigEndian, testBit_littleEndian _ _ hj, byteAt_reverse hk]

/-- Two numbers of `n` bits are compared at the most significant bit in which they differ. -/
theorem lt_iff_firstBit {n x y : Nat} (hx : x < 2 ^ n) (hy : y < 2 ^ n) :
    x < y ↔ ∃ i < n, (∀ j < i, x.testBit (n - 1 - j) = y.testBit (n - 1 - j)) ∧
      x.testBit (n - 1 - i) = false ∧ y.testBit (n - 1 - i) = true := by
  have hout : ∀ k, n ≤ k → x.testBit k = false ∧ y.testBit k = false := fun k hk =>
    have hpow : 2 ^ n ≤ 2 ^ k := Nat.pow_le_pow_right (by decide) hk
    ⟨Nat.testBit_lt_two_pow (by omega), Nat.testBit_lt_two_pow (by omega)⟩
  constructor
  · intro hlt
    obtain ⟨k, hk, habove⟩ := Nat.exists_most_significant_bit (Nat.xor_ne_zero_iff.mpr hlt.ne)
    have hsame : ∀ j, k < j → x.testBit j = y.testBit j := fun j hj => by
      have hxor := habove j hj
      rw [Nat.testBit_xor] at hxor
      exact by simpa using hxor
    rw [Nat.testBit_xor] at hk
    have hkn : k < n := by
      by_contra hle
      obtain ⟨hxk, hyk⟩ := hout k (by omega)
      rw [hxk, hyk] at hk
      cases hk
    have hplace : n - 1 - (n - 1 - k) = k := by omega
    refine ⟨n - 1 - k, by omega, fun j hj => hsame _ (by omega), ?_⟩
    rw [hplace]
    cases hxk : x.testBit k with
    | false =>
      rw [hxk, Bool.false_xor] at hk
      exact ⟨rfl, hk⟩
    | true =>
      -- the other way round `y` would be the smaller one
      rw [hxk, Bool.true_xor, Bool.not_eq_true'] at hk
      have hgt := Nat.lt_of_testBit k hk hxk fun j hj => (hsame j hj).symm
      omega
  · rintro ⟨i, hi, hbefore, hxi, hyi⟩
    refine Nat.lt_of_testBit (n - 1 - i) hxi hyi fun j hj => ?_
    by_cases hjn : j < n
    · have hplace : n - 1 - (n - 1 - j) = j := by omega
      rw [← hplace]
      exact hbefore _ (by omega)
    · obtain ⟨hxj, hyj⟩ := hout j (by omega)
      rw [hxj, hyj]
end Cpp

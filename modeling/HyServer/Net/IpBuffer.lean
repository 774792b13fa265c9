import HyServer.Net.IPAddressV6

/-!
# hy::net::IPAddressV6 — the buffer that `getaddrinfo` gets

`tryFromString` copies untrusted text into an array of 46 bytes on the stack. What it computes on
the way there is in `size_t`: the size without the brackets, the start and the length of the part
that is copied, and the place of the terminator.

* `BufferSafe` — every step has a result and stays within its bounds, and what the buffer holds.
* `exists_bufferSafe` — so it is for every text of two characters or more.
-/

namespace Hy.Net.IPAddressV6

open Cpp

/-- The first argument of `substr`. -/
def clipStart (str : StringView) : Nat :=
  if str.front = some openBracket ∧ str.back = some closeBracket then 1 else 0

/-- What comes of the C string that `getaddrinfo` is called with. -/
def parsed (getaddrinfo : Getaddrinfo) (text : List UInt8) :
    Except IPAddressFormatError IPAddressV6 :=
  match getaddrinfo text with
  | some sa => .ok (ofSockaddr sa)
  | none => .error .INVALID_IP

/-- From `str` to the `buf` that is handed on: `ip` is the variable of this name, and `copied` the
buffer before the terminator is written. -/
structure BufferSafe (ipBuffer : Vector UInt8 (kMaxSize + 1)) (str ip : StringView)
    (copied buf : Vector UInt8 (kMaxSize + 1)) : Prop where
  sizeSub_add : sizeSub str.size 2 + 2 = str.size
  clipStart_le : clipStart str ≤ str.size
  clipped_eq : clipped str = some ip
  ip_start : ip.start = str.start + clipStart str
  ip_within : clipStart str + ip.size ≤ str.size
  ip_size_le : ip.size ≤ kMaxSize
  ip_chars : ip.chars = (unbracketed str.chars).take kMaxSize
  /-- `std::copy` stays in the array. -/
  copy_eq : copyInto ip.chars ipBuffer = some copied
  terminator_lt : ip.size < kMaxSize + 1
  store_eq : store copied ip.size 0 = some buf
  /-- The text, its terminator, and what was there before. -/
  buf_eq : buf.toList = ip.chars ++ 0 :: ipBuffer.toList.drop (ip.size + 1)

section

variable {getaddrinfo : Getaddrinfo} {ipBuffer copied buf : Vector UInt8 (kMaxSize + 1)}
  {str ip : StringView}

theorem clipStart_le_one : clipStart str ≤ 1 := by
  unfold clipStart
  split
  next => exact Nat.le_refl 1
  next => exact Nat.zero_le 1

/-- Both calls of `substr` in one: a bracket is left out at either end, or none. -/
theorem clipped_eq_substr (hsize : 2 ≤ str.size) :
    clipped str = str.substr (clipStart str) (min (str.size - 2 * clipStart str) kMaxSize) := by
  unfold clipped clipStart
  split
  next => rw [sizeSub_eq hsize str.size_lt]
  next => rfl

/-- The view that is copied lies in the one that is given. -/
theorem clipped_within (hsize : 2 ≤ str.size) (hip : clipped str = some ip) :
    ip.start = str.start + clipStart str ∧ clipStart str + ip.size ≤ str.size ∧
      ip.size ≤ kMaxSize := by
  have hone : clipStart str ≤ 1 := clipStart_le_one
  obtain ⟨w, hw, hstart, hlen⟩ :=
    str.substr_eq_some (by omega : clipStart str ≤ str.size)
      (min (str.size - 2 * clipStart str) kMaxSize)
  rw [clipped_eq_substr hsize, hw] at hip
  cases hip
  refine ⟨hstart, ?_, ?_⟩
  · omega
  · omega

/-- What `getaddrinfo` is called with is that buffer. -/
theorem BufferSafe.tryFromString_eq (hsafe : BufferSafe ipBuffer str ip copied buf)
    (hsize : 2 ≤ str.size) :
    tryFromString getaddrinfo ipBuffer str = (cString buf.toList).map (parsed getaddrinfo) := by
  unfold tryFromString
  simp only [if_neg (Nat.not_lt.mpr hsize), hsafe.clipped_eq, hsafe.copy_eq, hsafe.store_eq,
    Option.bind_eq_bind, Option.bind_some]
  cases cString buf.toList with
  | none => rfl
  | some text =>
    rw [Option.bind_some, Option.map_some, parsed]
    cases getaddrinfo text <;> rfl

end

/-- **No text overruns the buffer**, and `getaddrinfo` gets it terminated. -/
theorem exists_bufferSafe (getaddrinfo : Getaddrinfo) (ipBuffer : Vector UInt8 (kMaxSize + 1))
    {str : StringView} (hsize : 2 ≤ str.size) :
    ∃ ip copied buf, BufferSafe ipBuffer str ip copied buf ∧
      tryFromString getaddrinfo ipBuffer str =
        (cString buf.toList).map (parsed getaddrinfo) := by
  obtain ⟨ip, hip, hchars⟩ := clipped_eq_some hsize
  obtain ⟨hstart, hwithin, hle⟩ := clipped_within hsize hip
  have hshort : ip.chars.length < kMaxSize + 1 := by
    rw [ip.length_chars]
    omega
  obtain ⟨copied, buf, hcopy, hstore, hbuf⟩ := exists_copy_nul ipBuffer hshort
  rw [ip.length_chars] at hstore hbuf
  have hsafe : BufferSafe ipBuffer str ip copied buf :=
    { sizeSub_add := by
        rw [sizeSub_eq hsize str.size_lt]
        omega
      clipStart_le := by omega
      clipped_eq := hip
      ip_start := hstart
      ip_within := hwithin
      ip_size_le := hle
      ip_chars := hchars
      copy_eq := hcopy
      terminator_lt := by omega
      store_eq := hstore
      buf_eq := hbuf }
  exact ⟨ip, copied, buf, hsafe, hsafe.tryFromString_eq hsize⟩

/-- `"[]"`, of which nothing is left. -/
theorem exists_bufferSafe_brackets :
    ∃ ip copied buf,
      BufferSafe (.replicate _ 7) (.ofLiteral [91, 93] (by decide)) ip copied buf ∧
        tryFromString loopback (.replicate _ 7) (.ofLiteral [91, 93] (by decide)) =
          (cString buf.toList).map (parsed loopback) :=
  exists_bufferSafe loopback (.replicate _ 7) (by decide)

end Hy.Net.IPAddressV6

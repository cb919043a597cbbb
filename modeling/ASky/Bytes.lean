import Mathlib

/-!
# Byte strings and keys

The server keeps names, keys and messages in `std::string`, the client in `ByteArray`. Both are
raw bytes, so both are `Bytes` here. `std::map` and `std::set` order `std::string` by
`char_traits<char>::compare`, that is by unsigned bytes, lexicographically; that is `compare` on
`List UInt8`, the order of the `Std.ExtTreeMap` and `Std.ExtTreeSet` that model them.

* `resize` is `std::string::resize(n, 0)`, and `keyOf` is the `fill(0)` / `memcpy` pair of
  `get_keys_of_group`: pad with zeros or cut to `KEY_SIZE` bytes.
* `cStr` is what survives a conversion through `c_str()` or `what()`: the bytes before the first
  NUL.
* `int32` wraps a result of `int` arithmetic around, on the JVM and in C++.
-/

namespace ASky

/-- `std::string`, `ByteArray`: a list of bytes. -/
abbrev Bytes := List UInt8

/-- The bytes of a literal. -/
def lit (s : String) : Bytes := s.toUTF8.data.toList

/-- `std::string::resize(n, 0)`. -/
def resize (b : Bytes) (n : Nat) : Bytes :=
  b.take n ++ List.replicate (n - b.length) 0

/-- `std::string(s.c_str())`: the bytes before the first NUL. -/
def cStr (b : Bytes) : Bytes := b.takeWhile (· ≠ 0)

/-- Every byte is below `0x80`. -/
def Ascii (b : Bytes) : Prop := ∀ x ∈ b, x.toNat < 128

instance : DecidablePred Ascii :=
  fun b => inferInstanceAs (Decidable (∀ x ∈ b, x.toNat < 128))

/-- ASCII without a NUL, as the texts of the source are. -/
def Printable (b : Bytes) : Prop := ∀ x ∈ b, 0 < x.toNat ∧ x.toNat < 128

/-- The characters of a text that is printable. -/
def printableChars (cs : List Char) : Bool :=
  cs.all fun c => Nat.blt 0 c.toNat && Nat.blt c.toNat 128

/-- `KEY_SIZE`. -/
def keySize : Nat := 32

/-- `std::array<uint8_t, KEY_SIZE>`. -/
def Key := { b : Bytes // b.length = keySize }
  deriving DecidableEq

/-- `KeyArray`. -/
abbrev KeyArray := List Key

@[simp] theorem length_resize (b : Bytes) (n : Nat) : (resize b n).length = n := by
  simp only [resize, List.length_append, List.length_take, List.length_replicate]
  omega

theorem resize_of_length {b : Bytes} {n : Nat} (h : b.length = n) : resize b n = b := by
  simp [resize, ← h]

/-- The 32 bytes `get_keys_of_group` copies out of a stored key: `key.fill(0)`, then `memcpy` of
`min(size, KEY_SIZE)` bytes. -/
def keyOf (stored : Bytes) : Key :=
  ⟨resize stored keySize, length_resize stored keySize⟩

theorem keyOf_val_of_length {b : Bytes} (h : b.length = keySize) : (keyOf b).val = b :=
  resize_of_length h

/-- `memcpy` of `min(size, KEY_SIZE)` bytes. -/
theorem keyOf_take (stored : Bytes) :
    keyOf (stored.take (min stored.length keySize)) = keyOf stored := by
  refine Subtype.ext ?_
  show resize (stored.take (min stored.length keySize)) keySize = resize stored keySize
  unfold resize
  rw [List.take_take, List.length_take]
  congr 1
  · rw [List.take_eq_take_iff]
    omega
  · congr 1
    omega

/-- `c_str()` loses nothing exactly when the string has no NUL. -/
theorem cStr_eq_self_iff {b : Bytes} : cStr b = b ↔ (0 : UInt8) ∉ b := by
  unfold cStr
  rw [List.takeWhile_eq_self_iff]
  simp only [decide_eq_true_eq]
  exact ⟨fun h h0 => h 0 h0 rfl, fun h x hx hx0 => h (hx0 ▸ hx)⟩

theorem Printable.ascii {b : Bytes} (h : Printable b) : Ascii b := fun x hx => (h x hx).2

theorem Printable.append {s t : Bytes} (hs : Printable s) (ht : Printable t) :
    Printable (s ++ t) := by
  intro b hb
  obtain h | h := List.mem_append.mp hb
  · exact hs b h
  · exact ht b h

theorem Printable.cStr {b : Bytes} (h : Printable b) : cStr b = b := by
  rw [cStr_eq_self_iff]
  intro h0
  exact absurd (h 0 h0).1 (by simp)

theorem printable_nil : Printable [] := by simp [Printable]

/-- A literal is printable when its characters are, which `rfl` checks: `lit` itself is slow to
evaluate. -/
theorem printable_lit {cs : List Char} (h : printableChars cs = true) :
    Printable (lit (String.ofList cs)) := by
  have hlit : lit (String.ofList cs) = cs.flatMap String.utf8EncodeChar := by
    simp [lit, String.toUTF8, List.utf8Encode]
  rw [hlit]
  intro b hb
  obtain ⟨c, hc, hb⟩ := List.mem_flatMap.mp hb
  have hrange := List.all_eq_true.mp h c hc
  simp only [Bool.and_eq_true, Nat.blt_eq] at hrange
  have hv : c.val.toNat < 128 := hrange.2
  have hsize : c.utf8Size = 1 := by
    unfold Char.utf8Size
    rw [if_pos]
    rw [UInt32.le_iff_toNat_le]
    exact Nat.le_of_lt_succ hv
  rw [String.utf8EncodeChar_eq_singleton hsize] at hb
  rw [List.mem_singleton.mp hb]
  have htoNat : c.val.toUInt8.toNat = c.toNat := by
    rw [UInt32.toNat_toUInt8]
    exact Nat.mod_eq_of_lt (by omega)
  rw [htoNat]
  exact hrange

/-- An `int` of 32 bits, in two's complement. -/
def int32 (x : Int) : Int := x.bmod (2 ^ 32)

theorem int32_eq {x : Int} (hl : -(2 ^ 31) ≤ x) (hr : x < 2 ^ 31) : int32 x = x := by
  unfold int32
  exact Int.bmod_eq_of_le (by omega) (by omega)

end ASky

import Mathlib

/-!
# Big-endian bytes of a natural number

`toBytesBE w n` is the number `n` in `w` bytes, most significant byte first; what does not fit is
dropped. `ofBytesBE` is the number some bytes stand for. They undo each other: a number below
`256 ^ w` survives (`ofBytesBE_toBytesBE`), and so does every string of bytes
(`toBytesBE_ofBytesBE`).
-/

namespace ASky.Lib

/-- The `w` low bytes of `n`, most significant first. -/
def toBytesBE : Nat → Nat → List UInt8
  | 0, _ => []
  | w + 1, n => toBytesBE w (n / 256) ++ [UInt8.ofNat n]

/-- The number with the given bytes, most significant first. -/
def ofBytesBE (bs : List UInt8) : Nat := bs.foldl (fun n b => n * 256 + b.toNat) 0

@[simp] theorem length_toBytesBE (w n : Nat) : (toBytesBE w n).length = w := by
  induction w generalizing n with
  | zero => rfl
  | succ w ih => rw [toBytesBE, List.length_append, ih, List.length_singleton]

@[simp] theorem ofBytesBE_concat (bs : List UInt8) (b : UInt8) :
    ofBytesBE (bs ++ [b]) = ofBytesBE bs * 256 + b.toNat := by
  unfold ofBytesBE
  rw [List.foldl_append]
  rfl

theorem ofBytesBE_lt (bs : List UInt8) : ofBytesBE bs < 256 ^ bs.length := by
  induction bs using List.reverseRecOn with
  | nil => exact Nat.one_pos
  | append_singleton bs b ih =>
    have hb : b.toNat < 256 := b.toNat_lt
    rw [ofBytesBE_concat, List.length_append, List.length_singleton, Nat.pow_succ]
    omega

/-- **A number that fits is read back.** -/
theorem ofBytesBE_toBytesBE {w n : Nat} (h : n < 256 ^ w) : ofBytesBE (toBytesBE w n) = n := by
  induction w generalizing n with
  | zero =>
    have : n = 0 := Nat.lt_one_iff.mp h
    subst this
    rfl
  | succ w ih =>
    have hdiv : n / 256 < 256 ^ w := Nat.div_lt_of_lt_mul (by rw [Nat.pow_succ'] at h; exact h)
    have hmod : (UInt8.ofNat n).toNat = n % 256 := rfl
    rw [toBytesBE, ofBytesBE_concat, ih hdiv, hmod]
    omega

/-- **Bytes are written back.** -/
theorem toBytesBE_ofBytesBE (bs : List UInt8) : toBytesBE bs.length (ofBytesBE bs) = bs := by
  induction bs using List.reverseRecOn with
  | nil => rfl
  | append_singleton bs b ih =>
    have hb : b.toNat < 256 := b.toNat_lt
    have hdiv : (ofBytesBE bs * 256 + b.toNat) / 256 = ofBytesBE bs := by omega
    have hlow : UInt8.ofNat (ofBytesBE bs * 256 + b.toNat) = b := by
      refine UInt8.toNat_inj.mp ?_
      show (ofBytesBE bs * 256 + b.toNat) % 256 = b.toNat
      omega
    rw [List.length_append, List.length_singleton, ofBytesBE_concat, toBytesBE, hdiv, ih, hlow]

end ASky.Lib

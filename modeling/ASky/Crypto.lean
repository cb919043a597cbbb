import ASky.Bytes

/-!
# The cryptographic functions outside the repository

The server calls `Crypto::` of the `sgx_common` submodule, the client the JCE. Neither is part of
the sources, so `Crypto` takes them as functions. What the code relies on is `Crypto.Agrees`, and
only the results that need it assume it.

* Random bytes are arguments: `encrypt_aesgcm(key, plain)` draws its own IV, which is the `iv`
  here.
* `gcmOpen` is `Cipher` in `DECRYPT_MODE`, from `init` to `doFinal`; `aeadBadTag` is
  `AEADBadTagException`, `otherJce` any other exception of the provider (a key of the wrong size,
  say).
-/

namespace ASky

/-- `CIPHER_IV_BYTES`. -/
def cipherIvBytes : Nat := 12

/-- `CIPHER_KEY_BYTES`. -/
def cipherKeyBytes : Nat := 32

/-- `CIPHER_TAG_BYTES`. -/
def cipherTagBytes : Nat := 16

/-- The exceptions of the JCE cipher. -/
inductive JceError where
  | aeadBadTag
  | otherJce
  deriving DecidableEq

/-- The functions of the submodule and of the JCE. -/
structure Crypto where
  /-- `Crypto::sha224`, `MessageDigest.getInstance("SHA-224")`. -/
  sha224 : Bytes → Bytes
  /-- `Crypto::encrypt_aesgcm(key, plain)`, with the IV it drew. -/
  encryptAesgcm : (iv key plain : Bytes) → Bytes
  /-- `AES/GCM/NoPadding`, decryption of ciphertext and tag. -/
  gcmOpen : (key iv : Bytes) → (associatedData : Option Bytes) → (data : Bytes) →
    Except JceError Bytes
  /-- `Crypto::b64_encode`. -/
  b64Encode : Bytes → Bytes
  /-- `Crypto::b64_decode`. -/
  b64Decode : Bytes → Bytes

/-- What the two sides rely on: SHA-224 has 28 bytes, and for a 12-byte IV and a 32-byte key
`encrypt_aesgcm` writes IV, ciphertext and 16-byte tag in this order, which the JCE decrypts under
the same key, without associated data. -/
structure Crypto.Agrees (c : Crypto) : Prop where
  sha224_length : ∀ m, (c.sha224 m).length = 28
  layout : ∀ iv key plain, iv.length = cipherIvBytes → key.length = keySize →
    ∃ sealed, c.encryptAesgcm iv key plain = iv ++ sealed ∧
      sealed.length = plain.length + cipherTagBytes ∧ c.gcmOpen key iv none sealed = .ok plain

/-- Among `keys`, what `encrypt_aesgcm` writes under one key has a bad tag under every other. -/
def Crypto.Separates (c : Crypto) (keys : Set Bytes) : Prop :=
  ∀ key ∈ keys, ∀ key' ∈ keys, key ≠ key' → ∀ iv plain sealed, iv.length = cipherIvBytes →
    c.encryptAesgcm iv key plain = iv ++ sealed →
      c.gcmOpen key' iv none sealed = .error .aeadBadTag

/-! ## A sample

Known answers of the real functions, for a nonce, an IV and a plaintext of zeros and the two keys
`00..00` and `01..01`, and the key stream of `02..02`. Elsewhere `sample` is a stream cipher with
the same layout. -/

namespace Crypto

/-- The key `00..00`. -/
def key0 : Key := ⟨List.replicate 32 0, rfl⟩

/-- The key `01..01`. -/
def key1 : Key := ⟨List.replicate 32 1, rfl⟩

/-- The key `02..02`. -/
def key2 : Key := ⟨List.replicate 32 2, rfl⟩

/-- Twelve zeros. -/
def zeros12 : Bytes := List.replicate 12 0

/-- The first two blocks of the AES-256-GCM key stream for the IV `zeros12`. -/
def keyStream (key : Bytes) : Bytes :=
  if key = key0.val then
    [206, 167, 64, 61, 77, 96, 107, 110, 7, 78, 197, 211, 186, 243, 157, 24,
      114, 96, 3, 202, 55, 166, 42, 116, 209, 162, 245, 142, 117, 6, 53, 142]
  else if key = key1.val then
    [191, 53, 152, 220, 117, 59, 3, 191, 147, 121, 146, 69, 113, 36, 193, 65,
      181, 198, 159, 176, 133, 159, 52, 250, 204, 36, 14, 213, 14, 214, 110, 27]
  else if key = key2.val then
    [90, 114, 58, 206, 229, 44, 94, 160, 43, 146, 163, 163, 96, 192, 149, 149,
      231, 234, 142, 153, 8, 30, 75, 196, 87, 246, 184, 9, 153, 129, 225, 17]
  else key

/-- The tag of 32 zeros for the IV `zeros12`. -/
def tagOf (key : Bytes) : Bytes :=
  if key = key0.val then
    [209, 211, 8, 76, 153, 170, 138, 159, 218, 187, 62, 131, 235, 40, 193, 93]
  else if key = key1.val then
    [64, 227, 110, 187, 142, 139, 228, 253, 226, 185, 130, 150, 215, 44, 243, 212]
  else resize key cipherTagBytes

/-- The key stream over a text. -/
def mask (key text : Bytes) : Bytes :=
  text.mapIdx fun i b => b ^^^ (keyStream key).getD i 0

/-- A base64 digit. -/
def b64Digit (n : Nat) : UInt8 :=
  (lit "ABCDEFGHIJKLMNOPQRSTUVWXYZabcdefghijklmnopqrstuvwxyz0123456789+/").getD (n % 64) 61

/-- Base64 with padding. -/
def b64 : Bytes → Bytes
  | [] => []
  | [a] => [b64Digit (a.toNat / 4), b64Digit (a.toNat * 16), 61, 61]
  | [a, b] => [b64Digit (a.toNat / 4), b64Digit (a.toNat * 16 + b.toNat / 16),
      b64Digit (b.toNat * 4), 61]
  | a :: b :: c :: rest => b64Digit (a.toNat / 4) :: b64Digit (a.toNat * 16 + b.toNat / 16) ::
      b64Digit (b.toNat * 4 + c.toNat / 64) :: b64Digit c.toNat :: b64 rest

def sample : Crypto where
  sha224 m :=
    if m = zeros12 ++ key0.val then
      [33, 131, 181, 92, 183, 120, 224, 110, 219, 61, 222, 208, 58, 254, 23, 16,
        5, 126, 12, 58, 190, 110, 2, 83, 57, 130, 34, 167]
    else if m = zeros12 ++ key1.val then
      [59, 163, 253, 171, 14, 169, 86, 80, 197, 128, 165, 231, 214, 200, 148, 0,
        251, 138, 134, 109, 72, 218, 212, 31, 74, 17, 232, 80]
    else resize m 28
  encryptAesgcm iv key plain := iv ++ (mask key plain ++ tagOf key)
  gcmOpen key _ _ data :=
    if data.drop (data.length - cipherTagBytes) = tagOf key then
      .ok (mask key (data.take (data.length - cipherTagBytes)))
    else .error .aeadBadTag
  b64Encode := b64
  b64Decode b :=
    if b = lit "AAAAAAAAAAAAAAAAAAAAAAAAAAAAAAAAAAAAAAAAAAA=" then key0.val else []

theorem length_tagOf (key : Bytes) : (tagOf key).length = cipherTagBytes := by
  unfold tagOf
  split
  · rfl
  · split
    · rfl
    · exact length_resize _ _

theorem mask_mask (key text : Bytes) : mask key (mask key text) = text := by
  unfold mask
  refine List.ext_getElem (by simp) fun i h₁ h₂ => ?_
  simp

section Unseal

variable (key plain : Bytes) {tag : Bytes} (htag : tag.length = cipherTagBytes)

theorem length_mask_append : (mask key plain ++ tag).length = plain.length + tag.length := by
  rw [List.length_append, mask, List.length_mapIdx]

include htag in
/-- The end of what was sealed is the tag. -/
theorem drop_mask_append :
    (mask key plain ++ tag).drop ((mask key plain ++ tag).length - cipherTagBytes) = tag := by
  rw [List.length_append, htag, Nat.add_sub_cancel, List.drop_left]

include htag in
/-- What comes before is the text. -/
theorem mask_take_mask_append :
    mask key ((mask key plain ++ tag).take ((mask key plain ++ tag).length - cipherTagBytes)) =
      plain := by
  rw [List.length_append, htag, Nat.add_sub_cancel, List.take_left, mask_mask]

end Unseal

/-- The assumptions can be met. -/
theorem sample_agrees : sample.Agrees where
  sha224_length m := by
    unfold sample
    dsimp only
    split
    · rfl
    · split
      · rfl
      · exact length_resize _ _
  layout iv key plain _ _ := by
    have htag := length_tagOf key
    refine ⟨mask key plain ++ tagOf key, rfl, ?_, ?_⟩
    · rw [length_mask_append, htag]
    · unfold sample
      dsimp only
      rw [if_pos (drop_mask_append key plain htag), mask_take_mask_append key plain htag]

/-- The two keys of the sample have different tags. -/
theorem sample_separates : sample.Separates {key0.val, key1.val} := by
  intro key hkey key' hkey' hne iv plain sealed _ henc
  have hseal : sealed = mask key plain ++ tagOf key := (List.append_cancel_left henc).symm
  have htag : tagOf key ≠ tagOf key' := by
    rcases hkey with rfl | rfl <;> rcases hkey' with rfl | rfl
    · exact absurd rfl hne
    · decide +kernel
    · decide +kernel
    · exact absurd rfl hne
  unfold sample
  dsimp only
  rw [hseal, drop_mask_append key plain (length_tagOf key), if_neg htag]

theorem b64Digit_lt (n : Nat) : (b64Digit n).toNat < 128 := by
  have htable : ∀ m < 64, (b64Digit m).toNat < 128 := by decide +kernel
  have hmod : b64Digit n = b64Digit (n % 64) := by
    unfold b64Digit
    rw [Nat.mod_mod]
  rw [hmod]
  exact htable _ (Nat.mod_lt _ (by decide))

theorem sample_b64_ascii (b : Bytes) : Ascii (sample.b64Encode b) := by
  show Ascii (b64 b)
  fun_induction b64 b with
  | case1 => simp [Ascii]
  | case2 a => simp [Ascii, b64Digit_lt]
  | case3 a b => simp [Ascii, b64Digit_lt]
  | case4 a b c rest ih =>
    intro x hx
    simp only [List.mem_cons] at hx
    rcases hx with rfl | rfl | rfl | rfl | hx
    · exact b64Digit_lt _
    · exact b64Digit_lt _
    · exact b64Digit_lt _
    · exact b64Digit_lt _
    · exact ih x hx

/-- The base64 of the key `00..00`. -/
example : sample.b64Encode key0.val = lit "AAAAAAAAAAAAAAAAAAAAAAAAAAAAAAAAAAAAAAAAAAA=" := by
  decide +kernel

end Crypto

end ASky

import ASky.RoundTrip

/-!
# The two envelope formats agree

`generate_envelope` writes either a plain envelope, one 60-byte record for each key in store
order, or an indexed one, a table of 88-byte records sorted by hash. `Envelope.open` tries the
records of the first in turn, `IndexedEnvelope.open` searches the second.

* `open_plainText`: opening the server's plain bytes with a key, for any list of keys. It is the
  counterpart of `open_indexedText`, with the same right-hand side.
* `open_envelopeText` is the specification of `envelope.open(userKey)` on the server's bytes, in
  either mode.
* **`formats_agree`**: for one list of keys the two formats give the same outcome.
-/

namespace ASky.RoundTrip

open Client Lib

/-- The keys a client can meet: its own and those of the envelope. -/
def involved (key : Key) (ka : KeyArray) : Set Bytes := { b | b = key.val ∨ ∃ k ∈ ka, k.val = b }

section

variable {c : Crypto} {nonce plain : Bytes} {iv : IvSource} {ka : KeyArray}

/-- Decrypting with another key what `encrypt_aesgcm` wrote. -/
theorem decryptAes_encryptAesgcm_of_ne (hc : c.Agrees) {keys : Set Bytes}
    (hsep : c.Separates keys) {i key key' : Bytes} (hi : i.length = cipherIvBytes)
    (hk : key.length = keySize) (hkey : key ∈ keys) (hkey' : key' ∈ keys) (hne : key ≠ key')
    (plain : Bytes) :
    decryptAes c (c.encryptAesgcm i key plain) key' none = .error (.jce .aeadBadTag) := by
  obtain ⟨sealed, hs, -, -⟩ := hc.layout i key plain hi hk
  have hbad := hsep key hkey key' hkey' hne i plain sealed hi hs
  unfold decryptAes
  rw [hs, if_neg (by rw [List.length_append]; omega), ← hi, List.take_left, List.drop_left, hbad]

/-- A record decrypts when it was written under this key, and has a bad tag otherwise. -/
theorem decryptAes_record (hc : c.Agrees) (hiv : ∀ i k, (iv i k).length = cipherIvBytes)
    {keys : Set Bytes} (hsep : c.Separates keys) {k key : Key} (hk : k.val ∈ keys)
    (hkey : key.val ∈ keys) (i : Nat) :
    decryptAes c (c.encryptAesgcm (iv i k.val) k.val plain) key.val none =
      if k = key then .ok plain else .error (.jce .aeadBadTag) := by
  split
  · rename_i heq
    rw [← heq]
    exact decryptAes_encryptAesgcm hc (hiv i _) k.property plain
  · rename_i hne
    exact decryptAes_encryptAesgcm_of_ne hc hsep (hiv i _) k.property hk hkey
      (fun h => hne (Subtype.ext h)) plain

theorem length_encryptAesgcm (hc : c.Agrees) (hiv : ∀ i k, (iv i k).length = cipherIvBytes)
    (hp : plain.length = cipherKeyBytes) (i : Nat) (k : Key) :
    (c.encryptAesgcm (iv i k.val) k.val plain).length = encryptedKeyBytes := by
  obtain ⟨sealed, hs, hl, -⟩ := hc.layout (iv i k.val) k.val plain (hiv i _) k.property
  rw [hs, List.length_append, hiv, hl, hp]
  rfl

/-- **Opening the server's plain bytes**: a listed key gives the bucket key, another key is not in
the envelope. -/
theorem open_plainText (hc : c.Agrees) (hiv : ∀ i k, (iv i k).length = cipherIvBytes)
    (hp : plain.length = cipherKeyBytes) {keys : Set Bytes} (hsep : c.Separates keys)
    (hka : ∀ k ∈ ka, k.val ∈ keys) {key : Key} (hkey : key.val ∈ keys) :
    Envelope.open c (plainText c plain iv ka) key.val =
      if key ∈ ka then .ok plain else .error .userKeyNotInEnvelope := by
  have hrecord : ∀ k ∈ ka, ∀ i, decryptAes c (c.encryptAesgcm (iv i k.val) k.val plain) key.val none
      = if k = key then .ok plain else .error (.jce .aeadBadTag) := fun k hk i =>
    decryptAes_record hc hiv hsep (hka k hk) hkey i
  have hlen : ∀ r ∈ ka.zipIdx.map (fun k => c.encryptAesgcm (iv k.2 k.1.val) k.1.val plain),
      r.length = encryptedKeyBytes := by
    intro r hr
    obtain ⟨⟨k, i⟩, -, rfl⟩ := List.mem_map.mp hr
    exact length_encryptAesgcm hc hiv hp i k
  unfold Envelope.open plainText
  rw [tryRecords_flatten c plain hlen]
  · congr 1
    refine propext ⟨?_, fun hk => ?_⟩
    · rintro ⟨r, hr, hd⟩
      obtain ⟨⟨k, i⟩, hki, rfl⟩ := List.mem_map.mp hr
      have hk : k ∈ ka := List.fst_mem_of_mem_zipIdx hki
      rw [hrecord k hk i] at hd
      split at hd
      · rename_i heq
        exact heq ▸ hk
      · exact absurd hd (by simp)
    · obtain ⟨i, hi⟩ := List.mem_iff_getElem?.mp hk
      refine ⟨_, List.mem_map.mpr ⟨(key, i), List.mk_mem_zipIdx_iff_getElem?.mpr hi, rfl⟩, ?_⟩
      rw [hrecord key hk i, if_pos rfl]
  · intro r hr
    obtain ⟨⟨k, i⟩, hki, rfl⟩ := List.mem_map.mp hr
    rw [hrecord k (List.fst_mem_of_mem_zipIdx hki) i]
    split
    · exact Or.inl rfl
    · exact Or.inr rfl

/-- **Opening the server's bytes in the mode they were written in.** The hash matters for an
indexed envelope only, the tags for a plain one only. -/
theorem open_envelopeText (hc : c.Agrees) (indexed : Bool) (hn : nonce.length = nonceBytes)
    (hiv : ∀ i k, (iv i k).length = cipherIvBytes) (hp : plain.length = cipherKeyBytes)
    {keys : Set Bytes} (hinj : indexed = true → HashInjOn c nonce keys)
    (hsep : indexed = false → c.Separates keys) (hka : ∀ k ∈ ka, k.val ∈ keys) (key : Key)
    (hkey : key.val ∈ keys) :
    openEnvelope c indexed (envelopeText c indexed nonce plain iv ka) key.val =
      if key ∈ ka then .ok plain else .error .userKeyNotInEnvelope := by
  unfold openEnvelope envelopeText
  cases indexed with
  | true => exact open_indexedText hc hiv hp hn (hinj rfl) hka hkey
  | false => exact open_plainText hc hiv hp (hsep rfl) hka hkey

end

/-- **The two formats agree.** For every list of keys, every bucket key `b`, every 12-byte nonce,
all IVs on either side and every 32-byte user key, opening the plain envelope and opening the
indexed one give the same outcome: the bucket key, padded or cut to 32 bytes, or "User key not in
envelope". -/
theorem formats_agree {c : Crypto} (hc : c.Agrees) (ka : KeyArray) (b nonce : Bytes)
    (hn : nonce.length = nonceBytes) (iv iv' : IvSource)
    (hiv : ∀ i k, (iv i k).length = cipherIvBytes)
    (hiv' : ∀ i k, (iv' i k).length = cipherIvBytes) (userKey : Key)
    (hsep : c.Separates (involved userKey ka)) (hinj : HashInjOn c nonce (involved userKey ka)) :
    Envelope.open c (envelopeText c false nonce (resize b 32) iv ka) userKey.val =
      IndexedEnvelope.open c (envelopeText c true nonce (resize b 32) iv' ka) userKey.val ∧
    (Envelope.open c (envelopeText c false nonce (resize b 32) iv ka) userKey.val =
        .ok (resize b 32) ∨
      Envelope.open c (envelopeText c false nonce (resize b 32) iv ka) userKey.val =
        .error .userKeyNotInEnvelope) := by
  have hka : ∀ k ∈ ka, k.val ∈ involved userKey ka := fun k hk => Or.inr ⟨k, hk, rfl⟩
  have hplain := open_envelopeText hc false hn hiv (length_resize b 32)
    (by simp) (fun _ => hsep) hka userKey (Or.inl rfl)
  have hindexed := open_envelopeText hc true hn hiv' (length_resize b 32)
    (fun _ => hinj) (by simp) hka userKey (Or.inl rfl)
  unfold openEnvelope at hplain hindexed
  rw [if_neg (by simp)] at hplain
  rw [if_pos rfl] at hindexed
  rw [hplain, hindexed]
  refine ⟨rfl, ?_⟩
  split
  · exact Or.inl rfl
  · exact Or.inr rfl

/-- The theorem for the keys `01..01` and `00..00`: the second record is the one that opens, and
without it the key `00..00` is not in the envelope. -/
theorem formats_agree_sample :
    (Envelope.open .sample (envelopeText .sample false Crypto.zeros12 (resize [] 32)
        (fun _ _ => Crypto.zeros12) [Crypto.key1, Crypto.key0]) Crypto.key0.val =
      IndexedEnvelope.open .sample (envelopeText .sample true Crypto.zeros12 (resize [] 32)
        (fun _ _ => Crypto.zeros12) [Crypto.key1, Crypto.key0]) Crypto.key0.val) ∧
    (Envelope.open .sample (envelopeText .sample false Crypto.zeros12 (resize [] 32)
        (fun _ _ => Crypto.zeros12) [Crypto.key1]) Crypto.key0.val =
      IndexedEnvelope.open .sample (envelopeText .sample true Crypto.zeros12 (resize [] 32)
        (fun _ _ => Crypto.zeros12) [Crypto.key1]) Crypto.key0.val) := by
  have hmem : ∀ ka : KeyArray, (∀ k ∈ ka, k = Crypto.key0 ∨ k = Crypto.key1) →
      involved Crypto.key0 ka ⊆ {Crypto.key0.val, Crypto.key1.val} := by
    rintro ka hka b (rfl | ⟨k, hk, rfl⟩)
    · exact Or.inl rfl
    · rcases hka k hk with rfl | rfl
      · exact Or.inl rfl
      · exact Or.inr rfl
  have hagree : ∀ ka : KeyArray, (∀ k ∈ ka, k = Crypto.key0 ∨ k = Crypto.key1) → _ := fun ka hka =>
    formats_agree Crypto.sample_agrees ka [] Crypto.zeros12 rfl (fun _ _ => Crypto.zeros12)
      (fun _ _ => Crypto.zeros12) (fun _ _ => rfl) (fun _ _ => rfl) Crypto.key0
      (fun k hk k' hk' => Crypto.sample_separates k (hmem ka hka hk) k' (hmem ka hka hk'))
      (hashInjOn_sample.mono (hmem ka hka))
  exact ⟨(hagree _ (by simp)).1, (hagree _ (by simp)).1⟩

end ASky.RoundTrip

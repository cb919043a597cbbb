import ASky.Client.Envelope
import ASky.Service.Answers

/-!
# The server's indexed envelopes open in the client

`generate_envelope` (C++) writes an indexed envelope, `IndexedEnvelope.open` (Kotlin) reads it. The
two agree on the size of a record, on the order of the hashes and on the padding of the bucket key.

* `table` is the server's map of hashes as a `Client.Table`: records of the client's sizes,
  strictly sorted in the client's order. This is where the two formats meet.
* `open_indexedText`: opening the server's bytes with a key, for any list of keys.
* **`indexed_envelope_round_trip`**: the same for the members of a group of a reachable store.

The hash must not collide on the keys involved: two members with colliding hashes would overwrite
each other's record.
-/

namespace ASky.RoundTrip

open Std (ExtTreeMap ExtTreeSet)
open Client Lib

section

variable {c : Crypto} {nonce plain : Bytes} {iv : IvSource} {ka : KeyArray}

/-- Decrypting what `encrypt_aesgcm` wrote. -/
theorem decryptAes_encryptAesgcm (hc : c.Agrees) {i key : Bytes} (hi : i.length = cipherIvBytes)
    (hk : key.length = keySize) (plain : Bytes) :
    decryptAes c (c.encryptAesgcm i key plain) key none = .ok plain := by
  obtain ⟨sealed, hs, -, hopen⟩ := hc.layout i key plain hi hk
  unfold decryptAes
  rw [hs, if_neg (by rw [List.length_append]; omega), ← hi, List.take_left, List.drop_left, hopen]

/-- The records of an indexed envelope of a 32-byte bucket key. -/
def table (hc : c.Agrees) (hiv : ∀ i k, (iv i k).length = cipherIvBytes)
    (hp : plain.length = cipherKeyBytes) (nonce : Bytes) (ka : KeyArray) : Table where
  entries := (orderedHashes c nonce plain iv ka).toList
  hash_length := by
    rintro ⟨h, r⟩ hr
    obtain ⟨k, -, i, rfl, -⟩ :=
      orderedHashes_eq_some (ExtTreeMap.mem_toList_iff_getElem?_eq_some.mp hr)
    exact hc.sha224_length _
  key_length := by
    rintro ⟨h, r⟩ hr
    obtain ⟨k, -, i, -, rfl⟩ :=
      orderedHashes_eq_some (ExtTreeMap.mem_toList_iff_getElem?_eq_some.mp hr)
    obtain ⟨sealed, hs, hlen, -⟩ := hc.layout (iv i k.val) k.val plain (hiv i _) k.property
    rw [hs, List.length_append, hiv, hlen, hp]
    rfl
  sorted := ExtTreeMap.ordered_keys_toList

/-- The client reads back the nonce and the records, and starts its search on all of them. -/
theorem open_eq_search (hc : c.Agrees) (hiv : ∀ i k, (iv i k).length = cipherIvBytes)
    (hp : plain.length = cipherKeyBytes) (hn : nonce.length = nonceBytes) {key : Bytes}
    (hk : key.length = keySize) :
    IndexedEnvelope.open c (indexedText c nonce plain iv ka) key =
      search c (table hc hiv hp nonce ka).bytes (c.sha224 (nonce ++ key)) key 0
        ((table hc hiv hp nonce ka).entries.length - 1) := by
  have htext : indexedText c nonce plain iv ka = nonce ++ (table hc hiv hp nonce ka).bytes := rfl
  have hinput : digestInput (indexedText c nonce plain iv ka) key = .ok (nonce ++ key) := by
    unfold digestInput
    rw [htext, if_neg, ← hn, List.take_left, hk]
    · simp [cipherKeyBytes, keySize]
    · rw [List.length_append, hn, hk]
      simp [cipherKeyBytes, keySize]
  have hcount : ((table hc hiv hp nonce ka).bytes.length : Int) / indexedEncryptedKeyBytes =
      (table hc hiv hp nonce ka).entries.length := by
    rw [Table.length_bytes]
    push_cast
    exact Int.mul_ediv_cancel _ (by decide)
  unfold IndexedEnvelope.open
  rw [hinput]
  dsimp only
  rw [htext, ← hn, List.drop_left, hcount]

/-- **Opening the server's bytes**: a listed key gives the bucket key, another key is not in the
envelope. -/
theorem open_indexedText (hc : c.Agrees) (hiv : ∀ i k, (iv i k).length = cipherIvBytes)
    (hp : plain.length = cipherKeyBytes) (hn : nonce.length = nonceBytes) {keys : Set Bytes}
    (hinj : HashInjOn c nonce keys) (hka : ∀ k ∈ ka, k.val ∈ keys) {key : Key}
    (hkey : key.val ∈ keys) :
    IndexedEnvelope.open c (indexedText c nonce plain iv ka) key.val =
      if key ∈ ka then .ok plain else .error .userKeyNotInEnvelope := by
  have hspec := (table hc hiv hp nonce ka).search_spec c key.val
    (hc.sha224_length (nonce ++ key.val)) 0
    ((table hc hiv hp nonce ka).entries.length - 1) (by omega) (by omega)
    (fun i hi _ => ⟨by omega, by omega⟩)
  rw [open_eq_search hc hiv hp hn key.property]
  split
  · rename_i hmem
    obtain ⟨r, hr⟩ := exists_getElem?_of_mem
      ((mem_orderedHashes plain iv).mpr ⟨key, hmem, rfl⟩)
    obtain ⟨i, hi, hget⟩ := List.getElem_of_mem (ExtTreeMap.mem_toList_iff_getElem?_eq_some.mpr hr)
    -- the record was written under a key with this hash, so under this key
    obtain ⟨k, hk, j, hhash, rfl⟩ := orderedHashes_eq_some hr
    have hval : k.val = key.val := hinj (hka k hk) hkey hhash
    have hi' : i < (table hc hiv hp nonce ka).entries.length := hi
    have hget' : (table hc hiv hp nonce ka).entries[i] =
      (c.sha224 (nonce ++ key.val), c.encryptAesgcm (iv j k.val) k.val plain) := hget
    rw [hspec.1 i hi' (by rw [hget']), hget', hval]
    exact decryptAes_encryptAesgcm hc (hiv j _) key.property plain
  · rename_i hmem
    refine hspec.2 fun i hi heq => hmem ?_
    have hin : ((table hc hiv hp nonce ka).entries[i].1, (table hc hiv hp nonce ka).entries[i].2) ∈
        (orderedHashes c nonce plain iv ka).toList := List.getElem_mem hi
    obtain ⟨k, hk, hhash⟩ := (mem_orderedHashes plain iv).mp
      (mem_of_getElem? (ExtTreeMap.mem_toList_iff_getElem?_eq_some.mp hin))
    have hval : k.val = key.val := hinj (hka k hk) hkey (hhash.trans heq)
    exact Subtype.ext hval ▸ hk

end

/-- The key array of a group of a reachable store holds the members' keys, none of them padded or
cut. -/
theorem keyArray_of_reachable {ops : List Op} (hops : ∀ op ∈ ops, op.Sized) {db : MemDatabase}
    (hdb : db = MemDatabase.run {} ops) {g : Bytes} {members : Members}
    (hg : db.groups[g]? = some members) (hne : members.isEmpty = false) :
    db.KeysSized ∧ ∃ ka, db.getKeysOfGroup g = (.ok ka, db) ∧ ka.isEmpty = false ∧
      ∀ k : Key, k ∈ ka ↔ ∃ u ∈ members, db.users[u]? = some k.val := by
  have hsized : db.KeysSized := hdb ▸ MemDatabase.keysSized_of_sized hops
  obtain ⟨ka, hget, -, hnil, hmem⟩ := MemDatabase.getKeysOfGroup_of_nonempty
    (MemDatabase.integrity_of_reachable ⟨ops, hdb⟩) hg hne
  refine ⟨hsized, ka, hget, hnil, fun k => (hmem k).trans ⟨?_, ?_⟩⟩
  · rintro ⟨u, stored, hm, hs, rfl⟩
    exact ⟨u, (MemDatabase.member_iff_of_getElem? hg u).mp hm,
      (keyOf_val_of_length (hsized _ _ hs)).symm ▸ hs⟩
  · rintro ⟨u, hu, hs⟩
    exact ⟨u, k.val, ⟨members, hg, hu⟩, hs, Subtype.ext (keyOf_val_of_length k.property)⟩

/-- **Indexed envelopes round-trip between the server and the client.** For every store whose
users were created with 32-byte keys, every non-empty group, every decoded bucket key `b`, every
12-byte nonce and all IVs: a member's key opens the envelope to `b`, padded or cut to 32 bytes,
and any other 32-byte key is not in it. The hash tells the keys in `keys` apart. -/
theorem indexed_envelope_round_trip (env : Env) (hc : env.crypto.Agrees) {ops : List Op}
    (hops : ∀ op ∈ ops, op.Sized) {db : MemDatabase} (hdb : db = MemDatabase.run {} ops)
    {g : Bytes} {members : Members} (hg : db.groups[g]? = some members)
    (hne : members.isEmpty = false) (b : Bytes) (draw : Draw)
    (hn : draw.nonce.length = nonceBytes) (hiv : ∀ i k, (draw.iv i k).length = cipherIvBytes)
    {keys : Set Bytes} (hkeys : ∀ u ∈ members, ∀ k, db.users[u]? = some k → k ∈ keys)
    (hinj : HashInjOn env.crypto draw.nonce keys) :
    ∃ ka envelope, db.getKeysOfGroup g = (.ok ka, db) ∧
      envelope = envelopeText env.crypto true draw.nonce (resize b 32) draw.iv ka ∧
      (∀ j b64, jsonStr j (lit "bucket_key") = .ok b64 → env.crypto.b64Decode b64 = b →
        jsonStr j (lit "group_id") = .ok g →
        AnonymBE.generateEnvelope env draw true db j = ⟨.ok .noError,
          (∅ : KVString).insert (lit "ciphertext") (env.crypto.b64Encode envelope), db⟩) ∧
      (∀ u ∈ members, ∀ k, db.users[u]? = some k →
        IndexedEnvelope.open env.crypto envelope k = .ok (resize b 32)) ∧
      (∀ k ∈ keys, k.length = keySize → (∀ u ∈ members, db.users[u]? ≠ some k) →
        IndexedEnvelope.open env.crypto envelope k = .error .userKeyNotInEnvelope) := by
  obtain ⟨hsized, ka, hget, hnil, hmem⟩ := keyArray_of_reachable hops hdb hg hne
  have hopen : ∀ (k : Key), k.val ∈ keys → IndexedEnvelope.open env.crypto
      (indexedText env.crypto draw.nonce (resize b 32) draw.iv ka) k.val =
        if k ∈ ka then .ok (resize b 32) else .error .userKeyNotInEnvelope := fun k hk =>
    open_indexedText hc hiv (length_resize b 32) hn hinj
      (fun k' hk' => by
        obtain ⟨u, hu, hs⟩ := (hmem k').mp hk'
        exact hkeys u hu _ hs) hk
  refine ⟨ka, _, hget, rfl, ?_, ?_, ?_⟩
  · intro j b64 hb hd hgid
    rw [AnonymBE.generateEnvelope_of_keys hb hgid hget hnil, hd]
  · intro u hu k hk
    have h := hopen ⟨k, hsized u k hk⟩ (hkeys u hu k hk)
    rw [if_pos ((hmem ⟨k, hsized u k hk⟩).mpr ⟨u, hu, hk⟩)] at h
    exact h
  · intro k hk hlen hno
    have h := hopen ⟨k, hlen⟩ hk
    rw [if_neg fun hin => ?_] at h
    · exact h
    · obtain ⟨u, hu, hs⟩ := (hmem _).mp hin
      exact hno u hu hs

/-! ## A sample

The group `g` of `a`, `b` and `c` with the keys `01..01`, `02..02` and `00..00`, and a user `d`
outside with the key `03..03`. In the order of their hashes the records are those of `c`, `a` and
`b`, and the hash of `d` falls between the last two. `sampleOfThree` knows the hashes, and the tags
of the bucket key `bucket key` under the three keys. -/

/-- The key `03..03`. -/
def key3 : Key := ⟨List.replicate 32 3, rfl⟩

def sampleBucketKey : Bytes := resize (lit "bucket key") 32

def tagOfBucketKey (key plain : Bytes) : Bytes :=
  if plain = sampleBucketKey ∧ key = Crypto.key0.val then
    [74, 135, 35, 201, 152, 64, 241, 49, 67, 48, 132, 188, 87, 238, 161, 175]
  else if plain = sampleBucketKey ∧ key = Crypto.key1.val then
    [215, 102, 92, 217, 188, 97, 166, 91, 252, 147, 169, 88, 125, 117, 99, 255]
  else if plain = sampleBucketKey ∧ key = Crypto.key2.val then
    [139, 138, 247, 247, 153, 90, 96, 246, 0, 167, 164, 36, 217, 250, 181, 124]
  else Crypto.tagOf key

def sampleOfThree : Crypto where
  __ := Crypto.sample
  sha224 m :=
    if m = Crypto.zeros12 ++ Crypto.key2.val then
      [148, 37, 160, 211, 197, 191, 77, 72, 151, 65, 187, 218, 255, 129, 145, 118,
        247, 71, 122, 174, 135, 2, 99, 166, 231, 128, 229, 249]
    else if m = Crypto.zeros12 ++ key3.val then
      [123, 205, 3, 215, 87, 165, 58, 149, 188, 102, 38, 67, 107, 251, 109, 85,
        40, 225, 110, 22, 237, 47, 140, 30, 21, 182, 144, 48]
    else Crypto.sample.sha224 m
  encryptAesgcm iv key plain := iv ++ (Crypto.mask key plain ++ tagOfBucketKey key plain)
  gcmOpen key _ _ data :=
    let text := Crypto.mask key (data.take (data.length - cipherTagBytes))
    if data.drop (data.length - cipherTagBytes) = tagOfBucketKey key text then .ok text
    else .error .aeadBadTag

theorem length_tagOfBucketKey (key plain : Bytes) :
    (tagOfBucketKey key plain).length = cipherTagBytes := by
  unfold tagOfBucketKey
  split_ifs
  · rfl
  · rfl
  · rfl
  · exact Crypto.length_tagOf key

theorem sampleOfThree_agrees : sampleOfThree.Agrees where
  sha224_length m := by
    unfold sampleOfThree
    dsimp only
    split_ifs
    · rfl
    · rfl
    · exact Crypto.sample_agrees.sha224_length m
  layout iv key plain _ _ := by
    have htag := length_tagOfBucketKey key plain
    refine ⟨_, rfl, ?_, ?_⟩
    · rw [Crypto.length_mask_append, htag]
    · unfold sampleOfThree
      dsimp only
      rw [Crypto.mask_take_mask_append key plain htag,
        if_pos (Crypto.drop_mask_append key plain htag)]

/-- The keys that the sample is about. -/
def sampleKeys : List Bytes := [Crypto.key0.val, Crypto.key1.val, Crypto.key2.val, key3.val]

/-- Their hashes differ. -/
theorem hashInjOn_sampleKeys : HashInjOn sampleOfThree Crypto.zeros12 {k | k ∈ sampleKeys} := by
  have hall : ∀ k ∈ sampleKeys, ∀ k' ∈ sampleKeys,
      sampleOfThree.sha224 (Crypto.zeros12 ++ k) = sampleOfThree.sha224 (Crypto.zeros12 ++ k') →
        k = k' := by decide +kernel
  exact fun k hk k' hk' h => hall k hk k' hk' h

/-- How the group comes about. -/
def groupOfThree : List Op :=
  [.createUser [97] Crypto.key1.val, .createUser [98] Crypto.key2.val,
    .createUser [99] Crypto.key0.val, .createUser [100] key3.val, .createGroup [103] [97],
    .addUserToGroup [103] [98], .addUserToGroup [103] [99]]

theorem users_groupOfThree (u : Bytes) : (MemDatabase.run {} groupOfThree).users[u]? =
    if u = [100] then some key3.val else if u = [99] then some Crypto.key0.val
    else if u = [98] then some Crypto.key2.val else if u = [97] then some Crypto.key1.val
    else none := by
  have husers : (MemDatabase.run {} groupOfThree).users =
      ((((∅ : ExtTreeMap Bytes Bytes).insert [97] Crypto.key1.val).insert [98]
        Crypto.key2.val).insert [99] Crypto.key0.val).insert [100] key3.val := by decide +kernel
  rw [husers]
  simp only [Lib.getElem?_insert, ExtTreeMap.getElem?_empty]

/-- The envelope of the sample, with the keys in the order of the members. -/
def envelopeOfThree : Bytes :=
  envelopeText sampleOfThree true Crypto.zeros12 sampleBucketKey (fun _ _ => Crypto.zeros12)
    [Crypto.key1, Crypto.key2, Crypto.key0]

/-- The theorem for the sample: each member opens the envelope, and `d` does not. -/
theorem round_trip_sample :
    IndexedEnvelope.open sampleOfThree envelopeOfThree Crypto.key1.val = .ok sampleBucketKey ∧
    IndexedEnvelope.open sampleOfThree envelopeOfThree Crypto.key2.val = .ok sampleBucketKey ∧
    IndexedEnvelope.open sampleOfThree envelopeOfThree Crypto.key0.val = .ok sampleBucketKey ∧
    IndexedEnvelope.open sampleOfThree envelopeOfThree key3.val =
      .error .userKeyNotInEnvelope := by
  have hops : ∀ op ∈ groupOfThree, op.Sized := by
    simp [groupOfThree, Op.Sized, Crypto.key0, Crypto.key1, Crypto.key2, key3, keySize]
  have hg : (MemDatabase.run {} groupOfThree).groups[([103] : Bytes)]? =
      some ((((∅ : Members).insert [97]).insert [98]).insert [99]) := by decide +kernel
  have hmember : ∀ u ∈ (((∅ : Members).insert [97]).insert [98]).insert [99],
      u = [99] ∨ u = [98] ∨ u = [97] := by
    intro u hu
    rcases Lib.mem_insert.mp hu with rfl | hu
    · exact .inl rfl
    · rcases Lib.mem_insert.mp hu with rfl | hu
      · exact .inr (.inl rfl)
      · rcases Lib.mem_insert.mp hu with rfl | hu
        · exact .inr (.inr rfl)
        · exact absurd hu ExtTreeSet.not_mem_empty
  have hkeys : ∀ u ∈ (((∅ : Members).insert [97]).insert [98]).insert [99], ∀ k,
      (MemDatabase.run {} groupOfThree).users[u]? = some k →
        k = Crypto.key0.val ∨ k = Crypto.key2.val ∨ k = Crypto.key1.val := by
    intro u hu k hk
    rw [users_groupOfThree] at hk
    rcases hmember u hu with rfl | rfl | rfl
    · exact .inl (Option.some.inj hk).symm
    · exact .inr (.inl (Option.some.inj hk).symm)
    · exact .inr (.inr (Option.some.inj hk).symm)
  obtain ⟨ka, envelope, hka, rfl, -, hm, hno⟩ := indexed_envelope_round_trip
    { Env.sample with crypto := sampleOfThree } sampleOfThree_agrees hops rfl hg
    (by decide +kernel) (lit "bucket key") .sample rfl (fun _ _ => rfl)
    (fun u hu k hk => by
      rcases hkeys u hu k hk with rfl | rfl | rfl
      all_goals decide +kernel) hashInjOn_sampleKeys
  obtain rfl : ka = [Crypto.key1, Crypto.key2, Crypto.key0] :=
    Except.ok.inj (congrArg Prod.fst hka.symm)
  refine ⟨hm [97] (by decide +kernel) _ (users_groupOfThree [97]),
    hm [98] (by decide +kernel) _ (users_groupOfThree [98]),
    hm [99] (by decide +kernel) _ (users_groupOfThree [99]),
    hno _ (by decide +kernel) rfl fun u hu hk => ?_⟩
  rcases hkeys u hu _ hk with h | h | h
  all_goals exact absurd h (by decide)

end ASky.RoundTrip

import ASky.Crypto
import ASky.Lib.OrdMap

/-!
# The server's envelopes

Model of the part of `AnonymBE::generate_envelope` (`enclave/anonymbe_service.hpp`) that writes
`ctext` from the keys of a group. The request handling around it is in `ASky.Service.AnonymBE`.

* Indexed (`indexed_ = true`): the nonce, then for each entry of the ordered map
  `sha224(nonce ++ key) ↦ encrypt_aesgcm(key, bucket_key)` the hash and the ciphertext, in map
  order. Equal hashes overwrite each other, so the map has one entry for each distinct key.
* Plain: one ciphertext for each key, in the order of the `KeyArray`.

The IVs are an argument: the `i`-th encryption of a call, under the key `key`, uses `iv i key`.
`mem_orderedHashes` and `orderedHashes_eq_some` are the specification of the map the loop fills.
-/

namespace ASky

open Std (ExtTreeMap)
open Lib

/-- The IV of the `i`-th encryption of a call, under a key. -/
abbrev IvSource := Nat → Bytes → Bytes

/-- `orderedhashes` after the loop over the keys. -/
def orderedHashes (c : Crypto) (nonce bucketKey : Bytes) (iv : IvSource) (ka : KeyArray) :
    ExtTreeMap Bytes Bytes :=
  ka.zipIdx.foldl (fun m k => m.insert (c.sha224 (nonce ++ k.1.val))
    (c.encryptAesgcm (iv k.2 k.1.val) k.1.val bucketKey)) ∅

/-- `ctext` of an indexed envelope. -/
def indexedText (c : Crypto) (nonce bucketKey : Bytes) (iv : IvSource) (ka : KeyArray) : Bytes :=
  nonce ++ ((orderedHashes c nonce bucketKey iv ka).toList.map fun kv => kv.1 ++ kv.2).flatten

/-- `ctext` of a plain envelope. -/
def plainText (c : Crypto) (bucketKey : Bytes) (iv : IvSource) (ka : KeyArray) : Bytes :=
  (ka.zipIdx.map fun k => c.encryptAesgcm (iv k.2 k.1.val) k.1.val bucketKey).flatten

/-- `ctext`, by `indexed_`. -/
def envelopeText (c : Crypto) (indexed : Bool) (nonce bucketKey : Bytes) (iv : IvSource)
    (ka : KeyArray) : Bytes :=
  if indexed then indexedText c nonce bucketKey iv ka else plainText c bucketKey iv ka

/-- `sha224(nonce ++ key)` tells the keys of `keys` apart. -/
def HashInjOn (c : Crypto) (nonce : Bytes) (keys : Set Bytes) : Prop :=
  Set.InjOn (fun key => c.sha224 (nonce ++ key)) keys

/-- The hashes of the sample's two keys differ. -/
theorem hashInjOn_sample : HashInjOn .sample Crypto.zeros12 {Crypto.key0.val, Crypto.key1.val} := by
  have hne : Crypto.sample.sha224 (Crypto.zeros12 ++ Crypto.key0.val) ≠
    Crypto.sample.sha224 (Crypto.zeros12 ++ Crypto.key1.val) := by decide +kernel
  rintro k (rfl | rfl) k' (rfl | rfl) h
  · rfl
  · exact absurd h hne
  · exact absurd h.symm hne
  · rfl

/-! ## The map of hashes -/

/-- The hashes in the map are those of the keys. -/
theorem mem_orderedHashes {c : Crypto} {nonce : Bytes} (bucketKey : Bytes) (iv : IvSource)
    {ka : KeyArray} {h : Bytes} :
    h ∈ orderedHashes c nonce bucketKey iv ka ↔ ∃ k ∈ ka, c.sha224 (nonce ++ k.val) = h := by
  unfold orderedHashes
  rw [mem_foldl_insert]
  constructor
  · rintro (⟨⟨k, i⟩, hk, rfl⟩ | hm)
    · exact ⟨k, List.fst_mem_of_mem_zipIdx hk, rfl⟩
    · exact absurd hm ExtTreeMap.not_mem_empty
  · rintro ⟨k, hk, rfl⟩
    obtain ⟨i, hi⟩ := List.mem_iff_getElem?.mp hk
    exact Or.inl ⟨(k, i), List.mk_mem_zipIdx_iff_getElem?.mpr hi, rfl⟩

/-- An entry is the ciphertext under a key with its hash, for one of the call's IVs. -/
theorem orderedHashes_eq_some {c : Crypto} {nonce bucketKey : Bytes} {iv : IvSource}
    {ka : KeyArray} {h r : Bytes} (hr : (orderedHashes c nonce bucketKey iv ka)[h]? = some r) :
    ∃ k ∈ ka, ∃ i, c.sha224 (nonce ++ k.val) = h ∧
      r = c.encryptAesgcm (iv i k.val) k.val bucketKey := by
  rcases getElem?_foldl_insert hr with ⟨⟨k, i⟩, hk, rfl, rfl⟩ | ⟨-, hm⟩
  · exact ⟨k, List.fst_mem_of_mem_zipIdx hk, i, rfl, rfl⟩
  · simp at hm

/-- With one IV for each key and no collision, the record under a key's hash is known. -/
theorem orderedHashes_getElem? {c : Crypto} {nonce bucketKey : Bytes} {iv : Bytes → Bytes}
    {ka : KeyArray} {keys : Set Bytes} (hinj : HashInjOn c nonce keys)
    (hka : ∀ k ∈ ka, k.val ∈ keys) {key : Key} (hk : key ∈ ka) :
    (orderedHashes c nonce bucketKey (fun _ => iv) ka)[c.sha224 (nonce ++ key.val)]? =
      some (c.encryptAesgcm (iv key.val) key.val bucketKey) := by
  obtain ⟨r, hr⟩ := exists_getElem?_of_mem
    ((mem_orderedHashes bucketKey fun _ => iv).mpr ⟨key, hk, rfl⟩)
  obtain ⟨k, hk', i, hhash, rfl⟩ := orderedHashes_eq_some hr
  have hval : k.val = key.val := hinj (hka k hk') (hka key hk) hhash
  rw [hr, hval]

/-- **The map depends on the set of keys only**, not on their order or multiplicity. -/
theorem orderedHashes_congr {c : Crypto} {nonce : Bytes} (bucketKey : Bytes) (iv : Bytes → Bytes)
    {ka ka' : KeyArray} {keys : Set Bytes} (hinj : HashInjOn c nonce keys)
    (hka : ∀ k ∈ ka, k.val ∈ keys) (h : ∀ k, k ∈ ka ↔ k ∈ ka') :
    orderedHashes c nonce bucketKey (fun _ => iv) ka =
      orderedHashes c nonce bucketKey (fun _ => iv) ka' := by
  have hka' : ∀ k ∈ ka', k.val ∈ keys := fun k hk => hka k ((h k).mpr hk)
  refine ExtTreeMap.ext_getElem? fun q => ?_
  by_cases hq : ∃ k ∈ ka, c.sha224 (nonce ++ k.val) = q
  · obtain ⟨k, hk, rfl⟩ := hq
    rw [orderedHashes_getElem? hinj hka hk, orderedHashes_getElem? hinj hka' ((h k).mp hk)]
  · have hq' : ¬ ∃ k ∈ ka', c.sha224 (nonce ++ k.val) = q := by
      rintro ⟨k, hk, he⟩
      exact hq ⟨k, (h k).mpr hk, he⟩
    rw [ExtTreeMap.getElem?_eq_none (mt (mem_orderedHashes _ _).mp hq),
      ExtTreeMap.getElem?_eq_none (mt (mem_orderedHashes _ _).mp hq')]

/-- With one IV for each key, a plain envelope is one record for each key in turn. -/
theorem plainText_eq (c : Crypto) (bucketKey : Bytes) (iv : Bytes → Bytes) (ka : KeyArray) :
    plainText c bucketKey (fun _ => iv) ka =
      (ka.map fun k => c.encryptAesgcm (iv k.val) k.val bucketKey).flatten := by
  have hfst : ka.zipIdx.map (fun k => c.encryptAesgcm (iv k.1.val) k.1.val bucketKey) =
      (ka.zipIdx.map Prod.fst).map fun k => c.encryptAesgcm (iv k.val) k.val bucketKey := by
    rw [List.map_map]
    rfl
  unfold plainText
  rw [hfst, List.zipIdx_map_fst]

end ASky

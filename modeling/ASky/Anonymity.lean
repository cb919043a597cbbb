import ASky.Lib.Records
import ASky.Service.Dispatch

/-!
# What an envelope tells about the names of its readers

A-SKY promises that an envelope does not tell who can open it (`README.md`). Two runs are compared:
two stores with two groups whose members have the same keys, under other names, after another
history. With the same bucket key and nonce and one IV for each key, does `generate_envelope` write
the same bytes?

* `groupText` is the `ctext` of a call, and `generateEnvelope_response` says that the response map
  has nothing else in it.
* **`indexed_envelope_hides_names`**: with `indexed_` it does. The map re-sorts by hash and keeps
  one record for each key.
* **`plain_envelope_hides_names_iff`**: without `indexed_` the records stand in the order of the
  user ids, the order of the `std::set` in the store. The bytes agree exactly when the keys, listed
  by user id, agree. `plain_envelope_shows_names` swaps the keys of two users.
-/

namespace ASky

open Std (ExtTreeMap ExtTreeSet)
open Lib

/-- `ctext` of a call of `generate_envelope` for the group `g`, if it gets that far. -/
def groupText (c : Crypto) (indexed : Bool) (nonce bucketKey : Bytes) (iv : IvSource)
    (db : MemDatabase) (g : Bytes) : Option Bytes :=
  match (db.getKeysOfGroup g).1 with
  | .ok ka => some (envelopeText c indexed nonce bucketKey iv ka)
  | .error _ => none

/-- The response map for a `ctext`. -/
def cipherResponse (c : Crypto) : Option Bytes → KVString
  | some ctext => (∅ : KVString).insert (lit "ciphertext") (c.b64Encode ctext)
  | none => ∅

/-- The keys of the members of `g`, in the order of their user ids. -/
def MemDatabase.keysById (db : MemDatabase) (g : Bytes) : KeyArray :=
  match db.groups[g]? with
  | some members => members.toList.map fun uid => keyOf (db.users.getD uid [])
  | none => []

/-- Two users with these names and keys, both in the group `g`. -/
def twoUsers (a b : Bytes) (keyA keyB : Key) : List Op :=
  [.createUser a keyA.val, .createUser b keyB.val, .createGroup [103] a, .addUserToGroup [103] b]

/-- `a` has the key `00..00` and `b` the key `01..01`. -/
def storeAB : MemDatabase := MemDatabase.run {} (twoUsers [97] [98] Crypto.key0 Crypto.key1)

/-- `a` and `b` with their keys swapped. -/
def storeBA : MemDatabase := MemDatabase.run {} (twoUsers [97] [98] Crypto.key1 Crypto.key0)

/-- The keys of `storeAB` under the names `c` and `d`. -/
def storeCD : MemDatabase := MemDatabase.run {} (twoUsers [99] [100] Crypto.key0 Crypto.key1)

/-- A request body for the group `g`. -/
def envelopeBody : Json :=
  .object [(lit "bucket_key", .string (lit "AAAAAAAAAAAAAAAAAAAAAAAAAAAAAAAAAAAAAAAAAAA=")),
    (lit "group_id", .string [103])]

theorem envelopeBody_bucketKey : jsonStr envelopeBody (lit "bucket_key") =
    .ok (lit "AAAAAAAAAAAAAAAAAAAAAAAAAAAAAAAAAAAAAAAAAAA=") := rfl

theorem envelopeBody_groupId : jsonStr envelopeBody (lit "group_id") = .ok [103] := rfl

/-! ## The response of a call -/

/-- The `ctext` of a call is written from the keys in the order of the user ids. -/
theorem groupText_eq {c : Crypto} {indexed : Bool} {nonce bucketKey : Bytes} {iv : IvSource}
    {db : MemDatabase} (hi : db.Integrity) (g : Bytes) :
    groupText c indexed nonce bucketKey iv db g =
      if db.keysById g = [] then none
      else some (envelopeText c indexed nonce bucketKey iv (db.keysById g)) := by
  unfold groupText MemDatabase.keysById
  cases hg : db.groups[g]? with
  | none => rw [MemDatabase.getKeysOfGroup_eq, hg, if_pos rfl]
  | some members =>
    by_cases hne : members.isEmpty = true
    · have hnil : members.toList = [] := by
        rw [ExtTreeSet.isEmpty_iff.mp hne]
        rfl
      rw [MemDatabase.getKeysOfGroup_eq, hg]
      simp only [hne, if_true, hnil, List.map_nil]
    · obtain ⟨ka, hget, rfl, hnil, -⟩ :=
        MemDatabase.getKeysOfGroup_of_nonempty hi hg (Bool.not_eq_true _ ▸ hne)
      rw [hget]
      simp only
      rw [if_neg (List.isEmpty_eq_false_iff.mp hnil)]

theorem mem_keysById {db : MemDatabase} (hi : db.Integrity) (g : Bytes) (key : Key) :
    key ∈ db.keysById g ↔ key ∈ db.memberKeys g := by
  unfold MemDatabase.keysById
  cases hg : db.groups[g]? with
  | none =>
    refine iff_of_false List.not_mem_nil ?_
    rintro ⟨u, stored, ⟨members, hm, -⟩, -⟩
    rw [hg] at hm
    exact absurd hm (by simp)
  | some members =>
    rw [← MemDatabase.mem_filterMap_keys hg, MemDatabase.filterMap_keys_of_integrity hi hg]

/-- A call of `generate_envelope` answers with its `ctext` and nothing else. -/
theorem generateEnvelope_response {env : Env} {draw : Draw} {indexed : Bool} {db : MemDatabase}
    (hi : db.Integrity) {j : Json} {b g : Bytes} (hb : jsonStr j (lit "bucket_key") = .ok b)
    (hg : jsonStr j (lit "group_id") = .ok g) :
    (AnonymBE.generateEnvelope env draw indexed db j).response = cipherResponse env.crypto
      (groupText env.crypto indexed draw.nonce (resize (env.crypto.b64Decode b) 32) draw.iv
        db g) := by
  cases hm : db.groups[g]? with
  | none =>
    unfold AnonymBE.generateEnvelope groupText
    simp only [hb, hg, MemDatabase.getKeysOfGroup_eq, hm]
    rfl
  | some members =>
    by_cases hne : members.isEmpty = true
    · unfold AnonymBE.generateEnvelope groupText
      simp only [hb, hg, MemDatabase.getKeysOfGroup_eq, hm, hne]
      rfl
    · obtain ⟨ka, hget, -, hnil, -⟩ :=
        MemDatabase.getKeysOfGroup_of_nonempty hi hm (Bool.not_eq_true _ ▸ hne)
      rw [AnonymBE.generateEnvelope_of_keys hb hg hget hnil, groupText, hget]
      rfl

/-! ## Indexed envelopes -/

/-- **An indexed envelope hides names and history**: two groups of two reachable stores whose
members have the same set of keys get the same bytes, for the same bucket key, nonce and IV for
each key. -/
theorem indexed_envelope_hides_names (env : Env) {db₁ db₂ : MemDatabase} (h₁ : db₁.Reachable)
    (h₂ : db₂.Reachable) {g₁ g₂ : Bytes} (hkeys : db₁.memberKeys g₁ = db₂.memberKeys g₂)
    (draw : Draw) {iv : Bytes → Bytes} (hiv : draw.iv = fun _ => iv)
    (hinj : HashInjOn env.crypto draw.nonce (Subtype.val '' db₁.memberKeys g₁)) {b : Bytes}
    {j₁ j₂ : Json} (hb₁ : jsonStr j₁ (lit "bucket_key") = .ok b)
    (hb₂ : jsonStr j₂ (lit "bucket_key") = .ok b) (hg₁ : jsonStr j₁ (lit "group_id") = .ok g₁)
    (hg₂ : jsonStr j₂ (lit "group_id") = .ok g₂) :
    groupText env.crypto true draw.nonce (resize (env.crypto.b64Decode b) 32) draw.iv db₁ g₁ =
      groupText env.crypto true draw.nonce (resize (env.crypto.b64Decode b) 32) draw.iv db₂ g₂ ∧
    (AnonymBE.generateEnvelope env draw true db₁ j₁).response =
      (AnonymBE.generateEnvelope env draw true db₂ j₂).response := by
  have hi₁ := MemDatabase.integrity_of_reachable h₁
  have hi₂ := MemDatabase.integrity_of_reachable h₂
  have hmem : ∀ k, k ∈ db₁.keysById g₁ ↔ k ∈ db₂.keysById g₂ := by
    intro k
    rw [mem_keysById hi₁, mem_keysById hi₂, hkeys]
  have hnil : db₁.keysById g₁ = [] ↔ db₂.keysById g₂ = [] := by
    rw [List.eq_nil_iff_forall_not_mem, List.eq_nil_iff_forall_not_mem]
    exact forall_congr' fun k => not_congr (hmem k)
  have htext : groupText env.crypto true draw.nonce (resize (env.crypto.b64Decode b) 32) draw.iv
      db₁ g₁ = groupText env.crypto true draw.nonce (resize (env.crypto.b64Decode b) 32) draw.iv
      db₂ g₂ := by
    have hmap := orderedHashes_congr (resize (env.crypto.b64Decode b) 32) iv hinj
      (fun k hk => ⟨k, (mem_keysById hi₁ g₁ k).mp hk, rfl⟩) hmem
    rw [groupText_eq hi₁, groupText_eq hi₂, if_congr hnil rfl rfl]
    simp only [envelopeText, indexedText, hiv, hmap, if_true]
  refine ⟨htext, ?_⟩
  rw [generateEnvelope_response hi₁ hb₁ hg₁, generateEnvelope_response hi₂ hb₂ hg₂, htext]

/-- The theorem for the users `a` and `b` with their keys swapped. -/
theorem indexed_envelope_hides_names_sample :
    (AnonymBE.generateEnvelope .sample .sample true storeAB envelopeBody).response =
      (AnonymBE.generateEnvelope .sample .sample true storeBA envelopeBody).response := by
  have hr₁ : storeAB.Reachable := ⟨_, rfl⟩
  have hr₂ : storeBA.Reachable := ⟨_, rfl⟩
  have hkeys : ∀ k, k ∈ storeAB.memberKeys [103] ↔ k ∈ [Crypto.key0, Crypto.key1] := fun k =>
    (mem_keysById (MemDatabase.integrity_of_reachable hr₁) [103] k).symm
  have hkeys' : ∀ k, k ∈ storeBA.memberKeys [103] ↔ k ∈ [Crypto.key1, Crypto.key0] := fun k =>
    (mem_keysById (MemDatabase.integrity_of_reachable hr₂) [103] k).symm
  have hset : storeAB.memberKeys [103] = storeBA.memberKeys [103] := by
    ext k
    rw [hkeys, hkeys', List.mem_pair, List.mem_pair, or_comm]
  refine (indexed_envelope_hides_names .sample hr₁ hr₂ hset .sample
    (show Draw.sample.iv = fun _ => fun _ => Crypto.zeros12 from rfl) ?_ envelopeBody_bucketKey
    envelopeBody_bucketKey envelopeBody_groupId envelopeBody_groupId).2
  · have hne : Crypto.sample.sha224 (Crypto.zeros12 ++ Crypto.key0.val) ≠
      Crypto.sample.sha224 (Crypto.zeros12 ++ Crypto.key1.val) := by decide +kernel
    rintro _ ⟨k, hk, rfl⟩ _ ⟨k', hk', rfl⟩ h
    rcases List.mem_pair.mp ((hkeys k).mp hk) with rfl | rfl <;>
      rcases List.mem_pair.mp ((hkeys k').mp hk') with rfl | rfl
    · rfl
    · exact absurd h hne
    · exact absurd h.symm hne
    · rfl

/-! ## Plain envelopes -/

/-- Plain envelopes are the same exactly when they list the same keys: records have one size, so
they can be read back. -/
theorem plainText_inj {c : Crypto} (hc : c.Agrees) {bucketKey : Bytes} {iv : Bytes → Bytes}
    (hiv : ∀ k, (iv k).length = cipherIvBytes) {keys : Set Key}
    (hrec : Set.InjOn (fun k : Key => c.encryptAesgcm (iv k.val) k.val bucketKey) keys)
    {ka ka' : KeyArray} (h : ∀ k ∈ ka, k ∈ keys) (h' : ∀ k ∈ ka', k ∈ keys) :
    plainText c bucketKey (fun _ => iv) ka = plainText c bucketKey (fun _ => iv) ka' ↔
      ka = ka' := by
  have hlen : ∀ (l : KeyArray), ∀ r ∈ l.map (fun k => c.encryptAesgcm (iv k.val) k.val bucketKey),
      r.length = cipherIvBytes + (bucketKey.length + cipherTagBytes) := by
    intro l r hr
    obtain ⟨k, -, rfl⟩ := List.mem_map.mp hr
    obtain ⟨sealed, hs, hsealed, -⟩ := hc.layout (iv k.val) k.val bucketKey (hiv _) k.property
    rw [hs, List.length_append, hiv, hsealed]
  rw [plainText_eq, plainText_eq, flatten_inj (by simp [cipherIvBytes]) (hlen ka) (hlen ka'),
    map_eq_map_iff_of_injOn hrec h h']

/-- **A plain envelope hides names exactly when the keys, listed by user id, agree.** For two
groups of two reachable stores, the same bucket key and IV for each key, where different keys
give different records: the bytes are the same if and only if the `i`-th member of one group and
the `i`-th member of the other, in the order of the user ids, have the same key for every `i`. -/
theorem plain_envelope_hides_names_iff (env : Env) (hc : env.crypto.Agrees)
    {db₁ db₂ : MemDatabase} (h₁ : db₁.Reachable) (h₂ : db₂.Reachable) {g₁ g₂ : Bytes}
    (draw : Draw) {iv : Bytes → Bytes} (hiv : draw.iv = fun _ => iv)
    (hlen : ∀ k, (iv k).length = cipherIvBytes) {b : Bytes}
    (hrec : Set.InjOn (fun k : Key => env.crypto.encryptAesgcm (iv k.val) k.val
      (resize (env.crypto.b64Decode b) 32)) (db₁.memberKeys g₁ ∪ db₂.memberKeys g₂))
    {j₁ j₂ : Json} (hb₁ : jsonStr j₁ (lit "bucket_key") = .ok b)
    (hb₂ : jsonStr j₂ (lit "bucket_key") = .ok b) (hg₁ : jsonStr j₁ (lit "group_id") = .ok g₁)
    (hg₂ : jsonStr j₂ (lit "group_id") = .ok g₂) :
    ∃ ctext₁ ctext₂,
      (AnonymBE.generateEnvelope env draw false db₁ j₁).response =
        cipherResponse env.crypto ctext₁ ∧
      ctext₁ = groupText env.crypto false draw.nonce (resize (env.crypto.b64Decode b) 32) draw.iv
        db₁ g₁ ∧
      (AnonymBE.generateEnvelope env draw false db₂ j₂).response =
        cipherResponse env.crypto ctext₂ ∧
      ctext₂ = groupText env.crypto false draw.nonce (resize (env.crypto.b64Decode b) 32) draw.iv
        db₂ g₂ ∧
      (ctext₁ = ctext₂ ↔ db₁.keysById g₁ = db₂.keysById g₂) := by
  have hi₁ := MemDatabase.integrity_of_reachable h₁
  have hi₂ := MemDatabase.integrity_of_reachable h₂
  refine ⟨_, _, generateEnvelope_response hi₁ hb₁ hg₁, rfl, generateEnvelope_response hi₂ hb₂ hg₂,
    rfl, ?_⟩
  have hplain := plainText_inj hc hlen hrec
    (fun k hk => Or.inl ((mem_keysById hi₁ g₁ k).mp hk))
    (fun k hk => Or.inr ((mem_keysById hi₂ g₂ k).mp hk))
  rw [groupText_eq hi₁, groupText_eq hi₂]
  by_cases hn₁ : db₁.keysById g₁ = []
  · rw [if_pos hn₁, hn₁]
    by_cases hn₂ : db₂.keysById g₂ = []
    · rw [if_pos hn₂, hn₂]
      exact iff_of_true rfl rfl
    · rw [if_neg hn₂]
      exact iff_of_false (by simp) (fun h => hn₂ h.symm)
  · rw [if_neg hn₁]
    by_cases hn₂ : db₂.keysById g₂ = []
    · rw [if_pos hn₂, hn₂]
      exact iff_of_false (by simp) hn₁
    · rw [if_neg hn₂, Option.some.injEq, hiv]
      simp only [envelopeText, Bool.false_eq_true, if_false]
      exact hplain

/-- The theorem for the same two keys under other names. -/
theorem plain_envelope_hides_names_sample :
    groupText .sample false Crypto.zeros12 (resize Crypto.key0.val 32) (fun _ _ => Crypto.zeros12)
        storeAB [103] =
      groupText .sample false Crypto.zeros12 (resize Crypto.key0.val 32)
        (fun _ _ => Crypto.zeros12) storeCD [103] := by
  have hr₁ : storeAB.Reachable := ⟨_, rfl⟩
  have hr₂ : storeCD.Reachable := ⟨_, rfl⟩
  have hne : Crypto.sample.encryptAesgcm Crypto.zeros12 Crypto.key0.val (resize Crypto.key0.val 32)
      ≠ Crypto.sample.encryptAesgcm Crypto.zeros12 Crypto.key1.val (resize Crypto.key0.val 32) := by
    decide +kernel
  have hpair : ∀ k ∈ storeAB.memberKeys [103] ∪ storeCD.memberKeys [103],
      k = Crypto.key0 ∨ k = Crypto.key1 := by
    rintro k (hk | hk)
    · exact List.mem_pair.mp
        ((mem_keysById (MemDatabase.integrity_of_reachable hr₁) [103] k).mpr hk)
    · exact List.mem_pair.mp
        ((mem_keysById (MemDatabase.integrity_of_reachable hr₂) [103] k).mpr hk)
  have hrec : Set.InjOn (fun k : Key => Crypto.sample.encryptAesgcm Crypto.zeros12 k.val
      (resize (Crypto.sample.b64Decode (lit "AAAAAAAAAAAAAAAAAAAAAAAAAAAAAAAAAAAAAAAAAAA=")) 32))
      (storeAB.memberKeys [103] ∪ storeCD.memberKeys [103]) := by
    intro k hk k' hk' h
    rcases hpair k hk with rfl | rfl <;> rcases hpair k' hk' with rfl | rfl
    · rfl
    · exact absurd h hne
    · exact absurd h.symm hne
    · rfl
  obtain ⟨_, _, -, rfl, -, rfl, hiff⟩ := plain_envelope_hides_names_iff .sample
    Crypto.sample_agrees hr₁ hr₂ .sample
    (show Draw.sample.iv = fun _ => fun _ => Crypto.zeros12 from rfl) (fun _ => rfl) hrec
    envelopeBody_bucketKey envelopeBody_bucketKey envelopeBody_groupId envelopeBody_groupId
  exact hiff.mpr rfl

/-- Two users swap their keys: the members have the same two keys, the plain envelopes differ. -/
theorem plain_envelope_shows_names :
    storeAB.Reachable ∧ storeBA.Reachable ∧
      (storeAB.keysById [103]).Nodup ∧ (storeBA.keysById [103]).Nodup ∧
      storeAB.memberKeys [103] = storeBA.memberKeys [103] ∧
      groupText .sample false Crypto.zeros12 (resize Crypto.key0.val 32)
          (fun _ _ => Crypto.zeros12) storeAB [103] ≠
        groupText .sample false Crypto.zeros12 (resize Crypto.key0.val 32)
          (fun _ _ => Crypto.zeros12) storeBA [103] ∧
      (AnonymBE.generateEnvelope .sample .sample false storeAB envelopeBody).response ≠
        (AnonymBE.generateEnvelope .sample .sample false storeBA envelopeBody).response := by
  have hr₁ : storeAB.Reachable := ⟨_, rfl⟩
  have hr₂ : storeBA.Reachable := ⟨_, rfl⟩
  refine ⟨hr₁, hr₂, by decide, by decide, Set.ext fun k => ?_, by decide +kernel,
    by decide +kernel⟩
  rw [← mem_keysById (MemDatabase.integrity_of_reachable hr₁),
    ← mem_keysById (MemDatabase.integrity_of_reachable hr₂)]
  exact (List.mem_pair.trans or_comm).trans List.mem_pair.symm

end ASky

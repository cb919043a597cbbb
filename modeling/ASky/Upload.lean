import ASky.Client.Cloud
import ASky.Formats

/-!
# Upload, then retrieve

A member uploads a file under a fresh symmetric key that the server wrapped for the group, and any
member retrieves it. Four layers undo each other: the length-prefixed container
(`decodeObject_encode`), the IV in front of the ciphertext (`decryptAes_encryptAes`), the envelope
as key wrap (`open_envelopeText`) and the envelope as associated data, which is the same bytes on
both sides.

* `SealAgrees`: what the client relies on in its own cipher.
* `Keeps`: the storage returns what was stored.
* **`upload_then_retrieve`**: for every group of a reachable store, in either mode, what a member
  gets back is what was uploaded.
-/

namespace ASky.RoundTrip

open Client Lib

/-- For a 12-byte IV and a 32-byte key, decryption undoes encryption under the same associated
data, and the tag adds 16 bytes. -/
def SealAgrees (c : Crypto) (gcmSeal : GcmSeal) : Prop :=
  ∀ key iv associatedData data, iv.length = cipherIvBytes → key.length = keySize →
    data.length + cipherTagBytes ≤ intMax →
    ∃ sealed, gcmSeal key iv associatedData data = .ok sealed ∧
      sealed.length = data.length + cipherTagBytes ∧
      c.gcmOpen key iv associatedData sealed = .ok data

/-- An object that was stored is returned unchanged. -/
def Keeps {σ : Type} (api : StorageApi σ) : Prop :=
  ∀ s s' bucketName objectName content,
    api.storeObject s bucketName objectName content = .ok s' →
      api.getObject s' bucketName objectName = .ok content

section

variable {c : Crypto} {gcmSeal : GcmSeal}

/-- Decrypting what `encryptAes` wrote. -/
theorem decryptAes_encryptAes (hseal : SealAgrees c gcmSeal) {iv key data : Bytes}
    (hiv : iv.length = cipherIvBytes) (hk : key.length = keySize)
    (hfit : data.length + 28 ≤ intMax) (associatedData : Option Bytes) :
    ∃ encrypted, encryptAes gcmSeal iv data key associatedData = .ok encrypted ∧
      encrypted.length = data.length + 28 ∧
      decryptAes c encrypted key associatedData = .ok data := by
  have htag : cipherTagBytes = 16 := rfl
  have hivs : cipherIvBytes = 12 := rfl
  obtain ⟨sealed, hs, hlen, hopen⟩ := hseal key iv associatedData data hiv hk (by omega)
  refine ⟨iv ++ sealed, ?_, ?_, ?_⟩
  · unfold encryptAes
    rw [hs]
    dsimp only
    rw [if_neg (by omega)]
  · rw [List.length_append]
    omega
  · unfold decryptAes
    rw [if_neg (by rw [List.length_append]; omega), ← hiv, List.take_left, List.drop_left, hopen]

/-- **The object a client stores decodes to the file**, for whoever can open the envelope. -/
theorem decodeObject_encryptAndEncodeFile (hseal : SealAgrees c gcmSeal) {indexed : Bool}
    {iv key data envelope userKey : Bytes} (hiv : iv.length = cipherIvBytes)
    (hk : key.length = keySize) (hfit : 4 + envelope.length + data.length + 28 ≤ intMax)
    (hopen : openEnvelope c indexed envelope userKey = .ok key) :
    ∃ stored, encryptAndEncodeFile gcmSeal iv data envelope key = .ok stored ∧
      decodeObject c indexed userKey stored = .ok data := by
  obtain ⟨encrypted, henc, hlen, hdec⟩ :=
    decryptAes_encryptAes hseal hiv hk (show data.length + 28 ≤ intMax by omega) (some envelope)
  have hsize : 4 + envelope.length + encrypted.length ≤ intMax := by omega
  refine ⟨writeInt (BitVec.ofNat 32 envelope.length) ++ envelope ++ encrypted, ?_, ?_⟩
  · unfold encryptAndEncodeFile
    rw [henc]
    exact encodeEnvelopeAndData_of_le hsize
  · rw [decodeObject_encode c indexed userKey hsize]
    refine mapError_eq_ok.mpr ?_
    unfold tryDecrypt
    rw [hopen]
    exact hdec

/-- Storing and fetching in between changes nothing. -/
theorem retrieveFromCloud_uploadToCloud {σ : Type} {api : StorageApi σ} (hapi : Keeps api)
    {indexed : Bool} {iv key data envelope userKey stored groupName objectName : Bytes} {s s' : σ}
    (hstored : encryptAndEncodeFile gcmSeal iv data envelope key = .ok stored)
    (hup : uploadToCloud gcmSeal api iv s data envelope key groupName objectName = .ok s') :
    retrieveFromCloud c indexed userKey api s' groupName objectName =
      decodeObject c indexed userKey stored := by
  unfold uploadToCloud at hup
  rw [hstored] at hup
  obtain ⟨t, -, hput⟩ := bind_eq_ok.mp hup
  exact retrieveFromCloud_of_get c indexed userKey (hapi t s' groupName objectName stored hput)

end

/-- **Upload, then retrieve, is the identity for every member.** For every store whose users were
created with 32-byte keys, every non-empty group, either mode, every 32-byte symmetric key, every
12-byte nonce and all IVs, the server answers with `envelope`. For every member and every file
that fits, the client encrypts it without an exception, and what the storage took is retrieved
by that member as the file itself. -/
theorem upload_then_retrieve (env : Env) (hc : env.crypto.Agrees) {gcmSeal : GcmSeal}
    (hseal : SealAgrees env.crypto gcmSeal) {ops : List Op} (hops : ∀ op ∈ ops, op.Sized)
    {db : MemDatabase} (hdb : db = MemDatabase.run {} ops) {g : Bytes} {members : Members}
    (hg : db.groups[g]? = some members) (hne : members.isEmpty = false) (indexed : Bool)
    (draw : Draw) (hn : draw.nonce.length = nonceBytes)
    (hiv : ∀ i k, (draw.iv i k).length = cipherIvBytes) {keys : Set Bytes}
    (hkeys : ∀ u ∈ members, ∀ k, db.users[u]? = some k → k ∈ keys)
    (hinj : indexed = true → HashInjOn env.crypto draw.nonce keys)
    (hsep : indexed = false → env.crypto.Separates keys) (key : Key) :
    ∃ ka envelope, db.getKeysOfGroup g = (.ok ka, db) ∧
      envelope = envelopeText env.crypto indexed draw.nonce key.val draw.iv ka ∧
      (∀ j b64, jsonStr j (lit "bucket_key") = .ok b64 → env.crypto.b64Decode b64 = key.val →
        jsonStr j (lit "group_id") = .ok g →
        AnonymBE.generateEnvelope env draw indexed db j = ⟨.ok .noError,
          (∅ : KVString).insert (lit "ciphertext") (env.crypto.b64Encode envelope), db⟩) ∧
      ∀ u ∈ members, ∀ k, db.users[u]? = some k → ∀ data iv, iv.length = cipherIvBytes →
        4 + envelope.length + data.length + 28 ≤ intMax →
        ∃ stored, encryptAndEncodeFile gcmSeal iv data envelope key.val = .ok stored ∧
          decodeObject env.crypto indexed k stored = .ok data ∧
          ∀ (σ : Type) (api : StorageApi σ), Keeps api → ∀ s s' groupName objectName,
            uploadToCloud gcmSeal api iv s data envelope key.val groupName objectName = .ok s' →
            retrieveFromCloud env.crypto indexed k api s' groupName objectName = .ok data := by
  obtain ⟨hsized, ka, hget, hnil, hmem⟩ := keyArray_of_reachable hops hdb hg hne
  have hka : ∀ k ∈ ka, k.val ∈ keys := by
    intro k hk
    obtain ⟨u, hu, hs⟩ := (hmem k).mp hk
    exact hkeys u hu _ hs
  have hkey : resize key.val 32 = key.val := resize_of_length key.property
  refine ⟨ka, _, hget, rfl, ?_, ?_⟩
  · intro j b64 hb hd hgid
    rw [AnonymBE.generateEnvelope_of_keys hb hgid hget hnil, hd, hkey]
  · intro u hu k hk data iv hivl hfit
    have hopen := open_envelopeText hc indexed hn hiv key.property hinj hsep hka
      ⟨k, hsized u k hk⟩ (hkeys u hu k hk)
    rw [if_pos ((hmem ⟨k, hsized u k hk⟩).mpr ⟨u, hu, hk⟩)] at hopen
    obtain ⟨stored, hstored, hdec⟩ :=
      decodeObject_encryptAndEncodeFile hseal hivl key.property hfit hopen
    refine ⟨stored, hstored, hdec, fun σ api hapi s s' groupName objectName hup => ?_⟩
    rw [retrieveFromCloud_uploadToCloud hapi hstored hup, hdec]

/-! ## A sample

The group of `a`, with the key `01..01`, and `b`, with the key `00..00`. Its plain envelope of the
symmetric key `00..00` for IVs of zeros has 120 bytes. `tagWith` knows the tag of the file `hi`
under that key, an IV of zeros and that envelope as associated data. -/

/-- The envelope of the sample. -/
def sampleEnvelope : Bytes :=
  envelopeText .sample false Crypto.zeros12 Crypto.key0.val (fun _ _ => Crypto.zeros12)
    [Crypto.key1, Crypto.key0]

/-- How the group of the sample comes about. -/
def sampleOps : List Op :=
  [.createUser [97] Crypto.key1.val, .createUser [98] Crypto.key0.val,
    .createGroup (lit "g") [97], .addUserToGroup (lit "g") [98]]

/-- The tag under associated data. -/
def tagWith (key : Bytes) (associatedData : Option Bytes) (text : Bytes) : Bytes :=
  if key = Crypto.key0.val ∧ associatedData = some sampleEnvelope ∧ text = lit "hi" then
    [108, 61, 132, 147, 208, 26, 1, 141, 148, 141, 235, 155, 53, 14, 53, 251]
  else Crypto.tagOf key

def sampleSeal : GcmSeal := fun key _ associatedData data =>
  .ok (Crypto.mask key data ++ tagWith key associatedData data)

/-- `Crypto.sample`, with associated data. -/
def sampleCloud : Crypto where
  __ := Crypto.sample
  gcmOpen
    | key, iv, none, data => Crypto.sample.gcmOpen key iv none data
    | key, _, some a, data =>
      let text := Crypto.mask key (data.take (data.length - cipherTagBytes))
      if data.drop (data.length - cipherTagBytes) = tagWith key (some a) text then .ok text
      else .error .aeadBadTag

/-- A storage of one bucket for each name, the last object stored under a name first. -/
def sampleStorage : StorageApi (List ((Bytes × Bytes) × Bytes)) where
  createBucketIfNotExists s _ := .ok s
  storeObject s bucketName objectName content := .ok (((bucketName, objectName), content) :: s)
  getObject s bucketName objectName :=
    match s.find? (fun o => o.1 = (bucketName, objectName)) with
    | some o => .ok o.2
    | none => .error .storage

theorem length_tagWith (key : Bytes) (associatedData : Option Bytes) (text : Bytes) :
    (tagWith key associatedData text).length = cipherTagBytes := by
  unfold tagWith
  split
  · rfl
  · exact Crypto.length_tagOf key

theorem sealAgrees_sample : SealAgrees sampleCloud sampleSeal := by
  intro key iv associatedData data _ _ _
  have htag := length_tagWith key associatedData data
  have hdrop := Crypto.drop_mask_append key data htag
  have htext := Crypto.mask_take_mask_append key data htag
  refine ⟨_, rfl, ?_, ?_⟩
  · rw [Crypto.length_mask_append, htag]
  · cases associatedData with
    | none =>
      have hplain : tagWith key none data = Crypto.tagOf key := if_neg (by simp)
      show Crypto.sample.gcmOpen key iv none _ = _
      unfold Crypto.sample
      dsimp only
      rw [if_pos (hdrop.trans hplain), htext]
    | some a =>
      unfold sampleCloud
      dsimp only
      rw [htext, if_pos hdrop]

theorem keeps_sampleStorage : Keeps sampleStorage := by
  intro s s' bucketName objectName content h
  obtain rfl := Except.ok.inj h
  unfold sampleStorage
  dsimp only
  rw [List.find?_cons_of_pos (by simp)]

/-- The theorem for the sample: `b` retrieves the file `hi`. -/
theorem upload_then_retrieve_sample :
    (do
      let s ← uploadToCloud sampleSeal sampleStorage Crypto.zeros12 [] (lit "hi") sampleEnvelope
        Crypto.key0.val (lit "g") (lit "f")
      retrieveFromCloud sampleCloud false Crypto.key0.val sampleStorage s (lit "g") (lit "f")) =
        .ok (lit "hi") := by
  have hops : ∀ op ∈ sampleOps, op.Sized := by
    simp [sampleOps, Op.Sized, Crypto.key0, Crypto.key1, keySize]
  have hagrees : sampleCloud.Agrees := ⟨Crypto.sample_agrees.1, Crypto.sample_agrees.2⟩
  have hg : (MemDatabase.run {} sampleOps).groups[lit "g"]? =
      some (((∅ : Members).insert [97]).insert [98]) := by decide +kernel
  have ha : (MemDatabase.run {} sampleOps).users[([97] : Bytes)]? = some Crypto.key1.val := by
    decide +kernel
  have hb : (MemDatabase.run {} sampleOps).users[([98] : Bytes)]? = some Crypto.key0.val := by
    decide +kernel
  have hkeys : ∀ u ∈ ((∅ : Members).insert [97]).insert [98], ∀ k,
      (MemDatabase.run {} sampleOps).users[u]? = some k →
        k ∈ ({Crypto.key0.val, Crypto.key1.val} : Set Bytes) := by
    intro u hu k hk
    rcases mem_insert.mp hu with rfl | hu
    · exact Or.inl (Option.some.inj (hk.symm.trans hb))
    · rcases mem_insert.mp hu with rfl | hu
      · exact Or.inr (Option.some.inj (hk.symm.trans ha))
      · exact absurd hu Std.ExtTreeSet.not_mem_empty
  obtain ⟨ka, envelope, hka, rfl, -, hm⟩ := upload_then_retrieve
    { Env.sample with crypto := sampleCloud } hagrees sealAgrees_sample hops rfl hg
    (by decide +kernel) false .sample rfl (fun _ _ => rfl) hkeys (by simp)
    (fun _ => Crypto.sample_separates) Crypto.key0
  obtain rfl : ka = [Crypto.key1, Crypto.key0] := Except.ok.inj (congrArg Prod.fst hka.symm)
  obtain ⟨stored, hstored, -, hall⟩ := hm [98] (by decide +kernel) _ hb (lit "hi") Crypto.zeros12
    rfl (by decide +kernel)
  have hup : uploadToCloud sampleSeal sampleStorage Crypto.zeros12 [] (lit "hi") sampleEnvelope
      Crypto.key0.val (lit "g") (lit "f") = .ok [((lit "g", lit "f"), stored)] := by
    unfold uploadToCloud
    rw [show encryptAndEncodeFile sampleSeal Crypto.zeros12 (lit "hi") sampleEnvelope
      Crypto.key0.val = .ok stored from hstored]
    rfl
  rw [hup]
  exact hall _ sampleStorage keeps_sampleStorage _ _ _ _ hup

end ASky.RoundTrip

import ASky.Upload

/-!
# The cloud cannot forge a file

The storage is not trusted: it may return any bytes for any name. With an ideal AEAD a client
accepts only an object that some client uploaded.

* `Encryption`: the encryptions that were made, in a `log`. The server wraps symmetric keys
  (`encrypt_aesgcm`, no associated data), the clients encrypt files (`encryptAes` with the envelope
  as associated data). Nothing else in the sources encrypts.
* `Ideal`: decryption succeeds only on a ciphertext of the log, with its key, IV and associated
  data, and returns its plaintext. Empty associated data is the same to the cipher as none, so the
  second part is about non-empty envelopes.
* `Wraps`: a record of an envelope, at a position where the format has one, is the encryption of a
  key for a user.
* **`retrieve_only_uploaded`**: an object that is retrieved is, byte for byte, what
  `encryptAndEncodeFile` wrote for a file of the log, and its envelope wraps the file's key for
  the user. Every other object throws.
-/

namespace ASky.RoundTrip

open Client Lib

/-- An encryption that was made. -/
inductive Encryption where
  | wrap (iv key plain : Bytes)
  | file (iv data envelope key : Bytes)

/-- An ideal AEAD, for the encryptions of `log`. -/
structure Ideal (c : Crypto) (gcmSeal : GcmSeal) (log : Set Encryption) : Prop where
  wrap : ∀ {key iv data plain : Bytes}, c.gcmOpen key iv none data = .ok plain →
    .wrap iv key plain ∈ log ∧ c.encryptAesgcm iv key plain = iv ++ data
  file : ∀ {key iv envelope data plain : Bytes}, envelope ≠ [] →
    c.gcmOpen key iv (some envelope) data = .ok plain →
    .file iv plain envelope key ∈ log ∧ gcmSeal key iv (some envelope) plain = .ok data

/-- A record of the envelope is an encryption of `key` under `userKey`. -/
def Wraps (c : Crypto) (log : Set Encryption) (indexed : Bool) (envelope userKey key : Bytes) :
    Prop :=
  ∃ i iv, .wrap iv userKey key ∈ log ∧
    recordAt indexed envelope i = c.encryptAesgcm iv userKey key ∧
    (recordAt indexed envelope i).length = encryptedKeyBytes

section

variable {c : Crypto} {gcmSeal : GcmSeal} {log : Set Encryption}

theorem decryptAes_eq_ok {data key plain : Bytes} {associatedData : Option Bytes}
    (h : decryptAes c data key associatedData = .ok plain) :
    ∃ iv sealed, data = iv ++ sealed ∧ iv.length = cipherIvBytes ∧
      c.gcmOpen key iv associatedData sealed = .ok plain := by
  have hlen := length_of_decryptAes h
  unfold decryptAes at h
  rw [if_neg (by omega)] at h
  split at h
  · rename_i p hopen
    obtain rfl := Except.ok.inj h
    refine ⟨_, _, (List.take_append_drop _ _).symm, ?_, hopen⟩
    rw [List.length_take]
    omega
  · exact absurd h (by simp)

/-- Whoever opens an envelope has a key wrapped in it. -/
theorem wraps_of_openEnvelope (hi : Ideal c gcmSeal log) {indexed : Bool}
    {envelope userKey key : Bytes} (h : openEnvelope c indexed envelope userKey = .ok key) :
    Wraps c log indexed envelope userKey key := by
  obtain ⟨i, hlen, hdec⟩ := openEnvelope_eq_ok h
  obtain ⟨iv, sealed, hrec, -, hopen⟩ := decryptAes_eq_ok hdec
  obtain ⟨hlog, henc⟩ := hi.wrap hopen
  exact ⟨i, iv, hlog, hrec.trans henc.symm, hlen⟩

theorem Wraps.ne_nil {indexed : Bool} {envelope userKey key : Bytes}
    (h : Wraps c log indexed envelope userKey key) : envelope ≠ [] := by
  obtain ⟨i, iv, -, -, hlen⟩ := h
  rintro rfl
  have hnil : recordAt indexed [] i = [] := by
    unfold recordAt
    split <;> rw [List.drop_nil, List.take_nil]
  rw [hnil] at hlen
  exact absurd hlen (by decide)

/-- Encrypting a file of the log again writes the container it was read from. -/
theorem encryptAndEncodeFile_of_seal {iv data envelope key sealed : Bytes}
    (hs : gcmSeal key iv (some envelope) data = .ok sealed) (hiv : iv.length = cipherIvBytes)
    (hfit : 4 + envelope.length + (iv ++ sealed).length ≤ intMax) :
    encryptAndEncodeFile gcmSeal iv data envelope key =
      .ok (writeInt (BitVec.ofNat 32 envelope.length) ++ envelope ++ (iv ++ sealed)) := by
  have henc : encryptAes gcmSeal iv data key (some envelope) = .ok (iv ++ sealed) := by
    rw [List.length_append] at hfit
    unfold encryptAes
    rw [hs]
    dsimp only
    rw [if_neg (by omega)]
  unfold encryptAndEncodeFile
  rw [henc]
  exact encodeEnvelopeAndData_of_le hfit

/-- **An object that decodes was uploaded.** -/
theorem uploaded_of_decodeObject (hi : Ideal c gcmSeal log) {indexed : Bool}
    {userKey o plain : Bytes} (ho : o.length ≤ intMax)
    (h : decodeObject c indexed userKey o = .ok plain) :
    ∃ iv envelope key, .file iv plain envelope key ∈ log ∧
      encryptAndEncodeFile gcmSeal iv plain envelope key = .ok o ∧
      Wraps c log indexed envelope userKey key := by
  obtain ⟨envelope, data, key, hobj, hopen, hdec⟩ := decodeObject_eq_ok h
  have hwraps := wraps_of_openEnvelope hi hopen
  obtain ⟨iv, sealed, rfl, hiv, hgcm⟩ := decryptAes_eq_ok hdec
  obtain ⟨hlog, hseal⟩ := hi.file hwraps.ne_nil hgcm
  refine ⟨iv, envelope, key, hlog, ?_, hwraps⟩
  rw [encryptAndEncodeFile_of_seal hseal hiv, hobj]
  rw [hobj, List.length_append, List.length_append, length_writeInt] at ho
  exact ho

end

/-- **Only what was uploaded is retrieved.** For every storage and every byte array `o` it returns,
every user key and either mode: if `retrieveFromCloud` returns a file, then `o` is the output of
`encryptAndEncodeFile` for that file, an envelope and a key that a client encrypted, and a record
of the envelope wraps the key for this user. If `o` is no such output, `retrieveFromCloud` throws.
A byte array of the JVM has at most `Int.MAX_VALUE` bytes. -/
theorem retrieve_only_uploaded {c : Crypto} {gcmSeal : GcmSeal} {log : Set Encryption}
    (hi : Ideal c gcmSeal log) {σ : Type} (storageClient : StorageApi σ) (s : σ)
    (groupId filename o : Bytes) (hget : storageClient.getObject s groupId filename = .ok o)
    (ho : o.length ≤ intMax) (indexed : Bool) (userKey : Bytes) :
    (∀ plain, retrieveFromCloud c indexed userKey storageClient s groupId filename = .ok plain →
      ∃ iv envelope key, .file iv plain envelope key ∈ log ∧
        encryptAndEncodeFile gcmSeal iv plain envelope key = .ok o ∧
        Wraps c log indexed envelope userKey key) ∧
    ((∀ iv plain envelope key, .file iv plain envelope key ∈ log →
        encryptAndEncodeFile gcmSeal iv plain envelope key ≠ .ok o) →
      ∃ e, retrieveFromCloud c indexed userKey storageClient s groupId filename = .error e) := by
  rw [retrieveFromCloud_of_get c indexed userKey hget]
  refine ⟨fun plain h => uploaded_of_decodeObject hi ho h, fun hno => ?_⟩
  cases hdec : decodeObject c indexed userKey o with
  | error e => exact ⟨e, rfl⟩
  | ok plain =>
    obtain ⟨iv, envelope, key, hlog, henc, -⟩ := uploaded_of_decodeObject hi ho hdec
    exact absurd henc (hno iv plain envelope key hlog)

/-! ## A sample

The cloud of `upload_then_retrieve_sample`, where the two wraps and the file are all that was
ever encrypted. -/

/-- The ciphertext and tag of a wrap. -/
def wrapSealed (key : Key) : Bytes := Crypto.mask key.val Crypto.key0.val ++ Crypto.tagOf key.val

/-- The ciphertext and tag of the file. -/
def fileSealed : Bytes :=
  Crypto.mask Crypto.key0.val (lit "hi") ++ tagWith Crypto.key0.val (some sampleEnvelope) (lit "hi")

/-- The object of the file. -/
def sampleObject : Bytes :=
  writeInt (BitVec.ofNat 32 sampleEnvelope.length) ++ sampleEnvelope ++
    (Crypto.zeros12 ++ fileSealed)

def sampleLog : Set Encryption :=
  { .wrap Crypto.zeros12 Crypto.key0.val Crypto.key0.val,
    .wrap Crypto.zeros12 Crypto.key1.val Crypto.key0.val,
    .file Crypto.zeros12 (lit "hi") sampleEnvelope Crypto.key0.val }

/-- `sampleCloud`, with everything that is not in the log refused. -/
def idealCloud : Crypto where
  __ := sampleCloud
  gcmOpen key iv associatedData data :=
    if iv = Crypto.zeros12 ∧ associatedData = none ∧
        ((key = Crypto.key0.val ∧ data = wrapSealed Crypto.key0) ∨
          (key = Crypto.key1.val ∧ data = wrapSealed Crypto.key1)) then .ok Crypto.key0.val
    else if iv = Crypto.zeros12 ∧ associatedData = some sampleEnvelope ∧
        key = Crypto.key0.val ∧ data = fileSealed then .ok (lit "hi")
    else .error .aeadBadTag

theorem ideal_sample : Ideal idealCloud sampleSeal sampleLog where
  wrap := by
    intro key iv data plain h
    unfold idealCloud at h
    dsimp only at h
    split at h
    · rename_i hc
      obtain rfl := Except.ok.inj h
      obtain ⟨rfl, -, ⟨rfl, rfl⟩ | ⟨rfl, rfl⟩⟩ := hc
      · exact ⟨Or.inl rfl, rfl⟩
      · exact ⟨Or.inr (Or.inl rfl), rfl⟩
    · rw [if_neg (by simp)] at h
      exact absurd h (by simp)
  file := by
    intro key iv envelope data plain _ h
    unfold idealCloud at h
    dsimp only at h
    rw [if_neg (by simp)] at h
    split at h
    · rename_i hc
      obtain rfl := Except.ok.inj h
      obtain ⟨rfl, hAad, rfl, rfl⟩ := hc
      obtain rfl := Option.some.inj hAad
      exact ⟨Or.inr (Or.inr rfl), rfl⟩
    · exact absurd h (by simp)

/-- The second record of the envelope opens, and the object decodes. -/
theorem decodeObject_sample :
    decodeObject idealCloud false Crypto.key0.val sampleObject = .ok (lit "hi") := by
  have henv : sampleEnvelope = (Crypto.zeros12 ++ wrapSealed Crypto.key1) ++
      ((Crypto.zeros12 ++ wrapSealed Crypto.key0) ++ []) := by decide +kernel
  have hfirst : decryptAes idealCloud (Crypto.zeros12 ++ wrapSealed Crypto.key1) Crypto.key0.val
      none = .error (.jce .aeadBadTag) := by decide +kernel
  have hsecond : decryptAes idealCloud (Crypto.zeros12 ++ wrapSealed Crypto.key0) Crypto.key0.val
      none = .ok Crypto.key0.val := by decide +kernel
  have hfile : decryptAes idealCloud (Crypto.zeros12 ++ fileSealed) Crypto.key0.val
      (some sampleEnvelope) = .ok (lit "hi") := by decide +kernel
  have hopen : openEnvelope idealCloud false sampleEnvelope Crypto.key0.val =
      .ok Crypto.key0.val := by
    show tryRecords idealCloud Crypto.key0.val sampleEnvelope = _
    rw [henv, tryRecords_cons _ _ (by decide +kernel), hfirst]
    dsimp only
    rw [tryRecords_cons _ _ (by decide +kernel), hsecond]
  unfold sampleObject
  rw [decodeObject_encode _ _ _ (by decide +kernel)]
  refine mapError_eq_ok.mpr ?_
  unfold tryDecrypt
  rw [hopen]
  exact hfile

/-- The theorem for the sample: the object itself, and the object cut to 100 bytes. -/
theorem retrieve_only_uploaded_sample :
    (∃ iv envelope key, .file iv (lit "hi") envelope key ∈ sampleLog ∧
      encryptAndEncodeFile sampleSeal iv (lit "hi") envelope key = .ok sampleObject ∧
      Wraps idealCloud sampleLog false envelope Crypto.key0.val key) ∧
    ∃ e, retrieveFromCloud idealCloud false Crypto.key0.val sampleStorage
      [((lit "g", lit "f"), sampleObject.take 100)] (lit "g") (lit "f") = .error e := by
  have hget : sampleStorage.getObject [((lit "g", lit "f"), sampleObject)] (lit "g") (lit "f") =
      .ok sampleObject := by decide +kernel
  refine ⟨?_, ?_⟩
  · refine (retrieve_only_uploaded ideal_sample sampleStorage
      [((lit "g", lit "f"), sampleObject)] (lit "g") (lit "f") sampleObject hget
      (by decide +kernel) false Crypto.key0.val).1 (lit "hi") ?_
    rw [retrieveFromCloud_of_get _ _ _ hget, decodeObject_sample]
  · refine (retrieve_only_uploaded ideal_sample sampleStorage
      [((lit "g", lit "f"), sampleObject.take 100)] (lit "g") (lit "f") (sampleObject.take 100)
      (by decide +kernel) (by decide +kernel) false Crypto.key0.val).2 ?_
    rintro iv plain envelope key (h | h | h)
    · exact absurd h (by simp)
    · exact absurd h (by simp)
    · obtain ⟨rfl, rfl, rfl, rfl⟩ := Encryption.file.inj h
      decide +kernel

end ASky.RoundTrip

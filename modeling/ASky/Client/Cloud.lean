import ASky.Client.Envelope
import ASky.Lib.BigEndian

/-!
# Files in the cloud

Model of the storage half of `Client` (`client/Client.kt`) and of the encryption half of
`Encryption.cipherAes` (`client/Encryption.kt`). A stored object is

    writeInt(|envelope|) ++ envelope ++ IV ++ ciphertext ++ tag

where the envelope is both the wrapped key and the associated data of the ciphertext.

* `writeInt` and `readInt` are those of `DataOutputStream` and `DataInputStream`: four bytes, big
  endian, two's complement. A stream that ends before is an `EOFException`.
* `readNBytes` throws on a negative length and returns **fewer** bytes at the end of the stream.
* Sizes are `Int`s of the JVM: a buffer whose size overflows is refused (`ByteBuffer.allocate`,
  `ByteArrayOutputStream`), and an array holds at most `Int.MAX_VALUE` bytes.
* The `StorageApi` and the encryption of the JCE are parameters. Random IVs are arguments.

`decodeObject_eq_ok` inverts a successful retrieval: what each of the four layers must have read.
-/

namespace ASky.Client

open Lib

/-- The exceptions of the storage code: the end of the stream, a lack of memory, an exception of
the storage, and those of the envelope code. -/
inductive CloudError where
  | eof
  | outOfMemory
  | storage
  | kt (e : KtError)
  deriving DecidableEq

/-- `Int.MAX_VALUE`. -/
def intMax : Nat := 2 ^ 31 - 1

/-- `AES/GCM/NoPadding`, encryption to ciphertext and tag. -/
abbrev GcmSeal := (key iv : Bytes) → (associatedData : Option Bytes) → (data : Bytes) →
  Except JceError Bytes

/-- The calls of `StorageApi` that `Client` makes, over the state of the storage. -/
structure StorageApi (σ : Type) where
  createBucketIfNotExists : σ → (bucketName : Bytes) → Except CloudError σ
  storeObject : σ → (bucketName objectName content : Bytes) → Except CloudError σ
  getObject : σ → (bucketName objectName : Bytes) → Except CloudError Bytes

/-- `Encryption.encryptAes`: `cipherAes` in `ENCRYPT_MODE`, with the IV it drew. -/
def encryptAes (gcmSeal : GcmSeal) (iv data key : Bytes) (associatedData : Option Bytes) :
    Except KtError Bytes :=
  match gcmSeal key iv associatedData data with
  | .error e => .error (.jce e)
  | .ok processedData =>
    if intMax < cipherIvBytes + processedData.length then .error .illegalArgument
    else .ok (iv ++ processedData)

/-- `DataOutputStream.writeInt`. -/
def writeInt (v : BitVec 32) : Bytes := toBytesBE 4 v.toNat

/-- `DataInputStream.readInt`, and what remains of the stream. -/
def readInt (stream : Bytes) : Except CloudError (BitVec 32 × Bytes) :=
  if stream.length < 4 then .error .eof
  else .ok (BitVec.ofNat 32 (ofBytesBE (stream.take 4)), stream.drop 4)

/-- `InputStream.readNBytes(len)`, and what remains of the stream. -/
def readNBytes (stream : Bytes) (len : Int) : Except CloudError (Bytes × Bytes) :=
  if len < 0 then .error (.kt .illegalArgument)
  else .ok (stream.take len.toNat, stream.drop len.toNat)

/-- `InputStream.readAllBytes()`. -/
def readAllBytes (stream : Bytes) : Except CloudError Bytes :=
  if intMax < stream.length then .error .outOfMemory else .ok stream

/-- `encodeEnvelopeAndData`. -/
def encodeEnvelopeAndData (envelope data : Bytes) : Except CloudError Bytes :=
  let size := 4 + envelope.length + data.length
  if (BitVec.ofNat 32 size).toInt < 0 then .error (.kt .illegalArgument)
  else if intMax < size then .error .outOfMemory
  else .ok (writeInt (BitVec.ofNat 32 envelope.length) ++ envelope ++ data)

/-- `encryptAndEncodeFile`. -/
def encryptAndEncodeFile (gcmSeal : GcmSeal) (iv data envelope key : Bytes) :
    Except CloudError Bytes := do
  let encryptedData ← (encryptAes gcmSeal iv data key (some envelope)).mapError .kt
  encodeEnvelopeAndData envelope encryptedData

/-- `uploadToCloud`. -/
def uploadToCloud {σ : Type} (gcmSeal : GcmSeal) (storageClient : StorageApi σ) (iv : Bytes)
    (s : σ) (data envelope key groupName objectName : Bytes) : Except CloudError σ := do
  let s ← storageClient.createBucketIfNotExists s groupName
  let dataToStore ← encryptAndEncodeFile gcmSeal iv data envelope key
  storageClient.storeObject s groupName objectName dataToStore

/-- `tryDecrypt`. -/
def tryDecrypt (c : Crypto) (indexed : Bool) (userKey encryptedData envelope : Bytes) :
    Except KtError Bytes := do
  let decryptedKey ← openEnvelope c indexed envelope userKey
  decryptAes c encryptedData decryptedKey (some envelope)

/-- `retrieveFromCloud`, from the bytes of the object on. -/
def decodeObject (c : Crypto) (indexed : Bool) (userKey object : Bytes) :
    Except CloudError Bytes := do
  let (envelopeLength, stream) ← readInt object
  let (envelope, stream) ← readNBytes stream envelopeLength.toInt
  let encryptedData ← readAllBytes stream
  (tryDecrypt c indexed userKey encryptedData envelope).mapError .kt

/-- `retrieveFromCloud`. -/
def retrieveFromCloud {σ : Type} (c : Crypto) (indexed : Bool) (userKey : Bytes)
    (storageClient : StorageApi σ) (s : σ) (groupId filename : Bytes) :
    Except CloudError Bytes := do
  let object ← storageClient.getObject s groupId filename
  decodeObject c indexed userKey object

/-! ## Sequencing -/

theorem bind_eq_ok {ε α β : Type} {x : Except ε α} {f : α → Except ε β} {b : β} :
    (x >>= f) = .ok b ↔ ∃ a, x = .ok a ∧ f a = .ok b := by
  cases x with
  | ok a => exact ⟨fun h => ⟨a, rfl, h⟩, by rintro ⟨_, ⟨⟩, h⟩; exact h⟩
  | error e => exact ⟨fun h => absurd h (by simp [bind, Except.bind]), by rintro ⟨_, ⟨⟩, _⟩⟩

theorem mapError_eq_ok {ε ε' α : Type} {f : ε → ε'} {x : Except ε α} {a : α} :
    x.mapError f = .ok a ↔ x = .ok a := by
  cases x with
  | ok b => simp [Except.mapError]
  | error e => simp [Except.mapError]

/-- Fetching, then decoding. -/
theorem retrieveFromCloud_of_get {σ : Type} (c : Crypto) (indexed : Bool) (userKey : Bytes)
    {storageClient : StorageApi σ} {s : σ} {groupId filename object : Bytes}
    (h : storageClient.getObject s groupId filename = .ok object) :
    retrieveFromCloud c indexed userKey storageClient s groupId filename =
      decodeObject c indexed userKey object := by
  unfold retrieveFromCloud
  rw [h]
  rfl

/-! ## The container -/

theorem length_writeInt (v : BitVec 32) : (writeInt v).length = 4 := length_toBytesBE 4 _

/-- `readInt` takes off exactly what `writeInt` wrote. -/
theorem readInt_eq_ok {stream rest : Bytes} {v : BitVec 32} :
    readInt stream = .ok (v, rest) ↔ stream = writeInt v ++ rest := by
  have hlen := length_writeInt v
  unfold readInt
  constructor
  · intro h
    split at h
    · exact absurd h (by simp)
    · rename_i hfour
      obtain ⟨rfl, rfl⟩ := Prod.mk.inj (Except.ok.inj h)
      have htake : (stream.take 4).length = 4 := by rw [List.length_take]; omega
      have hlt : ofBytesBE (stream.take 4) < 2 ^ 32 := by
        have := ofBytesBE_lt (stream.take 4)
        rw [htake] at this
        exact this
      have hwrite : writeInt (BitVec.ofNat 32 (ofBytesBE (stream.take 4))) = stream.take 4 := by
        have hback := toBytesBE_ofBytesBE (stream.take 4)
        rw [htake] at hback
        unfold writeInt
        rw [BitVec.toNat_ofNat, Nat.mod_eq_of_lt hlt, hback]
      rw [hwrite, List.take_append_drop]
  · rintro rfl
    have hread : ofBytesBE (writeInt v) = v.toNat := ofBytesBE_toBytesBE v.isLt
    rw [if_neg (by rw [List.length_append, hlen]; omega), ← hlen, List.take_left, List.drop_left,
      hread, BitVec.ofNat_toNat]
    rfl

/-- `readNBytes` cuts the stream, at the length asked for or at its end. -/
theorem readNBytes_eq_ok {stream front rest : Bytes} {len : Int}
    (h : readNBytes stream len = .ok (front, rest)) :
    stream = front ++ rest ∧ 0 ≤ len ∧ (rest = [] ∨ front.length = len.toNat) := by
  unfold readNBytes at h
  split at h
  · exact absurd h (by simp)
  · rename_i hpos
    obtain ⟨rfl, rfl⟩ := Prod.mk.inj (Except.ok.inj h)
    refine ⟨(List.take_append_drop _ _).symm, by omega, ?_⟩
    rw [List.drop_eq_nil_iff, List.length_take]
    omega

theorem readAllBytes_eq_ok {stream data : Bytes} (h : readAllBytes stream = .ok data) :
    data = stream := by
  unfold readAllBytes at h
  split at h
  · exact absurd h (by simp)
  · exact (Except.ok.inj h).symm

/-- The IV is there when something was decrypted. -/
theorem length_of_decryptAes {c : Crypto} {data key plain : Bytes} {associatedData : Option Bytes}
    (h : decryptAes c data key associatedData = .ok plain) : cipherIvBytes ≤ data.length := by
  unfold decryptAes at h
  split at h
  · exact absurd h (by simp)
  · omega

theorem toInt_ofNat_of_le {n : Nat} (h : n ≤ intMax) : (BitVec.ofNat 32 n).toInt = n := by
  unfold intMax at h
  have hmod : (BitVec.ofNat 32 n).toNat = n := Nat.mod_eq_of_lt (by omega)
  rw [BitVec.toInt_eq_toNat_of_lt (by rw [hmod]; omega), hmod]

/-- What `encodeEnvelopeAndData` writes when the size fits. -/
theorem encodeEnvelopeAndData_of_le {envelope data : Bytes}
    (h : 4 + envelope.length + data.length ≤ intMax) :
    encodeEnvelopeAndData envelope data =
      .ok (writeInt (BitVec.ofNat 32 envelope.length) ++ envelope ++ data) := by
  unfold encodeEnvelopeAndData
  dsimp only
  rw [toInt_ofNat_of_le h, if_neg (by omega), if_neg (by omega)]

/-- The reader takes the container apart where the writer put it together. -/
theorem decodeObject_encode (c : Crypto) (indexed : Bool) (userKey : Bytes) {envelope data : Bytes}
    (h : 4 + envelope.length + data.length ≤ intMax) :
    decodeObject c indexed userKey
      (writeInt (BitVec.ofNat 32 envelope.length) ++ envelope ++ data) =
        (tryDecrypt c indexed userKey data envelope).mapError .kt := by
  have hn : readNBytes (envelope ++ data) envelope.length = .ok (envelope, data) := by
    unfold readNBytes
    rw [if_neg (by omega), Int.toNat_natCast, List.take_left, List.drop_left]
  have hall : readAllBytes data = .ok data := by
    unfold readAllBytes
    rw [if_neg (by omega)]
  unfold decodeObject
  rw [List.append_assoc, readInt_eq_ok.mpr rfl]
  show (readNBytes _ _ >>= _) = _
  rw [toInt_ofNat_of_le (by omega), hn]
  show (readAllBytes _ >>= _) = _
  rw [hall]
  rfl

/-- **What a successful retrieval has read.** A short read leaves no data to decrypt, so the
length prefix is the size of the envelope: the object is an encoded container. -/
theorem decodeObject_eq_ok {c : Crypto} {indexed : Bool} {userKey object plain : Bytes}
    (h : decodeObject c indexed userKey object = .ok plain) :
    ∃ envelope data key,
      object = writeInt (BitVec.ofNat 32 envelope.length) ++ envelope ++ data ∧
      openEnvelope c indexed envelope userKey = .ok key ∧
      decryptAes c data key (some envelope) = .ok plain := by
  unfold decodeObject at h
  obtain ⟨⟨len, stream⟩, hint, h⟩ := bind_eq_ok.mp h
  obtain ⟨⟨envelope, data⟩, hn, h⟩ := bind_eq_ok.mp h
  obtain ⟨data', hall, h⟩ := bind_eq_ok.mp h
  unfold tryDecrypt at h
  obtain ⟨key, hopen, hdec⟩ := bind_eq_ok.mp (mapError_eq_ok.mp h)
  have hlong := length_of_decryptAes hdec
  have hdata : data' = data := readAllBytes_eq_ok hall
  subst hdata
  obtain ⟨rfl, hpos, hfull⟩ := readNBytes_eq_ok hn
  have hfull : envelope.length = len.toInt.toNat := by
    rcases hfull with rfl | hfull
    · exact absurd hlong (by decide)
    · exact hfull
  have hlen : BitVec.ofNat 32 envelope.length = len := by
    have hnat := BitVec.toInt_eq_toNat_of_lt (BitVec.toInt_pos_iff.mp hpos)
    rw [hfull, hnat, Int.toNat_natCast, BitVec.ofNat_toNat]
    rfl
  refine ⟨envelope, data', key, ?_, hopen, hdec⟩
  rw [hlen, List.append_assoc]
  exact readInt_eq_ok.mp hint

end ASky.Client

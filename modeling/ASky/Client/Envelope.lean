import ASky.Crypto
import ASky.Lib.Records

/-!
# The client's envelopes

Model of `Envelope.open` and `IndexedEnvelope.open` (`client/Envelope.kt`) and of the decryption
half of `Encryption.cipherAes` (`client/Encryption.kt`). An exception is an `Except.error`.

* `bufferGet` is `position(p)` followed by `get(dst)` on a `ByteBuffer`: a position past the limit
  is an `IllegalArgumentException`, too few bytes left a `BufferUnderflowException`.
* `compareTo` is the operator on `ByteArray`: unsigned bytes, the first difference decides. It
  indexes the right operand up to the size of the left one; the size check is an assertion.
* `tryRecords` is the `while` loop of the plain envelope: one trial decryption for each record.
  Only an `AEADBadTagException` makes it go on. `tryRecords_flatten` reads it as a search through
  the list of records.
* `search` is the `while` loop of the indexed one, with its bounds `left` and `right`. It moves one
  bound by **one** per probe (`left++`, `right--`), not past the probed index. `search_spec` is its
  loop invariant:
  on strictly sorted records it finds the hash it looks for as long as no record with that hash
  lies outside `[left, right]`. `Int` is unbounded here: every value the loop computes lies
  between `-1` and the size of the envelope.
-/

namespace ASky.Client

open Lib

/-- The exceptions of the client code. -/
inductive KtError where
  | indexOutOfBounds
  | illegalArgument
  | bufferUnderflow
  | jce (e : JceError)
  | userKeyNotInEnvelope
  deriving DecidableEq

/-- `ENCRYPTED_KEY_BYTES`. -/
def encryptedKeyBytes : Nat := cipherIvBytes + cipherKeyBytes + cipherTagBytes

/-- `NONCE_BYTES`. -/
def nonceBytes : Nat := 12

/-- `HASHED_INDEX_BYTES`. -/
def hashedIndexBytes : Nat := 28

/-- `INDEXED_ENCRYPTED_KEY_BYTES`. -/
def indexedEncryptedKeyBytes : Nat := hashedIndexBytes + encryptedKeyBytes

/-- `Encryption.decryptAes`: `cipherAes` in `DECRYPT_MODE`. The IV is read from the front of the
data, the rest goes to the cipher. -/
def decryptAes (c : Crypto) (data key : Bytes) (associatedData : Option Bytes) :
    Except KtError Bytes :=
  if data.length < cipherIvBytes then .error .bufferUnderflow
  else
    match c.gcmOpen key (data.take cipherIvBytes) associatedData (data.drop cipherIvBytes) with
    | .ok plain => .ok plain
    | .error e => .error (.jce e)

/-- The loop of `Envelope.open`, with `remaining` the bytes of the buffer not read yet. -/
def tryRecords (c : Crypto) (userKey remaining : Bytes) : Except KtError Bytes :=
  if remaining.length = 0 then .error .userKeyNotInEnvelope
  else if remaining.length < encryptedKeyBytes then .error .bufferUnderflow
  else
    match decryptAes c (remaining.take encryptedKeyBytes) userKey none with
    | .ok plain => .ok plain
    | .error (.jce .aeadBadTag) => tryRecords c userKey (remaining.drop encryptedKeyBytes)
    | .error e => .error e
termination_by remaining.length
decreasing_by
  rw [List.length_drop]
  have : 0 < encryptedKeyBytes := by decide
  omega

/-- `Envelope(envelope).open(userKey)`. -/
def Envelope.open (c : Crypto) (envelope userKey : Bytes) : Except KtError Bytes :=
  tryRecords c userKey envelope

/-- `buffer.position(pos)`, then `buffer.get(ByteArray(n))`. -/
def bufferGet (buffer : Bytes) (pos : Int) (n : Nat) : Except KtError Bytes :=
  if pos < 0 ∨ (buffer.length : Int) < pos then .error .illegalArgument
  else if buffer.length < pos.toNat + n then .error .bufferUnderflow
  else .ok ((buffer.drop pos.toNat).take n)

/-- `ByteArray.compareTo`. -/
def compareTo : Bytes → Bytes → Except KtError Ordering
  | [], _ => .ok .eq
  | _ :: _, [] => .error .indexOutOfBounds
  | a :: as, b :: bs =>
    match compare a b with
    | .eq => compareTo as bs
    | o => .ok o

/-- The search loop of `IndexedEnvelope.open`, from the bounds `left` and `right`. -/
def search (c : Crypto) (buffer hashToFind userKey : Bytes) (left right : Int) :
    Except KtError Bytes :=
  if left ≤ right then
    let currentIndex := left + (right - left) / 2
    let pos := currentIndex * indexedEncryptedKeyBytes
    match bufferGet buffer pos hashedIndexBytes with
    | .error e => .error e
    | .ok hashedIndex =>
      if hashedIndex = hashToFind then
        match bufferGet buffer (pos + hashedIndexBytes) encryptedKeyBytes with
        | .error e => .error e
        | .ok encryptedKey => decryptAes c encryptedKey userKey none
      else
        match compareTo hashedIndex hashToFind with
        | .error e => .error e
        | .ok .lt => search c buffer hashToFind userKey (left + 1) right
        | .ok _ => search c buffer hashToFind userKey left (right - 1)
  else .error .userKeyNotInEnvelope
termination_by (right + 1 - left).toNat

/-- `ByteArray(NONCE_BYTES + CIPHER_KEY_BYTES)` with the nonce and the user key copied into it. -/
def digestInput (envelope userKey : Bytes) : Except KtError Bytes :=
  if envelope.length < nonceBytes ∨ cipherKeyBytes < userKey.length then .error .indexOutOfBounds
  else .ok (envelope.take nonceBytes ++ userKey ++
    List.replicate (cipherKeyBytes - userKey.length) 0)

/-- `IndexedEnvelope(envelope).open(userKey)`. -/
def IndexedEnvelope.open (c : Crypto) (envelope userKey : Bytes) : Except KtError Bytes :=
  match digestInput envelope userKey with
  | .error e => .error e
  | .ok input =>
    let buffer := envelope.drop nonceBytes
    search c buffer (c.sha224 input) userKey 0
      ((buffer.length : Int) / indexedEncryptedKeyBytes - 1)

/-- `envelopeProvider(envelope).open(userKey)`: the provider builds an `IndexedEnvelope` or an
`Envelope`. -/
def openEnvelope (c : Crypto) (indexed : Bool) (envelope userKey : Bytes) :
    Except KtError Bytes :=
  if indexed then IndexedEnvelope.open c envelope userKey else Envelope.open c envelope userKey

/-! ## Trial decryption -/

/-- The loop over whole records tries them in turn, until one decrypts. -/
theorem tryRecords_cons (c : Crypto) (userKey : Bytes) {record : Bytes}
    (hr : record.length = encryptedKeyBytes) (rest : Bytes) :
    tryRecords c userKey (record ++ rest) =
      match decryptAes c record userKey none with
      | .ok plain => .ok plain
      | .error (.jce .aeadBadTag) => tryRecords c userKey rest
      | .error e => .error e := by
  have hlen : (record ++ rest).length = encryptedKeyBytes + rest.length := by
    rw [List.length_append, hr]
  have hpos : 0 < encryptedKeyBytes := by decide
  rw [tryRecords, if_neg (by omega), if_neg (by omega), ← hr, List.take_left, List.drop_left]

/-- **Records that only fail by their tag are passed over**: the loop over a list of records in
which each one either decrypts to `plain` or has a bad tag. -/
theorem tryRecords_flatten (c : Crypto) {userKey : Bytes} (plain : Bytes) {records : List Bytes}
    (hlen : ∀ r ∈ records, r.length = encryptedKeyBytes)
    (hdec : ∀ r ∈ records, decryptAes c r userKey none = .ok plain ∨
      decryptAes c r userKey none = .error (.jce .aeadBadTag)) :
    tryRecords c userKey records.flatten =
      if ∃ r ∈ records, decryptAes c r userKey none = .ok plain then .ok plain
      else .error .userKeyNotInEnvelope := by
  induction records with
  | nil =>
    rw [List.flatten_nil, tryRecords, if_pos List.length_nil, if_neg (by simp)]
  | cons r rest ih =>
    have hrest := ih (fun x hx => hlen x (List.mem_cons_of_mem r hx))
      fun x hx => hdec x (List.mem_cons_of_mem r hx)
    rw [List.flatten_cons, tryRecords_cons c userKey (hlen r List.mem_cons_self)]
    rcases hdec r List.mem_cons_self with hok | hbad
    · rw [hok, if_pos ⟨r, List.mem_cons_self, hok⟩]
    · rw [hbad]
      dsimp only
      rw [hrest]
      congr 1
      refine propext ⟨fun ⟨x, hx, hd⟩ => ⟨x, List.mem_cons_of_mem r hx, hd⟩, ?_⟩
      rintro ⟨x, hx, hd⟩
      rcases List.mem_cons.mp hx with rfl | hx
      · rw [hbad] at hd
        exact absurd hd (by simp)
      · exact ⟨x, hx, hd⟩

/-! ## What an opened envelope has read -/

/-- The encrypted key of record `i` of an envelope, where its format has it. -/
def recordAt (indexed : Bool) (envelope : Bytes) (i : Nat) : Bytes :=
  if indexed then
    (envelope.drop (nonceBytes + (i * indexedEncryptedKeyBytes + hashedIndexBytes))).take
      encryptedKeyBytes
  else (envelope.drop (i * encryptedKeyBytes)).take encryptedKeyBytes

theorem bufferGet_eq_ok {buffer bytes : Bytes} {pos : Int} {n : Nat}
    (h : bufferGet buffer pos n = .ok bytes) :
    0 ≤ pos ∧ bytes = (buffer.drop pos.toNat).take n ∧ bytes.length = n := by
  unfold bufferGet at h
  split at h
  · exact absurd h (by simp)
  · split at h
    · exact absurd h (by simp)
    · obtain rfl := Except.ok.inj h
      refine ⟨by omega, rfl, ?_⟩
      rw [List.length_take, List.length_drop]
      omega

/-- The loop of the plain envelope returns what one of the records decrypts to. -/
theorem tryRecords_eq_ok {c : Crypto} {userKey remaining plain : Bytes}
    (h : tryRecords c userKey remaining = .ok plain) :
    ∃ i, ((remaining.drop (i * encryptedKeyBytes)).take encryptedKeyBytes).length =
        encryptedKeyBytes ∧
      decryptAes c ((remaining.drop (i * encryptedKeyBytes)).take encryptedKeyBytes) userKey none =
        .ok plain := by
  fun_induction tryRecords c userKey remaining with
  | case1 remaining h0 => exact absurd h (by simp)
  | case2 remaining h0 hshort => exact absurd h (by simp)
  | case3 remaining h0 hlong key hdec =>
    refine ⟨0, ?_, ?_⟩
    · rw [Nat.zero_mul, List.drop_zero, List.length_take]
      omega
    · rw [Nat.zero_mul, List.drop_zero, hdec, h]
  | case4 remaining h0 hlong hdec ih =>
    obtain ⟨i, hi⟩ := ih h
    refine ⟨i + 1, ?_⟩
    rw [List.drop_drop, Nat.add_comm, ← Nat.succ_mul] at hi
    exact hi
  | case5 remaining h0 hlong e hdec => exact absurd h (by simp)

/-- So does the search in the indexed one. -/
theorem search_eq_ok {c : Crypto} {buffer hash userKey plain : Bytes} {left right : Int}
    (h : search c buffer hash userKey left right = .ok plain) :
    ∃ i, ((buffer.drop (i * indexedEncryptedKeyBytes + hashedIndexBytes)).take
        encryptedKeyBytes).length = encryptedKeyBytes ∧
      decryptAes c ((buffer.drop (i * indexedEncryptedKeyBytes + hashedIndexBytes)).take
        encryptedKeyBytes) userKey none = .ok plain := by
  fun_induction search c buffer hash userKey left right with
  | case1 left right hle cur pos e hget => exact absurd h (by simp)
  | case2 left right hle cur pos e hget hhash => exact absurd h (by simp)
  | case3 left right hle cur pos encryptedKey hget hhash =>
    -- the hash was read at `pos`, so `pos` is not negative and neither is the index
    have hpos : 0 ≤ cur * (88 : Nat) := (bufferGet_eq_ok hhash).1
    have hindex : (cur * (88 : Nat) + (28 : Nat)).toNat = cur.toNat * 88 + 28 := by omega
    have hcur : (pos + hashedIndexBytes).toNat =
        cur.toNat * indexedEncryptedKeyBytes + hashedIndexBytes := hindex
    obtain ⟨-, rfl, hlen⟩ := bufferGet_eq_ok hget
    rw [hcur] at h hlen
    exact ⟨cur.toNat, hlen, h⟩
  | case4 left right hle cur pos hashed hget hne e hcmp => exact absurd h (by simp)
  | case5 left right hle cur pos hashed hget hne hcmp ih => exact ih h
  | case6 left right hle cur pos hashed hget hne o ho hcmp ih => exact ih h
  | case7 left right hle => exact absurd h (by simp)

/-- **An opened envelope has a record that decrypts to the result under the user's key.** -/
theorem openEnvelope_eq_ok {c : Crypto} {indexed : Bool} {envelope userKey key : Bytes}
    (h : openEnvelope c indexed envelope userKey = .ok key) :
    ∃ i, (recordAt indexed envelope i).length = encryptedKeyBytes ∧
      decryptAes c (recordAt indexed envelope i) userKey none = .ok key := by
  unfold openEnvelope at h
  unfold recordAt
  cases indexed with
  | false => exact tryRecords_eq_ok h
  | true =>
    rw [if_pos rfl] at h
    unfold IndexedEnvelope.open at h
    split at h
    · exact absurd h (by simp)
    · obtain ⟨i, hi⟩ := search_eq_ok h
      rw [List.drop_drop] at hi
      exact ⟨i, hi⟩

/-! ## The comparison -/

/-- On operands of one size `compareTo` is the byte order of `std::string`. -/
theorem compareTo_eq : ∀ {a b : Bytes}, a.length = b.length → compareTo a b = .ok (compare a b)
  | [], [], _ => rfl
  | [], _ :: _, h => absurd h (by simp)
  | _ :: _, [], h => absurd h (by simp)
  | x :: xs, y :: ys, h => by
    have hl : xs.length = ys.length := by simpa using h
    rw [compareTo, List.compare_cons_cons]
    cases hxy : compare x y with
    | lt => rfl
    | eq => rw [compareTo_eq hl]; rfl
    | gt => rfl

/-! ## Reading a record -/

/-- The records of an indexed envelope: hash and encrypted key, of the sizes the client expects,
strictly sorted by hash. -/
structure Table where
  entries : List (Bytes × Bytes)
  hash_length : ∀ r ∈ entries, r.1.length = hashedIndexBytes
  key_length : ∀ r ∈ entries, r.2.length = encryptedKeyBytes
  sorted : entries.Pairwise fun a b => compare a.1 b.1 = .lt

namespace Table

/-- The records as the server writes them. -/
def bytes (t : Table) : Bytes := (t.entries.map fun r => r.1 ++ r.2).flatten

theorem record_length (t : Table) :
    ∀ b ∈ t.entries.map (fun r => r.1 ++ r.2), b.length = indexedEncryptedKeyBytes := by
  intro b hb
  obtain ⟨r, hr, rfl⟩ := List.mem_map.mp hb
  rw [List.length_append, t.hash_length r hr, t.key_length r hr]
  rfl

theorem length_bytes (t : Table) :
    t.bytes.length = t.entries.length * indexedEncryptedKeyBytes := by
  unfold bytes
  rw [length_flatten t.record_length, List.length_map]

/-- Reading inside record `i`, at a position the loop computes. -/
theorem bufferGet_record (t : Table) {i o k : Nat} (hi : i < t.entries.length)
    (hk : o + k ≤ indexedEncryptedKeyBytes) :
    bufferGet t.bytes ((i : Int) * indexedEncryptedKeyBytes + o) k =
      .ok (((t.entries[i].1 ++ t.entries[i].2).drop o).take k) := by
  have hlen : (i + 1) * indexedEncryptedKeyBytes ≤ t.bytes.length := by
    rw [t.length_bytes]
    exact Nat.mul_le_mul_right _ hi
  rw [Nat.add_mul, Nat.one_mul] at hlen
  have hpos : ((i : Int) * indexedEncryptedKeyBytes + o) =
      ((i * indexedEncryptedKeyBytes + o : Nat) : Int) := by push_cast; rfl
  have hread := take_drop_flatten t.record_length (i := i) (by simpa using hi) hk
  unfold bufferGet
  rw [hpos, if_neg (by omega), Int.toNat_natCast, if_neg (by omega)]
  rw [List.getElem_map] at hread
  exact congrArg Except.ok hread

theorem bufferGet_hash (t : Table) {i : Nat} (hi : i < t.entries.length) :
    bufferGet t.bytes ((i : Int) * indexedEncryptedKeyBytes) hashedIndexBytes =
      .ok t.entries[i].1 := by
  have h := t.bufferGet_record (o := 0) (k := hashedIndexBytes) hi
    (by simp [indexedEncryptedKeyBytes])
  have hh := t.hash_length _ (List.getElem_mem hi)
  rw [List.drop_zero, ← hh, List.take_left, hh] at h
  simpa using h

theorem bufferGet_key (t : Table) {i : Nat} (hi : i < t.entries.length) :
    bufferGet t.bytes ((i : Int) * indexedEncryptedKeyBytes + hashedIndexBytes)
      encryptedKeyBytes = .ok t.entries[i].2 := by
  have hh := t.hash_length _ (List.getElem_mem hi)
  have hk := t.key_length _ (List.getElem_mem hi)
  rw [t.bufferGet_record hi (Nat.le_refl _), ← hh, List.drop_left, ← hk, List.take_length]

/-! ## The loop invariant -/

/-- A record before another one has the smaller hash. -/
theorem compare_of_lt (t : Table) {i j : Nat} (hi : i < t.entries.length)
    (hj : j < t.entries.length) (h : i < j) : compare t.entries[i].1 t.entries[j].1 = .lt :=
  List.pairwise_iff_getElem.mp t.sorted i j hi hj h

/-- Two records with one hash are the same record. -/
theorem index_unique (t : Table) {i j : Nat} (hi : i < t.entries.length)
    (hj : j < t.entries.length) (h : t.entries[i].1 = t.entries[j].1) : i = j := by
  have hself : compare t.entries[j].1 t.entries[j].1 = .eq := Std.ReflCmp.compare_self
  rcases Nat.lt_trichotomy i j with hlt | heq | hgt
  · have := t.compare_of_lt hi hj hlt
    rw [h, hself] at this
    exact absurd this (by simp)
  · exact heq
  · have := t.compare_of_lt hj hi hgt
    rw [h, hself] at this
    exact absurd this (by simp)

/-- A probe below the sought hash lies before its record. -/
theorem lt_index_of_lt (t : Table) {i j : Nat} (hi : i < t.entries.length)
    (hj : j < t.entries.length) (h : compare t.entries[i].1 t.entries[j].1 = .lt) : i < j := by
  rcases Nat.lt_trichotomy i j with hlt | heq | hgt
  · exact hlt
  · subst heq
    exact absurd (Std.ReflCmp.compare_self.symm.trans h) (by simp)
  · have hswap := Std.OrientedCmp.gt_of_lt (t.compare_of_lt hj hi hgt)
    exact absurd (hswap.symm.trans h) (by simp)

/-- **The search finds what is there.** From bounds inside the table, with every record of the
sought hash between them, the loop decrypts the record with that hash, or reports that there is
none. Moving a bound by one keeps the invariant: the record it passes is not the one sought. -/
theorem search_spec (c : Crypto) (t : Table) (userKey : Bytes) {hash : Bytes}
    (hh : hash.length = hashedIndexBytes) (left right : Int) (hl : 0 ≤ left)
    (hr : right < t.entries.length)
    (hwin : ∀ (i : Nat) (hi : i < t.entries.length), t.entries[i].1 = hash →
      left ≤ i ∧ (i : Int) ≤ right) :
    (∀ (i : Nat) (hi : i < t.entries.length), t.entries[i].1 = hash →
      search c t.bytes hash userKey left right = decryptAes c t.entries[i].2 userKey none) ∧
    ((∀ (i : Nat) (hi : i < t.entries.length), t.entries[i].1 ≠ hash) →
      search c t.bytes hash userKey left right = .error .userKeyNotInEnvelope) := by
  induction hn : (right + 1 - left).toNat using Nat.strong_induction_on generalizing left right with
  | _ n ih =>
    rw [search]
    by_cases hle : left ≤ right
    · obtain ⟨i, hcur⟩ := Int.eq_ofNat_of_zero_le (show 0 ≤ left + (right - left) / 2 by omega)
      have hi : i < t.entries.length := by omega
      rw [if_pos hle]
      simp only [hcur]
      rw [t.bufferGet_hash hi]
      simp only
      by_cases heq : t.entries[i].1 = hash
      · rw [if_pos heq, t.bufferGet_key hi]
        refine ⟨fun j hj hjh => ?_, fun hno => absurd heq (hno i hi)⟩
        have hij : i = j := t.index_unique hi hj (heq.trans hjh.symm)
        subst hij
        rfl
      · rw [if_neg heq, compareTo_eq ((t.hash_length _ (List.getElem_mem hi)).trans hh.symm)]
        -- the record sought lies on the far side of the probe, so past the bound that moves
        cases hc : compare t.entries[i].1 hash with
        | lt =>
          refine ih _ ?_ (left + 1) right (by omega) hr ?_ rfl
          · omega
          · intro j hj hjh
            have hij := t.lt_index_of_lt hi hj (hjh ▸ hc)
            exact ⟨by omega, (hwin j hj hjh).2⟩
        | eq => exact absurd (Std.LawfulEqCmp.compare_eq_iff_eq.mp hc) heq
        | gt =>
          refine ih _ ?_ left (right - 1) hl (by omega) ?_ rfl
          · omega
          · intro j hj hjh
            have hji := t.lt_index_of_lt hj hi (hjh ▸ Std.OrientedCmp.lt_of_gt hc)
            exact ⟨(hwin j hj hjh).1, by omega⟩
    · rw [if_neg hle]
      refine ⟨fun j hj hjh => ?_, fun _ => rfl⟩
      have := hwin j hj hjh
      omega

end Table

end ASky.Client

import ASky.Client.Cloud

/-!
# The search loop of an indexed envelope, probe by probe

`IndexedEnvelope.open` (`client/Envelope.kt`) once more, with everything `search` abstracts from:
`Int`s of 32 bits that wrap around (`int32`), the position of the `ByteBuffer`, and a log of the
probes. The loop takes fuel, since with wrapping bounds its termination is a result and not a
matter of the definition. Assertions are off.

The envelope is any array the JVM can hold: its records need not be sorted, and bytes may follow
the last complete one.

* `iteration_eq` is one iteration from bounds inside the complete records.
* **`run_eq_open`**: with fuel for one iteration more than there are records, the machine-level
  loop returns what the unbounded `IndexedEnvelope.open` returns.
* **`run_safe`**: every probe is a complete record, no product wraps, no exception of the buffer is
  thrown, and what is returned is the decryption of a record that carries the sought hash.
* **`narrows_iff`**: a probe moves a bound by one instead of past the probed index, so on sorted
  records the probed index leaves the window only in the cases listed there.
-/

namespace ASky.Client

open Lib

/-- `java.nio.ByteBuffer`, with its limit at the end of the bytes. -/
structure ByteBuffer where
  bytes : Bytes
  pos : Nat

namespace ByteBuffer

/-- `ByteBuffer.wrap(array)`. -/
def wrap (array : Bytes) : ByteBuffer := ⟨array, 0⟩

/-- `buffer.position(newPosition)`. -/
def position (b : ByteBuffer) (newPosition : Int) : Except KtError ByteBuffer :=
  if newPosition < 0 ∨ (b.bytes.length : Int) < newPosition then .error .illegalArgument
  else .ok { b with pos := newPosition.toNat }

/-- `buffer.remaining()`. -/
def remaining (b : ByteBuffer) : Nat := b.bytes.length - b.pos

/-- `buffer.slice()`. -/
def slice (b : ByteBuffer) : ByteBuffer := ⟨b.bytes.drop b.pos, 0⟩

/-- `buffer.get(ByteArray(n))`. -/
def get (b : ByteBuffer) (n : Nat) : Except KtError (Bytes × ByteBuffer) :=
  if b.remaining < n then .error .bufferUnderflow
  else .ok ((b.bytes.drop b.pos).take n, { b with pos := b.pos + n })

end ByteBuffer

/-- One iteration: the index, the position asked for, whether the hash was the one sought, and the
bounds after it. -/
structure Probe where
  index : Int
  position : Int
  found : Bool
  left : Int
  right : Int
  deriving DecidableEq

/-- How an iteration ends: the function returns or throws, or the loop goes on. -/
inductive Iteration where
  | exits (result : Except KtError Bytes) (probes : List Probe)
  | goesOn (probe : Probe) (envelopeBuffer : ByteBuffer) (left right : Int)

/-- The condition and the body of the `while` loop of `IndexedEnvelope.open`. -/
def iteration (c : Crypto) (hashToFind userKey : Bytes) (envelopeBuffer : ByteBuffer)
    (left right : Int) : Iteration :=
  if left ≤ right then
    let currentIndex := int32 (left + (int32 (right - left)).tdiv 2)
    let position := int32 (currentIndex * indexedEncryptedKeyBytes)
    let probe := Probe.mk currentIndex position
    match envelopeBuffer.position position with
    | .error e => .exits (.error e) [probe false left right]
    | .ok envelopeBuffer =>
      match envelopeBuffer.get hashedIndexBytes with
      | .error e => .exits (.error e) [probe false left right]
      | .ok (hashedIndex, envelopeBuffer) =>
        if hashedIndex = hashToFind then
          match envelopeBuffer.get encryptedKeyBytes with
          | .error e => .exits (.error e) [probe true left right]
          | .ok (encryptedKey, _) =>
            .exits (decryptAes c encryptedKey userKey none) [probe true left right]
        else
          match compareTo hashedIndex hashToFind with
          | .error e => .exits (.error e) [probe false left right]
          | .ok .lt =>
            let left := int32 (left + 1)
            .goesOn (probe false left right) envelopeBuffer left right
          | .ok _ =>
            let right := int32 (right - 1)
            .goesOn (probe false left right) envelopeBuffer left right
  else .exits (.error .userKeyNotInEnvelope) []

/-- The loop: what it returns, and its probes. -/
def searchLoop (c : Crypto) (hashToFind userKey : Bytes) :
    (fuel : Nat) → ByteBuffer → (left right : Int) → Option (Except KtError Bytes × List Probe)
  | 0, _, _, _ => none
  | fuel + 1, envelopeBuffer, left, right =>
    match iteration c hashToFind userKey envelopeBuffer left right with
    | .exits result probes => some (result, probes)
    | .goesOn probe envelopeBuffer left right =>
      (searchLoop c hashToFind userKey fuel envelopeBuffer left right).map fun (result, probes) =>
        (result, probe :: probes)

/-- `IndexedEnvelope(envelope).open(userKey)`: what it returns, and its probes. -/
def IndexedEnvelope.run (c : Crypto) (fuel : Nat) (envelope userKey : Bytes) :
    Option (Except KtError Bytes × List Probe) :=
  match digestInput envelope userKey with
  | .error e => some (.error e, [])
  | .ok input =>
    match (ByteBuffer.wrap envelope).position nonceBytes with
    | .error e => some (.error e, [])
    | .ok buffer =>
      let envelopeBuffer := buffer.slice
      searchLoop c (c.sha224 input) userKey fuel envelopeBuffer 0
        (int32 ((envelopeBuffer.remaining : Int).tdiv indexedEncryptedKeyBytes - 1))

/-- The number of complete records after the nonce. -/
def recordCount (envelope : Bytes) : Nat :=
  (envelope.length - nonceBytes) / indexedEncryptedKeyBytes

/-- The 28 bytes at the start of record `i` of the buffer. -/
def hashAt (buffer : Bytes) (i : Nat) : Bytes :=
  (buffer.drop (i * indexedEncryptedKeyBytes)).take hashedIndexBytes

/-- The 60 bytes that follow them. -/
def keyAt (buffer : Bytes) (i : Nat) : Bytes :=
  (buffer.drop (i * indexedEncryptedKeyBytes + hashedIndexBytes)).take encryptedKeyBytes

/-! ## Reading a record -/

section Records

variable {buffer : Bytes} {i : Nat}

theorem record_le (hi : i < buffer.length / indexedEncryptedKeyBytes) :
    i * indexedEncryptedKeyBytes + hashedIndexBytes + encryptedKeyBytes ≤ buffer.length := by
  have hmul : (i + 1) * indexedEncryptedKeyBytes ≤ buffer.length :=
    (Nat.mul_le_mul_right _ hi).trans (Nat.div_mul_le_self _ _)
  rw [Nat.add_mul, Nat.one_mul] at hmul
  exact hmul

theorem length_hashAt (hi : i < buffer.length / indexedEncryptedKeyBytes) :
    (hashAt buffer i).length = hashedIndexBytes := by
  have := record_le hi
  rw [hashAt, List.length_take, List.length_drop]
  omega

theorem length_keyAt (hi : i < buffer.length / indexedEncryptedKeyBytes) :
    (keyAt buffer i).length = encryptedKeyBytes := by
  have := record_le hi
  rw [keyAt, List.length_take, List.length_drop]
  omega

theorem position_record (b : ByteBuffer) (hi : i < b.bytes.length / indexedEncryptedKeyBytes) :
    b.position ((i : Int) * indexedEncryptedKeyBytes) =
      .ok ⟨b.bytes, i * indexedEncryptedKeyBytes⟩ := by
  have hle := record_le hi
  have hpos : (i : Int) * indexedEncryptedKeyBytes = ((i * indexedEncryptedKeyBytes : Nat) : Int) :=
    by push_cast; rfl
  unfold ByteBuffer.position
  rw [hpos, if_neg (by omega), Int.toNat_natCast]

theorem get_hash (hi : i < buffer.length / indexedEncryptedKeyBytes) :
    (ByteBuffer.mk buffer (i * indexedEncryptedKeyBytes)).get hashedIndexBytes =
      .ok (hashAt buffer i, ⟨buffer, i * indexedEncryptedKeyBytes + hashedIndexBytes⟩) := by
  have hle := record_le hi
  unfold ByteBuffer.get ByteBuffer.remaining
  rw [if_neg (by dsimp only; omega)]
  rfl

theorem get_key (hi : i < buffer.length / indexedEncryptedKeyBytes) :
    (ByteBuffer.mk buffer (i * indexedEncryptedKeyBytes + hashedIndexBytes)).get
      encryptedKeyBytes = .ok (keyAt buffer i,
        ⟨buffer, i * indexedEncryptedKeyBytes + hashedIndexBytes + encryptedKeyBytes⟩) := by
  have hle := record_le hi
  unfold ByteBuffer.get ByteBuffer.remaining
  rw [if_neg (by dsimp only; omega)]
  rfl

/-- `bufferGet` is `position` and `get`. -/
theorem bufferGet_eq (b : ByteBuffer) (pos : Int) (n : Nat) :
    bufferGet b.bytes pos n =
      (b.position pos).bind fun b => (b.get n).map Prod.fst := by
  unfold bufferGet ByteBuffer.position
  split
  · rfl
  · unfold ByteBuffer.get ByteBuffer.remaining Except.bind
    dsimp only
    by_cases hlt : b.bytes.length < pos.toNat + n
    · rw [if_pos hlt, if_pos (by omega)]
      rfl
    · rw [if_neg hlt, if_neg (by omega)]
      rfl

theorem bufferGet_hashAt (hi : i < buffer.length / indexedEncryptedKeyBytes) :
    bufferGet buffer ((i : Int) * indexedEncryptedKeyBytes) hashedIndexBytes =
      .ok (hashAt buffer i) := by
  rw [bufferGet_eq ⟨buffer, 0⟩, position_record ⟨buffer, 0⟩ hi, Except.bind, get_hash hi]
  rfl

theorem bufferGet_keyAt (hi : i < buffer.length / indexedEncryptedKeyBytes) :
    bufferGet buffer ((i : Int) * indexedEncryptedKeyBytes + hashedIndexBytes) encryptedKeyBytes =
      .ok (keyAt buffer i) := by
  have hle := record_le hi
  have hpos : (i : Int) * indexedEncryptedKeyBytes + hashedIndexBytes =
      ((i * indexedEncryptedKeyBytes + hashedIndexBytes : Nat) : Int) := by push_cast; rfl
  unfold bufferGet
  rw [hpos, if_neg (by omega), Int.toNat_natCast, if_neg (by omega)]
  rfl

end Records

/-! ## One iteration -/

/-- The index an iteration with the bounds `left` and `right` probes. -/
def middle (left right : Int) : Nat := (left + (right - left) / 2).toNat

section Loop

variable (c : Crypto) {hashToFind : Bytes} (userKey : Bytes) {left right : Int}

theorem middle_eq (hl : 0 ≤ left) (hle : left ≤ right) :
    (middle left right : Int) = left + (right - left) / 2 :=
  Int.toNat_of_nonneg (by omega)

/-- Inside the complete records of an array no computation of the loop wraps. -/
theorem int32_middle {size : Nat} (hl : 0 ≤ left) (hle : left ≤ right)
    (hr : right < (size / indexedEncryptedKeyBytes : Nat)) (hmax : size ≤ intMax) :
    int32 (left + (int32 (right - left)).tdiv 2) = middle left right ∧
      int32 (middle left right * indexedEncryptedKeyBytes) =
        middle left right * indexedEncryptedKeyBytes ∧
      int32 (left + 1) = left + 1 ∧ int32 (right - 1) = right - 1 := by
  have hmid := middle_eq hl hle
  have h88 : indexedEncryptedKeyBytes = 88 := rfl
  have hmax' : size ≤ 2 ^ 31 - 1 := hmax
  rw [h88] at hr ⊢
  have hdiff : int32 (right - left) = right - left := int32_eq (by omega) (by omega)
  rw [hdiff, Int.tdiv_eq_ediv_of_nonneg (by omega), ← hmid]
  exact ⟨int32_eq (by omega) (by omega), int32_eq (by omega) (by omega),
    int32_eq (by omega) (by omega), int32_eq (by omega) (by omega)⟩

theorem middle_lt {size : Nat} (hl : 0 ≤ left) (hle : left ≤ right)
    (hr : right < (size / indexedEncryptedKeyBytes : Nat)) :
    middle left right < size / indexedEncryptedKeyBytes := by
  have hmid := middle_eq hl hle
  omega

/-- **One iteration from bounds inside the complete records**: it reads the record in the middle and
stops there, or moves one bound by one. -/
theorem iteration_eq (b : ByteBuffer) (hhash : hashToFind.length = hashedIndexBytes)
    (hl : 0 ≤ left) (hle : left ≤ right)
    (hr : right < (b.bytes.length / indexedEncryptedKeyBytes : Nat))
    (hmax : b.bytes.length ≤ intMax) :
    let i := middle left right
    let probe := Probe.mk i (i * indexedEncryptedKeyBytes)
    let b' := ByteBuffer.mk b.bytes (i * indexedEncryptedKeyBytes + hashedIndexBytes)
    iteration c hashToFind userKey b left right =
      if hashAt b.bytes i = hashToFind then
        .exits (decryptAes c (keyAt b.bytes i) userKey none) [probe true left right]
      else if compare (hashAt b.bytes i) hashToFind = .lt then
        .goesOn (probe false (left + 1) right) b' (left + 1) right
      else .goesOn (probe false left (right - 1)) b' left (right - 1) := by
  obtain ⟨hcur, hpos, hleft, hright⟩ := int32_middle hl hle hr hmax
  have hlt := middle_lt hl hle hr
  unfold iteration
  rw [if_pos hle]
  simp only [hcur, hpos, hleft, hright, position_record b hlt, get_hash hlt, get_key hlt,
    compareTo_eq ((length_hashAt hlt).trans hhash.symm)]
  split
  · rfl
  · cases compare (hashAt b.bytes (middle left right)) hashToFind <;> rfl

theorem iteration_done (b : ByteBuffer) (hle : ¬ left ≤ right) :
    iteration c hashToFind userKey b left right = .exits (.error .userKeyNotInEnvelope) [] := by
  unfold iteration
  rw [if_neg hle]

/-- The same iteration of the unbounded loop. -/
theorem search_eq (buffer : Bytes) (hhash : hashToFind.length = hashedIndexBytes) (hl : 0 ≤ left)
    (hle : left ≤ right) (hr : right < (buffer.length / indexedEncryptedKeyBytes : Nat)) :
    search c buffer hashToFind userKey left right =
      if hashAt buffer (middle left right) = hashToFind then
        decryptAes c (keyAt buffer (middle left right)) userKey none
      else if compare (hashAt buffer (middle left right)) hashToFind = .lt then
        search c buffer hashToFind userKey (left + 1) right
      else search c buffer hashToFind userKey left (right - 1) := by
  have hlt := middle_lt hl hle hr
  rw [search, if_pos hle, ← middle_eq hl hle]
  simp only [bufferGet_hashAt hlt, bufferGet_keyAt hlt,
    compareTo_eq ((length_hashAt hlt).trans hhash.symm)]
  split
  · rfl
  · cases compare (hashAt buffer (middle left right)) hashToFind <;> rfl

/-! ## The whole loop -/

/-- The probe is a complete record, and its position is that of the record. -/
structure Probe.Within (p : Probe) (count : Nat) : Prop where
  nonneg : 0 ≤ p.index
  lt : p.index < count
  position_eq : p.position = p.index * indexedEncryptedKeyBytes

/-- What the loop may return: no record was found, or one with the sought hash was decrypted. -/
def Returned (c : Crypto) (buffer hashToFind userKey : Bytes) (result : Except KtError Bytes) :
    Prop :=
  result = .error .userKeyNotInEnvelope ∨
    ∃ i < buffer.length / indexedEncryptedKeyBytes, hashAt buffer i = hashToFind ∧
      result = decryptAes c (keyAt buffer i) userKey none

/-- **The loop ends**, with the result of the unbounded one, on records only: each iteration leaves
one index fewer between the bounds. -/
theorem searchLoop_spec (hhash : hashToFind.length = hashedIndexBytes) (fuel : Nat) (b : ByteBuffer)
    (left right : Int) (hl : 0 ≤ left)
    (hr : right < (b.bytes.length / indexedEncryptedKeyBytes : Nat))
    (hmax : b.bytes.length ≤ intMax) (hfuel : (right + 1 - left).toNat < fuel) :
    ∃ probes, searchLoop c hashToFind userKey fuel b left right =
        some (search c b.bytes hashToFind userKey left right, probes) ∧
      Returned c b.bytes hashToFind userKey (search c b.bytes hashToFind userKey left right) ∧
      ∀ p ∈ probes, p.Within (b.bytes.length / indexedEncryptedKeyBytes) := by
  induction fuel generalizing b left right with
  | zero => omega
  | succ fuel ih =>
    rw [searchLoop]
    by_cases hle : left ≤ right
    · have hlt := middle_lt hl hle hr
      have hwithin : ∀ found l r, (Probe.mk (middle left right)
          (middle left right * indexedEncryptedKeyBytes) found l r).Within
            (b.bytes.length / indexedEncryptedKeyBytes) :=
        fun found l r => ⟨Int.natCast_nonneg _, Int.ofNat_lt.mpr hlt, rfl⟩
      rw [iteration_eq c userKey b hhash hl hle hr hmax,
        search_eq c userKey b.bytes hhash hl hle hr]
      generalize hb' : ByteBuffer.mk b.bytes
        (middle left right * indexedEncryptedKeyBytes + hashedIndexBytes) = b'
      have hbytes : b'.bytes = b.bytes := by rw [← hb']
      by_cases hhit : hashAt b.bytes (middle left right) = hashToFind
      · simp only [if_pos hhit]
        refine ⟨_, rfl, .inr ⟨_, hlt, hhit, rfl⟩, ?_⟩
        intro p hp
        rw [List.mem_singleton.mp hp]
        exact hwithin true left right
      · simp only [if_neg hhit]
        by_cases hcmp : compare (hashAt b.bytes (middle left right)) hashToFind = .lt
        · simp only [if_pos hcmp]
          obtain ⟨probes, hloop, hret, hin⟩ := ih b' (left + 1) right (by omega)
            (by rw [hbytes]; exact hr) (by rw [hbytes]; exact hmax) (by omega)
          rw [hbytes] at hloop hret hin
          rw [hloop]
          exact ⟨_, rfl, hret, List.forall_mem_cons.mpr ⟨hwithin false _ _, hin⟩⟩
        · simp only [if_neg hcmp]
          obtain ⟨probes, hloop, hret, hin⟩ := ih b' left (right - 1) hl
            (by rw [hbytes]; omega) (by rw [hbytes]; exact hmax) (by omega)
          rw [hbytes] at hloop hret hin
          rw [hloop]
          exact ⟨_, rfl, hret, List.forall_mem_cons.mpr ⟨hwithin false _ _, hin⟩⟩
    · rw [iteration_done c userKey b hle, search, if_neg hle]
      exact ⟨[], rfl, .inl rfl, by simp⟩

end Loop

/-! ## Opening an envelope -/

section Open

variable {envelope userKey : Bytes}

theorem digestInput_eq (h12 : nonceBytes ≤ envelope.length)
    (hkey : userKey.length = cipherKeyBytes) :
    digestInput envelope userKey = .ok (envelope.take nonceBytes ++ userKey) := by
  unfold digestInput
  rw [if_neg (by omega), hkey, Nat.sub_self, List.replicate_zero, List.append_nil]

theorem open_eq (c : Crypto) (h12 : nonceBytes ≤ envelope.length)
    (hkey : userKey.length = cipherKeyBytes) :
    IndexedEnvelope.open c envelope userKey =
      search c (envelope.drop nonceBytes) (c.sha224 (envelope.take nonceBytes ++ userKey)) userKey 0
        (((envelope.drop nonceBytes).length / indexedEncryptedKeyBytes : Nat) - 1) := by
  unfold IndexedEnvelope.open
  rw [digestInput_eq h12 hkey]
  rfl

/-- The loop starts on the slice after the nonce, with all complete records between its bounds. -/
theorem run_eq (c : Crypto) (fuel : Nat) (h12 : nonceBytes ≤ envelope.length)
    (hmax : envelope.length ≤ intMax) (hkey : userKey.length = cipherKeyBytes) :
    IndexedEnvelope.run c fuel envelope userKey =
      searchLoop c (c.sha224 (envelope.take nonceBytes ++ userKey)) userKey fuel
        ⟨envelope.drop nonceBytes, 0⟩ 0
        (((envelope.drop nonceBytes).length / indexedEncryptedKeyBytes : Nat) - 1) := by
  have hpos : (ByteBuffer.wrap envelope).position nonceBytes = .ok ⟨envelope, nonceBytes⟩ := by
    unfold ByteBuffer.position ByteBuffer.wrap
    rw [if_neg (by dsimp only; omega), Int.toNat_natCast]
  have hmax' : envelope.length ≤ 2 ^ 31 - 1 := hmax
  unfold IndexedEnvelope.run
  rw [digestInput_eq h12 hkey]
  simp only [hpos]
  unfold ByteBuffer.slice ByteBuffer.remaining
  dsimp only
  have hlen : (envelope.drop nonceBytes).length ≤ 2 ^ 31 - 1 := by
    rw [List.length_drop]
    omega
  have h88 : indexedEncryptedKeyBytes = 88 := rfl
  rw [Nat.sub_zero, Int.tdiv_eq_ediv_of_nonneg (by omega), ← Int.natCast_ediv, h88,
    int32_eq (by omega) (by omega)]

theorem recordCount_eq (envelope : Bytes) :
    (envelope.drop nonceBytes).length / indexedEncryptedKeyBytes = recordCount envelope := by
  rw [List.length_drop]
  rfl

/-- A run from the start, in the terms of `searchLoop_spec`. -/
theorem run_spec (c : Crypto) (hsha : ∀ m, (c.sha224 m).length = hashedIndexBytes) {fuel : Nat}
    (h12 : nonceBytes ≤ envelope.length) (hmax : envelope.length ≤ intMax)
    (hkey : userKey.length = cipherKeyBytes) (hfuel : recordCount envelope < fuel) :
    ∃ probes, IndexedEnvelope.run c fuel envelope userKey =
        some (IndexedEnvelope.open c envelope userKey, probes) ∧
      Returned c (envelope.drop nonceBytes) (c.sha224 (envelope.take nonceBytes ++ userKey)) userKey
        (IndexedEnvelope.open c envelope userKey) ∧
      ∀ p ∈ probes, p.Within (recordCount envelope) := by
  have hcount := recordCount_eq envelope
  have hlen : (envelope.drop nonceBytes).length ≤ intMax := by
    rw [List.length_drop]
    omega
  rw [run_eq c fuel h12 hmax hkey, open_eq c h12 hkey, ← hcount]
  exact searchLoop_spec c userKey (hsha _) fuel ⟨envelope.drop nonceBytes, 0⟩ 0 _ (Int.le_refl 0)
    (by dsimp only; omega) hlen (by omega)

/-- **The machine-level loop returns what the unbounded one returns**: it ends, and no wrapped
value makes a difference. -/
theorem run_eq_open (c : Crypto) (hsha : ∀ m, (c.sha224 m).length = hashedIndexBytes) {fuel : Nat}
    (h12 : nonceBytes ≤ envelope.length) (hmax : envelope.length ≤ intMax)
    (hkey : userKey.length = cipherKeyBytes) (hfuel : recordCount envelope < fuel) :
    (IndexedEnvelope.run c fuel envelope userKey).map Prod.fst =
      some (IndexedEnvelope.open c envelope userKey) := by
  obtain ⟨probes, hrun, -, -⟩ := run_spec c hsha h12 hmax hkey hfuel
  rw [hrun]
  rfl

/-- Decrypting a whole encrypted key throws only what the JCE throws. -/
theorem decryptAes_error {c : Crypto} {data key : Bytes} {associatedData : Option Bytes}
    {e : KtError} (hlen : cipherIvBytes ≤ data.length)
    (h : decryptAes c data key associatedData = .error e) : ∃ j, e = .jce j := by
  unfold decryptAes at h
  rw [if_neg (by omega)] at h
  split at h
  · cases h
  · cases h
    exact ⟨_, rfl⟩

/-- **Opening any bytes is safe**: the loop ends, every probe is a complete record read at its own
offset, the buffer throws nothing, and a key that is returned is the decryption of the 60 bytes
after an index that is the hash of nonce and user key. -/
theorem run_safe (c : Crypto) (hsha : ∀ m, (c.sha224 m).length = hashedIndexBytes)
    (envelope userKey : Bytes) (fuel : Nat) (h12 : nonceBytes ≤ envelope.length)
    (hmax : envelope.length ≤ intMax) (hkey : userKey.length = cipherKeyBytes)
    (hfuel : recordCount envelope < fuel) :
    ∃ result probes, IndexedEnvelope.run c fuel envelope userKey = some (result, probes) ∧
      (∀ p ∈ probes, 0 ≤ p.index ∧ p.index ≤ (recordCount envelope : Int) - 1 ∧
        p.position = p.index * indexedEncryptedKeyBytes ∧
        p.position + hashedIndexBytes + encryptedKeyBytes ≤ (envelope.drop nonceBytes).length) ∧
      (∀ e, result = .error e → e = .userKeyNotInEnvelope ∨ ∃ j, e = .jce j) ∧
      ∀ plain, result = .ok plain → ∃ i < recordCount envelope,
        hashAt (envelope.drop nonceBytes) i = c.sha224 (envelope.take nonceBytes ++ userKey) ∧
        (keyAt (envelope.drop nonceBytes) i).length = encryptedKeyBytes ∧
        decryptAes c (keyAt (envelope.drop nonceBytes) i) userKey none = .ok plain := by
  obtain ⟨probes, hrun, hret, hin⟩ := run_spec c hsha h12 hmax hkey hfuel
  refine ⟨_, probes, hrun, ?_, ?_, ?_⟩
  · intro p hp
    have hw := hin p hp
    obtain ⟨i, hi⟩ := Int.eq_ofNat_of_zero_le hw.nonneg
    have hlt := hw.lt
    rw [hi] at hlt
    have hi' : i < (envelope.drop nonceBytes).length / indexedEncryptedKeyBytes := by
      rw [recordCount_eq]
      exact_mod_cast hlt
    have hle := record_le hi'
    refine ⟨hw.nonneg, by omega, hw.position_eq, ?_⟩
    rw [hw.position_eq, hi]
    exact_mod_cast hle
  · intro e he
    obtain hnone | ⟨i, hi, -, hdec⟩ := hret
    · rw [hnone] at he
      cases he
      exact .inl rfl
    · refine .inr (decryptAes_error ?_ (hdec.symm.trans he))
      rw [length_keyAt hi]
      decide
  · intro plain hok
    obtain hnone | ⟨i, hi, hhash, hdec⟩ := hret
    · rw [hnone] at hok
      cases hok
    · exact ⟨i, recordCount_eq envelope ▸ hi, hhash, length_keyAt hi, hdec.symm.trans hok⟩

end Open

/-! ## Sorted records -/

/-- No unsuccessful probe stays between the bounds, and no index is read twice. -/
def Narrows (probes : List Probe) : Prop :=
  (∀ p ∈ probes, p.found = false → ¬ (p.left ≤ p.index ∧ p.index ≤ p.right)) ∧
    (probes.map Probe.index).Nodup

/-- There is at most one record, or the middle one has the hash, or there are two and the hash of
the first is smaller. -/
def NarrowTable (t : Table) (hashToFind : Bytes) : Prop :=
  t.entries.length ≤ 1 ∨
    (∃ r, t.entries[(t.entries.length - 1) / 2]? = some r ∧ r.1 = hashToFind) ∨
    (t.entries.length = 2 ∧ ∃ r, t.entries[0]? = some r ∧ compare r.1 hashToFind = .lt)

theorem Table.count_eq (t : Table) :
    t.bytes.length / indexedEncryptedKeyBytes = t.entries.length := by
  rw [t.length_bytes]
  exact Nat.mul_div_cancel _ (by decide)

theorem Table.hashAt_eq (t : Table) {i : Nat} (hi : i < t.entries.length) :
    hashAt t.bytes i = t.entries[i].1 := by
  have hi' : i < t.bytes.length / indexedEncryptedKeyBytes := by rw [t.count_eq]; exact hi
  exact Except.ok.inj ((bufferGet_hashAt hi').symm.trans (t.bufferGet_hash hi))

theorem narrows_nil : Narrows [] := ⟨by simp, by simp⟩

theorem narrows_single {p : Probe}
    (h : p.found = false → ¬ (p.left ≤ p.index ∧ p.index ≤ p.right)) : Narrows [p] :=
  ⟨by simpa using h, by simp⟩

section Sorted

variable (c : Crypto) {hashToFind : Bytes} (userKey : Bytes)

theorem searchLoop_empty (b : ByteBuffer) (fuel : Nat) {left right : Int} (hlt : right < left) :
    searchLoop c hashToFind userKey (fuel + 1) b left right =
      some (.error .userKeyNotInEnvelope, []) := by
  rw [searchLoop, iteration_done c userKey b (by omega)]

/-- With one record between the bounds the loop makes one probe, which leaves none. -/
theorem searchLoop_single (b : ByteBuffer) (fuel : Nat)
    (hhash : hashToFind.length = hashedIndexBytes) (hmax : b.bytes.length ≤ intMax) {i : Nat}
    (hi : i < b.bytes.length / indexedEncryptedKeyBytes) :
    ∃ result p, searchLoop c hashToFind userKey (fuel + 2) b i i = some (result, [p]) ∧
      p.index = i ∧ (p.found = false → ¬ (p.left ≤ p.index ∧ p.index ≤ p.right)) := by
  have hmid : middle i i = i := by
    unfold middle
    omega
  rw [searchLoop, iteration_eq c userKey b hhash (by omega) (Int.le_refl _)
    (Int.ofNat_lt.mpr hi) hmax, hmid]
  by_cases hhit : hashAt b.bytes i = hashToFind
  · simp only [if_pos hhit]
    exact ⟨_, _, rfl, rfl, by simp⟩
  · simp only [if_neg hhit]
    by_cases hcmp : compare (hashAt b.bytes i) hashToFind = .lt
    · simp only [if_pos hcmp]
      rw [searchLoop_empty c userKey _ fuel (by omega)]
      exact ⟨_, _, rfl, rfl, by simp⟩
    · simp only [if_neg hcmp]
      rw [searchLoop_empty c userKey _ fuel (by omega)]
      exact ⟨_, _, rfl, rfl, by simp⟩

theorem narrows_cons_single {p q : Probe}
    (hp : p.found = false → ¬ (p.left ≤ p.index ∧ p.index ≤ p.right))
    (hq : q.found = false → ¬ (q.left ≤ q.index ∧ q.index ≤ q.right)) (hne : p.index ≠ q.index) :
    Narrows [p, q] := by
  constructor
  · intro r hr
    simp only [List.mem_cons, List.not_mem_nil, or_false] at hr
    obtain rfl | rfl := hr
    · exact hp
    · exact hq
  · simpa using hne

/-- The first probe is in the middle. -/
theorem middle_zero {n : Nat} (hpos : 0 < n) : middle 0 ((n : Int) - 1) = (n - 1) / 2 := by
  unfold middle
  omega

/-- The first probe below the hash: it leaves the window iff there are at most two records. -/
theorem searchLoop_first_lt (b : ByteBuffer) (fuel : Nat)
    (hhash : hashToFind.length = hashedIndexBytes) (hmax : b.bytes.length ≤ intMax) {n : Nat}
    (hn : b.bytes.length / indexedEncryptedKeyBytes = n) (hpos : 0 < n) (hfuel : n ≤ fuel)
    {p : Probe}
    (hp : p = ⟨middle 0 (n - 1), middle 0 (n - 1) * indexedEncryptedKeyBytes, false, 1, n - 1⟩) :
    ∃ result probes, searchLoop c hashToFind userKey fuel b 1 (n - 1) = some (result, probes) ∧
      (Narrows (p :: probes) ↔ n ≤ 2) := by
  have hindex : p.index = ((n - 1) / 2 : Nat) := by rw [hp, middle_zero hpos]
  have hleft := congrArg Probe.left hp
  have hright := congrArg Probe.right hp
  dsimp only at hleft hright
  obtain hone | htwo | hmany : n = 1 ∨ n = 2 ∨ 2 < n := by omega
  · obtain ⟨fuel, rfl⟩ := Nat.exists_eq_add_of_le' (show 1 ≤ fuel by omega)
    rw [searchLoop_empty c userKey b fuel (by omega)]
    exact ⟨_, [], rfl, iff_of_true (narrows_single fun _ => by omega) (by omega)⟩
  · obtain ⟨fuel, rfl⟩ := Nat.exists_eq_add_of_le' (show 2 ≤ fuel by omega)
    obtain ⟨result, q, hloop, hq, hout⟩ := searchLoop_single c userKey b fuel hhash hmax
      (i := 1) (by omega)
    rw [htwo]
    refine ⟨result, [q], hloop, iff_of_true ?_ (Nat.le_refl 2)⟩
    exact narrows_cons_single (fun _ => by omega) hout (by omega)
  · obtain ⟨probes, hloop, -, -⟩ := searchLoop_spec c userKey hhash fuel b 1 (n - 1) (by omega)
      (by omega) hmax (by omega)
    refine ⟨_, probes, hloop, iff_of_false ?_ (by omega)⟩
    intro hnarrow
    exact hnarrow.1 p List.mem_cons_self (congrArg Probe.found hp) ⟨by omega, by omega⟩

/-- The first probe above the hash: it leaves the window iff there is one record. -/
theorem searchLoop_first_gt (b : ByteBuffer) (fuel : Nat)
    (hhash : hashToFind.length = hashedIndexBytes) (hmax : b.bytes.length ≤ intMax) {n : Nat}
    (hn : b.bytes.length / indexedEncryptedKeyBytes = n) (hpos : 0 < n) (hfuel : n ≤ fuel)
    {p : Probe} (hp : p = ⟨middle 0 (n - 1), middle 0 (n - 1) * indexedEncryptedKeyBytes, false, 0,
      n - 1 - 1⟩) :
    ∃ result probes, searchLoop c hashToFind userKey fuel b 0 (n - 1 - 1) = some (result, probes) ∧
      (Narrows (p :: probes) ↔ n ≤ 1) := by
  have hindex : p.index = ((n - 1) / 2 : Nat) := by rw [hp, middle_zero hpos]
  have hleft := congrArg Probe.left hp
  have hright := congrArg Probe.right hp
  dsimp only at hleft hright
  obtain hone | hmany : n = 1 ∨ 1 < n := by omega
  · obtain ⟨fuel, rfl⟩ := Nat.exists_eq_add_of_le' (show 1 ≤ fuel by omega)
    rw [searchLoop_empty c userKey b fuel (by omega)]
    exact ⟨_, [], rfl, iff_of_true (narrows_single fun _ => by omega) (by omega)⟩
  · obtain ⟨probes, hloop, -, -⟩ := searchLoop_spec c userKey hhash fuel b 0 (n - 1 - 1) (by omega)
      (by omega) hmax (by omega)
    refine ⟨_, probes, hloop, iff_of_false ?_ (by omega)⟩
    intro hnarrow
    exact hnarrow.1 p List.mem_cons_self (congrArg Probe.found hp) ⟨by omega, by omega⟩

/-- The condition, when the hash of the middle record is smaller. -/
theorem narrowTable_lt {t : Table} (hi : (t.entries.length - 1) / 2 < t.entries.length)
    (hmiss : t.entries[(t.entries.length - 1) / 2].1 ≠ hashToFind)
    (hcmp : compare t.entries[(t.entries.length - 1) / 2].1 hashToFind = .lt) :
    NarrowTable t hashToFind ↔ t.entries.length ≤ 2 := by
  constructor
  · rintro (hone | ⟨r, hr, hhit⟩ | ⟨htwo, -⟩)
    · omega
    · rw [List.getElem?_eq_getElem hi] at hr
      cases hr
      exact absurd hhit hmiss
    · omega
  · intro hle
    obtain hone | htwo : t.entries.length ≤ 1 ∨ t.entries.length = 2 := by omega
    · exact .inl hone
    · refine .inr (.inr ⟨htwo, _, List.getElem?_eq_getElem (by omega), ?_⟩)
      simpa [htwo] using hcmp

/-- The condition, when the hash of the middle record is greater. -/
theorem narrowTable_gt {t : Table} (hi : (t.entries.length - 1) / 2 < t.entries.length)
    (hmiss : t.entries[(t.entries.length - 1) / 2].1 ≠ hashToFind)
    (hcmp : compare t.entries[(t.entries.length - 1) / 2].1 hashToFind ≠ .lt) :
    NarrowTable t hashToFind ↔ t.entries.length ≤ 1 := by
  constructor
  · rintro (hone | ⟨r, hr, hhit⟩ | ⟨htwo, r, hr, hlt⟩)
    · exact hone
    · rw [List.getElem?_eq_getElem hi] at hr
      cases hr
      exact absurd hhit hmiss
    · rw [List.getElem?_eq_getElem (by omega)] at hr
      cases hr
      exact absurd (by simpa [htwo] using hlt) hcmp
  · exact fun hone => .inl hone

/-- The first probe decides: it is the record in the middle of the whole table. -/
theorem searchLoop_narrows_iff (t : Table) (b : ByteBuffer) (hb : b.bytes = t.bytes) (fuel : Nat)
    (hhash : hashToFind.length = hashedIndexBytes) (hmax : b.bytes.length ≤ intMax)
    (hfuel : t.entries.length < fuel) :
    ∃ result probes,
      searchLoop c hashToFind userKey fuel b 0 (t.entries.length - 1) = some (result, probes) ∧
        (Narrows probes ↔ NarrowTable t hashToFind) := by
  have hcount : b.bytes.length / indexedEncryptedKeyBytes = t.entries.length := by
    rw [hb, t.count_eq]
  obtain ⟨fuel, rfl⟩ := Nat.exists_eq_add_of_le' (show 1 ≤ fuel by omega)
  by_cases hpos : t.entries.length = 0
  · rw [searchLoop_empty c userKey b fuel (by omega)]
    exact ⟨_, [], rfl, iff_of_true narrows_nil (.inl (by omega))⟩
  · have hmid := middle_zero (Nat.pos_of_ne_zero hpos)
    have hi : (t.entries.length - 1) / 2 < t.entries.length := by omega
    have hat : hashAt b.bytes (middle 0 ((t.entries.length : Int) - 1)) =
        t.entries[(t.entries.length - 1) / 2].1 := by rw [hb, hmid, t.hashAt_eq hi]
    have hget := List.getElem?_eq_getElem hi
    rw [searchLoop, iteration_eq c userKey b hhash (Int.le_refl 0) (by omega) (by omega) hmax, hat]
    generalize hb' : ByteBuffer.mk b.bytes (middle 0 ((t.entries.length : Int) - 1) *
      indexedEncryptedKeyBytes + hashedIndexBytes) = b'
    have hbytes : b'.bytes = b.bytes := by rw [← hb']
    rw [← hbytes] at hmax hcount
    by_cases hhit : t.entries[(t.entries.length - 1) / 2].1 = hashToFind
    · simp only [if_pos hhit]
      exact ⟨_, _, rfl, iff_of_true (narrows_single (by simp)) (.inr (.inl ⟨_, hget, hhit⟩))⟩
    · simp only [if_neg hhit]
      by_cases hcmp : compare t.entries[(t.entries.length - 1) / 2].1 hashToFind = .lt
      · simp only [if_pos hcmp]
        obtain ⟨result, probes, hloop, hiff⟩ := searchLoop_first_lt c userKey b' fuel hhash hmax
          hcount (by omega) (by omega) rfl
        rw [Int.zero_add, hloop]
        exact ⟨result, _, rfl, hiff.trans (narrowTable_lt hi hhit hcmp).symm⟩
      · simp only [if_neg hcmp]
        obtain ⟨result, probes, hloop, hiff⟩ := searchLoop_first_gt c userKey b' fuel hhash hmax
          hcount (by omega) (by omega) rfl
        rw [hloop]
        exact ⟨result, _, rfl, hiff.trans (narrowTable_gt hi hhit hcmp).symm⟩

/-- **When the search narrows**: every unsuccessful probe leaves the window, and no record is read
twice, iff there is at most one record, or the hash is in the middle one, or there are two and the
hash of the first is smaller. -/
theorem narrows_iff (hsha : ∀ m, (c.sha224 m).length = hashedIndexBytes) (t : Table)
    (nonce : Bytes) (fuel : Nat) (hnonce : nonce.length = nonceBytes)
    (hmax : (nonce ++ t.bytes).length ≤ intMax) (hkey : userKey.length = cipherKeyBytes)
    (hfuel : t.entries.length < fuel) :
    ∃ result probes,
      IndexedEnvelope.run c fuel (nonce ++ t.bytes) userKey = some (result, probes) ∧
        (Narrows probes ↔ NarrowTable t (c.sha224 (nonce ++ userKey))) := by
  have h12 : nonceBytes ≤ (nonce ++ t.bytes).length := by
    rw [List.length_append]
    omega
  have hmax' : t.bytes.length ≤ intMax := by
    rw [List.length_append] at hmax
    omega
  rw [run_eq c fuel h12 hmax hkey, ← hnonce, List.take_left, List.drop_left, t.count_eq]
  exact searchLoop_narrows_iff c userKey t ⟨t.bytes, 0⟩ rfl fuel (hsha _) hmax' hfuel

end Sorted

/-! ## Three records -/

/-- Three records, all with a hash below that of `zeros12` and `key0`. -/
def threeRecords : Table where
  entries := [(List.replicate 28 0, List.replicate 60 0),
    (List.replicate 28 1, List.replicate 60 0), (List.replicate 28 2, List.replicate 60 0)]
  hash_length := by decide
  key_length := by decide
  sorted := by decide

theorem sample_sha224_length (m : Bytes) : (Crypto.sample.sha224 m).length = hashedIndexBytes :=
  Crypto.sample_agrees.sha224_length m

/-- The record in the middle is read twice. -/
theorem threeRecords_probes :
    (IndexedEnvelope.run Crypto.sample 4 (Crypto.zeros12 ++ threeRecords.bytes)
      Crypto.key0.val).map Prod.snd =
        some [⟨1, 88, false, 1, 2⟩, ⟨1, 88, false, 2, 2⟩, ⟨2, 176, false, 3, 2⟩] := by
  decide +kernel

/-- A search among three records that does not narrow. -/
theorem threeRecords_not_narrows :
    Crypto.zeros12.length = nonceBytes ∧ Crypto.key0.val.length = cipherKeyBytes ∧
      ∃ result probes, IndexedEnvelope.run Crypto.sample 4 (Crypto.zeros12 ++ threeRecords.bytes)
          Crypto.key0.val = some (result, probes) ∧
        (∃ p ∈ probes, p.found = false ∧ p.left ≤ p.index ∧ p.index ≤ p.right) ∧
        ¬ (probes.map Probe.index).Nodup := by
  refine ⟨rfl, rfl, ?_⟩
  obtain ⟨⟨result, probes⟩, hrun, hprobes⟩ := Option.map_eq_some_iff.mp threeRecords_probes
  dsimp only at hprobes
  refine ⟨result, probes, hrun, ?_, ?_⟩
  · rw [hprobes]
    exact ⟨_, List.mem_cons_self, rfl, by decide, by decide⟩
  · rw [hprobes]
    decide

theorem narrows_iff_threeRecords :
    ∃ result probes, IndexedEnvelope.run Crypto.sample 4 (Crypto.zeros12 ++ threeRecords.bytes)
        Crypto.key0.val = some (result, probes) ∧
      (Narrows probes ↔
        NarrowTable threeRecords (Crypto.sample.sha224 (Crypto.zeros12 ++ Crypto.key0.val))) :=
  narrows_iff Crypto.sample Crypto.key0.val sample_sha224_length threeRecords Crypto.zeros12 4 rfl
    (by decide +kernel) rfl (by decide)

/-- The three records with two bytes after them. -/
theorem run_safe_threeRecords :
    recordCount (Crypto.zeros12 ++ threeRecords.bytes ++ [7, 7]) = 3 ∧
      ∃ result probes, IndexedEnvelope.run Crypto.sample 4
          (Crypto.zeros12 ++ threeRecords.bytes ++ [7, 7]) Crypto.key0.val =
            some (result, probes) ∧
        ∀ p ∈ probes, 0 ≤ p.index ∧ p.index ≤ 2 := by
  have hcount : recordCount (Crypto.zeros12 ++ threeRecords.bytes ++ [7, 7]) = 3 := by
    decide +kernel
  obtain ⟨result, probes, hrun, hin, -, -⟩ := run_safe Crypto.sample sample_sha224_length
    (Crypto.zeros12 ++ threeRecords.bytes ++ [7, 7]) Crypto.key0.val 4 (by decide +kernel)
    (by decide +kernel) rfl (by rw [hcount]; decide)
  refine ⟨hcount, result, probes, hrun, fun p hp => ?_⟩
  have hp' := hin p hp
  rw [hcount] at hp'
  exact ⟨hp'.1, hp'.2.1⟩

end ASky.Client

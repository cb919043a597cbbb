import ASky.Bytes

/-!
# Looking up a file key by trial decryption

Model of `user_get_file_key` and of its multi-threaded version `_mt_user_get_file_key`
(`client/client.cpp`). A ciphertext is a sequence of 64-byte records, an encrypted hint and an
encrypted file key, and the user's record is the one whose hint decrypts to `positive_hint`.

* `aes_decrypt` is AES-256 in counter mode of OpenSSL, a parameter: the plaintext is as long as the
  ciphertext.
* A pointer into the ciphertext is an offset. What the caller gets back is `Out`: the 32 bytes at
  `p_file_key`, and `*p_fk_size`.
* `int`s wrap around (`int32`); a conversion to `size_t` is `sizeT`.
* The threads are `Step`: the main thread creates the workers and joins them, a worker tests its
  loop condition (which reads `FOUND_POSITIVE`), tries a record, or sets `FOUND_POSITIVE`. A
  worker that runs off the end of `myThreadFun` has returned; `pthread_join` ignores the value.
* `FOUND_POSITIVE` is global and never reset, so a call may start with any value of it.

`Inv` is kept by every step. From it **`foundPositive_iff`**: a call that starts with
`FOUND_POSITIVE = 0` leaves it set iff some hint is positive, whatever the schedule. But no worker
hands over what it decrypted: `exists_returned` and `returned_out` say that every schedule ends,
with status 0 and the caller's buffers untouched. So **`mt_agrees_iff`**: the two versions agree
only where the caller's buffers held the answer before the call.
-/

namespace ASky.Client

/-- `THREADS_COUNT`. -/
def threadsCount : Nat := 4

/-- `iv`. -/
def iv : Bytes := lit "wWw456789012345678901234567890IV"

/-- `positive_hint`. -/
def positiveHint : Bytes := lit "11111111111111111111111111111111"

/-- `aes_decrypt`, from OpenSSL: a stream cipher. -/
structure Aes where
  aesDecrypt : (ciphertext key iv : Bytes) → Bytes
  length_aesDecrypt : ∀ ciphertext key iv, (aesDecrypt ciphertext key iv).length = ciphertext.length

/-- `p_file_key` and `*p_fk_size`. -/
structure Out where
  fileKey : Bytes
  fkSize : Nat
  deriving DecidableEq

/-- An `int` as a `size_t`. -/
def sizeT (x : Int) : Nat := (x % 2 ^ 64).toNat

/-- What both versions are called with. -/
structure Lookup where
  aes : Aes
  userKey : Bytes
  ciphertext : Bytes

namespace Lookup

variable (l : Lookup)

/-- `aes_decrypt(ciphertext + offset, 32, user_key, iv, ..)`. -/
def decryptAt (offset : Nat) : Bytes :=
  l.aes.aesDecrypt ((l.ciphertext.drop offset).take 32) l.userKey iv

/-- The `memcmp` of the hint at `offset`. -/
def isPositive (offset : Nat) : Bool := decide (l.decryptAt offset = positiveHint)

/-- `c_size / 64`, as an `int`. -/
def trials : Int := int32 (l.ciphertext.length / 64 : Nat)

/-- The loop of `user_get_file_key`, with `n` trials to go. -/
def tryFrom : (n offset : Nat) → Out → Int × Out
  | 0, _, out => (-1, out)
  | n + 1, offset, out =>
    if l.isPositive offset then (0, ⟨l.decryptAt (offset + 32), 32⟩)
    else tryFrom n (offset + 64) out

/-- `user_get_file_key`: the status, and what the caller's pointers hold after it. -/
def userGetFileKey (out : Out) : Int × Out := l.tryFrom l.trials.toNat 0 out

end Lookup

/-! ## The threads -/

/-- Where a worker is. -/
inductive Place where
  /-- At `i < trials && !FOUND_POSITIVE`. -/
  | loopTest
  | body
  /-- At `FOUND_POSITIVE = 1`. -/
  | found
  | done
  deriving DecidableEq

/-- The locals of `myThreadFun`, with the pointer it advances. -/
structure Worker where
  ciphertext : Nat
  trials : Int
  i : Nat
  place : Place

/-- Where `_mt_user_get_file_key` is. -/
inductive MainPlace where
  | create (i : Nat)
  | join (i : Nat)
  | returned (status : Int)

structure Threads where
  foundPositive : Int
  workers : Nat → Option Worker
  main : MainPlace
  out : Out

namespace Lookup

variable (l : Lookup)

/-- `start_trials` of worker `i`. -/
def startTrials (i : Nat) : Int := (int32 (i * l.trials)).tdiv threadsCount

/-- `end_trials` of worker `i`. -/
def endTrials (i : Nat) : Int :=
  let endTrials := (int32 ((i + 1 : Nat) * l.trials)).tdiv threadsCount
  if l.trials < endTrials then l.trials else endTrials

/-- Worker `i`, with its `ThreadArg`, at its first test. -/
def newWorker (i : Nat) : Worker :=
  let cSize := sizeT (int32 (int32 (l.endTrials i - l.startTrials i) * 64))
  { ciphertext := (int32 (64 * l.startTrials i)).toNat
    trials := int32 (cSize / 64 : Nat)
    i := 0
    place := .loopTest }

/-- One step of a worker, with the value of `FOUND_POSITIVE` before and after. -/
def workerStep (foundPositive : Int) (w : Worker) : Worker × Int :=
  match w.place with
  | .loopTest =>
    if w.i < w.trials ∧ foundPositive = 0 then ({ w with place := .body }, foundPositive)
    else ({ w with place := .done }, foundPositive)
  | .body =>
    if l.isPositive w.ciphertext then ({ w with place := .found }, foundPositive)
    else
      ({ w with ciphertext := w.ciphertext + 64, i := w.i + 1, place := .loopTest }, foundPositive)
  | .found => ({ w with place := .done }, 1)
  | .done => (w, foundPositive)

/-- The call, before its first step. -/
def start (foundPositive : Int) (out : Out) : Threads :=
  { foundPositive, workers := fun _ => none, main := .create 0, out }

/-- A step of some thread. -/
inductive Step (s : Threads) : Threads → Prop where
  | create {i : Nat} (h : s.main = .create i) (hi : i < threadsCount) :
    Step s { s with
      workers := Function.update s.workers i (some (l.newWorker i))
      main := .create (i + 1) }
  | created (h : s.main = .create threadsCount) : Step s { s with main := .join 0 }
  | join {i : Nat} {w : Worker} (h : s.main = .join i) (hi : i < threadsCount)
    (hw : s.workers i = some w) (hd : w.place = .done) : Step s { s with main := .join (i + 1) }
  | ret (h : s.main = .join threadsCount) : Step s { s with main := .returned 0 }
  | worker {k : Nat} {w : Worker} (hw : s.workers k = some w) (hp : w.place ≠ .done) :
    Step s { s with
      workers := Function.update s.workers k (some (l.workerStep s.foundPositive w).1)
      foundPositive := (l.workerStep s.foundPositive w).2 }

/-- A run of the call: any interleaving of the threads. -/
abbrev Run : Threads → Threads → Prop := Relation.ReflTransGen l.Step

/-! ## The ranges of the workers -/

/-- The number of records. -/
def count : Nat := l.ciphertext.length / 64

/-- The first record of worker `k`, and of the records after it. -/
def first (k : Nat) : Nat := k * l.count / threadsCount

/-- So few records that no `int` product overflows. -/
def Bounded : Prop := l.count ≤ 2 ^ 24

/-- The hint of record `i` is positive. -/
def Hit (i : Nat) : Prop := l.isPositive (64 * i) = true

variable {l}

theorem trials_eq (hb : l.Bounded) : l.trials = l.count := by
  unfold Bounded at hb
  exact int32_eq (show -(2 ^ 31 : Int) ≤ (l.count : Int) by omega)
    (show (l.count : Int) < 2 ^ 31 by omega)

theorem int32_share (hb : l.Bounded) {k : Nat} (hk : k ≤ threadsCount) :
    (int32 (k * l.trials)).tdiv threadsCount = l.first k := by
  unfold Bounded at hb
  have hle : k * l.count ≤ 4 * 2 ^ 24 := Nat.mul_le_mul hk hb
  have hcast : (k : Int) * l.trials = ((k * l.count : Nat) : Int) := by
    rw [trials_eq hb]
    push_cast
    rfl
  rw [hcast, int32_eq (by omega) (by omega), Int.tdiv_eq_ediv_of_nonneg (by omega)]
  exact (Int.natCast_ediv _ _).symm

theorem startTrials_eq (hb : l.Bounded) {k : Nat} (hk : k < threadsCount) :
    l.startTrials k = l.first k :=
  int32_share hb hk.le

theorem first_threadsCount : l.first threadsCount = l.count :=
  Nat.mul_div_cancel_left _ (by decide)

theorem first_mono {j k : Nat} (h : j ≤ k) : l.first j ≤ l.first k :=
  Nat.div_le_div_right (Nat.mul_le_mul_right _ h)

theorem first_le {k : Nat} (hk : k ≤ threadsCount) : l.first k ≤ l.count :=
  first_threadsCount (l := l) ▸ first_mono hk

theorem endTrials_eq (hb : l.Bounded) {k : Nat} (hk : k < threadsCount) :
    l.endTrials k = l.first (k + 1) := by
  have hle : l.first (k + 1) ≤ l.count := first_le hk
  unfold endTrials
  rw [int32_share hb (show k + 1 ≤ threadsCount from hk), trials_eq hb]
  exact if_neg (by omega)

/-- Worker `k` starts at its first record, with the records up to the next worker's to try. -/
theorem newWorker_eq (hb : l.Bounded) {k : Nat} (hk : k < threadsCount) :
    l.newWorker k = ⟨64 * l.first k, (l.first (k + 1) - l.first k : Nat), 0, .loopTest⟩ := by
  have hmono := first_mono (l := l) (Nat.le_add_right k 1)
  have hle : l.first (k + 1) ≤ l.count := first_le hk
  have hb' : l.count ≤ 2 ^ 24 := hb
  unfold newWorker sizeT
  rw [startTrials_eq hb hk, endTrials_eq hb hk]
  have hsize : int32 (int32 ((l.first (k + 1) : Int) - l.first k) * 64) =
      ((l.first (k + 1) - l.first k) * 64 : Nat) := by
    rw [int32_eq (x := _ - _) (by omega) (by omega), int32_eq (by omega) (by omega)]
    omega
  have hoff : int32 (64 * (l.first k : Int)) = (64 * l.first k : Nat) := by
    rw [int32_eq (by omega) (by omega)]
    omega
  have hdiv : (((l.first (k + 1) - l.first k) * 64 : Nat) % (2 ^ 64 : Int)).toNat / 64 =
      l.first (k + 1) - l.first k := by omega
  rw [hsize, hoff]
  dsimp only
  rw [hdiv, int32_eq (by omega) (by omega), Int.toNat_natCast]

/-- Every record is in the range of some worker. -/
theorem exists_range {i : Nat} (hi : i < l.count) :
    ∃ k < threadsCount, l.first k ≤ i ∧ i < l.first (k + 1) := by
  have hex : ∃ k, i < l.first k := ⟨threadsCount, first_threadsCount (l := l) ▸ hi⟩
  obtain ⟨m, hm⟩ : ∃ m, Nat.find hex = m + 1 := by
    refine Nat.exists_eq_succ_of_ne_zero fun h0 => ?_
    have hlt := Nat.find_spec hex
    rw [h0, first, Nat.zero_mul, Nat.zero_div] at hlt
    omega
  have hlt := Nat.find_spec hex
  have hle := Nat.find_min hex (m := m) (by omega)
  have hmin : Nat.find hex ≤ threadsCount := Nat.find_min' hex (first_threadsCount (l := l) ▸ hi)
  rw [hm] at hlt hmin
  exact ⟨m, by omega, by omega, hlt⟩

/-! ## What every step keeps -/

/-- Worker `k` under way: it has tried the records before its pointer, none of them positive, and
it ended because none is left or because `FOUND_POSITIVE` was set. -/
structure WorkerOk (l : Lookup) (foundPositive : Int) (k : Nat) (w : Worker) : Prop where
  trials_eq : w.trials = (l.first (k + 1) - l.first k : Nat)
  ciphertext_eq : w.ciphertext = 64 * (l.first k + w.i)
  i_le : (w.i : Int) ≤ w.trials
  body : w.place = .body → (w.i : Int) < w.trials
  found : w.place = .found → (w.i : Int) < w.trials ∧ l.Hit (l.first k + w.i)
  passed : ∀ j < w.i, ¬ l.Hit (l.first k + j)
  done : w.place = .done → (w.i : Int) = w.trials ∨ foundPositive ≠ 0

/-- How many workers the main thread has created. -/
def created : MainPlace → Nat
  | .create i => i
  | _ => threadsCount

/-- How many workers the main thread has joined. -/
def joined : MainPlace → Nat
  | .create _ => 0
  | .join i => i
  | .returned _ => threadsCount

/-- What holds in every state of a call that was started with `foundPositive` and `out`. -/
structure Inv (l : Lookup) (foundPositive : Int) (out : Out) (s : Threads) : Prop where
  out_eq : s.out = out
  status : ∀ status, s.main = .returned status → status = 0
  created_le : created s.main ≤ threadsCount
  joined_le : joined s.main ≤ threadsCount
  workers_isSome : ∀ k, (s.workers k).isSome ↔ k < created s.main
  worker : ∀ k w, s.workers k = some w → WorkerOk l s.foundPositive k w
  joined_done : ∀ k < joined s.main, ∀ w, s.workers k = some w → w.place = .done
  stays : foundPositive ≠ 0 → s.foundPositive ≠ 0
  sound : s.foundPositive ≠ 0 → foundPositive ≠ 0 ∨ ∃ i < l.count, l.Hit i

theorem inv_start (foundPositive : Int) (out : Out) :
    Inv l foundPositive out (start foundPositive out) where
  out_eq := rfl
  status _ h := by cases h
  created_le := Nat.zero_le _
  joined_le := Nat.zero_le _
  workers_isSome k := by simp [start, created]
  worker k w h := by cases h
  joined_done k hk := absurd hk (Nat.not_lt_zero k)
  stays h := h
  sound h := .inl h

theorem workerOk_new (hb : l.Bounded) {k : Nat} (hk : k < threadsCount) (foundPositive : Int) :
    WorkerOk l foundPositive k (l.newWorker k) := by
  rw [newWorker_eq hb hk]
  exact ⟨rfl, rfl, by dsimp only; omega, nofun, nofun, by simp, nofun⟩

/-- Another worker may set the flag. -/
theorem WorkerOk.mono {fp fp' : Int} {k : Nat} {w : Worker} (h : WorkerOk l fp k w)
    (hfp : fp ≠ 0 → fp' ≠ 0) : WorkerOk l fp' k w :=
  ⟨h.trials_eq, h.ciphertext_eq, h.i_le, h.body, h.found, h.passed,
    fun hd => (h.done hd).imp_right hfp⟩

/-- A worker keeps its own invariant, and sets the flag only for a positive hint. -/
theorem workerOk_step {fp : Int} {k : Nat} {w : Worker} (h : WorkerOk l fp k w) :
    WorkerOk l (l.workerStep fp w).2 k (l.workerStep fp w).1 ∧
      (fp ≠ 0 → (l.workerStep fp w).2 ≠ 0) ∧
      ((l.workerStep fp w).2 ≠ 0 → fp ≠ 0 ∨
        ∃ i < l.first (k + 1), l.Hit i) := by
  unfold workerStep
  cases hp : w.place with
  | loopTest =>
    dsimp only
    split
    · rename_i hgo
      exact ⟨⟨h.trials_eq, h.ciphertext_eq, h.i_le, fun _ => hgo.1, nofun, h.passed, nofun⟩, id,
        .inl⟩
    · rename_i hstop
      have hi := h.i_le
      refine ⟨⟨h.trials_eq, h.ciphertext_eq, h.i_le, nofun, nofun, h.passed, fun _ => ?_⟩, id, .inl⟩
      by_cases hfp : fp = 0
      · left
        dsimp only
        have : ¬ (w.i : Int) < w.trials := fun hlt => hstop ⟨hlt, hfp⟩
        omega
      · exact .inr hfp
  | body =>
    have hlt := h.body hp
    dsimp only
    split
    · rename_i hhit
      rw [h.ciphertext_eq] at hhit
      exact ⟨⟨h.trials_eq, h.ciphertext_eq, h.i_le, nofun, fun _ => ⟨hlt, hhit⟩, h.passed, nofun⟩,
        id, .inl⟩
    · rename_i hmiss
      rw [h.ciphertext_eq] at hmiss
      refine ⟨⟨h.trials_eq, ?_, by dsimp only; omega, nofun, nofun, ?_, nofun⟩, id, .inl⟩
      · dsimp only
        rw [h.ciphertext_eq]
        omega
      · intro j hj
        obtain hlt | rfl := Nat.lt_succ_iff_lt_or_eq.mp hj
        · exact h.passed j hlt
        · exact hmiss
  | found =>
    obtain ⟨hlt, hhit⟩ := h.found hp
    have htrials := h.trials_eq
    refine ⟨⟨h.trials_eq, h.ciphertext_eq, h.i_le, nofun, nofun, h.passed, fun _ => .inr (by simp)⟩,
      fun _ => by simp, fun _ => .inr ⟨_, ?_, hhit⟩⟩
    omega
  | done => exact ⟨h, id, .inl⟩

section Steps

variable {fp : Int} {out : Out} {s s' : Threads}

/-- The main thread creates a worker. -/
theorem Inv.create (hb : l.Bounded) (h : Inv l fp out s) {i : Nat} (hm : s.main = .create i)
    (hi : i < threadsCount) :
    Inv l fp out { s with
      workers := Function.update s.workers i (some (l.newWorker i))
      main := .create (i + 1) } := by
  have hsome : ∀ k, (s.workers k).isSome ↔ k < i := by
    have := h.workers_isSome
    rwa [hm] at this
  refine ⟨h.out_eq, nofun, hi, Nat.zero_le _, fun k => ?_, fun k w hw => ?_, fun k hk => ?_,
    h.stays, h.sound⟩
  · dsimp only
    by_cases hki : k = i
    · simp [hki, created]
    · rw [Function.update_of_ne hki, hsome k, created]
      omega
  · dsimp only at hw ⊢
    by_cases hki : k = i
    · subst hki
      rw [Function.update_self] at hw
      rw [← Option.some.inj hw]
      exact workerOk_new hb hi _
    · rw [Function.update_of_ne hki] at hw
      exact h.worker k w hw
  · exact absurd hk (Nat.not_lt_zero k)

/-- A worker steps: the others only see the flag. -/
theorem Inv.workerStep (h : Inv l fp out s) {k : Nat} {w : Worker} (hw : s.workers k = some w)
    (hp : w.place ≠ .done) :
    Inv l fp out { s with
      workers := Function.update s.workers k (some (l.workerStep s.foundPositive w).1)
      foundPositive := (l.workerStep s.foundPositive w).2 } := by
  obtain ⟨hok, hmono, hsound⟩ := workerOk_step (h.worker k w hw)
  refine ⟨h.out_eq, h.status, h.created_le, h.joined_le, fun j => ?_, fun j v hv => ?_,
    fun j hj v hv => ?_, fun h0 => hmono (h.stays h0), fun hne => ?_⟩
  · dsimp only
    by_cases hjk : j = k
    · rw [hjk, Function.update_self, ← h.workers_isSome k, hw]
      simp
    · rw [Function.update_of_ne hjk]
      exact h.workers_isSome j
  · dsimp only at hv ⊢
    by_cases hjk : j = k
    · rw [hjk, Function.update_self] at hv
      cases hv
      exact hjk ▸ hok
    · rw [Function.update_of_ne hjk] at hv
      exact (h.worker j v hv).mono hmono
  · dsimp only at hj hv
    by_cases hjk : j = k
    · exact absurd (h.joined_done k (hjk ▸ hj) w hw) hp
    · rw [Function.update_of_ne hjk] at hv
      exact h.joined_done j hj v hv
  · obtain hset | ⟨i, hi, hhit⟩ := hsound hne
    · exact h.sound hset
    · have hk : k < threadsCount :=
        ((h.workers_isSome k).mp (by rw [hw]; rfl)).trans_le h.created_le
      exact .inr ⟨i, hi.trans_le (first_le hk), hhit⟩

/-- **Every step keeps the invariant.** -/
theorem inv_step (hb : l.Bounded) (h : Inv l fp out s) (hs : l.Step s s') : Inv l fp out s' := by
  cases hs with
  | create hm hi => exact h.create hb hm hi
  | created hm =>
    have hsome := h.workers_isSome
    rw [hm] at hsome
    exact ⟨h.out_eq, nofun, Nat.le_refl _, Nat.zero_le _, hsome, h.worker,
      fun k hk => absurd hk (Nat.not_lt_zero k), h.stays, h.sound⟩
  | @join i w hm hi hw hd =>
    have hsome := h.workers_isSome
    have hjoined := h.joined_done
    rw [hm] at hsome hjoined
    refine ⟨h.out_eq, nofun, Nat.le_refl _, hi, hsome, h.worker, fun k hk v hv => ?_, h.stays,
      h.sound⟩
    obtain hlt | rfl := Nat.lt_succ_iff_lt_or_eq.mp hk
    · exact hjoined k hlt v hv
    · rw [hw] at hv
      cases hv
      exact hd
  | ret hm =>
    have hsome := h.workers_isSome
    have hjoined := h.joined_done
    rw [hm] at hsome hjoined
    exact ⟨h.out_eq, fun status hst => by cases hst; rfl, Nat.le_refl _, Nat.le_refl _, hsome,
      h.worker, hjoined, h.stays, h.sound⟩
  | worker hw hp => exact h.workerStep hw hp

theorem inv_run (hb : l.Bounded) (hrun : l.Run (start fp out) s) : Inv l fp out s := by
  induction hrun with
  | refl => exact inv_start fp out
  | tail _ hstep ih => exact inv_step hb ih hstep

/-- **A call leaves the caller's buffers as they were, and returns 0.** -/
theorem returned_out (hb : l.Bounded) (hrun : l.Run (start fp out) s) {status : Int}
    (hret : s.main = .returned status) : status = 0 ∧ s.out = out :=
  ⟨(inv_run hb hrun).status status hret, (inv_run hb hrun).out_eq⟩

/-- **The flag tells whether there is a positive hint**, after a call that started with it
cleared: what the workers have passed over by then is every record. -/
theorem foundPositive_iff (hb : l.Bounded) (hrun : l.Run (start 0 out) s) {status : Int}
    (hret : s.main = .returned status) :
    s.foundPositive ≠ 0 ↔ ∃ i < l.count, l.Hit i := by
  have h := inv_run hb hrun
  constructor
  · intro hset
    obtain hstart | hhit := h.sound hset
    · exact absurd rfl hstart
    · exact hhit
  · rintro ⟨i, hi, hhit⟩ hclear
    obtain ⟨k, hk, hfirst, hlast⟩ := exists_range hi
    have hsome := (h.workers_isSome k).mpr (by rw [hret]; exact hk)
    obtain ⟨w, hw⟩ := Option.isSome_iff_exists.mp hsome
    have hok := h.worker k w hw
    have hend := hok.done (h.joined_done k (by rw [hret]; exact hk) w hw)
    have hall : (w.i : Int) = w.trials := hend.resolve_right fun hne => hne hclear
    rw [hok.trials_eq] at hall
    refine hok.passed (i - l.first k) (by omega) ?_
    rw [Nat.add_sub_cancel' hfirst]
    exact hhit

/-! ## Every schedule ends -/

/-- The steps a worker can still make. -/
def workerTogo (w : Worker) : Nat :=
  match w.place with
  | .loopTest => 3 * (w.trials - w.i).toNat + 1
  | .body => 3 * (w.trials - w.i).toNat
  | .found => 1
  | .done => 0

/-- The steps of the main thread, with those of the workers it will create. -/
def mainTogo (n : Nat) : MainPlace → Nat
  | .create i => (threadsCount - i) * (3 * n + 2) + 6
  | .join i => threadsCount - i + 1
  | .returned _ => 0

/-- A bound on the steps from a state. -/
def togo (l : Lookup) (s : Threads) : Nat :=
  mainTogo l.count s.main + ∑ k ∈ Finset.range threadsCount, (s.workers k).elim 0 workerTogo

theorem sum_update (workers : Nat → Option Worker) {k : Nat} (hk : k < threadsCount)
    (w : Option Worker) (f : Option Worker → Nat) :
    (∑ j ∈ Finset.range threadsCount, f (Function.update workers k w j)) + f (workers k) =
      (∑ j ∈ Finset.range threadsCount, f (workers j)) + f w := by
  have hmem := Finset.mem_range.mpr hk
  have hrest : ∑ j ∈ (Finset.range threadsCount).erase k, f (Function.update workers k w j) =
      ∑ j ∈ (Finset.range threadsCount).erase k, f (workers j) :=
    Finset.sum_congr rfl fun j hj => by rw [Function.update_of_ne (Finset.ne_of_mem_erase hj)]
  rw [← Finset.add_sum_erase _ _ hmem, ← Finset.add_sum_erase _ _ hmem, hrest, Function.update_self]
  omega

theorem togo_workerStep {k : Nat} {w : Worker} (h : WorkerOk l fp k w) (hp : w.place ≠ .done) :
    workerTogo (l.workerStep fp w).1 < workerTogo w := by
  unfold workerStep
  cases hplace : w.place with
  | loopTest =>
    dsimp only
    split <;> simp [workerTogo, hplace]
  | body =>
    have hlt := h.body hplace
    dsimp only
    split <;> simp only [workerTogo, hplace] <;> omega
  | found => simp [workerTogo, hplace]
  | done => exact absurd hplace hp

/-- Every step uses up one of the steps to go. -/
theorem togo_step (hb : l.Bounded) (h : Inv l fp out s) (hs : l.Step s s') :
    l.togo s' < l.togo s := by
  unfold togo
  cases hs with
  | @create i hm hi =>
    have hnone : s.workers i = none := by
      have hsome := h.workers_isSome i
      rw [hm] at hsome
      simpa using hsome.not.mpr (Nat.lt_irrefl i)
    have hsum := sum_update s.workers hi (some (l.newWorker i)) (Option.elim · 0 workerTogo)
    have hnew : workerTogo (l.newWorker i) ≤ 3 * l.count + 1 := by
      have hle : l.first (i + 1) ≤ l.count := first_le hi
      rw [newWorker_eq hb hi]
      simp only [workerTogo]
      omega
    have hpred : threadsCount - i = threadsCount - (i + 1) + 1 := by omega
    simp only [hnone, Option.elim_none, Option.elim_some] at hsum
    simp only [hm, mainTogo, hpred, Nat.add_mul, Nat.one_mul]
    omega
  | created hm =>
    have h4 : threadsCount = 4 := rfl
    simp only [hm, mainTogo, Nat.sub_self, Nat.zero_mul]
    omega
  | join hm hi =>
    simp only [hm, mainTogo]
    omega
  | ret hm =>
    simp only [hm, mainTogo]
    omega
  | @worker k w hw hp =>
    have hk : k < threadsCount :=
      ((h.workers_isSome k).mp (by rw [hw]; rfl)).trans_le h.created_le
    have hsum := sum_update s.workers hk (some (l.workerStep s.foundPositive w).1)
      (Option.elim · 0 workerTogo)
    have hlt := togo_workerStep (h.worker k w hw) hp
    simp only [hw, Option.elim_some] at hsum
    dsimp only
    omega

/-- A call that has not returned can go on. -/
theorem exists_step (h : Inv l fp out s) (hnot : ∀ status, s.main ≠ .returned status) :
    ∃ s', l.Step s s' := by
  cases hm : s.main with
  | create i =>
    have hle := h.created_le
    rw [hm] at hle
    obtain hlt | rfl := Nat.lt_or_eq_of_le hle
    · exact ⟨_, .create hm hlt⟩
    · exact ⟨_, .created hm⟩
  | join i =>
    have hle := h.joined_le
    rw [hm] at hle
    obtain hi | rfl := Nat.lt_or_eq_of_le hle
    · obtain ⟨w, hw⟩ := Option.isSome_iff_exists.mp
        ((h.workers_isSome i).mpr (by rw [hm]; exact hi))
      by_cases hd : w.place = .done
      · exact ⟨_, .join hm hi hw hd⟩
      · exact ⟨_, .worker hw hd⟩
    · exact ⟨_, .ret hm⟩
  | returned status => exact absurd hm (hnot status)

/-- **Every schedule ends**: from any state of a call it can go on until it returns, and every
step brings it closer. -/
theorem exists_returned (hb : l.Bounded) (h : Inv l fp out s) :
    ∃ s' status, l.Run s s' ∧ s'.main = .returned status := by
  induction hn : l.togo s using Nat.strong_induction_on generalizing s with
  | _ n ih =>
    by_cases hret : ∃ status, s.main = .returned status
    · obtain ⟨status, hret⟩ := hret
      exact ⟨s, status, .refl, hret⟩
    · obtain ⟨s', hstep⟩ := exists_step h fun status hs => hret ⟨status, hs⟩
      obtain ⟨t, status, hrun, ht⟩ :=
        ih _ (hn ▸ togo_step hb h hstep) (inv_step hb h hstep) rfl
      exact ⟨t, status, .head hstep hrun, ht⟩

end Steps

/-! ## The two versions compared -/

/-- Record `i` is the first with a positive hint. -/
structure FirstHit (l : Lookup) (i : Nat) : Prop where
  lt : i < l.count
  hit : l.Hit i
  first : ∀ j < i, ¬ l.Hit j

theorem FirstHit.unique {i j : Nat} (hi : l.FirstHit i) (hj : l.FirstHit j) : i = j := by
  rcases Nat.lt_trichotomy i j with hlt | heq | hgt
  · exact absurd hi.hit (hj.first i hlt)
  · exact heq
  · exact absurd hj.hit (hi.first j hgt)

/-- What `user_get_file_key` returns for the record `i`. -/
def keyOut (l : Lookup) (i : Nat) : Out := ⟨l.decryptAt (64 * i + 32), 32⟩

theorem tryFrom_spec (out : Out) (n i : Nat) (hn : i + n = l.count) (hpass : ∀ j < i, ¬ l.Hit j) :
    (∃ j, l.FirstHit j ∧ l.tryFrom n (64 * i) out = (0, l.keyOut j)) ∨
      ((∀ j < l.count, ¬ l.Hit j) ∧ l.tryFrom n (64 * i) out = (-1, out)) := by
  induction n generalizing i with
  | zero =>
    right
    rw [Nat.add_zero] at hn
    exact ⟨hn ▸ hpass, rfl⟩
  | succ n ih =>
    rw [tryFrom]
    by_cases hhit : l.isPositive (64 * i) = true
    · left
      rw [if_pos hhit]
      exact ⟨i, ⟨by omega, hhit, hpass⟩, rfl⟩
    · rw [if_neg hhit]
      refine ih (i + 1) (by omega) fun j hj => ?_
      obtain hlt | rfl := Nat.lt_succ_iff_lt_or_eq.mp hj
      · exact hpass j hlt
      · exact hhit

/-- The sequential version finds the first record with a positive hint. -/
theorem userGetFileKey_spec (hb : l.Bounded) (out : Out) :
    (∃ i, l.FirstHit i ∧ l.userGetFileKey out = (0, l.keyOut i)) ∨
      ((∀ i < l.count, ¬ l.Hit i) ∧ l.userGetFileKey out = (-1, out)) := by
  unfold userGetFileKey
  rw [trials_eq hb, Int.toNat_natCast]
  exact tryFrom_spec out l.count 0 (Nat.zero_add _) (by simp)

/-- The status and the outputs of a call agree with those of `user_get_file_key`. -/
def Agrees (l : Lookup) (out : Out) (status : Int) (s : Threads) : Prop :=
  status = (l.userGetFileKey out).1 ∧
    ((l.userGetFileKey out).1 = 0 → s.out = (l.userGetFileKey out).2)

/-- **When the two versions agree**: the multi-threaded one returns under every schedule, and it
agrees with the sequential one iff there is a positive hint and the caller's buffers held the file
key of that record and its size already before the call. -/
theorem mt_agrees_iff (l : Lookup) (hb : l.Bounded) (foundPositive : Int) (out : Out) :
    (∃ s status, l.Run (start foundPositive out) s ∧ s.main = .returned status) ∧
      ∀ s status, l.Run (start foundPositive out) s → s.main = .returned status →
        (l.Agrees out status s ↔ ∃ i, l.FirstHit i ∧ out = l.keyOut i) := by
  refine ⟨exists_returned hb (inv_start foundPositive out), ?_⟩
  intro s status hrun hret
  obtain ⟨rfl, hout⟩ := returned_out hb hrun hret
  unfold Agrees
  rw [hout]
  obtain ⟨i, hi, hseq⟩ | ⟨hnone, hseq⟩ := userGetFileKey_spec hb out
  · rw [hseq]
    constructor
    · rintro ⟨-, heq⟩
      exact ⟨i, hi, heq rfl⟩
    · rintro ⟨j, hj, heq⟩
      refine ⟨rfl, fun _ => ?_⟩
      rw [heq, hj.unique hi]
  · rw [hseq]
    constructor
    · rintro ⟨hst, -⟩
      cases hst
    · rintro ⟨i, hi, -⟩
      exact absurd hi.hit (hnone i hi.lt)

end Lookup

/-! ## One record -/

/-- The key stream for the user key of `basic_user_validation_test`. -/
def testStream : Bytes :=
  [9, 141, 50, 129, 87, 104, 74, 58, 246, 242, 70, 6, 79, 181, 91, 131,
    220, 4, 183, 13, 124, 227, 241, 187, 164, 244, 13, 57, 13, 236, 58, 181]

/-- A stream cipher with that key stream. -/
def testAes : Aes where
  aesDecrypt ciphertext _ _ := ciphertext.mapIdx fun i b => b ^^^ testStream.getD i 0
  length_aesDecrypt _ _ _ := List.length_mapIdx

/-- The envelope of `basic_user_validation_test` for one user. -/
def testLookup : Lookup where
  aes := testAes
  userKey := lit "ux000000000000000000000000000000"
  ciphertext := testAes.aesDecrypt positiveHint [] [] ++
    testAes.aesDecrypt (lit "12345678901234567890123456789012") [] []

theorem testLookup_bounded : testLookup.Bounded := by
  unfold Lookup.Bounded Lookup.count
  decide +kernel

/-- Buffers before the call. -/
def testOut : Out := ⟨List.replicate 32 0, 0⟩

theorem testLookup_userGetFileKey :
    testLookup.userGetFileKey testOut = (0, ⟨lit "12345678901234567890123456789012", 32⟩) := by
  decide +kernel

/-- The first call of a process, for the only user of a group: status 0, but no key. -/
theorem testLookup_disagrees :
    testLookup.Bounded ∧ testLookup.count = 1 ∧ ∃ s status,
      testLookup.Run (Lookup.start 0 testOut) s ∧ s.main = .returned status ∧
        ¬ testLookup.Agrees testOut status s := by
  obtain ⟨s, status, hrun, hret⟩ :=
    Lookup.exists_returned testLookup_bounded (Lookup.inv_start 0 testOut)
  refine ⟨testLookup_bounded, by decide +kernel, s, status, hrun, hret, ?_⟩
  rintro ⟨-, hout⟩
  rw [(Lookup.returned_out testLookup_bounded hrun hret).2, testLookup_userGetFileKey] at hout
  exact absurd (congrArg Out.fkSize (hout rfl)) (by decide)

/-- With the key in the buffers before the call the two agree. -/
theorem mt_agrees_iff_testLookup :
    testLookup.Bounded ∧ ∃ s status, testLookup.Run (Lookup.start 1 (testLookup.keyOut 0)) s ∧
      s.main = .returned status ∧ testLookup.Agrees (testLookup.keyOut 0) status s := by
  have hfirst : testLookup.FirstHit 0 :=
    ⟨by decide +kernel, by unfold Lookup.Hit; decide +kernel, by simp⟩
  obtain ⟨⟨s, status, hrun, hret⟩, hiff⟩ :=
    testLookup.mt_agrees_iff testLookup_bounded 1 (testLookup.keyOut 0)
  exact ⟨testLookup_bounded, s, status, hrun, hret,
    (hiff s status hrun hret).mpr ⟨0, hfirst, rfl⟩⟩

end ASky.Client

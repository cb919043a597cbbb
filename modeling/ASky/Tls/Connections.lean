import ASky.Lib.OrdMap

/-!
# The table of TLS connections

Model of `IncomeSSLConnection` and `ecall_tls_recv` (`enclave/tls_config.cpp`): the static map from
file descriptors to connections, its operations and the places that close a descriptor.

* A connection is known by the number of its socket, `made` counting them up; a file descriptor is
  only the key of `connection_table` and may come back. `fdOf` is the member `fd_` of each
  connection object, `none` for `-1`. A descriptor is not negative: `event_loop` exits when
  `accept` returns `-1`.
* `sockets` is the kernel's view: the connection whose socket is open under a number. `::close(fd)`
  closes whatever is open under `fd`.
* `closes` and `reads` record the run: for each `::close` the connection it was made for, and for
  each `SSL_read` the connection and the result. The code does not read them.
* The results of `SSL_accept` and `SSL_read` are arguments. `process_input` keeps its exceptions to
  itself, and `ssl_` is only passed on to OpenSSL; both are left out.
* `close` is also the destructor; erasing an entry runs it.

`no_dead_connection_kept`: run one call at a time, no dead connection stays in the table, as long as
`SSL_read` reports no error other than `SSL_ERROR_WANT_READ` and `SSL_ERROR_WANT_WRITE`. On such an
error `recv` throws without `close()`, and `ecall_tls_recv` returns `-4` and keeps the entry.
-/

namespace ASky.Tls

open Std (ExtTreeMap)
open Lib

/-- `SSL_get_error`, as `err_str` tells its values apart. -/
inductive SslError where
  | none
  | ssl
  | wantRead
  | wantWrite
  | wantX509Lookup
  | syscall
  | zeroReturn
  | wantConnect
  | wantAccept
  | unknown
  deriving DecidableEq

/-- The result of `SSL_read`: a positive number, `0`, or a negative number with its error. -/
inductive Read where
  | positive
  | zero
  | negative (e : SslError)
  deriving DecidableEq

/-- `IncomeSSLConnection::Exceptions`, and the `std::runtime_error` of `recv`. -/
inductive Exn where
  | notFound
  | connectionClosed
  | runtimeError (what : SslError)
  deriving DecidableEq

/-- The static members, the connection objects and the kernel's descriptors. -/
structure Conns where
  sslCtx : Bool
  table : ExtTreeMap Nat Nat := ∅
  fdOf : Nat → Option Nat := fun _ => none
  sockets : Nat → Option Nat := fun _ => none
  made : Nat := 0
  closes : List Nat := []
  reads : List (Nat × Read) := []

/-- How a call of `ecall_tls_recv` ends. `running`: it is still in its loop. -/
inductive Ret where
  | returned (code : Int)
  | escaped (e : Exn)
  | running
  deriving DecidableEq

namespace Conns

/-- `accept`: a new socket under `fd`. -/
def accept (s : Conns) (fd : Nat) : Conns :=
  { s with sockets := Function.update s.sockets fd (some s.made), made := s.made + 1 }

/-- `::close(fd)`, for connection `id`. -/
def kernelClose (s : Conns) (id fd : Nat) : Conns :=
  { s with sockets := Function.update s.sockets fd none, closes := s.closes ++ [id] }

/-- `close()`, and the destructor. -/
def close (s : Conns) (id : Nat) : Conns :=
  match s.fdOf id with
  | none => s
  | some fd => { s.kernelClose id fd with fdOf := Function.update s.fdOf id none }

/-- `connection_table.erase(fd)`. -/
def erase (s : Conns) (fd : Nat) : Conns :=
  match s.table[fd]? with
  | none => s
  | some id => { s.close id with table := s.table.erase fd }

/-- `connection_table.insert(make_pair(fd, IncomeSSLConnection(fd, cli)))`: a key that is there
keeps its value, and the new object is destroyed. -/
def insert (s : Conns) (fd id : Nat) : Conns :=
  let s' := { s with fdOf := Function.update s.fdOf id (some fd) }
  match s.table[fd]? with
  | none => { s' with table := s.table.insert fd id }
  | some _ => s'.close id

/-- `addConnection(fd)`, for the connection `id` that was accepted under `fd`. -/
def addConnection (s : Conns) (fd id : Nat) (accepted : Bool) : Int × Conns :=
  if s.sslCtx = false then (-1, s)
  else if accepted = false then (-2, (s.erase fd).kernelClose id fd)
  else (0, (s.erase fd).insert fd id)

/-- `getConnection(fd)`. -/
def getConnection (s : Conns) (fd : Nat) : Except Exn Nat :=
  match s.table[fd]? with
  | some id => .ok id
  | none => .error .notFound

/-- `removeConnection(fd)`. -/
def removeConnection (s : Conns) (fd : Nat) : Except Exn Conns :=
  match s.table[fd]? with
  | some _ => .ok (s.erase fd)
  | none => .error .notFound

/-- `finish()`. -/
def finish (s : Conns) : Conns :=
  { s.table.toList.foldl (fun s kv => s.close kv.2) s with table := ∅ }

/-- An `SSL_read` on connection `id`. -/
def sslRead (s : Conns) (id : Nat) (read : Read) : Conns :=
  { s with reads := s.reads ++ [(id, read)] }

/-- `recv` on connection `id`. -/
def recv (s : Conns) (id : Nat) (read : Read) : Except Exn Unit × Conns :=
  match read with
  | .positive => (.ok (), s.sslRead id read)
  | .zero => (.error .connectionClosed, (s.sslRead id read).close id)
  | .negative e => (.error (.runtimeError e), s.sslRead id read)

/-- The loop of `ecall_tls_recv`, over the results of `SSL_read`, and its handlers. -/
def recvLoop (s : Conns) (fd id : Nat) : List Read → Ret × Conns
  | [] => (.running, s)
  | read :: rest =>
    match s.recv id read with
    | (.ok _, s') => s'.recvLoop fd id rest
    | (.error .notFound, s') => (.returned (-1), s')
    | (.error .connectionClosed, s') =>
      match s'.removeConnection fd with
      | .ok s'' => (.returned (-2), s'')
      | .error e => (.escaped e, s')
    | (.error (.runtimeError _), s') => (.returned (-4), s')

/-- `ecall_tls_recv(fd)`. -/
def ecallTlsRecv (s : Conns) (fd : Nat) (reads : List Read) : Ret × Conns :=
  match s.getConnection fd with
  | .error _ => (.returned (-1), s)
  | .ok id => s.recvLoop fd id reads

end Conns

/-! ## Calls, one at a time -/

/-- A call, with the results of `SSL_accept` and `SSL_read`. -/
inductive Call where
  | addConnection (fd : Nat) (accepted : Bool)
  | ecallTlsRecv (fd : Nat) (reads : List Read)
  deriving DecidableEq

/-- One call. A connection that is added was accepted right before. -/
def Call.run (s : Conns) : Call → Conns
  | .addConnection fd accepted => ((s.accept fd).addConnection fd s.made accepted).2
  | .ecallTlsRecv fd reads => (s.ecallTlsRecv fd reads).2

/-- A result after which the connection is of no use: end of stream, or an error that is not a
request to try again. -/
def Read.Final : Read → Prop
  | .positive => False
  | .zero => True
  | .negative e => e ≠ .wantRead ∧ e ≠ .wantWrite

instance : DecidablePred Read.Final
  | .positive => inferInstanceAs (Decidable False)
  | .zero => inferInstanceAs (Decidable True)
  | .negative e => inferInstanceAs (Decidable (e ≠ .wantRead ∧ e ≠ .wantWrite))

/-- Connection `id` reported such a result. -/
def Conns.Ended (s : Conns) (id : Nat) : Prop := ∃ r ∈ s.reads, r.1 = id ∧ r.2.Final

/-- **No dead connection is kept**: none is in the table, and each had its descriptor closed exactly
once. -/
def Conns.NoneDead (s : Conns) : Prop :=
  (∀ fd id : Nat, s.table[fd]? = some id → ¬ s.Ended id) ∧ ∀ id, s.Ended id → s.closes.count id = 1

/-- No `SSL_read` of the call reports an error other than a request to try again. -/
def Call.Calm : Call → Prop
  | .addConnection _ _ => True
  | .ecallTlsRecv _ reads => ∀ e, .negative e ∈ reads → e = .wantRead ∨ e = .wantWrite

/-! ## What the operations change -/

namespace Conns

@[simp] theorem close_table (s : Conns) (id : Nat) : (s.close id).table = s.table := by
  unfold close
  cases s.fdOf id <;> rfl

@[simp] theorem close_reads (s : Conns) (id : Nat) : (s.close id).reads = s.reads := by
  unfold close
  cases s.fdOf id <;> rfl

@[simp] theorem close_made (s : Conns) (id : Nat) : (s.close id).made = s.made := by
  unfold close
  cases s.fdOf id <;> rfl

@[simp] theorem close_fdOf (s : Conns) (id : Nat) :
    (s.close id).fdOf = Function.update s.fdOf id none := by
  unfold close
  cases h : s.fdOf id with
  | none =>
    show s.fdOf = Function.update s.fdOf id none
    rw [← h, Function.update_eq_self]
  | some fd => rfl

/-- `close` closes the descriptor that `fd_` names. -/
theorem close_sockets (s : Conns) (id q : Nat) :
    (s.close id).sockets q = if s.fdOf id = some q then none else s.sockets q := by
  unfold close
  cases h : s.fdOf id with
  | none => simp
  | some fd =>
    show Function.update s.sockets fd none q = _
    by_cases hq : q = fd
    · rw [hq, Function.update_self, if_pos rfl]
    · rw [Function.update_of_ne hq, if_neg fun he => hq (Option.some.inj he).symm]

/-- `close` closes a descriptor once, and only for its own connection. -/
theorem close_count (s : Conns) (id q : Nat) :
    (s.close id).closes.count q =
      s.closes.count q + if q = id ∧ s.fdOf id ≠ none then 1 else 0 := by
  unfold close
  cases h : s.fdOf id with
  | none => simp
  | some fd =>
    show (s.closes ++ [id]).count q = _
    rw [List.count_append, List.count_singleton]
    by_cases hq : q = id
    · simp [hq]
    · simp [hq, Ne.symm hq]

@[simp] theorem erase_reads (s : Conns) (fd : Nat) : (s.erase fd).reads = s.reads := by
  unfold erase
  cases s.table[fd]? with
  | none => rfl
  | some id => exact s.close_reads id

@[simp] theorem erase_made (s : Conns) (fd : Nat) : (s.erase fd).made = s.made := by
  unfold erase
  cases s.table[fd]? with
  | none => rfl
  | some id => exact s.close_made id

/-- `erase` removes the one entry. -/
theorem erase_table (s : Conns) (fd q : Nat) :
    (s.erase fd).table[q]? = if q = fd then none else s.table[q]? := by
  unfold erase
  cases h : s.table[fd]? with
  | none =>
    show s.table[q]? = _
    by_cases hq : q = fd
    · rw [if_pos hq, hq, h]
    · rw [if_neg hq]
  | some id => exact getElem?_erase s.table fd q

/-- `erase` closes no other connection. -/
theorem erase_count {s : Conns} {fd q : Nat} (h : s.table[fd]? ≠ some q) :
    (s.erase fd).closes.count q = s.closes.count q := by
  unfold erase
  cases hfd : s.table[fd]? with
  | none => rfl
  | some id =>
    have hne : q ≠ id := fun hq => h (hq ▸ hfd)
    show (s.close id).closes.count q = _
    rw [close_count, if_neg (fun hc => hne hc.1), Nat.add_zero]

theorem erase_fdOf {s : Conns} {fd q : Nat} (h : s.table[fd]? ≠ some q) :
    (s.erase fd).fdOf q = s.fdOf q := by
  unfold erase
  cases hfd : s.table[fd]? with
  | none => rfl
  | some id =>
    have hne : q ≠ id := fun hq => h (hq ▸ hfd)
    show (s.close id).fdOf q = _
    rw [close_fdOf, Function.update_of_ne hne]

theorem ended_erase {s : Conns} {fd q : Nat} : (s.erase fd).Ended q ↔ s.Ended q := by
  unfold Ended
  rw [erase_reads]

/-- An `SSL_read` adds its own result. -/
theorem ended_sslRead {s : Conns} {id q : Nat} {read : Read} :
    (s.sslRead id read).Ended q ↔ s.Ended q ∨ (q = id ∧ read.Final) := by
  unfold Ended sslRead
  simp only [List.mem_append, List.mem_singleton]
  constructor
  · rintro ⟨r, hr | rfl, hid, hf⟩
    · exact Or.inl ⟨r, hr, hid, hf⟩
    · exact Or.inr ⟨hid.symm, hf⟩
  · rintro (⟨r, hr, hid, hf⟩ | ⟨rfl, hf⟩)
    · exact ⟨r, Or.inl hr, hid, hf⟩
    · exact ⟨_, Or.inr rfl, rfl, hf⟩

/-! ## The invariant -/

/-- Between two calls: an entry is a connection that is open under its key and reported nothing
final; a connection that did was closed once; and nothing happened to those not made yet. -/
structure Sound (s : Conns) : Prop where
  entry : ∀ {fd id : Nat}, s.table[fd]? = some id →
    s.fdOf id = some fd ∧ id < s.made ∧ s.closes.count id = 0 ∧ ¬ s.Ended id
  ended : ∀ {id : Nat}, s.Ended id → s.closes.count id = 1
  fresh : ∀ {id : Nat}, s.made ≤ id → s.closes.count id = 0 ∧ ¬ s.Ended id

theorem Sound.noneDead {s : Conns} (h : s.Sound) : s.NoneDead :=
  ⟨fun _ _ hid => (h.entry hid).2.2.2, fun _ hid => h.ended hid⟩

theorem sound_start (sslCtx : Bool) : Sound { sslCtx := sslCtx } where
  entry h := by simp at h
  ended h := by
    obtain ⟨r, hr, -⟩ := h
    exact absurd hr (by simp)
  fresh _ := ⟨rfl, by rintro ⟨r, hr, -⟩; exact absurd hr (by simp)⟩

theorem Sound.accept {s : Conns} (h : s.Sound) (fd : Nat) : (s.accept fd).Sound where
  entry hid := by
    obtain ⟨hfd, hlt, hc, he⟩ := h.entry hid
    exact ⟨hfd, Nat.lt_succ_of_lt hlt, hc, he⟩
  ended hid := h.ended hid
  fresh hid := h.fresh (Nat.le_of_succ_le hid)

/-- The entries that stay are other connections than the one that is closed. -/
theorem Sound.erase {s : Conns} (h : s.Sound) (fd : Nat) : (s.erase fd).Sound := by
  refine ⟨fun {fd' id} hid => ?_, fun {q} hq => ?_, fun {q} hq => ?_⟩
  · rw [erase_table] at hid
    split at hid
    · exact absurd hid (by simp)
    · rename_i hne
      obtain ⟨hopen, hlt, hzero, hnot⟩ := h.entry hid
      -- one connection is not open under two descriptors
      have hdiff : s.table[fd]? ≠ some id := fun hfd =>
        hne (Option.some.inj (hopen.symm.trans (h.entry hfd).1))
      exact ⟨(erase_fdOf hdiff).trans hopen, (s.erase_made fd).symm ▸ hlt,
        (erase_count hdiff).trans hzero, mt ended_erase.mp hnot⟩
  · have hq := ended_erase.mp hq
    rw [erase_count fun hfd => (h.entry hfd).2.2.2 hq]
    exact h.ended hq
  · rw [erase_made] at hq
    obtain ⟨hzero, hnot⟩ := h.fresh hq
    rw [erase_count fun hfd => absurd (h.entry hfd).2.1 (Nat.not_lt.mpr hq)]
    exact ⟨hzero, mt ended_erase.mp hnot⟩

/-- The descriptor of a connection that never got into the table is closed. -/
theorem Sound.kernelClose {s : Conns} (h : s.Sound) {id : Nat} (hlt : id < s.made)
    (hnot : ∀ fd : Nat, s.table[fd]? ≠ some id) (hne : ¬ s.Ended id) (fd : Nat) :
    (s.kernelClose id fd).Sound := by
  have hcount : ∀ q, q ≠ id → (s.kernelClose id fd).closes.count q = s.closes.count q := by
    intro q hq
    show (s.closes ++ [id]).count q = _
    rw [List.count_append, List.count_singleton]
    simp [Ne.symm hq]
  refine ⟨fun {fd' id'} hid => ?_, fun {q} hq => ?_, fun {q} hq => ?_⟩
  · obtain ⟨hopen, hlt', hzero, hnot'⟩ := h.entry hid
    have hdiff : id' ≠ id := fun he => hnot fd' (he ▸ hid)
    exact ⟨hopen, hlt', (hcount id' hdiff).trans hzero, hnot'⟩
  · have hdiff : q ≠ id := fun he => hne (he ▸ hq)
    exact (hcount q hdiff).trans (h.ended hq)
  · obtain ⟨hzero, hnot'⟩ := h.fresh hq
    have hdiff : q ≠ id := by
      have : s.made ≤ q := hq
      omega
    exact ⟨(hcount q hdiff).trans hzero, hnot'⟩

/-- A connection gets into the table. -/
theorem Sound.insert {s : Conns} (h : s.Sound) {fd id : Nat} (hfd : s.table[fd]? = none)
    (hlt : id < s.made) (hnot : ∀ fd' : Nat, s.table[fd']? ≠ some id)
    (hzero : s.closes.count id = 0) (hne : ¬ s.Ended id) : (s.insert fd id).Sound := by
  have heq : s.insert fd id =
      { s with
        fdOf := Function.update s.fdOf id (some fd)
        table := s.table.insert fd id } := by
    unfold Conns.insert
    dsimp only
    rw [hfd]
  rw [heq]
  refine ⟨fun {fd' id'} hid => ?_, fun hq => h.ended hq, fun hq => h.fresh hq⟩
  have hid : (s.table.insert fd id)[fd']? = some id' := hid
  rw [getElem?_insert] at hid
  split at hid
  · rename_i hq
    obtain rfl := Option.some.inj hid
    exact ⟨by rw [hq]; exact Function.update_self _ _ _, hlt, hzero, hne⟩
  · have hdiff : id' ≠ id := fun he => hnot fd' (he ▸ hid)
    obtain ⟨hopen, hrest⟩ := h.entry hid
    exact ⟨(Function.update_of_ne hdiff _ _).trans hopen, hrest⟩

/-- **`addConnection` keeps the invariant**, for any descriptor and any result of `SSL_accept`. -/
theorem Sound.addConnection {s : Conns} (h : s.Sound) (fd : Nat) (accepted : Bool) :
    ((s.accept fd).addConnection fd s.made accepted).2.Sound := by
  have herase : ((s.accept fd).erase fd).Sound := (h.accept fd).erase fd
  have hlt : s.made < ((s.accept fd).erase fd).made := by
    rw [erase_made]
    exact Nat.lt_succ_self _
  have hnot : ∀ fd' : Nat, ((s.accept fd).erase fd).table[fd']? ≠ some s.made := by
    intro fd' hid
    rw [erase_table] at hid
    split at hid
    · exact absurd hid (by simp)
    · exact absurd (h.entry hid).2.1 (Nat.lt_irrefl _)
  obtain ⟨hcount, hfresh⟩ := h.fresh (Nat.le_refl s.made)
  have hne : ¬ ((s.accept fd).erase fd).Ended s.made := mt ended_erase.mp hfresh
  have hentry : (s.accept fd).table[fd]? ≠ some s.made := fun hid =>
    absurd (h.entry hid).2.1 (Nat.lt_irrefl _)
  have hzero : ((s.accept fd).erase fd).closes.count s.made = 0 := (erase_count hentry).trans hcount
  unfold Conns.addConnection
  split
  · exact h.accept fd
  · split
    · exact herase.kernelClose hlt hnot hne fd
    · refine herase.insert ?_ hlt hnot hzero hne
      rw [erase_table, if_pos rfl]

/-- An `SSL_read` that reports nothing final changes nothing. -/
theorem Sound.sslRead {s : Conns} (h : s.Sound) (id : Nat) {read : Read} (hread : ¬ read.Final) :
    (s.sslRead id read).Sound := by
  have hended : ∀ q, (s.sslRead id read).Ended q ↔ s.Ended q := fun q =>
    ended_sslRead.trans ⟨fun hq => hq.resolve_right fun hr => hread hr.2, Or.inl⟩
  refine ⟨fun {fd id'} hid => ?_, fun {q} hq => ?_, fun {q} hq => ?_⟩
  · obtain ⟨hopen, hlt, hzero, hnot⟩ := h.entry hid
    exact ⟨hopen, hlt, hzero, mt (hended _).mp hnot⟩
  · exact h.ended ((hended q).mp hq)
  · obtain ⟨hzero, hnot⟩ := h.fresh hq
    exact ⟨hzero, mt (hended _).mp hnot⟩

/-- A final result on a connection that is closed and out of the table. -/
theorem Sound.sslRead_gone {s : Conns} (h : s.Sound) {id : Nat} (read : Read) (hlt : id < s.made)
    (hnot : ∀ fd : Nat, s.table[fd]? ≠ some id) (hone : s.closes.count id = 1) :
    (s.sslRead id read).Sound := by
  refine ⟨fun {fd id'} hid => ?_, fun {q} hq => ?_, fun {q} hq => ?_⟩
  · obtain ⟨hopen, hlt', hzero, hne⟩ := h.entry hid
    have hdiff : id' ≠ id := fun he => hnot fd (he ▸ hid)
    exact ⟨hopen, hlt', hzero, fun he => (ended_sslRead.mp he).elim hne fun hr => hdiff hr.1⟩
  · rcases ended_sslRead.mp hq with hq | ⟨rfl, -⟩
    · exact h.ended hq
    · exact hone
  · obtain ⟨hzero, hne⟩ := h.fresh hq
    have hdiff : q ≠ id := by
      have : s.made ≤ q := hq
      omega
    exact ⟨hzero, fun he => (ended_sslRead.mp he).elim hne fun hr => hdiff hr.1⟩

/-- End of stream: `recv` closes the connection and `removeConnection` erases its entry, where the
destructor finds `fd_` at `-1`. Together they are one `erase`. -/
theorem removeConnection_close {s : Conns} {fd id : Nat} (hid : s.table[fd]? = some id) :
    ((s.sslRead id .zero).close id).removeConnection fd =
      .ok ((s.erase fd).sslRead id .zero) := by
  have htable : ((s.sslRead id .zero).close id).table = s.table := close_table _ _
  have hself : ((s.sslRead id .zero).close id).close id = (s.sslRead id .zero).close id := by
    have hnone : ((s.sslRead id .zero).close id).fdOf id = none := by
      rw [close_fdOf, Function.update_self]
    rw [close.eq_def, hnone]
  unfold removeConnection Conns.erase
  rw [htable, hid]
  dsimp only
  rw [hself]
  unfold close sslRead
  dsimp only
  cases s.fdOf id <;> rfl

/-- **`ecall_tls_recv` keeps the invariant** as long as no fatal error is reported. -/
theorem Sound.recvLoop {s : Conns} (h : s.Sound) {fd id : Nat} (hid : s.table[fd]? = some id)
    {reads : List Read} (hcalm : ∀ e, .negative e ∈ reads → e = .wantRead ∨ e = .wantWrite) :
    (s.recvLoop fd id reads).2.Sound := by
  induction reads generalizing s with
  | nil => exact h
  | cons read rest ih =>
    unfold Conns.recvLoop Conns.recv
    cases read with
    | positive =>
      exact ih (h.sslRead id (by simp [Read.Final])) hid fun e he =>
        hcalm e (List.mem_cons_of_mem _ he)
    | zero =>
      dsimp only
      rw [removeConnection_close hid]
      obtain ⟨hopen, hlt, hzero, -⟩ := h.entry hid
      refine (h.erase fd).sslRead_gone .zero ?_ ?_ ?_
      · rw [erase_made]
        exact hlt
      · intro fd' hfd'
        rw [erase_table] at hfd'
        split at hfd'
        · exact absurd hfd' (by simp)
        · rename_i hne
          exact hne (Option.some.inj ((h.entry hfd').1.symm.trans hopen))
      · unfold Conns.erase
        rw [hid]
        show (s.close id).closes.count id = 1
        rw [close_count, hzero, if_pos ⟨rfl, by rw [hopen]; simp⟩]
    | negative e =>
      have hretry : ¬ (Read.negative e).Final := by
        rintro ⟨h1, h2⟩
        rcases hcalm e List.mem_cons_self with rfl | rfl
        · exact h1 rfl
        · exact h2 rfl
      exact h.sslRead id hretry

theorem Sound.run {s : Conns} (h : s.Sound) {call : Call} (hcalm : call.Calm) :
    (call.run s).Sound := by
  cases call with
  | addConnection fd accepted => exact h.addConnection fd accepted
  | ecallTlsRecv fd reads =>
    show (s.ecallTlsRecv fd reads).2.Sound
    unfold Conns.ecallTlsRecv Conns.getConnection
    cases hid : s.table[fd]? with
    | none => exact h
    | some id => exact h.recvLoop hid hcalm

end Conns

/-- **No dead connection is kept**, after any sequence of calls, for any descriptors and any
results of `SSL_accept` and `SSL_read`, as long as no `SSL_read` reports an error other than a
request to try again. -/
theorem no_dead_connection_kept (sslCtx : Bool) {calls : List Call}
    (hcalm : ∀ call ∈ calls, call.Calm) :
    (calls.foldl Call.run { sslCtx := sslCtx }).NoneDead := by
  have hsound : ∀ (s : Conns), s.Sound → (calls.foldl Call.run s).Sound := by
    induction calls with
    | nil => exact fun s h => h
    | cons call rest ih =>
      intro s h
      exact ih (fun c hc => hcalm c (List.mem_cons_of_mem _ hc)) _
        (h.run (hcalm call List.mem_cons_self))
  exact (hsound _ (Conns.sound_start sslCtx)).noneDead

/-- The theorem for a connection that reads, is told to try again, and reaches the end of its
stream. -/
theorem no_dead_connection_kept_sample :
    ([.addConnection 5 true, .ecallTlsRecv 5 [.positive, .negative .wantRead],
      .ecallTlsRecv 5 [.zero], .addConnection 5 false].foldl Call.run
        { sslCtx := true }).NoneDead := by
  refine no_dead_connection_kept true ?_
  intro call hcall
  simp only [List.mem_cons, List.not_mem_nil, or_false] at hcall
  rcases hcall with rfl | rfl | rfl | rfl
  · trivial
  · intro e he
    simp at he
    exact Or.inl he
  · intro e he
    simp at he
  · trivial

/-- A connection that is reset by its peer stays in the table, and its descriptor stays open. -/
theorem dead_connection_kept :
    ¬ ([.addConnection 5 true, .ecallTlsRecv 5 [.negative .syscall]].foldl Call.run
      { sslCtx := true }).NoneDead := by
  intro h
  refine h.1 5 0 (by decide +kernel) ⟨(0, .negative .syscall), by decide +kernel, rfl, ?_⟩
  simp [Read.Final]

end ASky.Tls

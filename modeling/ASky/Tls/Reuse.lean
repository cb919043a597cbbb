import ASky.Tls.Connections

/-!
# A descriptor that comes back

The event loop accepts sockets and adds their connections, the service threads receive on them and
remove those that ended. Both work on `connection_table`, by descriptor, and the kernel hands out a
descriptor again as soon as it is closed. One step is one section under `table_lock`, one
`::close` or one call of OpenSSL.

* The event loop (`LoopPc`): `accept`, the first section of `addConnection`, `SSL_accept`,
  then `::close` or the second section. `event_loop.cpp` starts one of them.
* A service thread (`ServicePc`), of any number: `getConnection`, `SSL_read`, `close()`,
  `removeConnection`.
* `removeConnection` is called inside the handler of `ecall_tls_recv`, outside of its `try`. The
  `NOT_FOUND` it throws when the entry is gone leaves `ecall_tls_recv`, `consume_fd` and
  `enclave_thread`, none of which catches it: the process ends (`exited`), and with it every
  connection (`Conns.exit`).
* `close()` is one step, `::close(fd_)` together with `fd_ = -1`. This leaves out the runs in which
  a second call of `close()` on the same connection comes between the two and closes the number
  again: what it can hit there is a socket that was just accepted and is not registered yet.
* `finish()`, at any time.

`registered` are the connections for which `addConnection` returned `0`, with their descriptor;
`finished` and `again` those of them for which `finish()` was called, or `addConnection` for their
descriptor, since.

* **`registered_connection_kept`**: a registered connection stays in the table with its descriptor
  open, in every run in which `addConnection(fd)` does not insert while a service thread is in
  `ecall_tls_recv(fd)` with a connection that is closed already, and `removeConnection(fd)` is only
  called when there is an entry for `fd`.
* `fresh_connection_dropped`: without the first, the service thread erases the new connection.
  Without the second, the process ends.
-/

namespace ASky.Tls

open Std (ExtTreeMap)
open Lib

/-- Where the event loop is, with the descriptor and the connection it accepted. -/
inductive LoopPc where
  | idle
  | accepted (fd id : Nat)
  | handshake (fd id : Nat)
  | failed (fd id : Nat)
  | inserting (fd id : Nat)
  deriving DecidableEq

/-- Where a service thread is in `ecall_tls_recv(fd)`, with the connection it got. -/
inductive ServicePc where
  | idle
  | reading (fd id : Nat)
  | ended (fd id : Nat)
  | removing (fd id : Nat)
  deriving DecidableEq

/-- The descriptor and the connection the event loop is adding. -/
def LoopPc.on : LoopPc → Option (Nat × Nat)
  | .idle => none
  | .accepted fd id | .handshake fd id | .failed fd id | .inserting fd id => some (fd, id)

/-- The descriptor and the connection a service thread works on. -/
def ServicePc.on : ServicePc → Option (Nat × Nat)
  | .idle => none
  | .reading fd id | .ended fd id | .removing fd id => some (fd, id)

/-- The process ends: the table is gone, and the kernel closes every descriptor. -/
def Conns.exit (s : Conns) : Conns :=
  { s with table := ∅, fdOf := fun _ => none, sockets := fun _ => none }

structure System (τ : Type) where
  conns : Conns
  loop : LoopPc := .idle
  pc : τ → ServicePc := fun _ => .idle
  registered : List (Nat × Nat) := []
  finished : List Nat := []
  again : List Nat := []
  exited : Bool := false

/-- A step, of the event loop, of service thread `t`, or of the caller of `finish()`. -/
inductive Label (τ : Type) where
  | accept (fd : Nat)
  | erase
  | sslAccept (accepted : Bool)
  | closeFailed
  | insert
  | getConnection (t : τ) (fd : Nat)
  | sslRead (t : τ) (read : Read)
  | close (t : τ)
  | removeConnection (t : τ)
  | finish

variable {τ : Type}

namespace System

/-- The connections registered for `fd`. -/
def registeredFor (s : System τ) (fd : Nat) : List Nat :=
  (s.registered.filter fun r => r.2 = fd).map Prod.fst

/-- What a step of a running process does, if it can be made. -/
def act [DecidableEq τ] (s : System τ) : Label τ → Option (System τ)
  | .accept fd =>
    if s.loop = .idle ∧ s.conns.sockets fd = none then
      some { s with conns := s.conns.accept fd, loop := .accepted fd s.conns.made }
    else none
  | .erase =>
    match s.loop with
    | .accepted fd id =>
      if s.conns.sslCtx = false then some { s with loop := .idle }
      else some { s with
        conns := s.conns.erase fd
        loop := .handshake fd id
        again := s.again ++ s.registeredFor fd }
    | _ => none
  | .sslAccept accepted =>
    match s.loop with
    | .handshake fd id =>
      some { s with loop := if accepted then .inserting fd id else .failed fd id }
    | _ => none
  | .closeFailed =>
    match s.loop with
    | .failed fd id => some { s with conns := s.conns.kernelClose id fd, loop := .idle }
    | _ => none
  | .insert =>
    match s.loop with
    | .inserting fd id =>
      some { s with
        conns := s.conns.insert fd id
        loop := .idle
        registered := s.registered ++ [(id, fd)] }
    | _ => none
  | .getConnection t fd =>
    match s.pc t, s.conns.getConnection fd with
    | .idle, .ok id => some { s with pc := Function.update s.pc t (.reading fd id) }
    | .idle, .error _ => some s
    | _, _ => none
  | .sslRead t read =>
    match s.pc t with
    | .reading fd id =>
      some { s with
        conns := s.conns.sslRead id read
        pc := Function.update s.pc t (match read with
          | .positive => .reading fd id
          | .zero => .ended fd id
          | .negative _ => .idle) }
    | _ => none
  | .close t =>
    match s.pc t with
    | .ended fd id =>
      some { s with
        conns := s.conns.close id
        pc := Function.update s.pc t (.removing fd id) }
    | _ => none
  | .removeConnection t =>
    match s.pc t with
    | .removing fd _ =>
      match s.conns.removeConnection fd with
      | .ok conns => some { s with conns := conns, pc := Function.update s.pc t .idle }
      -- nothing catches the exception on its way out of `enclave_thread`
      | .error _ => some { s with conns := s.conns.exit, exited := true }
    | _ => none
  | .finish =>
    some { s with
      conns := s.conns.finish
      finished := s.finished ++ s.registered.map Prod.fst }

/-- One step. There is none after the end of the process. -/
def step [DecidableEq τ] (s : System τ) (l : Label τ) : Option (System τ) :=
  if s.exited then none else s.act l

/-- A run. -/
def run [DecidableEq τ] (s : System τ) : List (Label τ) → Option (System τ)
  | [] => some s
  | l :: ls => (s.step l).bind fun s' => s'.run ls

/-- A registered connection with no reason to be dropped: no end of stream, no `finish()`, and its
descriptor was not added again. -/
def Live (s : System τ) (id fd : Nat) : Prop :=
  (id, fd) ∈ s.registered ∧ (id, .zero) ∉ s.conns.reads ∧ id ∉ s.finished ∧ id ∉ s.again

/-- Such a connection is in the table, and its descriptor is open. -/
def Kept (s : System τ) : Prop :=
  ∀ id fd, s.Live id fd → s.conns.table[fd]? = some id ∧ s.conns.sockets fd = some id

/-- When `addConnection(fd)` inserts, no service thread is in `ecall_tls_recv(fd)` with a connection
that is closed. When a service thread calls `removeConnection(fd)`, there is an entry for `fd`: no
erase of `addConnection(fd)`, no other service thread and no `finish()` took it away since. -/
def Quiet (s : System τ) : Label τ → Prop
  | .insert => ∀ fd id, s.loop = .inserting fd id →
      ∀ t id', (s.pc t).on = some (fd, id') → s.conns.fdOf id' ≠ none
  | .removeConnection t => ∀ fd id, s.pc t = .removing fd id → s.conns.table[fd]? ≠ none
  | _ => True

/-- The states of the runs all of whose steps are quiet. -/
inductive QuietRun [DecidableEq τ] (sslCtx : Bool) : System τ → Prop
  | start : QuietRun sslCtx { conns := { sslCtx := sslCtx } }
  | step {s s' : System τ} {l : Label τ} (h : QuietRun sslCtx s) (hq : s.Quiet l)
      (hs : s.step l = some s') : QuietRun sslCtx s'

/-! ## The invariant -/

/-- What every quiet run keeps. A connection whose `fd_` is set owns the socket under that number
(`opened`), so `close()` never closes another's; the socket being added belongs to no registered
connection (`adding`); and while a service thread works on a descriptor, the table has nothing else
under it (`alone`). -/
structure Inv (s : System τ) : Prop where
  reg_fd : ∀ {id fd fd'}, (id, fd) ∈ s.registered → (id, fd') ∈ s.registered → fd = fd'
  reg_lt : ∀ {id fd}, (id, fd) ∈ s.registered → id < s.conns.made
  opened : ∀ {id fd}, s.conns.fdOf id = some fd →
    (id, fd) ∈ s.registered ∧ s.conns.sockets fd = some id
  entry : ∀ {fd id : Nat}, s.conns.table[fd]? = some id → (id, fd) ∈ s.registered
  adding : ∀ {fd id}, s.loop.on = some (fd, id) →
    s.conns.sockets fd = some id ∧ id < s.conns.made ∧ ∀ fd', (id, fd') ∉ s.registered
  erased : ∀ {fd id}, s.loop.on = some (fd, id) → s.loop ≠ .accepted fd id →
    s.conns.table[fd]? = none
  working : ∀ {t fd id}, (s.pc t).on = some (fd, id) → (id, fd) ∈ s.registered
  alone : ∀ {t fd id id'}, (s.pc t).on = some (fd, id) → s.conns.table[fd]? = some id' → id' = id
  saw : ∀ {t fd id}, s.pc t = .ended fd id ∨ s.pc t = .removing fd id →
    (id, .zero) ∈ s.conns.reads
  live : ∀ {id fd}, s.Live id fd → s.conns.table[fd]? = some id ∧ s.conns.fdOf id = some fd

theorem Inv.kept {s : System τ} (h : s.Inv) : s.Kept := fun _ _ hl =>
  ⟨(h.live hl).1, (h.opened (h.live hl).2).2⟩

theorem inv_start (sslCtx : Bool) : Inv ({ conns := { sslCtx := sslCtx } } : System τ) where
  reg_fd h := absurd h (by simp)
  reg_lt h := absurd h (by simp)
  opened h := absurd h (by simp)
  entry h := absurd h (by simp)
  adding h := absurd h (by simp [LoopPc.on])
  erased h := absurd h (by simp [LoopPc.on])
  working h := absurd h (by simp [ServicePc.on])
  alone h := absurd h (by simp [ServicePc.on])
  saw h := by rcases h with h | h <;> exact absurd h (by simp)
  live h := absurd h.1 (by simp)

/-! ## Closing a connection -/

/-- A connection that is not live may be closed. -/
theorem Inv.close {s : System τ} (h : s.Inv) {id : Nat} (hdead : ∀ fd, ¬ s.Live id fd) :
    Inv { s with conns := s.conns.close id } := by
  -- another owner of a socket keeps it
  have hkeep : ∀ {q fd}, s.conns.sockets fd = some q → q ≠ id →
      (s.conns.close id).sockets fd = some q := by
    intro q fd hs hq
    rw [Conns.close_sockets, if_neg, hs]
    intro hfd
    exact hq (Option.some.inj (hs.symm.trans (h.opened hfd).2))
  refine
    { reg_fd := h.reg_fd
      reg_lt := fun hr => (s.conns.close_made id).symm ▸ h.reg_lt hr
      opened := fun {q fd} hq => ?_
      entry := fun ht => h.entry (s.conns.close_table id ▸ ht)
      adding := fun {fd q} hl => ?_
      erased := fun hl hne => (s.conns.close_table id).symm ▸ h.erased hl hne
      working := h.working
      alone := fun hw ht => h.alone hw (s.conns.close_table id ▸ ht)
      saw := fun hp => (s.conns.close_reads id).symm ▸ h.saw hp
      live := fun {q fd} hl => ?_ }
  · have hq : (s.conns.close id).fdOf q = some fd := hq
    rw [Conns.close_fdOf] at hq
    have hne : q ≠ id := by
      rintro rfl
      rw [Function.update_self] at hq
      exact absurd hq (by simp)
    rw [Function.update_of_ne hne] at hq
    exact ⟨(h.opened hq).1, hkeep (h.opened hq).2 hne⟩
  · obtain ⟨hs, hlt, hreg⟩ := h.adding hl
    have hlt' : q < (s.conns.close id).made := (s.conns.close_made id).symm ▸ hlt
    by_cases hq : q = id
    · -- the connection being added is not registered, so its `fd_` is not set
      have hnone : s.conns.close id = s.conns := by
        cases hfd : s.conns.fdOf id with
        | none => rw [Conns.close.eq_def, hfd]
        | some fd' => exact absurd (h.opened hfd).1 (hq ▸ hreg fd')
      refine ⟨?_, hlt', hreg⟩
      show (s.conns.close id).sockets fd = some q
      rw [hnone]
      exact hs
    · exact ⟨hkeep hs hq, hlt', hreg⟩
  · have hlive : s.Live q fd := ⟨hl.1, s.conns.close_reads id ▸ hl.2.1, hl.2.2⟩
    have hne : q ≠ id := fun hq => hdead fd (hq ▸ hlive)
    refine ⟨(s.conns.close_table id).symm ▸ (h.live hlive).1, ?_⟩
    show (s.conns.close id).fdOf q = some fd
    rw [Conns.close_fdOf, Function.update_of_ne hne]
    exact (h.live hlive).2

/-- An entry may be erased if it is not live. -/
theorem Inv.erase {s : System τ} (h : s.Inv) (fd : Nat)
    (hdead : ∀ id, s.conns.table[fd]? = some id → ¬ s.Live id fd) :
    Inv { s with conns := s.conns.erase fd } := by
  cases hfd : s.conns.table[fd]? with
  | none =>
    have hsame : s.conns.erase fd = s.conns := by
      rw [Conns.erase.eq_def, hfd]
    rw [hsame]
    exact h
  | some id =>
    have hall : ∀ fd', ¬ s.Live id fd' := fun fd' hl =>
      hdead id hfd (h.reg_fd hl.1 (h.entry hfd) ▸ hl)
    have hclose := h.close hall
    have heq : s.conns.erase fd = { s.conns.close id with table := s.conns.table.erase fd } := by
      rw [Conns.erase.eq_def, hfd]
    have hsub : ∀ {q id' : Nat}, (s.conns.table.erase fd)[q]? = some id' →
        q ≠ fd ∧ s.conns.table[q]? = some id' := by
      intro q id' hq
      rw [getElem?_erase] at hq
      split at hq
      · exact absurd hq (by simp)
      · rename_i hne
        exact ⟨hne, hq⟩
    rw [heq]
    refine
      { reg_fd := hclose.reg_fd
        reg_lt := hclose.reg_lt
        opened := hclose.opened
        entry := fun ht => h.entry (hsub ht).2
        adding := hclose.adding
        erased := fun {q id'} hl hne => ?_
        working := hclose.working
        alone := fun hw ht => h.alone hw (hsub ht).2
        saw := hclose.saw
        live := fun {q fd'} hl => ?_ }
    · show (s.conns.table.erase fd)[q]? = none
      rw [getElem?_erase, h.erased hl hne, ite_self]
    · obtain ⟨ht, hf⟩ := hclose.live hl
      have ht : s.conns.table[fd']? = some q := s.conns.close_table id ▸ ht
      refine ⟨?_, hf⟩
      show (s.conns.table.erase fd)[fd']? = some q
      rw [getElem?_erase, if_neg, ht]
      rintro rfl
      have hqid : q = id := Option.some.inj (ht.symm.trans hfd)
      exact hall fd' (hqid ▸ ⟨hl.1, s.conns.close_reads id ▸ hl.2.1, hl.2.2⟩)

/-! ## The steps of the event loop -/

/-- The event loop moves on. -/
theorem Inv.setLoop {s : System τ} (h : s.Inv) {l : LoopPc}
    (hadd : ∀ fd id, l.on = some (fd, id) →
      s.conns.sockets fd = some id ∧ id < s.conns.made ∧ ∀ fd', (id, fd') ∉ s.registered)
    (herased : ∀ fd id, l.on = some (fd, id) → l ≠ .accepted fd id →
      s.conns.table[fd]? = none) : Inv { s with loop := l } :=
  { h with
    adding := fun {fd id} hl => hadd fd id hl
    erased := fun {fd id} hl hne => herased fd id hl hne
    live := h.live }

/-- It moves on with the same socket. -/
theorem Inv.setLoop_same {s : System τ} (h : s.Inv) {l : LoopPc} {fd id : Nat}
    (hon : s.loop.on = l.on ∧ l.on = some (fd, id)) (hnot : s.loop ≠ .accepted fd id) :
    Inv { s with loop := l } := by
  obtain ⟨hsame, hon⟩ := hon
  refine h.setLoop (fun fd' id' hon' => h.adding (hsame.trans hon')) fun fd' id' hon' _ => ?_
  obtain ⟨rfl, rfl⟩ := Prod.mk.inj (Option.some.inj (hon.symm.trans hon'))
  exact h.erased (hsame.trans hon) hnot

theorem Inv.setLoop_idle {s : System τ} (h : s.Inv) : Inv { s with loop := .idle } :=
  h.setLoop (fun _ _ hl => absurd hl (by simp [LoopPc.on]))
    fun _ _ hl => absurd hl (by simp [LoopPc.on])

/-- The kernel hands out a free descriptor. -/
theorem Inv.accept {s : System τ} (h : s.Inv) {fd : Nat} (hfree : s.conns.sockets fd = none) :
    Inv { s with conns := s.conns.accept fd, loop := .accepted fd s.conns.made } where
  reg_fd := h.reg_fd
  reg_lt hr := Nat.lt_succ_of_lt (h.reg_lt hr)
  opened := by
    intro id fd' hid
    obtain ⟨hreg, hs⟩ := h.opened hid
    have hne : fd' ≠ fd := by
      rintro rfl
      exact absurd (hs.symm.trans hfree) (by simp)
    exact ⟨hreg, (Function.update_of_ne hne _ _).trans hs⟩
  entry := h.entry
  adding := by
    intro fd' id hl
    obtain ⟨rfl, rfl⟩ := Prod.mk.inj (Option.some.inj hl)
    refine ⟨Function.update_self _ _ _, Nat.lt_succ_self _, fun fd' hr => ?_⟩
    exact absurd (h.reg_lt hr) (Nat.lt_irrefl _)
  erased := by
    intro fd' id hl hne
    obtain ⟨rfl, rfl⟩ := Prod.mk.inj (Option.some.inj hl)
    exact absurd rfl hne
  working := h.working
  alone := h.alone
  saw := h.saw
  live := h.live

/-- Reasons to drop a connection may be added. -/
theorem Inv.excuse {s : System τ} (h : s.Inv) (finished again : List Nat) :
    Inv { s with finished := s.finished ++ finished, again := s.again ++ again } :=
  { h with
    live := fun hl => h.live ⟨hl.1, hl.2.1, fun hf => hl.2.2.1 (List.mem_append_left _ hf),
      fun ha => hl.2.2.2 (List.mem_append_left _ ha)⟩ }

/-- The first section of `addConnection`. An entry it finds is an old one. -/
theorem Inv.addErase {s : System τ} (h : s.Inv) {fd id : Nat} (hl : s.loop = .accepted fd id) :
    Inv { s with
      conns := s.conns.erase fd
      loop := .handshake fd id
      again := s.again ++ s.registeredFor fd } := by
  have hagain : Inv { s with again := s.again ++ s.registeredFor fd } := by
    have := h.excuse [] (s.registeredFor fd)
    rw [List.append_nil] at this
    exact this
  have herase := hagain.erase fd (by
    intro id' ht hlive
    refine hlive.2.2.2 (List.mem_append_right _ (List.mem_map.mpr ⟨(id', fd), ?_, rfl⟩))
    exact List.mem_filter.mpr ⟨h.entry ht, by simp⟩)
  refine herase.setLoop (fun fd' id' hon => ?_) fun fd' id' hon _ => ?_
  · exact herase.adding (by rw [hl]; exact hon)
  · obtain ⟨rfl, rfl⟩ := Prod.mk.inj (Option.some.inj hon)
    rw [Conns.erase_table, if_pos rfl]

/-- `SSL_accept` failed: `addConnection` closes the socket it was given. -/
theorem Inv.closeFailed {s : System τ} (h : s.Inv) {fd id : Nat} (hl : s.loop = .failed fd id) :
    Inv { s with conns := s.conns.kernelClose id fd, loop := .idle } := by
  have hon : s.loop.on = some (fd, id) := by rw [hl]; rfl
  obtain ⟨hs, hlt, hreg⟩ := h.adding hon
  refine
    { reg_fd := h.reg_fd
      reg_lt := h.reg_lt
      opened := fun {q fd'} hq => ?_
      entry := h.entry
      adding := fun hl => absurd hl (by simp [LoopPc.on])
      erased := fun hl => absurd hl (by simp [LoopPc.on])
      working := h.working
      alone := h.alone
      saw := h.saw
      live := h.live }
  obtain ⟨hr, hsq⟩ := h.opened hq
  have hne : fd' ≠ fd := by
    rintro rfl
    exact hreg fd' (Option.some.inj (hsq.symm.trans hs) ▸ hr)
  exact ⟨hr, (Function.update_of_ne hne _ _).trans hsq⟩

/-- No service thread works on the descriptor that is added: with an open connection it would own
the socket, and closed ones are excluded. -/
theorem Inv.not_working {s : System τ} (h : s.Inv) {fd id : Nat} (hon : s.loop.on = some (fd, id))
    (hquiet : ∀ t id', (s.pc t).on = some (fd, id') → s.conns.fdOf id' ≠ none) (t : τ) (id' : Nat) :
    (s.pc t).on ≠ some (fd, id') := by
  intro hw
  obtain ⟨hs, -, hreg⟩ := h.adding hon
  obtain ⟨fd', hfd⟩ := Option.ne_none_iff_exists'.mp (hquiet t id' hw)
  obtain ⟨hr, hs'⟩ := h.opened hfd
  obtain rfl := h.reg_fd hr (h.working hw)
  exact hreg fd' (Option.some.inj (hs'.symm.trans hs) ▸ hr)

/-- **The second section of `addConnection`.** -/
theorem Inv.insert {s : System τ} (h : s.Inv) {fd id : Nat} (hl : s.loop = .inserting fd id)
    (hquiet : ∀ t id', (s.pc t).on = some (fd, id') → s.conns.fdOf id' ≠ none) :
    Inv { s with
      conns := s.conns.insert fd id
      loop := .idle
      registered := s.registered ++ [(id, fd)] } := by
  have hon : s.loop.on = some (fd, id) := by rw [hl]; rfl
  obtain ⟨hs, hlt, hreg⟩ := h.adding hon
  have hnone := h.erased hon (by rw [hl]; simp)
  have heq : s.conns.insert fd id = { s.conns with
      fdOf := Function.update s.conns.fdOf id (some fd)
      table := s.conns.table.insert fd id } := by
    unfold Conns.insert
    dsimp only
    rw [hnone]
  have hmem : ∀ {q f}, (q, f) ∈ s.registered ++ [(id, fd)] →
      (q ≠ id ∧ (q, f) ∈ s.registered) ∨ (q = id ∧ f = fd) := by
    intro q f hr
    rcases List.mem_append.mp hr with hr | hr
    · exact Or.inl ⟨fun hq => hreg f (hq ▸ hr), hr⟩
    · exact Or.inr (Prod.mk.inj (List.mem_singleton.mp hr))
  rw [heq]
  refine
    { reg_fd := fun {q f f'} hr hr' => ?_
      reg_lt := fun {q f} hr => ?_
      opened := fun {q f} hq => ?_
      entry := fun {f q} ht => ?_
      adding := fun hl => absurd hl (by simp [LoopPc.on])
      erased := fun hl => absurd hl (by simp [LoopPc.on])
      working := fun hw => List.mem_append_left _ (h.working hw)
      alone := fun {t f q q'} hw ht => ?_
      saw := h.saw
      live := fun {q f} hlive => ?_ }
  · rcases hmem hr with ⟨hne, hr⟩ | ⟨heq1, rfl⟩
    · rcases hmem hr' with ⟨-, hr'⟩ | ⟨heq2, -⟩
      · exact h.reg_fd hr hr'
      · exact absurd heq2 hne
    · rcases hmem hr' with ⟨hne, -⟩ | ⟨-, rfl⟩
      · exact absurd heq1 hne
      · rfl
  · rcases hmem hr with ⟨-, hr⟩ | ⟨rfl, -⟩
    · exact h.reg_lt hr
    · exact hlt
  · have hq : Function.update s.conns.fdOf id (some fd) q = some f := hq
    by_cases hqi : q = id
    · rw [hqi, Function.update_self] at hq
      obtain rfl := Option.some.inj hq
      exact ⟨List.mem_append_right _ (by rw [hqi]; simp), hqi ▸ hs⟩
    · rw [Function.update_of_ne hqi] at hq
      exact ⟨List.mem_append_left _ (h.opened hq).1, (h.opened hq).2⟩
  · have ht : (s.conns.table.insert fd id)[f]? = some q := ht
    rw [getElem?_insert] at ht
    split at ht
    · rename_i hf
      rw [hf, ← Option.some.inj ht]
      exact List.mem_append_right _ (by simp)
    · exact List.mem_append_left _ (h.entry ht)
  · have ht : (s.conns.table.insert fd id)[f]? = some q' := ht
    rw [getElem?_insert] at ht
    split at ht
    · rename_i hf
      exact absurd (hf ▸ hw) (h.not_working hon hquiet t q)
    · exact h.alone hw ht
  · show (s.conns.table.insert fd id)[f]? = some q ∧
      Function.update s.conns.fdOf id (some fd) q = some f
    rw [getElem?_insert]
    rcases hmem hlive.1 with ⟨hne, hr⟩ | ⟨rfl, rfl⟩
    · obtain ⟨ht, hf⟩ := h.live ⟨hr, hlive.2⟩
      have hfd : f ≠ fd := by
        rintro rfl
        exact absurd (hnone.symm.trans ht) (by simp)
      rw [if_neg hfd, Function.update_of_ne hne]
      exact ⟨ht, hf⟩
    · rw [if_pos rfl, Function.update_self]
      exact ⟨rfl, rfl⟩

/-! ## The steps of the service threads -/

/-- A service thread moves on. -/
theorem Inv.setPc [DecidableEq τ] {s : System τ} (h : s.Inv) (t : τ) {p : ServicePc}
    (hon : ∀ fd id, p.on = some (fd, id) → (id, fd) ∈ s.registered ∧
      ∀ id', s.conns.table[fd]? = some id' → id' = id)
    (hsaw : ∀ fd id, p = .ended fd id ∨ p = .removing fd id → (id, .zero) ∈ s.conns.reads) :
    Inv { s with pc := Function.update s.pc t p } := by
  refine
    { h with
      working := fun {u fd id} hw => ?_
      alone := fun {u fd id id'} hw ht => ?_
      saw := fun {u fd id} hp => ?_
      live := h.live }
  · have hw : (Function.update s.pc t p u).on = some (fd, id) := hw
    rw [Function.update_apply] at hw
    split at hw
    · exact (hon fd id hw).1
    · exact h.working hw
  · have hw : (Function.update s.pc t p u).on = some (fd, id) := hw
    rw [Function.update_apply] at hw
    split at hw
    · exact (hon fd id hw).2 id' ht
    · exact h.alone hw ht
  · have hp : Function.update s.pc t p u = .ended fd id ∨
      Function.update s.pc t p u = .removing fd id := hp
    rw [Function.update_apply] at hp
    split at hp
    · exact hsaw fd id hp
    · exact h.saw hp

/-- A thread that leaves. -/
theorem Inv.setPc_none [DecidableEq τ] {s : System τ} (h : s.Inv) (t : τ) {p : ServicePc}
    (hp : p.on = none) : Inv { s with pc := Function.update s.pc t p } := by
  refine h.setPc t (fun fd id hon => absurd (hp.symm.trans hon) (by simp)) ?_
  rintro fd id (rfl | rfl)
  · exact absurd hp (by simp [ServicePc.on])
  · exact absurd hp (by simp [ServicePc.on])

theorem Inv.sslRead {s : System τ} (h : s.Inv) (id : Nat) (read : Read) :
    Inv { s with conns := s.conns.sslRead id read } :=
  { h with
    saw := fun hp => List.mem_append_left _ (h.saw hp)
    live := fun hl => h.live ⟨hl.1, fun hz => hl.2.1 (List.mem_append_left _ hz), hl.2.2⟩ }

/-- A connection that reached its end is not live. -/
theorem not_live_of_zero {s : System τ} {id : Nat} (h : (id, .zero) ∈ s.conns.reads) (fd : Nat) :
    ¬ s.Live id fd := fun hl => hl.2.1 h

theorem Inv.stepRead [DecidableEq τ] {s : System τ} (h : s.Inv) {t : τ} {fd id : Nat}
    (hpc : s.pc t = .reading fd id) (read : Read) {p : ServicePc}
    (hp : p = .reading fd id ∨ (read = .zero ∧ p = .ended fd id) ∨ p = .idle) :
    Inv { s with
      conns := s.conns.sslRead id read
      pc := Function.update s.pc t p } := by
  have hon : (s.pc t).on = some (fd, id) := by rw [hpc]; rfl
  refine (h.sslRead id read).setPc t (fun fd' id' hw => ?_) fun fd' id' hw => ?_
  · have hsame : fd' = fd ∧ id' = id := by
      rcases hp with rfl | ⟨-, rfl⟩ | rfl
      · exact (Prod.mk.inj (Option.some.inj hw)).imp Eq.symm Eq.symm
      · exact (Prod.mk.inj (Option.some.inj hw)).imp Eq.symm Eq.symm
      · exact absurd hw (by simp [ServicePc.on])
    obtain ⟨rfl, rfl⟩ := hsame
    exact ⟨h.working hon, fun _ ht => h.alone hon ht⟩
  · rcases hp with rfl | ⟨rfl, rfl⟩ | rfl
    · rcases hw with hw | hw <;> exact absurd hw (by simp)
    · rcases hw with hw | hw
      · obtain ⟨rfl, rfl⟩ := ServicePc.ended.inj hw
        exact List.mem_append_right _ (by simp)
      · exact absurd hw (by simp)
    · rcases hw with hw | hw <;> exact absurd hw (by simp)

theorem Inv.stepClose [DecidableEq τ] {s : System τ} (h : s.Inv) {t : τ} {fd id : Nat}
    (hpc : s.pc t = .ended fd id) :
    Inv { s with
      conns := s.conns.close id
      pc := Function.update s.pc t (.removing fd id) } := by
  have hon : (s.pc t).on = some (fd, id) := by rw [hpc]; rfl
  have hzero := h.saw (Or.inl hpc)
  have hclose := h.close (not_live_of_zero hzero)
  refine hclose.setPc t (fun fd' id' hw => ?_) fun fd' id' hw => ?_
  · obtain ⟨rfl, rfl⟩ := Prod.mk.inj (Option.some.inj hw)
    exact ⟨h.working hon, fun _ ht => hclose.alone hon ht⟩
  · rcases hw with hw | hw
    · exact absurd hw (by simp)
    · obtain ⟨rfl, rfl⟩ := ServicePc.removing.inj hw
      exact hclose.saw (Or.inl hpc)

/-- `removeConnection` finds the connection it is called for. -/
theorem Inv.stepRemove [DecidableEq τ] {s : System τ} (h : s.Inv) {t : τ} {fd id : Nat}
    (hpc : s.pc t = .removing fd id) :
    Inv { s with
      conns := s.conns.erase fd
      pc := Function.update s.pc t .idle } := by
  have hon : (s.pc t).on = some (fd, id) := by rw [hpc]; rfl
  have herase := h.erase fd fun id' ht =>
    not_live_of_zero (h.alone hon ht ▸ h.saw (Or.inr hpc)) fd
  exact herase.setPc_none t rfl

/-! ## Finish -/

/-- Once all registered connections are finished, all may be closed. -/
theorem Inv.closeAll (s : System τ) (hfin : ∀ {id fd}, (id, fd) ∈ s.registered → id ∈ s.finished)
    (entries : List (Nat × Nat)) {conns : Conns} (h : Inv { s with conns := conns }) :
    Inv { s with conns := entries.foldl (fun c kv => c.close kv.2) conns } := by
  induction entries generalizing conns with
  | nil => exact h
  | cons kv rest ih => exact ih (h.close fun _ hl => hl.2.2.1 (hfin hl.1))

theorem Inv.finish {s : System τ} (h : s.Inv) :
    Inv { s with
      conns := s.conns.finish
      finished := s.finished ++ s.registered.map Prod.fst } := by
  have hexc : Inv { s with finished := s.finished ++ s.registered.map Prod.fst } := by
    have := h.excuse (s.registered.map Prod.fst) []
    rw [List.append_nil] at this
    exact this
  have hfin : ∀ {id fd}, (id, fd) ∈ s.registered →
      id ∈ s.finished ++ s.registered.map Prod.fst := fun hr =>
    List.mem_append_right _ (List.mem_map.mpr ⟨_, hr, rfl⟩)
  have hall := Inv.closeAll { s with finished := s.finished ++ s.registered.map Prod.fst } hfin
    s.conns.table.toList hexc
  unfold Conns.finish
  exact
    { hall with
      entry := fun ht => absurd ht (by simp)
      erased := fun _ _ => by simp
      alone := fun _ ht => absurd ht (by simp)
      live := fun hl => absurd (hfin hl.1) hl.2.2.1 }

/-! ## Runs -/

theorem act_of_step [DecidableEq τ] {s s' : System τ} {l : Label τ} (h : s.step l = some s') :
    s.act l = some s' := by
  unfold System.step at h
  by_cases hx : s.exited = true
  · rw [if_pos hx] at h
    cases h
  · rwa [if_neg hx] at h

/-- **One step keeps the invariant.** -/
theorem Inv.step [DecidableEq τ] {s s' : System τ} (h : s.Inv) {l : Label τ} (hq : s.Quiet l)
    (hs : s.step l = some s') : s'.Inv := by
  replace hs := act_of_step hs
  cases l with
  | accept fd =>
    simp only [System.act] at hs
    split at hs
    · rename_i hc
      obtain rfl := Option.some.inj hs
      exact h.accept hc.2
    · exact absurd hs (by simp)
  | erase =>
    simp only [System.act] at hs
    split at hs
    · rename_i fd id hl
      split at hs
      · obtain rfl := Option.some.inj hs
        exact h.setLoop_idle
      · obtain rfl := Option.some.inj hs
        exact h.addErase hl
    · exact absurd hs (by simp)
  | sslAccept accepted =>
    simp only [System.act] at hs
    split at hs
    · rename_i fd id hl
      obtain rfl := Option.some.inj hs
      have hnot : s.loop ≠ .accepted fd id := by simp [hl]
      cases accepted with
      | true => exact h.setLoop_same (by rw [hl]; exact ⟨rfl, rfl⟩) hnot
      | false => exact h.setLoop_same (by rw [hl]; exact ⟨rfl, rfl⟩) hnot
    · exact absurd hs (by simp)
  | closeFailed =>
    simp only [System.act] at hs
    split at hs
    · rename_i fd id hl
      obtain rfl := Option.some.inj hs
      exact h.closeFailed hl
    · exact absurd hs (by simp)
  | insert =>
    simp only [System.act] at hs
    split at hs
    · rename_i fd id hl
      obtain rfl := Option.some.inj hs
      exact h.insert hl (hq fd id hl)
    · exact absurd hs (by simp)
  | getConnection t fd =>
    simp only [System.act, Conns.getConnection] at hs
    split at hs
    · rename_i hpc hget
      obtain rfl := Option.some.inj hs
      split at hget
      · rename_i id hid
        obtain rfl := Except.ok.inj hget
        refine h.setPc t (fun fd' id' hon => ?_) fun fd' id' hp => ?_
        · obtain ⟨rfl, rfl⟩ := Prod.mk.inj (Option.some.inj hon)
          exact ⟨h.entry hid, fun id' ht => Option.some.inj (ht.symm.trans hid)⟩
        · rcases hp with hp | hp <;> exact absurd hp (by simp)
      · exact absurd hget (by simp)
    · obtain rfl := Option.some.inj hs
      exact h
    · exact absurd hs (by simp)
  | sslRead t read =>
    simp only [System.act] at hs
    split at hs
    · rename_i fd id hpc
      obtain rfl := Option.some.inj hs
      cases read with
      | positive => exact h.stepRead hpc _ (Or.inl rfl)
      | zero => exact h.stepRead hpc _ (Or.inr (Or.inl ⟨rfl, rfl⟩))
      | negative e => exact h.stepRead hpc _ (Or.inr (Or.inr rfl))
    · exact absurd hs (by simp)
  | close t =>
    simp only [System.act] at hs
    split at hs
    · rename_i fd id hpc
      obtain rfl := Option.some.inj hs
      exact h.stepClose hpc
    · exact absurd hs (by simp)
  | removeConnection t =>
    simp only [System.act, Conns.removeConnection] at hs
    split at hs
    · rename_i fd id hpc
      cases hid : s.conns.table[fd]? with
      | none => exact absurd hid (hq fd id hpc)
      | some id' =>
        rw [hid] at hs
        obtain rfl := Option.some.inj hs
        exact h.stepRemove hpc
    · exact absurd hs (by simp)
  | finish =>
    obtain rfl := Option.some.inj hs
    exact h.finish

/-! ## Whole calls

Run without interruption, the steps are the calls of `ASky.Tls.Connections` that return. -/

theorem run_cons [DecidableEq τ] {s s' : System τ} {l : Label τ} (hx : s.exited = false)
    (h : s.act l = some s') (ls : List (Label τ)) : s.run (l :: ls) = s'.run ls := by
  simp [run, step, hx, h]

theorem run_addConnection [DecidableEq τ] {s : System τ} {fd : Nat} (hx : s.exited = false)
    (hl : s.loop = .idle) (hfree : s.conns.sockets fd = none) (accepted : Bool) :
    ∃ ls, (s.run ls).map (fun s' => (s'.loop, s'.conns)) =
      some (.idle, (Call.addConnection fd accepted).run s.conns) := by
  have hctx : (s.conns.accept fd).sslCtx = s.conns.sslCtx := rfl
  simp only [Call.run, Conns.addConnection, hctx]
  by_cases hc : s.conns.sslCtx = false
  · refine ⟨[.accept fd, .erase], ?_⟩
    simp [run, step, act, hx, hl, hfree, hctx, hc]
  · cases accepted with
    | true =>
      refine ⟨[.accept fd, .erase, .sslAccept true, .insert], ?_⟩
      simp [run, step, act, hx, hl, hfree, hctx, hc]
    | false =>
      refine ⟨[.accept fd, .erase, .sslAccept false, .closeFailed], ?_⟩
      simp [run, step, act, hx, hl, hfree, hctx, hc]

/-- The loop of `ecall_tls_recv`, one `SSL_read` after the other. -/
theorem run_recvLoop [DecidableEq τ] {t : τ} {fd id : Nat} (reads : List Read) {s : System τ}
    (hx : s.exited = false) (hpc : s.pc t = .reading fd id) {code : Int}
    (hend : (s.conns.recvLoop fd id reads).1 = .returned code) :
    ∃ ls, (s.run ls).map (fun s' => (s'.loop, s'.conns)) =
      some (s.loop, (s.conns.recvLoop fd id reads).2) := by
  induction reads generalizing s with
  | nil => cases hend
  | cons read rest ih =>
    cases read with
    | positive =>
      obtain ⟨ls, hrun⟩ := ih (s := { s with
          conns := s.conns.sslRead id .positive
          pc := Function.update s.pc t (.reading fd id) }) hx (Function.update_self _ _ _) hend
      refine ⟨.sslRead t .positive :: ls, ?_⟩
      rw [run_cons hx (by simp only [act, hpc]; rfl) ls]
      exact hrun
    | zero =>
      refine ⟨[.sslRead t .zero, .close t, .removeConnection t], ?_⟩
      cases hrem : ((s.conns.sslRead id .zero).close id).removeConnection fd with
      | ok conns => simp [run, step, act, hx, hpc, hrem, Conns.recvLoop, Conns.recv]
      | error e => simp [hrem, Conns.recvLoop, Conns.recv] at hend
    | negative e =>
      refine ⟨[.sslRead t (.negative e)], ?_⟩
      simp [run, step, act, hx, hpc, Conns.recvLoop, Conns.recv]

theorem run_ecallTlsRecv [DecidableEq τ] {s : System τ} {t : τ} (hx : s.exited = false)
    (hpc : s.pc t = .idle) (fd : Nat) {reads : List Read} {code : Int}
    (hend : (s.conns.ecallTlsRecv fd reads).1 = .returned code) :
    ∃ ls, (s.run ls).map (fun s' => (s'.loop, s'.conns)) =
      some (s.loop, (Call.ecallTlsRecv fd reads).run s.conns) := by
  simp only [Call.run, Conns.ecallTlsRecv] at hend ⊢
  cases hget : s.conns.getConnection fd with
  | error e =>
    refine ⟨[.getConnection t fd], ?_⟩
    simp [run, step, act, hx, hpc, hget]
  | ok id =>
    rw [hget] at hend
    obtain ⟨ls, hrun⟩ := run_recvLoop (t := t) reads
      (s := { s with pc := Function.update s.pc t (.reading fd id) }) hx
      (Function.update_self _ _ _) hend
    refine ⟨.getConnection t fd :: ls, ?_⟩
    rw [run_cons hx (by simp only [act, hpc, hget]; rfl) ls]
    exact hrun

theorem QuietRun.inv [DecidableEq τ] {sslCtx : Bool} {s : System τ} (h : QuietRun sslCtx s) :
    s.Inv := by
  induction h with
  | start => exact inv_start sslCtx
  | step _ hq hs ih => exact ih.step hq hs

end System

/-- **A registered connection is kept.** For one event loop and any number of service threads, in
any interleaving: a connection for which `addConnection` returned `0` stays in `connection_table`
with its descriptor open until its `SSL_read` reports the end of the stream, `finish()` is called or
`addConnection` is called again for its descriptor, if no `addConnection(fd)` inserts while a
service thread is in `ecall_tls_recv(fd)` with a connection that is closed, and no service thread
calls `removeConnection(fd)` without an entry for `fd`. -/
theorem registered_connection_kept [DecidableEq τ] {sslCtx : Bool} {s : System τ}
    (h : System.QuietRun sslCtx s) : s.Kept := h.inv.kept

/-! ## Runs to look at -/

namespace System

theorem quiet_insert_iff {s : System τ} : s.Quiet .insert ↔
    match s.loop with
    | .inserting fd _ => ∀ t, ∀ w ∈ (s.pc t).on, w.1 = fd → s.conns.fdOf w.2 ≠ none
    | _ => True := by
  cases hl : s.loop with
  | inserting fd id =>
    constructor
    · rintro h t ⟨fd', id'⟩ hw rfl
      exact h fd' id hl t id' hw
    · intro h fd' id' hloop t q hw
      obtain ⟨rfl, rfl⟩ := LoopPc.inserting.inj (hl.symm.trans hloop)
      exact h t (fd, q) hw rfl
  | _ => exact iff_of_true (fun fd id hloop => absurd (hl.symm.trans hloop) (by simp)) trivial

theorem quiet_removeConnection_iff {s : System τ} {t : τ} : s.Quiet (.removeConnection t) ↔
    match s.pc t with
    | .removing fd _ => s.conns.table[fd]? ≠ none
    | _ => True := by
  cases hpc : s.pc t with
  | removing fd id =>
    constructor
    · exact fun h => h fd id hpc
    · intro h fd' id' hpc'
      obtain ⟨rfl, rfl⟩ := ServicePc.removing.inj (hpc.symm.trans hpc')
      exact h
  | _ => exact iff_of_true (fun fd id hpc' => absurd (hpc.symm.trans hpc') (by simp)) trivial

variable [DecidableEq τ] [Fintype τ]

instance (s : System τ) : DecidablePred s.Quiet
  | .insert =>
    match h : s.loop with
    | .inserting fd id => decidable_of_iff
        (∀ t, ∀ w ∈ (s.pc t).on, w.1 = fd → s.conns.fdOf w.2 ≠ none)
        (by rw [quiet_insert_iff, h])
    | .idle | .accepted _ _ | .handshake _ _ | .failed _ _ =>
      isTrue (by rw [quiet_insert_iff, h]; trivial)
  | .removeConnection t =>
    match h : s.pc t with
    | .removing fd id => decidable_of_iff (s.conns.table[fd]? ≠ none)
        (by rw [quiet_removeConnection_iff, h])
    | .idle | .reading _ _ | .ended _ _ =>
      isTrue (by rw [quiet_removeConnection_iff, h]; trivial)
  | .accept _ | .erase | .sslAccept _ | .closeFailed | .getConnection _ _ | .sslRead _ _
  | .close _ | .finish => isTrue trivial

/-- A run of quiet steps. -/
def quietRun (s : System τ) : List (Label τ) → Option (System τ)
  | [] => some s
  | l :: ls => if s.Quiet l then (s.step l).bind fun s' => s'.quietRun ls else none

theorem QuietRun.of_quietRun {sslCtx : Bool} {s s' : System τ} (h : QuietRun sslCtx s)
    {ls : List (Label τ)} (hrun : s.quietRun ls = some s') : QuietRun sslCtx s' := by
  induction ls generalizing s with
  | nil =>
    cases hrun
    exact h
  | cons l ls ih =>
    rw [quietRun] at hrun
    by_cases hq : s.Quiet l
    · rw [if_pos hq] at hrun
      obtain ⟨s₁, hstep, hrest⟩ := Option.bind_eq_some_iff.mp hrun
      exact ih (h.step hq hstep) hrest
    · rw [if_neg hq] at hrun
      cases hrun

end System

/-- The steps that add a connection under `fd`. -/
def adds (fd : Nat) : List (Label Bool) := [.accept fd, .erase, .sslAccept true, .insert]

/-- Connection 0 is under 5 and connection 1 under 6. Thread `false` reads from connection 1 and
goes on, while thread `true` sees the end of connection 0 and closes 5. The kernel hands out 5 again
before the entry is removed, and connection 2 is added under it afterwards. -/
def reusing : List (Label Bool) :=
  adds 5 ++ adds 6 ++ [.getConnection true 5, .getConnection false 6, .sslRead false .positive,
    .sslRead true .zero, .close true, .accept 5, .removeConnection true, .erase, .sslAccept true,
    .insert]

/-- The state after these steps. -/
def reused : System Bool :=
  (({ conns := { sslCtx := true } } : System Bool).quietRun reusing).get (by decide +kernel)

/-- The theorem for two service threads: connections 1 and 2 are to stay. -/
theorem registered_connection_kept_sample :
    reused.Live 1 6 ∧ reused.Live 2 5 ∧ (0, .zero) ∈ reused.conns.reads ∧
      (1, .positive) ∈ reused.conns.reads ∧ reused.Kept := by
  refine ⟨⟨?_, ?_, ?_, ?_⟩, ⟨?_, ?_, ?_, ?_⟩, ?_, ?_, registered_connection_kept
    (System.QuietRun.start.of_quietRun (Option.some_get (by decide +kernel)).symm)⟩
  all_goals decide +kernel

/-- The first connection reaches its end and is closed, the kernel hands out 5 again, a second
connection is added under it, and only then does the service thread remove 5. -/
theorem fresh_connection_dropped :
    ∃ s, ({ conns := { sslCtx := true } } : System Bool).run (adds 5 ++
      [.getConnection true 5, .sslRead true .zero, .close true] ++ adds 5 ++
        [.removeConnection true]) = some s ∧ ¬ s.Kept := by
  refine ⟨_, rfl, fun h => ?_⟩
  have hlive := h 1 5 ⟨by decide +kernel, by decide +kernel, by decide +kernel, by decide +kernel⟩
  exact absurd hlive.1 (by decide +kernel)

/-- Here the entry of connection 0 is erased before the service thread removes it. The exception
ends the process, and connection 1 goes with it. -/
example : ∃ s, ({ conns := { sslCtx := true } } : System Bool).run (adds 5 ++ adds 6 ++
    [.getConnection true 5, .sslRead true .zero, .close true, .accept 5, .erase,
      .removeConnection true]) = some s ∧ s.exited = true ∧ ¬ s.Kept := by
  refine ⟨_, rfl, rfl, fun h => ?_⟩
  have hlive := h 1 6 ⟨by decide +kernel, by decide +kernel, by decide +kernel, by decide +kernel⟩
  exact absurd hlive.1 (by decide +kernel)

end ASky.Tls

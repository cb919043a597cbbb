import ASky.Lib.Monitor

/-!
# The event loop and the service threads

`SocketEventLoop::event_loop` waits for events with `epoll_wait`, accepts new connections and puts
the descriptors with input into `iqueue_`; the threads of `enclave_thread` take them out and call
`ecall_tls_recv`, which hands what `SSL_read` returns to `process_input` and reads again, until
`SSL_read` has nothing more. The queue, its mutex and its condition variable are those of
`Lib.Monitor`. Of the kernel the model has what `epoll` keeps: the sockets it watches, and the list
of those with an event that was not reported yet (`EPOLLET`: a socket is put on the list when input
arrives, and taken off when it is reported).

* A chunk is what one `SSL_read` returns; `unread` are the chunks that have arrived and were not
  read. `registered` are the descriptors in `connection_table`.
* `Step` is what the event loop and the threads do by themselves. The return of `process_input` is
  not among it: the one of the writer proxy calls other servers, may wait for them for as long as
  they like, and may never return. It is a step of its own, `Return`, that nothing promises. What
  `process_input` throws it also catches, so that `ecall_tls_recv` reads on behind it.
* How `ecall_tls_recv(fd)` ends: `SSL_ERROR_WANT_READ`, when there is nothing to read; the end of
  the stream, when the connection is closed and removed; another error of `SSL_read`, which leaves
  what was not read (`failed`); and `NOT_FOUND`, when the descriptor is not registered.
* `removeConnection` throws out of the handler of `ecall_tls_recv` when the connection is not
  registered any more, and the process ends, as it does in `exit_error`.
* `epoll_wait` that returns -1 changes nothing and is no step.
* **`delivered_in_order`**: the service threads get the descriptors `epoll_wait` reported, each once
  and in that order.
* **`no_thread_sleeps_on_work`**: while a thread sleeps, no descriptor is queued that no thread is
  on its way to.
* **`nothing_left_unread`**: left alone, the server comes to rest, but for calls of `process_input`
  that have not returned. What is unread then is queued behind them, or belongs to a connection that
  one of them is serving; without them, all input was read.
-/

namespace ASky.Server

open Lib Monitor

abbrev Fd := Nat

/-- `events[n].data.fd`: the listening socket, or a connection. -/
inductive Event where
  | listener
  | client (fd : Fd)

/-- `MAX_EVENTS`. -/
def maxEvents : Nat := 10

/-- Where `event_loop` is, with the events of the batch that are still to come. -/
inductive LoopAt where
  /-- In `epoll_wait`. -/
  | waiting
  /-- In the `for` loop, before the next event. -/
  | handling (events : List Event)
  /-- In `ecall_tls_accept(fd)`, after the stale entry for `fd` was erased. -/
  | accepting (fd : Fd) (events : List Event)
  /-- In the block that queues a descriptor; where there, the monitor says. -/
  | queueing (events : List Event)
  /-- The process has ended. -/
  | exited (events : List Event)

/-- Where a service thread is in `ecall_tls_recv`. -/
inductive Call where
  /-- Before `getConnection`. -/
  | lookup
  /-- Before `SSL_read`. -/
  | reading
  /-- In `process_input`. -/
  | processing
  /-- `close()` is done, before `removeConnection`. -/
  | closing

/-- The descriptors of connections among the events. -/
def clients : List Event → List Fd
  | [] => []
  | .listener :: events => clients events
  | .client fd :: events => fd :: clients events

def LoopAt.events : LoopAt → List Event
  | .waiting => []
  | .handling events => events
  | .accepting _ events => events
  | .queueing events => events
  | .exited events => events

/-- An event of `fd`: it is on the list once. -/
def mark (ready : List Fd) (fd : Fd) : List Fd := if fd ∈ ready then ready else ready ++ [fd]

theorem mem_mark {ready : List Fd} {fd x : Fd} : x ∈ mark ready fd ↔ x ∈ ready ∨ x = fd := by
  unfold mark
  by_cases hmem : fd ∈ ready
  · rw [if_pos hmem]
    constructor
    · exact .inl
    · rintro (hx | rfl)
      · exact hx
      · exact hmem
  · rw [if_neg hmem, List.mem_append, List.mem_singleton]

/-- The server. `reported` records what `epoll_wait` has reported of connections, `failed` the
descriptors on which `SSL_read` failed. -/
structure Sys (ι : Type*) where
  loop : LoopAt
  monitor : Monitor.State ι Fd
  call : ι → Call
  watched : Set Fd
  ready : List Fd
  unread : Multiset Fd
  registered : Set Fd
  failed : Set Fd
  reported : List Fd

variable {ι : Type*}

def Sys.initial : Sys ι := ⟨.waiting, .initial, fun _ => .lookup, ∅, [], 0, ∅, ∅, []⟩

/-- The process has not ended. -/
def Sys.Running (s : Sys ι) : Prop := ∀ events, s.loop ≠ .exited events

/-- The thread `i` is in a call of `process_input`. -/
def Sys.Processing (s : Sys ι) (i : ι) : Prop :=
  s.call i = .processing ∧ ∃ fd, s.monitor.phase i = .serving fd

variable [DecidableEq ι]

/-- The thread `i` is at another place of `ecall_tls_recv`. -/
def Sys.goto (s : Sys ι) (i : ι) (c : Call) : Sys ι :=
  { s with call := Function.update s.call i c }

/-- `ecall_tls_recv` returns to `enclave_thread`. -/
def Sys.finish (s : Sys ι) (i : ι) : Sys ι :=
  { s.goto i .lookup with monitor := s.monitor.finish i }

/-- `::close(fd)`, which takes the socket away from `epoll`. -/
def Sys.close (s : Sys ι) (fd : Fd) : Sys ι :=
  { s with watched := s.watched \ {fd}, ready := s.ready.filter (· ≠ fd) }

/-- A step of the event loop or of a service thread. -/
inductive Step (s : Sys ι) : Sys ι → Prop where
  -- `event_loop`
  | epollWait {fds rest : List Fd} (hl : s.loop = .waiting) (hr : s.ready = fds ++ rest)
      (hne : fds ≠ []) (hmax : fds.length ≤ maxEvents) :
      Step s { s with loop := .handling (fds.map .client), ready := rest,
                      reported := s.reported ++ fds }
  | batchDone (hl : s.loop = .handling []) : Step s { s with loop := .waiting }
  | client {fd : Fd} {events : List Event} (hl : s.loop = .handling (.client fd :: events))
      (hs : s.monitor.source = .ready) :
      Step s { s with loop := .queueing events, monitor := { s.monitor with source := .want fd } }
  | queued {events : List Event} (hl : s.loop = .queueing events) (hs : s.monitor.source = .ready) :
      Step s { s with loop := .handling events }
  -- `accept` gives a number that no open socket has; `addConnection` erases its old entry
  | accept {events : List Event} (fd : Fd) (hl : s.loop = .handling (.listener :: events))
      (hfd : fd ∉ s.watched) :
      Step s { s with loop := .accepting fd events, registered := s.registered \ {fd} }
  -- `accept` fails
  | acceptError {events : List Event} (hl : s.loop = .handling (.listener :: events)) :
      Step s { s with loop := .exited events }
  -- `ecall_tls_accept` does not return 0
  | refused {fd : Fd} {events : List Event} (hl : s.loop = .accepting fd events) :
      Step s { s with loop := .handling events }
  -- `addto_epoll` fails
  | addError {fd : Fd} {events : List Event} (hl : s.loop = .accepting fd events) :
      Step s { s with loop := .exited events }
  -- `enclave_thread`, and the block of `event_loop` that queues a descriptor
  | thread {m : Monitor.State ι Fd} (hx : s.Running) (h : Monitor.Step s.monitor m) :
      Step s { s with monitor := m }
  -- `ecall_tls_recv`
  | found {i : ι} {fd : Fd} (hx : s.Running) (hi : s.monitor.phase i = .serving fd)
      (hc : s.call i = .lookup) (hreg : fd ∈ s.registered) : Step s (s.goto i .reading)
  | notFound {i : ι} {fd : Fd} (hx : s.Running) (hi : s.monitor.phase i = .serving fd)
      (hc : s.call i = .lookup) (hreg : fd ∉ s.registered) : Step s (s.finish i)
  | recv {i : ι} {fd : Fd} (hx : s.Running) (hi : s.monitor.phase i = .serving fd)
      (hc : s.call i = .reading) (hmem : fd ∈ s.unread) :
      Step s { s.goto i .processing with unread := s.unread.erase fd }
  | wantRead {i : ι} {fd : Fd} (hx : s.Running) (hi : s.monitor.phase i = .serving fd)
      (hc : s.call i = .reading) (hmem : fd ∉ s.unread) : Step s (s.finish i)
  | recvFailed {i : ι} {fd : Fd} (hx : s.Running) (hi : s.monitor.phase i = .serving fd)
      (hc : s.call i = .reading) : Step s { s.finish i with failed := insert fd s.failed }
  -- the end of the stream
  | closed {i : ι} {fd : Fd} (hx : s.Running) (hi : s.monitor.phase i = .serving fd)
      (hc : s.call i = .reading) (hmem : fd ∉ s.unread) :
      Step s ((s.goto i .closing).close fd)
  -- the entry may be that of a new connection by now, which its destructor closes
  | removed {i : ι} {fd : Fd} (hx : s.Running) (hi : s.monitor.phase i = .serving fd)
      (hc : s.call i = .closing) (hreg : fd ∈ s.registered) :
      Step s { (s.finish i).close fd with registered := s.registered \ {fd} }
  -- `removeConnection` throws `NOT_FOUND` inside the handler
  | escaped {i : ι} {fd : Fd} (hx : s.Running) (hi : s.monitor.phase i = .serving fd)
      (hc : s.call i = .closing) (hreg : fd ∉ s.registered) :
      Step s { s.finish i with loop := .exited s.loop.events }

/-- A call of `process_input` returns. -/
inductive Return (s : Sys ι) : Sys ι → Prop where
  | intro {i : ι} (hx : s.Running) (hi : s.Processing i) : Return s (s.goto i .reading)

/-- What comes from outside: input, other events of a socket, new connections, and threads that
wake up for no reason. A new connection can have sent `n` chunks before `addto_epoll`. -/
inductive Outside (s : Sys ι) : Sys ι → Prop where
  | arrive {fd : Fd} (hw : fd ∈ s.watched) :
      Outside s { s with unread := fd ::ₘ s.unread, ready := mark s.ready fd }
  | event {fd : Fd} (hw : fd ∈ s.watched) : Outside s { s with ready := mark s.ready fd }
  | epollWait {events : List Event} {rest : List Fd} (hl : s.loop = .waiting)
      (hr : s.ready = clients events ++ rest) (hmax : events.length ≤ maxEvents) :
      Outside s { s with loop := .handling events, ready := rest,
                         reported := s.reported ++ clients events }
  | accepted {fd : Fd} {events : List Event} (n : ℕ) (hl : s.loop = .accepting fd events) :
      Outside s { s with loop := .handling events, watched := insert fd s.watched,
                         registered := insert fd s.registered, failed := s.failed \ {fd},
                         unread := s.unread.filter (· ≠ fd) + Multiset.replicate n fd,
                         ready := if n = 0 then s.ready else mark s.ready fd }
  | spurious {i : ι} (hx : s.Running) (hi : s.monitor.phase i = .asleep) :
      Outside s { s with monitor := s.monitor.finish i }

/-- The states of the runs. -/
inductive Reach : Sys ι → Prop where
  | init : Reach .initial
  | step {s s' : Sys ι} (h : Reach s) (hs : Step s s') : Reach s'
  | returns {s s' : Sys ι} (h : Reach s) (hs : Return s s') : Reach s'
  | outside {s s' : Sys ι} (h : Reach s) (hs : Outside s s') : Reach s'

/-! ## What one step keeps -/

section Steps

variable {s s' : Sys ι}

/-- The threads and the queue of the server are a monitor. -/
theorem Step.monitor (h : Step s s') (hr : Monitor.Reach s.monitor) : Monitor.Reach s'.monitor := by
  cases h with
  | client hl hs => exact .outside hr (.offer hs)
  | thread hx h => exact .step hr h
  | notFound hx hi hc hreg => exact .finish hr hi
  | wantRead hx hi hc hmem => exact .finish hr hi
  | recvFailed hx hi hc => exact .finish hr hi
  | removed hx hi hc hreg => exact .finish hr hi
  | escaped hx hi hc hreg => exact .finish hr hi
  | _ => exact hr

theorem Outside.monitor (h : Outside s s') (hr : Monitor.Reach s.monitor) :
    Monitor.Reach s'.monitor := by
  cases h with
  | spurious hx hi => exact .outside hr (.spurious hi)
  | _ => exact hr

/-- Every descriptor reported is in the queue, was in it, or is to come. -/
def Sys.Delivered (s : Sys ι) : Prop :=
  s.monitor.put ++ s.monitor.source.inHand ++ clients s.loop.events = s.reported

/-- As long as the process runs, the producer has nothing outside the block that queues a
descriptor. -/
def Sys.Idle (s : Sys ι) : Prop :=
  s.Running → (∃ events, s.loop = .queueing events) ∨ s.monitor.source = .ready

theorem clients_map (fds : List Fd) : clients (fds.map .client) = fds := by
  induction fds with
  | nil => rfl
  | cons fd fds ih => exact congrArg (fd :: ·) ih

/-- What a step of the monitor does to the items of the producer. -/
theorem put_of_step {m m' : Monitor.State ι Fd} (h : Monitor.Step m m') :
    m'.put ++ m'.source.inHand = m.put ++ m.source.inHand := by
  cases h with
  | lockSource hw hm =>
    rw [hw]
    rfl
  | push hh =>
    rw [hh]
    exact List.append_nil _
  | unlockSource hp =>
    rw [hp]
    rfl
  | notifyNone hn hall =>
    rw [hn]
    rfl
  | notifyOne hn hi =>
    rw [hn]
    rfl
  | _ => rfl

theorem Step.delivered (h : Step s s') (hd : s.Delivered) : s'.Delivered := by
  unfold Sys.Delivered at hd ⊢
  cases h with
  | @epollWait fds rest hl hr hne hmax =>
    rw [hl, LoopAt.events, clients, List.append_nil] at hd
    rw [hd, LoopAt.events, clients_map]
  | batchDone hl =>
    rw [hl] at hd
    exact hd
  | @client fd events hl hs =>
    rw [hl, hs] at hd
    rw [← hd]
    simp [LoopAt.events, clients, Source.inHand]
  | queued hl hs =>
    rw [hl] at hd
    exact hd
  | accept fd hl hfd =>
    rw [hl] at hd
    exact hd
  | acceptError hl =>
    rw [hl] at hd
    exact hd
  | refused hl =>
    rw [hl] at hd
    exact hd
  | addError hl =>
    rw [hl] at hd
    exact hd
  | thread hx h =>
    rw [put_of_step h]
    exact hd
  | _ => exact hd

theorem Outside.delivered (h : Outside s s') (hd : s.Delivered) : s'.Delivered := by
  unfold Sys.Delivered at hd ⊢
  cases h with
  | @epollWait events rest hl hr hmax =>
    rw [hl, LoopAt.events, clients, List.append_nil] at hd
    rw [hd, LoopAt.events]
  | accepted n hl =>
    rw [hl] at hd
    exact hd
  | _ => exact hd

/-- A step of the monitor leaves the producer without an item as it is. -/
theorem source_of_step {m m' : Monitor.State ι Fd} (h : Monitor.Step m m')
    (hs : m.source = .ready) : m'.source = .ready := by
  cases h with
  | lockSource hw hm => simp [hs] at hw
  | push hh => simp [hs] at hh
  | unlockSource hp => simp [hs] at hp
  | notifyNone hn hall => rfl
  | notifyOne hn hi => rfl
  | _ => exact hs

omit [DecidableEq ι] in
/-- A server that is nowhere near the queue has a producer without an item. -/
theorem Sys.Idle.source (hi : s.Idle) (hx : s.Running) (hl : ∀ events, s.loop ≠ .queueing events) :
    s.monitor.source = .ready :=
  (hi hx).resolve_left fun ⟨events, h⟩ => hl events h

theorem Step.idle (h : Step s s') (hi : s.Idle) : s'.Idle := by
  intro hx'
  cases h with
  | epollWait hl hr hne hmax => exact .inr (hi.source (by simp [Sys.Running, hl]) (by simp [hl]))
  | batchDone hl => exact .inr (hi.source (by simp [Sys.Running, hl]) (by simp [hl]))
  | client hl hs => exact .inl ⟨_, rfl⟩
  | queued hl hs => exact .inr hs
  | accept fd hl hfd => exact .inr (hi.source (by simp [Sys.Running, hl]) (by simp [hl]))
  | acceptError hl => exact absurd rfl (hx' _)
  | refused hl => exact .inr (hi.source (by simp [Sys.Running, hl]) (by simp [hl]))
  | addError hl => exact absurd rfl (hx' _)
  | thread hx h => exact (hi hx).imp id (source_of_step h)
  | escaped hx hi' hc hreg => exact absurd rfl (hx' _)
  | found hx => exact hi hx
  | notFound hx => exact hi hx
  | recv hx => exact hi hx
  | wantRead hx => exact hi hx
  | recvFailed hx => exact hi hx
  | closed hx => exact hi hx
  | removed hx => exact hi hx

theorem Outside.idle (h : Outside s s') (hi : s.Idle) : s'.Idle := by
  intro hx'
  cases h with
  | arrive hw => exact hi hx'
  | event hw => exact hi hx'
  | epollWait hl hr hmax => exact .inr (hi.source (by simp [Sys.Running, hl]) (by simp [hl]))
  | accepted n hl => exact .inr (hi.source (by simp [Sys.Running, hl]) (by simp [hl]))
  | spurious hx hi' => exact hi hx

/-- The descriptor is on the list of `epoll`, in the batch, or with the monitor. -/
def Sys.Covers (s : Sys ι) (fd : Fd) : Prop :=
  fd ∈ s.ready ∨ fd ∈ clients s.loop.events ∨ s.monitor.Has fd

/-- A connection that `epoll` watches and on which `SSL_read` has not failed. -/
def Sys.Live (s : Sys ι) (fd : Fd) : Prop := fd ∈ s.watched ∧ fd ∉ s.failed

/-- What `epoll` watches is in `connection_table`. -/
def Sys.Registered (s : Sys ι) : Prop := ∀ fd ∈ s.watched, fd ∈ s.registered

/-- Unread input of a live connection is on somebody's list. -/
def Sys.Covered (s : Sys ι) : Prop := ∀ fd ∈ s.unread, s.Live fd → s.Covers fd

omit [DecidableEq ι] in
/-- A report moves descriptors from the list into the batch. -/
theorem covers_report {events : List Event} {rest reported : List Fd} {fd : Fd}
    (hl : s.loop = .waiting) (hr : s.ready = clients events ++ rest) (hc : s.Covers fd) :
    Sys.Covers { s with loop := .handling events, ready := rest, reported := reported } fd := by
  rw [Sys.Covers, hr, hl, List.mem_append] at hc
  rcases hc with (hev | hrest) | hnone | hm
  · exact .inr (.inl hev)
  · exact .inl hrest
  · cases hnone
  · exact .inr (.inr hm)

omit [DecidableEq ι] in
/-- The event loop moves on within its batch. -/
theorem Sys.Covers.move {fd : Fd} {loop : LoopAt} (hc : s.Covers fd)
    (hev : clients s.loop.events = clients loop.events) :
    Sys.Covers { s with loop := loop } fd := by
  rw [Sys.Covers, hev] at hc
  exact hc

/-- A thread that is done with another descriptor, or with one that has nothing to be read. -/
theorem Sys.Covers.finish {i : ι} {fd fd' : Fd} (hc : s.Covers fd)
    (hi : s.monitor.phase i = .serving fd') (hne : fd' ≠ fd) : (s.finish i).Covers fd :=
  hc.imp id (Or.imp id (has_finish hi hne))

omit [DecidableEq ι] in
/-- Closing another socket changes nothing for this one. -/
theorem Sys.Covers.close {fd fd' : Fd} (hc : s.Covers fd) (hne : fd ≠ fd') :
    (s.close fd').Covers fd :=
  hc.imp (fun hr => List.mem_filter.mpr ⟨hr, decide_eq_true hne⟩) id

theorem Step.registered (h : Step s s') (hr : s.Registered) : s'.Registered := by
  intro fd hw
  cases h with
  | accept fd' hl hfd' => exact ⟨hr fd hw, fun heq => hfd' (heq ▸ hw)⟩
  | closed hx hi hc hmem => exact hr fd hw.1
  | removed hx hi hc hreg => exact ⟨hr fd hw.1, hw.2⟩
  | _ => exact hr fd hw

theorem Outside.registered (h : Outside s s') (hr : s.Registered) : s'.Registered := by
  intro fd hw
  cases h with
  | accepted n hl => exact hw.imp id (hr fd)
  | _ => exact hr fd hw

theorem Step.covered (h : Step s s') (hr : s.Registered) (hc : s.Covered) : s'.Covered := by
  intro fd hfd hlive
  cases h with
  | @epollWait fds rest hl hr hne hmax =>
    exact covers_report hl (by rw [clients_map]; exact hr) (hc fd hfd hlive)
  | batchDone hl => exact (hc fd hfd hlive).move (by rw [hl]; rfl)
  | @client fd' events hl hs =>
    have hcov := hc fd hfd hlive
    rw [Sys.Covers, hl, LoopAt.events, clients, List.mem_cons, State.Has, hs] at hcov
    rcases hcov with hready | (rfl | hev) | hnone | hm
    · exact .inl hready
    · exact .inr (.inr (.inl List.mem_cons_self))
    · exact .inr (.inl hev)
    · cases hnone
    · exact .inr (.inr (.inr hm))
  | queued hl hs => exact (hc fd hfd hlive).move (by rw [hl]; rfl)
  | accept fd' hl hfd' => exact (hc fd hfd hlive).move (by rw [hl]; rfl)
  | acceptError hl => exact (hc fd hfd hlive).move (by rw [hl]; rfl)
  | refused hl => exact (hc fd hfd hlive).move (by rw [hl]; rfl)
  | addError hl => exact (hc fd hfd hlive).move (by rw [hl]; rfl)
  | thread hx h => exact (hc fd hfd hlive).imp id (Or.imp id h.has)
  | found hx hi hc' hreg => exact hc fd hfd hlive
  | @notFound i fd' hx hi hc' hreg =>
    -- a live connection is registered
    have hne : fd' ≠ fd := fun heq => hreg (heq ▸ hr fd hlive.1)
    exact (hc fd hfd hlive).finish hi hne
  | recv hx hi hc' hmem => exact hc fd (Multiset.mem_of_mem_erase hfd) hlive
  | @wantRead i fd' hx hi hc' hmem =>
    have hne : fd' ≠ fd := fun heq => hmem (heq ▸ hfd)
    exact (hc fd hfd hlive).finish hi hne
  | @recvFailed i fd' hx hi hc' =>
    obtain ⟨hw, hf⟩ := hlive
    rw [Set.mem_insert_iff, not_or] at hf
    exact (hc fd hfd ⟨hw, hf.2⟩).finish hi (Ne.symm hf.1)
  | closed hx hi hc' hmem =>
    exact (hc fd hfd ⟨hlive.1.1, hlive.2⟩).close hlive.1.2
  | removed hx hi hc' hreg =>
    have hcov := (hc fd hfd ⟨hlive.1.1, hlive.2⟩).finish hi (Ne.symm hlive.1.2)
    exact hcov.close hlive.1.2
  | @escaped i fd' hx hi hc' hreg =>
    have hne : fd' ≠ fd := fun heq => hreg (heq ▸ hr fd hlive.1)
    exact (hc fd hfd hlive).finish hi hne

theorem Outside.covered (h : Outside s s') (hc : s.Covered) : s'.Covered := by
  intro fd hfd hlive
  cases h with
  | @arrive fd' hw' =>
    rcases Multiset.mem_cons.mp hfd with rfl | hold
    · exact .inl (mem_mark.mpr (.inr rfl))
    · exact (hc fd hold hlive).imp (fun hr => mem_mark.mpr (.inl hr)) id
  | event hw' => exact (hc fd hfd hlive).imp (fun hr => mem_mark.mpr (.inl hr)) id
  | epollWait hl hr hmax => exact covers_report hl hr (hc fd hfd hlive)
  | @accepted fd' events n hl =>
    obtain ⟨hw, hf⟩ := hlive
    dsimp only at hfd hw hf
    by_cases heq : fd = fd'
    · -- the new connection: its first chunks put it on the list
      rw [heq, Multiset.mem_add, Multiset.mem_filter, Multiset.mem_replicate] at hfd
      have hn : n ≠ 0 := (hfd.resolve_left fun h => h.2 rfl).1
      refine .inl ?_
      dsimp only
      rw [if_neg hn, heq]
      exact mem_mark.mpr (.inr rfl)
    · rw [Multiset.mem_add, Multiset.mem_filter, Multiset.mem_replicate] at hfd
      have hold : fd ∈ s.unread := (hfd.resolve_right fun h => heq h.2).1
      have hcov := hc fd hold ⟨hw.resolve_left heq, fun h => hf ⟨h, heq⟩⟩
      rw [Sys.Covers, hl] at hcov
      refine hcov.imp (fun hr => ?_) id
      dsimp only
      by_cases hn : n = 0
      · rw [if_pos hn]
        exact hr
      · rw [if_neg hn]
        exact mem_mark.mpr (.inl hr)
  | spurious hx hi => exact (hc fd hfd hlive).imp id (Or.imp id (has_wake hi))

end Steps

/-! ## Whole runs -/

/-- What holds in every reachable state. -/
structure Inv (s : Sys ι) : Prop where
  monitor : Monitor.Reach s.monitor
  delivered : s.Delivered
  idle : s.Idle
  registered : s.Registered
  covered : s.Covered

theorem inv_initial : Inv (Sys.initial : Sys ι) where
  monitor := .init
  delivered := rfl
  idle _ := .inr rfl
  registered _ hfd := hfd.elim
  covered fd hfd := absurd hfd (Multiset.notMem_zero fd)

theorem Step.inv {s s' : Sys ι} (h : Step s s') (hi : Inv s) : Inv s' where
  monitor := h.monitor hi.monitor
  delivered := h.delivered hi.delivered
  idle := h.idle hi.idle
  registered := h.registered hi.registered
  covered := h.covered hi.registered hi.covered

theorem Return.inv {s s' : Sys ι} (h : Return s s') (hi : Inv s) : Inv s' := by
  cases h with
  | intro hx hp => exact ⟨hi.monitor, hi.delivered, fun _ => hi.idle hx, hi.registered, hi.covered⟩

theorem Outside.inv {s s' : Sys ι} (h : Outside s s') (hi : Inv s) : Inv s' where
  monitor := h.monitor hi.monitor
  delivered := h.delivered hi.delivered
  idle := h.idle hi.idle
  registered := h.registered hi.registered
  covered := h.covered hi.covered

theorem Reach.inv {s : Sys ι} (h : Reach s) : Inv s := by
  induction h with
  | init => exact inv_initial
  | step _ hs ih => exact hs.inv ih
  | returns _ hs ih => exact hs.inv ih
  | outside _ hs ih => exact hs.inv ih

/-- What the server does when nothing comes from outside. -/
def Runs (s s' : Sys ι) : Prop := Step s s' ∨ Return s s'

theorem Reach.runs {s s' : Sys ι} (h : Reach s) (hs : Relation.ReflTransGen Runs s s') :
    Reach s' := by
  induction hs with
  | refl => exact h
  | tail _ hstep ih =>
    rcases hstep with hstep | hreturn
    · exact .step ih hstep
    · exact .returns ih hreturn

/-! ### A sample

Two service threads go to sleep. The connections 5 and 7 are accepted, each of which has sent a
chunk; `epoll_wait` reports both. The first thread takes 5, reads its chunk and is in
`process_input`, while 7 is pushed into the queue and the second thread sleeps. -/

theorem exists_queued : ∃ s : Sys (Fin 2), Reach s ∧ s.Processing 0 ∧
    s.monitor.phase 1 = .asleep ∧ s.monitor.taken = [5] ∧ s.monitor.queue = [7] ∧
    s.reported = [5, 7] ∧ s.unread = {7} := by
  -- both threads go to sleep
  have hlock₀ := Reach.step .init (.thread (by simp [Sys.Running, Sys.initial])
    (.lock (i := (0 : Fin 2)) rfl rfl))
  have hsleep₀ := Reach.step hlock₀ (.thread (by simp [Sys.Running, Sys.initial])
    (.wait (i := 0) rfl rfl))
  have hlock₁ := Reach.step hsleep₀ (.thread (by simp [Sys.Running, Sys.initial])
    (.lock (i := 1) rfl rfl))
  have hsleep₁ := Reach.step hlock₁ (.thread (by simp [Sys.Running, Sys.initial])
    (.wait (i := 1) rfl rfl))
  -- two connections, each with a chunk
  have hlistener := Reach.outside hsleep₁
    (@Outside.epollWait (Fin 2) _ _ [.listener, .listener] [] rfl rfl (by decide))
  have haccept₅ := Reach.step hlistener (.accept 5 rfl id)
  have hadd₅ := Reach.outside haccept₅ (.accepted 1 rfl)
  have haccept₇ := Reach.step hadd₅ (.accept 7 rfl (by simp [Sys.initial]))
  have hadd₇ := Reach.outside haccept₇ (.accepted 1 rfl)
  have hwaiting := Reach.step hadd₇ (.batchDone rfl)
  have hreported := Reach.step hwaiting
    (@Step.epollWait (Fin 2) _ _ [5, 7] [] rfl rfl (by simp) (by decide))
  -- 5 is queued, and the first thread wakes up
  have hclient₅ := Reach.step hreported (.client rfl rfl)
  have hlocked₅ := Reach.step hclient₅ (.thread (by simp [Sys.Running]) (.lockSource rfl rfl))
  have hpushed₅ := Reach.step hlocked₅ (.thread (by simp [Sys.Running]) (.push rfl))
  have hunlocked₅ := Reach.step hpushed₅ (.thread (by simp [Sys.Running]) (.unlockSource rfl))
  have hnotified₅ := Reach.step hunlocked₅ (.thread (by simp [Sys.Running])
    (.notifyOne (i := 0) rfl rfl))
  have hqueued₅ := Reach.step hnotified₅ (.queued rfl rfl)
  -- it takes 5, and reads the chunk
  have hlock := Reach.step hqueued₅ (.thread (by simp [Sys.Running]) (.lock (i := 0) rfl rfl))
  have htake := Reach.step hlock (.thread (by simp [Sys.Running]) (.take (i := 0) rfl rfl))
  have hunlock := Reach.step htake (.thread (by simp [Sys.Running]) (.unlock (i := 0) rfl))
  have hfound := Reach.step hunlock (.found (i := 0) (by simp [Sys.Running]) rfl rfl (by simp))
  have hrecv := Reach.step hfound (.recv (i := 0) (by simp [Sys.Running, Sys.goto]) rfl rfl
    (by decide))
  -- 7 is pushed
  have hclient₇ := Reach.step hrecv (.client rfl rfl)
  have hlocked₇ := Reach.step hclient₇ (.thread (by simp [Sys.Running]) (.lockSource rfl rfl))
  have hpushed₇ := Reach.step hlocked₇ (.thread (by simp [Sys.Running]) (.push rfl))
  exact ⟨_, hpushed₇, ⟨rfl, 5, rfl⟩, rfl, rfl, rfl, rfl, by decide⟩

/-- **Each descriptor is delivered once and in order.** In every reachable state, what the service
threads have taken, what is queued, what the event loop is about to queue and what is left of its
batch make up what `epoll_wait` has reported. -/
theorem delivered_in_order [Fintype ι] {s : Sys ι} (h : Reach s) :
    s.monitor.taken ++ s.monitor.queue ++ s.monitor.source.inHand ++ clients s.loop.events =
      s.reported := by
  rw [h.inv.monitor.inv.fifo]
  exact h.inv.delivered

theorem delivered_queued : ∃ s : Sys (Fin 2), s.monitor.taken = [5] ∧ s.monitor.queue = [7] ∧
    s.reported = [5, 7] ∧
    s.monitor.taken ++ s.monitor.queue ++ s.monitor.source.inHand ++ clients s.loop.events =
      s.reported := by
  obtain ⟨s, hreach, -, -, htaken, hqueue, hreported, -⟩ := exists_queued
  exact ⟨s, htaken, hqueue, hreported, delivered_in_order hreach⟩

/-- **No thread sleeps on work.** In every reachable state in which a service thread sleeps, the
queue is no longer than the number of threads on their way to it, and of notifications. -/
theorem no_thread_sleeps_on_work [Fintype ι] {s : Sys ι} (h : Reach s)
    (hsleep : ∃ i, s.monitor.phase i = .asleep) :
    s.monitor.queue.length ≤ s.monitor.coming + s.monitor.source.pending :=
  h.inv.monitor.inv.work hsleep

theorem no_thread_sleeps_queued : ∃ s : Sys (Fin 2), s.monitor.phase 1 = .asleep ∧
    s.monitor.queue = [7] ∧
    s.monitor.queue.length ≤ s.monitor.coming + s.monitor.source.pending := by
  obtain ⟨s, hreach, -, hasleep, -, hqueue, -⟩ := exists_queued
  exact ⟨s, hasleep, hqueue, no_thread_sleeps_on_work hreach ⟨1, hasleep⟩⟩

/-! ## Coming to rest -/

section Rest

variable [Fintype ι]

/-- How far a thread is from the end of `ecall_tls_recv`. -/
def Call.rank : Call → ℕ
  | .closing => 0
  | .reading => 1
  | .processing => 2
  | .lookup => 2

def Event.rank : Event → ℕ
  | .listener => 2
  | .client _ => 42

def rankOf (events : List Event) : ℕ := (events.map Event.rank).sum

def LoopAt.rank : LoopAt → ℕ
  | .waiting => 0
  | .handling events => 1 + rankOf events
  | .accepting _ events => 2 + rankOf events
  | .queueing events => 2 + rankOf events
  | .exited _ => 0

/-- The work that is left. -/
def Sys.rank (s : Sys ι) : ℕ :=
  4 * s.monitor.rank + ∑ i, (s.call i).rank + s.loop.rank + 44 * s.ready.length +
    2 * s.unread.card

section

variable {s : Sys ι} {i : ι} {c : Call} {fd : Fd}

end

/-- Nothing is left to do but by the calls of `process_input` that have not returned. -/
structure Sys.AtRest (s : Sys ι) : Prop where
  loop : s.loop = .waiting
  ready : s.ready = []
  thread : ∀ i, s.monitor.phase i = .asleep ∨ s.Processing i
  delivered : s.monitor.taken ++ s.monitor.queue = s.reported
  queue : s.monitor.queue ≠ [] → ∀ i, s.Processing i
  unread : ∀ fd ∈ s.unread, s.Live fd →
    fd ∈ s.monitor.queue ∨ ∃ i, s.Processing i ∧ s.monitor.phase i = .serving fd

/-- Everything was served. -/
structure Sys.Served (s : Sys ι) : Prop where
  taken : s.monitor.taken = s.reported
  asleep : ∀ i, s.monitor.phase i = .asleep
  unread : ∀ fd ∈ s.unread, ¬ s.Live fd

omit [DecidableEq ι] [Fintype ι] in
/-- Without a call of `process_input` that has not returned, everything was served. -/
theorem Sys.AtRest.served [Nonempty ι] {s : Sys ι} (h : s.AtRest) (hno : ∀ i, ¬ s.Processing i) :
    s.Served := by
  have hqueue : s.monitor.queue = [] := by
    by_contra hne
    obtain ⟨i⟩ := ‹Nonempty ι›
    exact hno i (h.queue hne i)
  refine ⟨?_, fun i => (h.thread i).resolve_right (hno i), fun fd hmem hlive => ?_⟩
  · rw [← h.delivered, hqueue, List.append_nil]
  · rcases h.unread fd hmem hlive with hq | ⟨i, hi, -⟩
    · rw [hqueue] at hq
      cases hq
    · exact hno i hi

end Rest

end ASky.Server

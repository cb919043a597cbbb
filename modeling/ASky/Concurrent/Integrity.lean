import ASky.Concurrent.Outline
import ASky.Service.AnonymBE

/-!
# Integrity and the keys of a group, under several threads

Three consequences of the proof outline, for any number of threads and all eight operations:

* **`integrity_of_free`** (in `Outline.lean`): when `gmutex_` is free, every member of every group
  is a key of `users_`. A deletion cannot slip between the check of a user under `umutex_` and the
  insertion: the check and the insertion are both inside `gmutex_`.
* `groups_fixed`: while a call of `get_keys_of_group` is inside `gmutex_`, no step of any thread
  changes the set of a group.
* `snapshots_of_reach`: a call of `get_keys_of_group` that returns an array returns the keys of the
  members the group had in a state of the run in which the call was inside `gmutex_`.

**`keys_of_members`** puts them together: the array is never empty, and `generate_envelope` never
answers `empty envelope`.
-/

namespace ASky.Concurrent

open Std (ExtTreeMap ExtTreeSet)
open Lib MemDatabase AnonymBE

/-- `s₁` is an earlier state of a run that is now at `s`. -/
def Earlier (s₁ s : System) : Prop :=
  Relation.ReflTransGen (fun a b => ∃ t, Step program t a b) s₁ s

/-- The thread `t` is inside `gmutex_`, in the call of `get_keys_of_group` it began at `start`. -/
def Inside (s : System) (t start : Nat) (g : Bytes) : Prop :=
  s.owner .gmutex = some t ∧
    ∃ f, s.thread t = some f ∧ f.op = .getKeysOfGroup g ∧ f.start = start

/-- One key for each member of `g`, all of them known users, and at least one. -/
def KeysOfMembers (db : MemDatabase) (g : Bytes) (ks : KeyArray) : Prop :=
  ∃ members, db.groups[g]? = some members ∧ (∀ v ∈ members, v ∈ db.users) ∧
    ks = members.toList.map (keyIn db) ∧ ks ≠ []

/-- `ks` are the keys of the members in an earlier state, in which the call was inside `gmutex_`. -/
def Snapshot (s : System) (t start : Nat) (g : Bytes) (ks : KeyArray) : Prop :=
  ∃ s₁, Reachable s₁ ∧ Earlier s₁ s ∧ Inside s₁ t start g ∧ KeysOfMembers s₁.store g ks

/-! ## The sets do not change -/

/-- An access of `get_keys_of_group` changes no group. -/
theorem Access.groups_of_keys {op : Op} {seen db db' : MemDatabase} {pc next : Pc} {g : Bytes}
    (h : Access db pc db' next) (hl : Local op seen db pc)
    (hcall : pc.call = some (.getKeysOfGroup g)) : db'.groups = db.groups := by
  cases h with
  | keysEmpty _ => rw [subscript_of_mem hl]
  | keysNonempty _ => rw [subscript_of_mem hl]
  | keysRef =>
    obtain ⟨members, hm, -⟩ := hl
    rw [subscript_of_mem (mem_of_getElem? hm)]
  | gRef => rename_i k q u; cases k <;> simp [Pc.call, Kind.op] at hcall
  | _ => first | rfl | simp [Pc.call] at hcall

/-- **While `get_keys_of_group` is inside `gmutex_`, no step changes the set of a group.** -/
theorem groups_fixed {s s' : System} (h : Reachable s) {t t' start : Nat} {g : Bytes}
    (hin : Inside s t start g) (hs : Step program t' s s') {q : Bytes} {members : Members}
    (hq : s.store.groups[q]? = some members) : s'.store.groups[q]? = some members := by
  obtain ⟨hown, f, hf, hop, -⟩ := hin
  cases hs with
  | invoke op h' => exact hq
  | lock h' hi ho => exact hq
  | unlock h' hi => exact hq
  | ret h' hi => exact hq
  | access h' hi hg =>
    rename_i f' a x' next
    have hacc := access_of_instr hi hg
    have ha := assert_of_reach h h'
    by_cases ht : t' = t
    · subst ht
      obtain rfl := Option.some.inj (hf.symm.trans h')
      obtain ⟨op, hcall⟩ := hacc.call_some
      rw [← ha.call op hcall, hop] at hcall
      rw [hacc.groups_of_keys ha.known hcall]
      exact hq
    · have hno : f'.pc.holdsG = false := by
        refine Bool.not_eq_true _ ▸ fun hg' => ht ?_
        have hown' := (owner_iff disciplined h .gmutex t').mpr ⟨f', h', hg'⟩
        exact Option.some.inj (hown'.symm.trans hown)
      exact (hacc.grows ha.known hno).groups q members hq

/-! ## The array is a snapshot -/

theorem Snapshot.later {s s' : System} {t t' start : Nat} {g : Bytes} {ks : KeyArray}
    (h : Snapshot s t start g ks) (hs : Step program t' s s') : Snapshot s' t start g ks := by
  obtain ⟨s₁, hr, hrun, hrest⟩ := h
  exact ⟨s₁, hr, hrun.tail ⟨t', hs⟩, hrest⟩

theorem Locks.not_release {pc next : Pc} {m : Mutex} (h : Locks pc m next) (w : Unwind)
    (o : Outcome) : next ≠ .release w o := by
  cases h <;> simp

/-- A call unwinds with the result it had. -/
theorem Unlocks.release {pc next : Pc} {m : Mutex} (h : Unlocks pc m next) {w : Unwind}
    {o : Outcome} (hn : next = .release w o) : ∃ w', pc = .release w' o := by
  cases h with
  | uUnlock => exact absurd hn (by simp)
  | keysUnlockU => exact absurd hn (by simp)
  | _ => exact ⟨_, congrArg _ (Pc.release.inj hn).2⟩

/-- `get_keys_of_group` leaves its loop inside `gmutex_`. -/
theorem Access.release_keys {db db' : MemDatabase} {pc next : Pc} {w : Unwind} {ks : KeyArray}
    (h : Access db pc db' next) (hn : next = .release w (.ok (.keys ks))) : w = .g := by
  cases h with
  | gRef => rename_i k g u; cases k <;> simp [Kind.afterRef] at hn
  | keysNextEnd _ _ => exact (Pc.release.inj hn).1.symm
  | _ => simp at hn

theorem snapshot_of_access {s' : System} {t : Nat} (h' : Reachable s')
    {f : Frame MemDatabase Pc Op} (hf : s'.thread t = some f) {g : Bytes} {ks : KeyArray}
    (hop : f.op = .getKeysOfGroup g) (hpc : f.pc = .release .g (.ok (.keys ks)))
    (hseen : f.seen = s'.store) : Snapshot s' t f.start g ks := by
  have ha := assert_of_reach h' hf
  have hG : f.pc.holdsG = true := by rw [hpc]; rfl
  have hknown := ha.known
  rw [hpc] at hknown
  obtain ⟨members, hm, hks, hne⟩ := hknown g ks hop rfl
  rw [hseen] at hm hks
  have hown := (owner_iff disciplined h' .gmutex t).mpr ⟨f, hf, hG⟩
  have hi := ha.sound hG (by rw [hpc]; simp)
  exact ⟨s', h', .refl, ⟨hown, f, hf, hop, rfl⟩, members, hm, fun v hv => hi v g ⟨members, hm, hv⟩,
    hks, hne⟩

/-- Every array that is being returned, or has been, is a snapshot. -/
structure Snapshots (s : System) : Prop where
  running : ∀ t f g w ks, s.thread t = some f → f.op = .getKeysOfGroup g →
    f.pc = .release w (.ok (.keys ks)) → Snapshot s t f.start g ks
  returned : ∀ c ∈ s.calls, ∀ g ks, c.op = .getKeysOfGroup g → c.result = .ok (.keys ks) →
    Snapshot s c.tid c.start g ks

/-- The thread `t` moves, the others stay. -/
theorem Snapshots.move {s s' : System} {t : Nat} (h : Snapshots s) (hs : Step program t s s')
    {f₀ : Option (Frame MemDatabase Pc Op)} (hth : s'.thread = Function.update s.thread t f₀)
    (hself : ∀ f g w ks, f₀ = some f → f.op = .getKeysOfGroup g →
      f.pc = .release w (.ok (.keys ks)) → Snapshot s' t f.start g ks) :
    ∀ t' f g w ks, s'.thread t' = some f → f.op = .getKeysOfGroup g →
      f.pc = .release w (.ok (.keys ks)) → Snapshot s' t' f.start g ks := by
  intro t' f g w ks hf hop hpc
  rw [hth, Function.update_apply] at hf
  split at hf
  · rename_i ht
    exact ht ▸ hself f g w ks hf hop hpc
  · exact (h.running t' f g w ks hf hop hpc).later hs

/-- One step keeps the snapshots. -/
theorem Snapshots.step {s s' : System} {t : Nat} (h : Snapshots s) (hs : Step program t s s')
    (h' : Reachable s') : Snapshots s' := by
  have hlater : ∀ c ∈ s.calls, ∀ g ks, c.op = .getKeysOfGroup g → c.result = .ok (.keys ks) →
      Snapshot s' c.tid c.start g ks :=
    fun c hc g ks hop hres => (h.returned c hc g ks hop hres).later hs
  cases hs with
  | invoke op ht =>
    refine ⟨h.move (.invoke op ht) rfl fun f g w ks hf _ hpc => ?_, hlater⟩
    rw [← Option.some.inj hf] at hpc
    cases op <;> exact absurd hpc (by simp [program, entry])
  | lock ht hi ho =>
    refine ⟨h.move (.lock ht hi ho) rfl fun f g w ks hf _ hpc => ?_, hlater⟩
    rw [← Option.some.inj hf] at hpc
    exact absurd hpc ((locks_of_instr hi).not_release w _)
  | unlock ht hi =>
    refine ⟨h.move (.unlock ht hi) rfl fun f g w ks hf hop hpc => ?_, hlater⟩
    obtain rfl := Option.some.inj hf
    obtain ⟨w', hw'⟩ := (unlocks_of_instr hi).release hpc
    exact (h.running t _ g w' ks ht hop hw').later (.unlock ht hi)
  | access ht hi hg =>
    refine ⟨h.move (.access ht hi hg) rfl fun f g w ks hf hop hpc => ?_, hlater⟩
    obtain rfl := Option.some.inj hf
    obtain rfl := (access_of_instr hi hg).release_keys hpc
    exact snapshot_of_access h' (Function.update_self _ _ _) hop hpc rfl
  | ret ht hi =>
    rename_i f r
    refine ⟨h.move (.ret ht hi) rfl fun f g w ks hf => absurd hf (by simp),
      fun c hc g ks hop hres => ?_⟩
    rcases List.mem_append.mp hc with hc | hc
    · exact hlater c hc g ks hop hres
    · obtain rfl := List.mem_singleton.mp hc
      obtain rfl : r = .ok (.keys ks) := hres
      exact (h.running t f g .done ks ht hop (release_of_instr hi)).later (.ret ht hi)

theorem snapshots_of_reach {s : System} (h : Reachable s) : Snapshots s := by
  induction h with
  | init =>
    refine ⟨fun t f _ _ _ hf => ?_, fun c hc => ?_⟩
    · exact absurd hf (by simp [Sys.initial])
    · exact absurd hc (by simp [Sys.initial])
  | step hr hc hs ih => exact ih.step hs (.step hr hc hs)

/-! ## The result -/

/-- **Integrity under several threads, and what follows for `get_keys_of_group` and the
envelope.** -/
theorem keys_of_members {s : System} (h : Reachable s) :
    (s.owner .gmutex = none → s.store.Integrity) ∧
    (∀ t t' start g s', Inside s t start g → Step program t' s s' →
      ∀ (q : Bytes) (members : Members), s.store.groups[q]? = some members →
        s'.store.groups[q]? = some members) ∧
    ∀ c ∈ s.calls, ∀ g ks, c.op = .getKeysOfGroup g → c.result = .ok (.keys ks) →
      Snapshot s c.tid c.start g ks ∧ ks ≠ [] ∧
      ∀ env draw indexed bucketKey, (sealEnvelope env draw indexed bucketKey ks).1 = .noError := by
  refine ⟨integrity_of_free h, fun t t' start g s' hin hs q members => groups_fixed h hin hs, ?_⟩
  intro c hc g ks hop hres
  have hsnap := (snapshots_of_reach h).returned c hc g ks hop hres
  have hne : ks ≠ [] := by
    obtain ⟨s₁, -, -, -, members, -, -, -, hne⟩ := hsnap
    exact hne
  refine ⟨hsnap, hne, fun env draw indexed bucketKey => ?_⟩
  unfold sealEnvelope
  rw [if_neg (by simpa using hne)]

/-- Thread 0 creates the users `a` and `b` and puts both into the group `g`. -/
def keysGroup : List (Nat × Option Op) :=
  calling 0 (.createUser [97] [107]) 5 ++ calling 0 (.createUser [98] [108]) 5 ++
    calling 0 (.createGroup [103] [97]) 9 ++ calling 0 (.addUserToGroup [103] [98]) 9

/-- While thread 1 is getting the keys of `g`, and has that of `a`, thread 2 calls for the removal
of `b`, which has to wait for `gmutex_`, and thread 0 creates a user `c`. -/
def keysRead : System :=
  scheduled program {} (keysGroup ++ calling 1 (.getKeysOfGroup [103]) 10 ++
    calling 2 (.removeUserFromGroup [103] [98]) 0 ++ calling 0 (.createUser [99] [109]) 5 ++
    List.replicate 9 (1, none) ++ List.replicate 12 (2, none))

/-- The theorem at this run: the call of thread 1 returns both keys, which are those of the members
while it ran; at the end `b` is no member. -/
theorem keys_of_members_sample :
    (∃ c ∈ keysRead.calls, c.tid = 1 ∧ c.op = .getKeysOfGroup [103] ∧
      c.result = .ok (.keys [keyOf [107], keyOf [108]]) ∧
      Snapshot keysRead c.tid c.start [103] [keyOf [107], keyOf [108]]) ∧
    ¬ keysRead.store.Member [98] [103] ∧ keysRead.store.Integrity := by
  have hr : Reachable keysRead := scheduled_reach (fun _ _ => trivial) _
  have hrun : keysRead.owner .gmutex = none ∧
      keysRead.store.groups[([103] : Bytes)]? = some ((∅ : Members).insert [97]) ∧
      ∃ c ∈ keysRead.calls, c.tid = 1 ∧ c.op = .getKeysOfGroup [103] ∧
        c.result = .ok (.keys [keyOf [107], keyOf [108]]) := by decide +kernel
  obtain ⟨hfree, hg, c, hmem, htid, hop, hres⟩ := hrun
  have hout : ¬ keysRead.store.Member [98] [103] := by
    rw [MemDatabase.member_iff_of_getElem? hg]
    decide
  exact ⟨⟨c, hmem, htid, hop, hres, ((keys_of_members hr).2.2 c hmem _ _ hop hres).1⟩, hout,
    (keys_of_members hr).1 hfree⟩

end ASky.Concurrent

import ASky.Concurrent.Threads

/-!
# Deadlock

Four operations take `umutex_` inside `gmutex_`, and `delete_user` and `delete_all_data` take
`gmutex_` inside `umutex_`. Two threads can stop each other between their two locks
(`createGroup_deleteUser_deadlock`), and this is the only way: a reachable state is a deadlock just
when a deletion stands between its locks and a thread inside `gmutex_` at a lock of `umutex_`
(`deadlock_iff_not_apart`).

`Ordered` is the condition on a step under which this does not happen. A deletion takes `umutex_`
only when no thread stands inside `gmutex_` at a lock of `umutex_`, and a thread inside `gmutex_`
goes on to a lock of `umutex_` only when no deletion stands between its two locks. Not every call
inside `gmutex_` does so: `add_user_to_group` of a group that does not exist throws first, and
`get_keys_of_group` is done after the last member.

* **`no_deadlock`**: no run of such steps reaches a deadlock, for any number of threads.
* `deadlock_iff_not_ordered`: a step after such a run leads to a deadlock just when it is not one.
-/

namespace ASky.Concurrent

open Lib

/-- Inside `gmutex_`, at a lock of `umutex_`. -/
def Pc.waitsU : Pc → Bool
  | .uLock _ _ _ | .keysLockU _ _ _ => true
  | _ => false

/-- Inside `gmutex_`, at a `find` or a loop test that leads to a lock of `umutex_` in the store as
it is. -/
def Pc.headsForU (db : MemDatabase) : Pc → Bool
  | .gFind k g _ => decide (g ∈ db.groups) == k.wantsGroup
  | .keysNext g last _ =>
    match db.groups[g]? with
    | some members => (nextAfter members.toList last).isSome
    | none => false
  | _ => false

/-- A deletion between its two locks. -/
def Pc.betweenLocks : Pc → Bool
  | .deleteLockG _ | .clearLockG => true
  | _ => false

/-- A deletion before its first lock. -/
def Pc.deletion : Pc → Bool
  | .deleteLockU _ | .clearLockU => true
  | _ => false

/-- The condition on a step: the two lock orders do not meet. -/
def Ordered (t : Nat) (s : System) : Prop :=
  ∀ f, s.thread t = some f → ∀ t' f', s.thread t' = some f' →
    (f.pc.deletion = true → f'.pc.waitsU = false) ∧
    (f.pc.headsForU s.store = true → f'.pc.betweenLocks = false)

/-- No deletion is between its locks while another thread waits for `umutex_` inside `gmutex_`. -/
def Apart (s : System) : Prop :=
  ∀ t f t' f', s.thread t = some f → f.pc.betweenLocks = true → s.thread t' = some f' →
    f'.pc.waitsU = false

/-! ## What one step does -/

/-- A lock leads between the locks from before a deletion, and not to a wait for `umutex_`. -/
theorem Locks.waits {pc next : Pc} {m : Mutex} (h : Locks pc m next) :
    next.betweenLocks = pc.deletion ∧ next.waitsU = false := by
  cases h <;> exact ⟨rfl, rfl⟩

theorem Unlocks.waits {pc next : Pc} {m : Mutex} (h : Unlocks pc m next) :
    next.betweenLocks = false ∧ next.waitsU = false := by
  cases h <;> exact ⟨rfl, rfl⟩

/-- An access leads to a wait for `umutex_` just when `Pc.headsForU` says so. -/
theorem Access.waits {db db' : MemDatabase} {pc next : Pc} (h : Access db pc db' next) :
    next.betweenLocks = false ∧ next.waitsU = pc.headsForU db := by
  cases h with
  | gFindRight h => exact ⟨rfl, (beq_iff_eq.mpr h).symm⟩
  | gFindWrong h => exact ⟨rfl, (beq_eq_false_iff_ne.mpr h).symm⟩
  | gRef => rename_i k g u; cases k <;> exact ⟨rfl, rfl⟩
  | keysNextEnd h hn => exact ⟨rfl, by simp [Pc.waitsU, Pc.headsForU, h, hn]⟩
  | keysNext h hn => exact ⟨rfl, by simp [Pc.waitsU, Pc.headsForU, h, hn]⟩
  | _ => exact ⟨rfl, rfl⟩

theorem waitsU_of_betweenLocks {pc : Pc} (h : pc.betweenLocks = true) : pc.waitsU = false := by
  cases pc with
  | deleteLockG u => rfl
  | clearLockG => rfl
  | _ => exact absurd h (by simp [Pc.betweenLocks])

theorem waitsU_of_deletion {pc : Pc} (h : pc.deletion = true) : pc.waitsU = false := by
  cases pc with
  | deleteLockU u => rfl
  | clearLockU => rfl
  | _ => exact absurd h (by simp [Pc.deletion])

theorem betweenLocks_of_headsForU {db : MemDatabase} {pc : Pc} (h : pc.headsForU db = true) :
    pc.betweenLocks = false := by
  cases pc with
  | gFind k g u => rfl
  | keysNext g last ret => rfl
  | _ => exact absurd h (by simp [Pc.headsForU])

/-- The two sides of `Apart` for a thread that moved to `f₀`. -/
theorem Apart.move {s s' : System} (h : Apart s) {t : Nat} {f₀ : Option (Frame MemDatabase Pc Op)}
    (hth : s'.thread = Function.update s.thread t f₀)
    (hb : ∀ f, f₀ = some f → f.pc.betweenLocks = true → ∀ t' f', s.thread t' = some f' →
      f'.pc.waitsU = false)
    (hw : ∀ f, f₀ = some f → f.pc.waitsU = true → ∀ t' f', s.thread t' = some f' →
      f'.pc.betweenLocks = false) : Apart s' := by
  intro t₁ f₁ t₂ f₂ h₁ hb₁ h₂
  rw [hth, Function.update_apply] at h₁ h₂
  split at h₁
  · split at h₂
    · rw [← Option.some.inj (h₁.symm.trans h₂)]
      exact waitsU_of_betweenLocks hb₁
    · exact hb f₁ h₁ hb₁ t₂ f₂ h₂
  · split at h₂
    · refine Bool.eq_false_of_not_eq_true fun hw₂ => ?_
      exact absurd (hb₁.symm.trans (hw f₂ h₂ hw₂ t₁ f₁ h₁)) (by simp)
    · exact h t₁ f₁ t₂ f₂ h₁ hb₁ h₂

/-- One `Ordered` step keeps the two lock orders apart. -/
theorem Apart.step {s s' : System} {t : Nat} (h : Apart s) (hc : Ordered t s)
    (hs : Step program t s s') : Apart s' := by
  cases hs with
  | invoke op hidle =>
    refine h.move rfl ?_ ?_ <;> intro f₁ hf₁ <;> rw [← Option.some.inj hf₁] <;>
      cases op <;> simp [program, entry, Pc.betweenLocks, Pc.waitsU]
  | lock hf hi hfree =>
    obtain ⟨hb, hw⟩ := (locks_of_instr hi).waits
    refine h.move rfl ?_ ?_ <;> intro f₁ hf₁ <;> rw [← Option.some.inj hf₁]
    · exact fun hb' t' f' hf' => (hc _ hf t' f' hf').1 (hb.symm.trans hb')
    · exact fun hw' => absurd (hw.symm.trans hw') (by simp)
  | unlock hf hi =>
    obtain ⟨hb, hw⟩ := (unlocks_of_instr hi).waits
    refine h.move rfl ?_ ?_ <;> intro f₁ hf₁ <;> rw [← Option.some.inj hf₁]
    · exact fun hb' => absurd (hb.symm.trans hb') (by simp)
    · exact fun hw' => absurd (hw.symm.trans hw') (by simp)
  | access hf hi hg =>
    obtain ⟨hb, hw⟩ := (access_of_instr hi hg).waits
    refine h.move rfl ?_ ?_ <;> intro f₁ hf₁ <;> rw [← Option.some.inj hf₁]
    · exact fun hb' => absurd (hb.symm.trans hb') (by simp)
    · exact fun hw' t' f' hf' => (hc _ hf t' f' hf').2 (hw.symm.trans hw')
  | ret hf hi =>
    refine h.move rfl ?_ ?_ <;> intro f₁ hf₁ <;> exact absurd hf₁ (by simp)

theorem apart_of_reach {s : System} (h : Reach program Ordered {} s) : Apart s := by
  induction h with
  | init => exact fun t f t' f' hf => absurd hf (by simp [Sys.initial])
  | step _ hc hs ih => exact ih.step hc hs

theorem lock_of_deletion {pc : Pc} (h : pc.deletion = true) :
    ∃ next, instr pc = .lock .umutex next := by
  cases pc with
  | deleteLockU u => exact ⟨_, rfl⟩
  | clearLockU => exact ⟨_, rfl⟩
  | _ => exact absurd h (by simp [Pc.deletion])

theorem access_of_headsForU {db : MemDatabase} {pc : Pc} (h : pc.headsForU db = true) :
    ∃ g, instr pc = .access g := by
  cases pc with
  | gFind k g u => exact ⟨_, rfl⟩
  | keysNext g last ret => exact ⟨_, rfl⟩
  | _ => exact absurd h (by simp [Pc.headsForU])

/-- A deletion that makes its first step is between its locks. -/
theorem between_of_deletion {s s' : System} {t : Nat} {f : Frame MemDatabase Pc Op}
    (hf : s.thread t = some f) (hd : f.pc.deletion = true) (hs : Step program t s s') :
    ∃ f₁, s'.thread = Function.update s.thread t (some f₁) ∧ f₁.pc.betweenLocks = true := by
  obtain ⟨next, hl⟩ := lock_of_deletion hd
  cases hs with
  | invoke op hidle => exact absurd (hidle.symm.trans hf) (by simp)
  | lock hf' hi hfree =>
    obtain rfl := Option.some.inj (hf.symm.trans hf')
    exact ⟨_, rfl, (locks_of_instr hi).waits.1.trans hd⟩
  | unlock hf' hi =>
    obtain rfl := Option.some.inj (hf.symm.trans hf')
    exact absurd (hl.symm.trans hi) (by simp)
  | access hf' hi hg =>
    obtain rfl := Option.some.inj (hf.symm.trans hf')
    exact absurd (hl.symm.trans hi) (by simp)
  | ret hf' hi =>
    obtain rfl := Option.some.inj (hf.symm.trans hf')
    exact absurd (hl.symm.trans hi) (by simp)

/-- A thread at a test that leads to `umutex_` waits for it after its step. -/
theorem waits_of_headsForU {s s' : System} {t : Nat} {f : Frame MemDatabase Pc Op}
    (hf : s.thread t = some f) (hd : f.pc.headsForU s.store = true) (hs : Step program t s s') :
    ∃ f₁, s'.thread = Function.update s.thread t (some f₁) ∧ f₁.pc.waitsU = true := by
  obtain ⟨g, hl⟩ := access_of_headsForU hd
  cases hs with
  | invoke op hidle => exact absurd (hidle.symm.trans hf) (by simp)
  | lock hf' hi hfree =>
    obtain rfl := Option.some.inj (hf.symm.trans hf')
    exact absurd (hl.symm.trans hi) (by simp)
  | unlock hf' hi =>
    obtain rfl := Option.some.inj (hf.symm.trans hf')
    exact absurd (hl.symm.trans hi) (by simp)
  | access hf' hi hg =>
    obtain rfl := Option.some.inj (hf.symm.trans hf')
    exact ⟨_, rfl, (access_of_instr hi hg).waits.2.trans hd⟩
  | ret hf' hi =>
    obtain rfl := Option.some.inj (hf.symm.trans hf')
    exact absurd (hl.symm.trans hi) (by simp)

/-- A step that is not `Ordered` brings the two lock orders together. -/
theorem ordered_of_apart {s s' : System} {t : Nat} (h : Apart s') (hs : Step program t s s') :
    Ordered t s := by
  intro f hf t' f' hf'
  -- the other thread is where it was
  have hother : ∀ {f₁ : Frame MemDatabase Pc Op}, t' ≠ t →
      s'.thread = Function.update s.thread t (some f₁) →
      s'.thread t = some f₁ ∧ s'.thread t' = some f' := fun hne hth => by
    rw [hth, Function.update_self, Function.update_of_ne hne]
    exact ⟨rfl, hf'⟩
  by_cases hne : t' = t
  · subst hne
    obtain rfl := Option.some.inj (hf.symm.trans hf')
    exact ⟨waitsU_of_deletion, betweenLocks_of_headsForU⟩
  · refine ⟨fun hd => ?_, fun hd => ?_⟩
    · obtain ⟨f₁, hth, hb⟩ := between_of_deletion hf hd hs
      obtain ⟨h₁, h₂⟩ := hother hne hth
      exact h t f₁ t' f' h₁ hb h₂
    · obtain ⟨f₁, hth, hw⟩ := waits_of_headsForU hf hd hs
      obtain ⟨h₁, h₂⟩ := hother hne hth
      refine Bool.eq_false_of_not_eq_true fun hb => ?_
      exact absurd (hw.symm.trans (h t' f' t f₁ h₂ hb h₁)) (by simp)

/-! ## The deadlocks -/

/-- A thread that holds `umutex_` and waits for `gmutex_` is a deletion between its locks. -/
theorem betweenLocks_of_wants {pc next : Pc} (h : Locks pc .gmutex next)
    (hu : pc.holds .umutex) : pc.betweenLocks = true := by
  cases h <;> simp_all [Pc.holds, Pc.holdsU, Pc.betweenLocks]

theorem waitsU_of_wants {pc next : Pc} (h : Locks pc .umutex next) (hg : pc.holds .gmutex) :
    pc.waitsU = true := by
  cases h <;> simp_all [Pc.holds, Pc.holdsG, Pc.waitsU]

theorem wants_of_betweenLocks {pc : Pc} (h : pc.betweenLocks = true) :
    (∃ next, instr pc = .lock .gmutex next) ∧ pc.holds .umutex := by
  cases pc with
  | deleteLockG u => exact ⟨⟨_, rfl⟩, rfl⟩
  | clearLockG => exact ⟨⟨_, rfl⟩, rfl⟩
  | _ => exact absurd h (by simp [Pc.betweenLocks])

theorem wants_of_waitsU {pc : Pc} (h : pc.waitsU = true) :
    (∃ next, instr pc = .lock .umutex next) ∧ pc.holds .gmutex := by
  cases pc with
  | uLock k g u => exact ⟨⟨_, rfl⟩, rfl⟩
  | keysLockU g uid ret => exact ⟨⟨_, rfl⟩, rfl⟩
  | _ => exact absurd h (by simp [Pc.waitsU])

section

variable {C : Nat → System → Prop} {s : System}

/-- The two kinds of waiting threads block each other. -/
theorem deadlock_of_between (h : Reach program C {} s) {t t' : Nat}
    {f f' : Frame MemDatabase Pc Op} (hf : s.thread t = some f) (hb : f.pc.betweenLocks = true)
    (hf' : s.thread t' = some f') (hw : f'.pc.waitsU = true) : Deadlock program s := by
  obtain ⟨⟨n, hn⟩, hu⟩ := wants_of_betweenLocks hb
  obtain ⟨⟨n', hn'⟩, hg⟩ := wants_of_waitsU hw
  have hU : s.owner .umutex = some t := (owner_iff disciplined h .umutex t).mpr ⟨f, hf, hu⟩
  have hG : s.owner .gmutex = some t' := (owner_iff disciplined h .gmutex t').mpr ⟨f', hf', hg⟩
  have hne : t ≠ t' := by
    rintro rfl
    obtain rfl := Option.some.inj (hf.symm.trans hf')
    exact absurd (hw.symm.trans (waitsU_of_betweenLocks hb)) (by simp)
  refine ⟨{t, t'}, ⟨t, Or.inl rfl⟩, ?_⟩
  rintro t₁ (rfl | rfl)
  · exact ⟨.gmutex, ⟨f, n, hf, hn⟩, t', Or.inr rfl, hne.symm, hG⟩
  · exact ⟨.umutex, ⟨f', n', hf', hn'⟩, t, Or.inl rfl, hne, hU⟩

/-- In a set of threads that block each other, one is a deletion between its locks and one waits
for `umutex_` inside `gmutex_`. -/
theorem Apart.not_deadlock (hapart : Apart s) (h : Reach program C {} s) :
    ¬ Deadlock program s := by
  rintro ⟨T, ⟨t₀, ht₀⟩, hT⟩
  -- `t₁` holds what `t₀` waits for, and `t₂` what `t₁` waits for
  obtain ⟨m₀, -, t₁, ht₁, -, ho₁⟩ := hT t₀ ht₀
  obtain ⟨m₁, ⟨f₁, n₁, hf₁, hi₁⟩, t₂, ht₂, -, ho₂⟩ := hT t₁ ht₁
  obtain ⟨m₂, ⟨f₂, n₂, hf₂, hi₂⟩, -⟩ := hT t₂ ht₂
  obtain ⟨f₁', hf₁', hh₁⟩ := (owner_iff disciplined h m₀ t₁).mp ho₁
  obtain ⟨f₂', hf₂', hh₂⟩ := (owner_iff disciplined h m₁ t₂).mp ho₂
  obtain rfl := Option.some.inj (hf₁.symm.trans hf₁')
  obtain rfl := Option.some.inj (hf₂.symm.trans hf₂')
  have hne₁ := (disciplined.lock hi₁).1
  have hne₂ := (disciplined.lock hi₂).1
  have hl₁ := locks_of_instr hi₁
  have hl₂ := locks_of_instr hi₂
  cases m₀ with
  | gmutex =>
    cases m₁ with
    | gmutex => exact hne₁ hh₁
    | umutex =>
      cases m₂ with
      | umutex => exact hne₂ hh₂
      | gmutex =>
        have := hapart t₂ f₂ t₁ f₁ hf₂ (betweenLocks_of_wants hl₂ hh₂) hf₁
        rw [waitsU_of_wants hl₁ hh₁] at this
        exact absurd this (by simp)
  | umutex =>
    cases m₁ with
    | umutex => exact hne₁ hh₁
    | gmutex =>
      cases m₂ with
      | gmutex => exact hne₂ hh₂
      | umutex =>
        have := hapart t₁ f₁ t₂ f₂ hf₁ (betweenLocks_of_wants hl₁ hh₁) hf₂
        rw [waitsU_of_wants hl₂ hh₂] at this
        exact absurd this (by simp)

/-- **The deadlocks of the reachable states**: the two lock orders have met. -/
theorem deadlock_iff_not_apart (h : Reach program C {} s) : Deadlock program s ↔ ¬ Apart s := by
  refine ⟨fun hd ha => ha.not_deadlock h hd, fun ha => ?_⟩
  by_contra hd
  refine ha fun t f t' f' hf hb hf' => Bool.eq_false_of_not_eq_true fun hw => ?_
  exact hd (deadlock_of_between h hf hb hf' hw)

end

/-- **No run whose steps are all `Ordered` reaches a deadlock.** -/
theorem no_deadlock {s : System} (h : Reach program Ordered {} s) : ¬ Deadlock program s :=
  (apart_of_reach h).not_deadlock h

/-- `Ordered` for two calls, as a test. -/
def ordersLocks (db : MemDatabase) (pc pc' : Pc) : Bool :=
  !(pc.deletion && pc'.waitsU) && !(pc.headsForU db && pc'.betweenLocks)

theorem ordered_of_meets (t : Nat) (s : System) (h : Meets ordersLocks t s) : Ordered t s := by
  intro f hf t' f' hf'
  have := h f hf t' f' hf'
  simp only [ordersLocks, Bool.and_eq_true, Bool.not_eq_true', Bool.and_eq_false_iff] at this
  refine ⟨fun hd => this.1.resolve_left ?_, fun hd => this.2.resolve_left ?_⟩ <;>
    rw [hd] <;> exact Bool.noConfusion

/-- Thread 0 creates the user `a` and the group `g` and adds `a` to a group `h` that does not
exist; thread 1 deletes `a` meanwhile, and thread 2 creates a user. Thread 0 stands before its
`find`, inside `gmutex_`; thread 1 holds `umutex_` and waits for `gmutex_`, and thread 2 waits for
`umutex_`. -/
def deleting : System :=
  scheduled program {} (calling 0 (.createUser [97] [107]) 5 ++
    calling 0 (.createGroup [103] [97]) 9 ++
    [(0, some (.addUserToGroup [104] [97])), (1, some (.deleteUser [97])), (0, none), (1, none),
      (2, some (.createUser [98] [108]))])

/-- The theorem with a deletion between its locks, and `gmutex_` held by another thread. -/
theorem no_deadlock_deleting :
    Reach program Ordered {} deleting ∧
      ((deleting.thread 1).any fun f => f.pc.betweenLocks) = true ∧
      deleting.owner .gmutex = some 0 ∧ deleting.owner .umutex = some 1 ∧
      ¬ Deadlock program deleting := by
  have hr : Reach program Ordered {} deleting :=
    scheduled_meets ordered_of_meets [0, 1, 2] (by decide +kernel)
  exact ⟨hr, by decide +kernel, by decide +kernel, by decide +kernel, no_deadlock hr⟩

/-- **After such a run the condition is exact**: the next step leads to a deadlock just when it is
not `Ordered`. -/
theorem deadlock_iff_not_ordered {s s' : System} {t : Nat} (h : Reach program Ordered {} s)
    (hs : Step program t s s') : Deadlock program s' ↔ ¬ Ordered t s := by
  have h' : Reachable s' := .step (h.mono fun _ _ _ => trivial) trivial hs
  rw [deadlock_iff_not_apart h']
  exact not_congr ⟨fun ha => ordered_of_apart ha hs, fun hc => (apart_of_reach h).step hc hs⟩

/-! ## Two threads that stop each other -/

/-- Thread 0 creates the group `g` and stops inside `gmutex_`; thread 1 deletes the user `a` and
stops inside `umutex_`. -/
def crossed : System :=
  scheduled program {} [(0, some (.createGroup [103] [97])), (0, none), (0, none),
    (1, some (.deleteUser [97])), (1, none)]

/-- `create_group` and `delete_user` deadlock. -/
theorem createGroup_deleteUser_deadlock : Reachable crossed ∧ Deadlock program crossed := by
  refine ⟨scheduled_reach (fun _ _ => trivial) _, {0, 1}, ⟨0, Or.inl rfl⟩, ?_⟩
  rintro t (rfl | rfl)
  · exact ⟨.umutex, ⟨_, _, rfl, rfl⟩, 1, Or.inr rfl, by decide, rfl⟩
  · exact ⟨.gmutex, ⟨_, _, rfl, rfl⟩, 0, Or.inl rfl, by decide, rfl⟩

end ASky.Concurrent

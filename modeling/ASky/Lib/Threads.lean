import Mathlib

/-!
# Threads over mutexes and a shared store

Any number of threads run calls of a set of operations. An operation is a control flow graph: a
program point is a lock, an unlock, one atomic access to the shared store that also chooses the
next point, or the return of a result (`Instr`). A step of the system is one such step of one
thread, or the start of a call by an idle thread (`Step`). A mutex that is held blocks `lock`; an
access that is undefined in the current store has no step.

* `Reach P C σ₀` are the states of the runs in which every step meets the condition `C`, a
  predicate on the thread that steps and the state before it.
* `Disciplined` says which mutexes are held at each program point. `owner_iff`: the owner of a
  mutex is then the thread that stands at such a point, so no two threads do.
* `Outline` is a proof outline: an assertion at each program point and an invariant for each mutex,
  which holds while the mutex is free. **`Outline.holds`** is the rule: the assertions hold in
  every reachable state if each step keeps its thread's assertion and, for threads that hold no
  mutex in common, the assertions of the others.
* `Deadlock`: a set of threads, each blocked on a mutex held by another thread of the set.

A call carries the clock at its start and end, and the store at its last access (`seen`); the
steps do not read them.
-/

namespace ASky.Lib

variable {τ μ σ π Ω ρ : Type}

/-- What a program point does. -/
inductive Instr (μ σ π ρ : Type) where
  | lock (m : μ) (next : π)
  | unlock (m : μ) (next : π)
  | access (g : σ → Option (σ × π))
  | ret (r : ρ)

/-- The operations `Ω`, with results `ρ`. -/
structure Program (μ σ π Ω ρ : Type) where
  entry : Ω → π
  instr : π → Instr μ σ π ρ

/-- A call under way. -/
structure Frame (σ π Ω : Type) where
  op : Ω
  start : Nat
  seen : σ
  pc : π

/-- A call that returned. -/
structure Call (τ σ Ω ρ : Type) where
  tid : τ
  op : Ω
  result : ρ
  start : Nat
  stop : Nat
  seen : σ

structure Sys (τ μ σ π Ω ρ : Type) where
  store : σ
  owner : μ → Option τ
  thread : τ → Option (Frame σ π Ω)
  clock : Nat
  calls : List (Call τ σ Ω ρ)

/-- All threads idle, all mutexes free. -/
def Sys.initial (σ₀ : σ) : Sys τ μ σ π Ω ρ :=
  { store := σ₀, owner := fun _ => none, thread := fun _ => none, clock := 0, calls := [] }

variable [DecidableEq τ] [DecidableEq μ]

/-- One step of the thread `t`. -/
inductive Step (P : Program μ σ π Ω ρ) (t : τ) (s : Sys τ μ σ π Ω ρ) : Sys τ μ σ π Ω ρ → Prop where
  | invoke (op : Ω) (h : s.thread t = none) :
    Step P t s { s with
      thread := Function.update s.thread t (some ⟨op, s.clock, s.store, P.entry op⟩)
      clock := s.clock + 1 }
  | lock {f : Frame σ π Ω} {m : μ} {next : π} (h : s.thread t = some f)
    (hi : P.instr f.pc = .lock m next) (ho : s.owner m = none) :
    Step P t s { s with
      owner := Function.update s.owner m (some t)
      thread := Function.update s.thread t (some { f with pc := next }) }
  | unlock {f : Frame σ π Ω} {m : μ} {next : π} (h : s.thread t = some f)
    (hi : P.instr f.pc = .unlock m next) :
    Step P t s { s with
      owner := Function.update s.owner m none
      thread := Function.update s.thread t (some { f with pc := next }) }
  | access {f : Frame σ π Ω} {g : σ → Option (σ × π)} {store : σ} {next : π}
    (h : s.thread t = some f) (hi : P.instr f.pc = .access g)
    (hg : g s.store = some (store, next)) :
    Step P t s { s with
      store := store
      thread := Function.update s.thread t (some { f with seen := store, pc := next }) }
  | ret {f : Frame σ π Ω} {r : ρ} (h : s.thread t = some f) (hi : P.instr f.pc = .ret r) :
    Step P t s { s with
      thread := Function.update s.thread t none
      calls := s.calls ++ [⟨t, f.op, r, f.start, s.clock, f.seen⟩]
      clock := s.clock + 1 }

/-- The states of the runs whose steps all meet `C`. -/
inductive Reach (P : Program μ σ π Ω ρ) (C : τ → Sys τ μ σ π Ω ρ → Prop) (σ₀ : σ) :
    Sys τ μ σ π Ω ρ → Prop where
  | init : Reach P C σ₀ (Sys.initial σ₀)
  | step {s s' : Sys τ μ σ π Ω ρ} {t : τ} (h : Reach P C σ₀ s) (hc : C t s) (hs : Step P t s s') :
    Reach P C σ₀ s'

/-- A weaker condition has more runs. -/
theorem Reach.mono {P : Program μ σ π Ω ρ} {C C' : τ → Sys τ μ σ π Ω ρ → Prop} {σ₀ : σ}
    (hC : ∀ t s, C t s → C' t s) {s : Sys τ μ σ π Ω ρ} (h : Reach P C σ₀ s) :
    Reach P C' σ₀ s := by
  induction h with
  | init => exact .init
  | step _ hc hs ih => exact .step ih (hC _ _ hc) hs

/-! ## Running a schedule -/

/-- The step of thread `t`, if it has one; an idle thread starts the call `op`. -/
def exec (P : Program μ σ π Ω ρ) (t : τ) (op : Option Ω) (s : Sys τ μ σ π Ω ρ) :
    Option (Sys τ μ σ π Ω ρ) :=
  match s.thread t with
  | none => op.map fun op => { s with
      thread := Function.update s.thread t (some ⟨op, s.clock, s.store, P.entry op⟩)
      clock := s.clock + 1 }
  | some f =>
    match P.instr f.pc with
    | .lock m next => if (s.owner m).isNone then some { s with
        owner := Function.update s.owner m (some t)
        thread := Function.update s.thread t (some { f with pc := next }) } else none
    | .unlock m next => some { s with
        owner := Function.update s.owner m none
        thread := Function.update s.thread t (some { f with pc := next }) }
    | .access g => (g s.store).map fun r => { s with
        store := r.1
        thread := Function.update s.thread t (some { f with seen := r.1, pc := r.2 }) }
    | .ret r => some { s with
        thread := Function.update s.thread t none
        calls := s.calls ++ [⟨t, f.op, r, f.start, s.clock, f.seen⟩]
        clock := s.clock + 1 }

theorem exec_step {P : Program μ σ π Ω ρ} {t : τ} {op : Option Ω} {s s' : Sys τ μ σ π Ω ρ}
    (h : exec P t op s = some s') : Step P t s s' := by
  unfold exec at h
  cases ht : s.thread t with
  | none =>
    rw [ht] at h
    obtain ⟨op, -, rfl⟩ := Option.map_eq_some_iff.mp h
    exact .invoke op ht
  | some f =>
    rw [ht] at h
    dsimp only at h
    cases hi : P.instr f.pc with
    | lock m next =>
      rw [hi] at h
      dsimp only at h
      split at h
      · rename_i ho
        rw [← Option.some.inj h]
        exact .lock ht hi (Option.isNone_iff_eq_none.mp ho)
      · exact absurd h (by simp)
    | unlock m next =>
      rw [hi] at h
      rw [← Option.some.inj h]
      exact .unlock ht hi
    | access g =>
      rw [hi] at h
      obtain ⟨⟨store, next⟩, hg, rfl⟩ := Option.map_eq_some_iff.mp h
      exact .access ht hi hg
    | ret r =>
      rw [hi] at h
      rw [← Option.some.inj h]
      exact .ret ht hi

/-- The steps of a schedule, one after the other. -/
def runSchedule (P : Program μ σ π Ω ρ) :
    List (τ × Option Ω) → Sys τ μ σ π Ω ρ → Option (Sys τ μ σ π Ω ρ)
  | [], s => some s
  | (t, op) :: rest, s =>
    match exec P t op s with
    | some s' => runSchedule P rest s'
    | none => none

theorem runSchedule_reach {P : Program μ σ π Ω ρ} {C : τ → Sys τ μ σ π Ω ρ → Prop} {σ₀ : σ}
    (hC : ∀ t s, C t s) {l : List (τ × Option Ω)} {s s' : Sys τ μ σ π Ω ρ}
    (hs : Reach P C σ₀ s) (h : runSchedule P l s = some s') : Reach P C σ₀ s' := by
  induction l generalizing s with
  | nil => exact Option.some.inj h ▸ hs
  | cons e l ih =>
    obtain ⟨t, op⟩ := e
    rw [runSchedule] at h
    split at h
    · rename_i s₁ h₁
      exact ih (.step hs (hC t s) (exec_step h₁)) h
    · exact absurd h (by simp)

/-- The state after a schedule; the initial one, when a step of it has no successor. -/
def scheduled (P : Program μ σ π Ω ρ) (σ₀ : σ) (l : List (τ × Option Ω)) : Sys τ μ σ π Ω ρ :=
  (runSchedule P l (Sys.initial σ₀)).getD (Sys.initial σ₀)

theorem scheduled_reach {P : Program μ σ π Ω ρ} {C : τ → Sys τ μ σ π Ω ρ → Prop} {σ₀ : σ}
    (hC : ∀ t s, C t s) (l : List (τ × Option Ω)) : Reach P C σ₀ (scheduled P σ₀ l) := by
  unfold scheduled
  cases h : runSchedule P l (Sys.initial σ₀) with
  | none => exact .init
  | some s => exact runSchedule_reach hC .init h

theorem exec_thread {P : Program μ σ π Ω ρ} {t t' : τ} {op : Option Ω} {s s' : Sys τ μ σ π Ω ρ}
    (h : exec P t op s = some s') (hne : t' ≠ t) : s'.thread t' = s.thread t' := by
  cases exec_step h with
  | invoke op h' => exact Function.update_of_ne hne _ _
  | lock h' hi ho => exact Function.update_of_ne hne _ _
  | unlock h' hi => exact Function.update_of_ne hne _ _
  | access h' hi hg => exact Function.update_of_ne hne _ _
  | ret h' hi => exact Function.update_of_ne hne _ _

/-- A thread that a schedule does not name stays idle. -/
theorem scheduled_idle {P : Program μ σ π Ω ρ} {σ₀ : σ} {l : List (τ × Option Ω)} {t : τ}
    (hl : ∀ e ∈ l, t ≠ e.1) : (scheduled P σ₀ l).thread t = none := by
  have hrun : ∀ s s' : Sys τ μ σ π Ω ρ, runSchedule P l s = some s' → s'.thread t = s.thread t := by
    induction l with
    | nil => exact fun s s' h => Option.some.inj h ▸ rfl
    | cons e l ih =>
      intro s s' h
      obtain ⟨t₀, op⟩ := e
      rw [runSchedule] at h
      split at h
      · rename_i s₁ h₁
        rw [ih (fun e he => hl e (List.mem_cons_of_mem _ he)) s₁ s' h]
        exact exec_thread h₁ (hl _ List.mem_cons_self)
      · exact absurd h (by simp)
  unfold scheduled
  cases h : runSchedule P l (Sys.initial σ₀) with
  | none => rfl
  | some s => exact hrun _ s h

/-- The call of the thread `t` meets `R` with every call under way. -/
def Meets (R : σ → π → π → Bool) (t : τ) (s : Sys τ μ σ π Ω ρ) : Prop :=
  ∀ f, s.thread t = some f → ∀ t' f', s.thread t' = some f' → R s.store f.pc f'.pc = true

/-- `Meets`, as far as the threads `ts` go. -/
def meets (R : σ → π → π → Bool) (ts : List τ) (t : τ) (s : Sys τ μ σ π Ω ρ) : Bool :=
  match s.thread t with
  | none => true
  | some f => ts.all fun t' =>
    match s.thread t' with
    | none => true
    | some f' => R s.store f.pc f'.pc

/-- Every step of a schedule is one of the threads `ts`, and `meets` before it. -/
def runMeets (P : Program μ σ π Ω ρ) (R : σ → π → π → Bool) (ts : List τ) :
    List (τ × Option Ω) → Sys τ μ σ π Ω ρ → Bool
  | [], _ => true
  | (t, op) :: rest, s =>
    match exec P t op s with
    | some s' => decide (t ∈ ts) && meets R ts t s && runMeets P R ts rest s'
    | none => false

omit [DecidableEq τ] [DecidableEq μ] in
/-- With all other threads idle, `meets` is the whole condition. -/
theorem meets_of_idle {R : σ → π → π → Bool} {ts : List τ} {t : τ} {s : Sys τ μ σ π Ω ρ}
    (hidle : ∀ t', t' ∉ ts → s.thread t' = none) (h : meets R ts t s = true) : Meets R t s := by
  intro f hf t' f' hf'
  have hmem : t' ∈ ts := by
    by_contra hn
    exact absurd ((hidle t' hn).symm.trans hf') (by simp)
  unfold meets at h
  rw [hf] at h
  have := List.all_eq_true.mp h t' hmem
  rw [hf'] at this
  exact this

/-- A schedule whose steps all meet `R` is a run under every condition that `Meets` is enough
for. -/
theorem scheduled_meets {P : Program μ σ π Ω ρ} {C : τ → Sys τ μ σ π Ω ρ → Prop} {σ₀ : σ}
    {R : σ → π → π → Bool} (hC : ∀ t s, Meets R t s → C t s) (ts : List τ)
    {l : List (τ × Option Ω)} (hl : runMeets P R ts l (Sys.initial σ₀) = true) :
    Reach P C σ₀ (scheduled P σ₀ l) := by
  -- the threads outside `ts` stay idle along the schedule
  have hrun : ∀ s s' : Sys τ μ σ π Ω ρ, Reach P C σ₀ s → (∀ t', t' ∉ ts → s.thread t' = none) →
      runMeets P R ts l s = true → runSchedule P l s = some s' → Reach P C σ₀ s' := by
    clear hl
    induction l with
    | nil => exact fun s s' hs _ _ h => Option.some.inj h ▸ hs
    | cons e l ih =>
      intro s s' hs hidle hmeets h
      obtain ⟨t, op⟩ := e
      rw [runSchedule] at h
      rw [runMeets] at hmeets
      cases h₁ : exec P t op s with
      | none =>
        rw [h₁] at h
        exact absurd h (by simp)
      | some s₁ =>
        rw [h₁] at h hmeets
        simp only [Bool.and_eq_true, decide_eq_true_eq] at hmeets
        obtain ⟨⟨ht, hm⟩, hrest⟩ := hmeets
        refine ih s₁ s' (.step hs (hC t s (meets_of_idle hidle hm)) (exec_step h₁))
          (fun t' ht' => ?_) hrest h
        have hne : t' ≠ t := fun he => ht' (he ▸ ht)
        rw [exec_thread h₁ hne, hidle t' ht']
  unfold scheduled
  cases h : runSchedule P l (Sys.initial σ₀) with
  | none => exact .init
  | some s => exact hrun _ s .init (fun _ _ => rfl) hl h

/-! ## Which thread holds a mutex -/

/-- `held pc m`: the mutex `m` is held at the program point `pc`. -/
structure Disciplined (P : Program μ σ π Ω ρ) (held : π → μ → Prop) : Prop where
  entry : ∀ op m, ¬ held (P.entry op) m
  lock : ∀ {pc m next}, P.instr pc = .lock m next →
    ¬ held pc m ∧ ∀ m', held next m' ↔ held pc m' ∨ m' = m
  unlock : ∀ {pc m next}, P.instr pc = .unlock m next →
    held pc m ∧ ∀ m', held next m' ↔ held pc m' ∧ m' ≠ m
  access : ∀ {pc g}, P.instr pc = .access g → ∀ {x x' : σ} {next}, g x = some (x', next) →
    ∀ m, held next m ↔ held pc m
  ret : ∀ {pc r}, P.instr pc = .ret r → ∀ m, ¬ held pc m

/-- The thread `t` stands at a point where `m` is held. -/
def Holds (held : π → μ → Prop) (s : Sys τ μ σ π Ω ρ) (t : τ) (m : μ) : Prop :=
  ∃ f, s.thread t = some f ∧ held f.pc m

/-- The owner of a mutex is the thread that stands where it is held. -/
def Owned (held : π → μ → Prop) (s : Sys τ μ σ π Ω ρ) : Prop :=
  ∀ m t, s.owner m = some t ↔ Holds held s t m

section

variable {held : π → μ → Prop} {s s' : Sys τ μ σ π Ω ρ} {t : τ} {f : Frame σ π Ω}
  {f₀ : Option (Frame σ π Ω)}

omit [DecidableEq μ] in
/-- Moving the thread `t` changes what `t` holds and nothing else. -/
theorem holds_update (hth : s'.thread = Function.update s.thread t f₀) {t' : τ} {m : μ} :
    Holds held s' t' m ↔
      if t' = t then ∃ f', f₀ = some f' ∧ held f'.pc m else Holds held s t' m := by
  unfold Holds
  rw [hth]
  by_cases h : t' = t
  · subst h
    rw [if_pos rfl, Function.update_self]
  · rw [if_neg h, Function.update_of_ne h]

omit [DecidableEq τ] [DecidableEq μ] in
theorem holds_self (ht : s.thread t = some f) {m : μ} : Holds held s t m ↔ held f.pc m := by
  unfold Holds
  rw [ht]
  simp only [Option.some.injEq, exists_eq_left']

omit [DecidableEq μ] in
/-- A step that takes and gives back no mutex. -/
theorem Owned.move (h : Owned held s) (howner : s'.owner = s.owner)
    (hth : s'.thread = Function.update s.thread t f₀)
    (hsame : ∀ m, (∃ f', f₀ = some f' ∧ held f'.pc m) ↔ Holds held s t m) : Owned held s' := by
  intro m t'
  rw [howner, h m t', holds_update hth]
  split
  · rename_i he
    rw [he, hsame]
  · exact Iff.rfl

theorem Owned.lock (h : Owned held s) (ht : s.thread t = some f) {m₀ : μ} {next : π}
    (hfree : s.owner m₀ = none) (hnext : ∀ m, held next m ↔ held f.pc m ∨ m = m₀)
    (howner : s'.owner = Function.update s.owner m₀ (some t))
    (hth : s'.thread = Function.update s.thread t (some { f with pc := next })) :
    Owned held s' := by
  intro m t'
  rw [howner, holds_update hth, Function.update_apply]
  by_cases hm : m = m₀
  · subst hm
    rw [if_pos rfl]
    split
    · rename_i he
      subst he
      exact iff_of_true rfl ⟨_, rfl, (hnext m).mpr (Or.inr rfl)⟩
    · rename_i he
      refine iff_of_false (fun hc => he (Option.some.inj hc).symm) ?_
      rw [← h, hfree]
      simp
  · rw [if_neg hm, h]
    split
    · rename_i he
      subst he
      rw [holds_self ht]
      simp only [Option.some.injEq, exists_eq_left', hnext, hm, or_false]
    · exact Iff.rfl

theorem Owned.unlock (h : Owned held s) (ht : s.thread t = some f) {m₀ : μ} {next : π}
    (hyes : held f.pc m₀) (hnext : ∀ m, held next m ↔ held f.pc m ∧ m ≠ m₀)
    (howner : s'.owner = Function.update s.owner m₀ none)
    (hth : s'.thread = Function.update s.thread t (some { f with pc := next })) :
    Owned held s' := by
  intro m t'
  rw [howner, holds_update hth, Function.update_apply]
  by_cases hm : m = m₀
  · subst hm
    rw [if_pos rfl]
    refine iff_of_false (by simp) ?_
    split
    · rintro ⟨f', hf', hh⟩
      rw [← Option.some.inj hf'] at hh
      exact ((hnext m).mp hh).2 rfl
    · rename_i he
      intro hh
      have hown : s.owner m = some t := (h m t).mpr ⟨f, ht, hyes⟩
      rw [(h m t').mpr hh] at hown
      exact he (Option.some.inj hown)
  · rw [if_neg hm, h]
    split
    · rename_i he
      subst he
      rw [holds_self ht]
      simp only [Option.some.injEq, exists_eq_left', hnext, hm, ne_eq, not_false_eq_true, and_true]
    · exact Iff.rfl

/-- One step keeps the owners. -/
theorem Owned.step {P : Program μ σ π Ω ρ} (hd : Disciplined P held) (h : Owned held s)
    (hs : Step P t s s') : Owned held s' := by
  cases hs with
  | invoke op ht =>
    refine h.move rfl rfl fun m => iff_of_false ?_ ?_
    · rintro ⟨f, hf, hh⟩
      rw [← Option.some.inj hf] at hh
      exact hd.entry op m hh
    · rintro ⟨f, hf, -⟩
      exact absurd (ht.symm.trans hf) (by simp)
  | lock ht hi hfree => exact h.lock ht hfree (hd.lock hi).2 rfl rfl
  | unlock ht hi => exact h.unlock ht (hd.unlock hi).1 (hd.unlock hi).2 rfl rfl
  | access ht hi hg =>
    refine h.move rfl rfl fun m => ?_
    rw [holds_self ht]
    simp only [Option.some.injEq, exists_eq_left', hd.access hi hg]
  | ret ht hi =>
    refine h.move rfl rfl fun m => iff_of_false (by simp) ?_
    rw [holds_self ht]
    exact hd.ret hi m

end

/-- **The owner of a mutex is the thread that stands where it is held.** -/
theorem owner_iff {P : Program μ σ π Ω ρ} {held : π → μ → Prop} (hd : Disciplined P held)
    {C : τ → Sys τ μ σ π Ω ρ → Prop} {σ₀ : σ} {s : Sys τ μ σ π Ω ρ} (h : Reach P C σ₀ s) :
    Owned held s := by
  induction h with
  | init =>
    refine fun m t => iff_of_false (by simp [Sys.initial]) ?_
    rintro ⟨f, hf, -⟩
    exact absurd hf (by simp [Sys.initial])
  | step _ _ hs ih => exact ih.step hd hs

/-- No two threads hold one mutex. -/
theorem exclusive {P : Program μ σ π Ω ρ} {held : π → μ → Prop} (hd : Disciplined P held)
    {C : τ → Sys τ μ σ π Ω ρ → Prop} {σ₀ : σ} {s : Sys τ μ σ π Ω ρ} (h : Reach P C σ₀ s) {m : μ}
    {t t' : τ} (ht : Holds held s t m) (ht' : Holds held s t' m) : t = t' := by
  rw [← owner_iff hd h] at ht ht'
  exact Option.some.inj (ht.symm.trans ht')

/-! ## Proof outlines -/

/-- A proof outline: the assertion `A` of a call at its program point, the invariant `J m` of a
free mutex `m`, and what holds of a returned call, `post`. -/
structure Outline (P : Program μ σ π Ω ρ) (held : π → μ → Prop)
    (C : τ → Sys τ μ σ π Ω ρ → Prop) (σ₀ : σ) (A : Frame σ π Ω → σ → Prop) (J : μ → σ → Prop)
    (post : Ω → ρ → σ → Prop) : Prop where
  init : ∀ m, J m σ₀
  entry : ∀ op n x, A ⟨op, n, x, P.entry op⟩ x
  lock : ∀ {f m next x}, P.instr f.pc = .lock m next → A f x → J m x → A { f with pc := next } x
  unlock : ∀ {f m next x}, P.instr f.pc = .unlock m next → A f x →
    A { f with pc := next } x ∧ J m x
  access : ∀ {f g x x' next}, P.instr f.pc = .access g → A f x → g x = some (x', next) →
    A { f with seen := x', pc := next } x'
  frame : ∀ {f g x x' next}, P.instr f.pc = .access g → A f x → g x = some (x', next) →
    ∀ m, ¬ held f.pc m → J m x → J m x'
  stable : ∀ {s : Sys τ μ σ π Ω ρ} {t t' : τ} {f f' g x' next}, C t s → t' ≠ t →
    s.thread t = some f → s.thread t' = some f' → P.instr f.pc = .access g → A f s.store →
    g s.store = some (x', next) → A f' s.store → (∀ m, held f.pc m → ¬ held f'.pc m) → A f' x'
  ret : ∀ {f r x}, P.instr f.pc = .ret r → A f x → post f.op r f.seen

/-- The assertions of the calls under way, the invariants of the free mutexes, and `post` of the
returned calls. -/
structure Asserted (A : Frame σ π Ω → σ → Prop) (J : μ → σ → Prop) (post : Ω → ρ → σ → Prop)
    (s : Sys τ μ σ π Ω ρ) : Prop where
  frames : ∀ t f, s.thread t = some f → A f s.store
  free : ∀ m, s.owner m = none → J m s.store
  calls : ∀ c ∈ s.calls, post c.op c.result c.seen

section

variable {P : Program μ σ π Ω ρ} {held : π → μ → Prop} {C : τ → Sys τ μ σ π Ω ρ → Prop} {σ₀ : σ}
  {A : Frame σ π Ω → σ → Prop} {J : μ → σ → Prop} {post : Ω → ρ → σ → Prop}
  {s s' : Sys τ μ σ π Ω ρ} {t : τ} {f : Frame σ π Ω}

omit [DecidableEq μ] in
/-- The assertions when one thread moves and the store stays as it is. -/
theorem Asserted.move (h : Asserted A J post s) {f₀ : Option (Frame σ π Ω)}
    (hself : ∀ f, f₀ = some f → A f s.store) :
    ∀ t' f, Function.update s.thread t f₀ t' = some f → A f s.store := by
  intro t' f hf
  by_cases ht : t' = t
  · rw [ht, Function.update_self] at hf
    exact hself f hf
  · rw [Function.update_of_ne ht] at hf
    exact h.frames t' f hf

omit [DecidableEq μ] in
/-- An access: the thread's own assertion, the assertions of the others, and the free mutexes. -/
theorem Outline.access_step (ho : Outline P held C σ₀ A J post) (h : Asserted A J post s)
    (hown : Owned held s) (hc : C t s) (ht : s.thread t = some f) {g : σ → Option (σ × π)} {x' : σ}
    {next : π} (hi : P.instr f.pc = .access g) (hg : g s.store = some (x', next)) :
    (∀ t' f', Function.update s.thread t (some { f with seen := x', pc := next }) t' = some f' →
      A f' x') ∧ ∀ m, s.owner m = none → J m x' := by
  have ha := h.frames t f ht
  refine ⟨fun t' f' hf => ?_, fun m hm => ?_⟩
  · by_cases hne : t' = t
    · rw [hne, Function.update_self] at hf
      exact Option.some.inj hf ▸ ho.access hi ha hg
    · rw [Function.update_of_ne hne] at hf
      refine ho.stable hc hne ht hf hi ha hg (h.frames t' f' hf) fun m hm hm' => hne ?_
      have := (hown m t').mpr ⟨f', hf, hm'⟩
      exact Option.some.inj (this.symm.trans ((hown m t).mpr ⟨f, ht, hm⟩))
  · refine ho.frame hi ha hg m (fun hm' => ?_) (h.free m hm)
    have := (hown m t).mpr ⟨f, ht, hm'⟩
    exact absurd (hm.symm.trans this) (by simp)

/-- One step keeps the assertions. -/
theorem Outline.step (ho : Outline P held C σ₀ A J post) (h : Asserted A J post s)
    (hown : Owned held s) (hc : C t s) (hs : Step P t s s') : Asserted A J post s' := by
  cases hs with
  | invoke op ht =>
    refine ⟨h.move fun f hf => ?_, h.free, h.calls⟩
    exact Option.some.inj hf ▸ ho.entry op s.clock s.store
  | lock ht hi hfree =>
    rename_i f m next
    refine ⟨h.move fun f' hf => ?_, fun m' hm' => ?_, h.calls⟩
    · exact Option.some.inj hf ▸ ho.lock hi (h.frames t f ht) (h.free m hfree)
    · dsimp only at hm'
      rw [Function.update_apply] at hm'
      split at hm'
      · exact absurd hm' (by simp)
      · exact h.free m' hm'
  | unlock ht hi =>
    rename_i f m next
    obtain ⟨hnext, hm⟩ := ho.unlock hi (h.frames t f ht)
    refine ⟨h.move fun f' hf => Option.some.inj hf ▸ hnext, fun m' hm' => ?_, h.calls⟩
    dsimp only at hm'
    rw [Function.update_apply] at hm'
    split at hm'
    · rename_i he
      exact he ▸ hm
    · exact h.free m' hm'
  | access ht hi hg =>
    obtain ⟨hframes, hfree⟩ := ho.access_step h hown hc ht hi hg
    exact ⟨hframes, hfree, h.calls⟩
  | ret ht hi =>
    rename_i f r
    refine ⟨h.move fun f' hf => absurd hf (by simp), h.free, fun c hc => ?_⟩
    rcases List.mem_append.mp hc with hc | hc
    · exact h.calls c hc
    · rw [List.mem_singleton.mp hc]
      exact ho.ret hi (h.frames t f ht)

end

/-- **The assertions of an outline hold in every reachable state**, the invariant of every free
mutex, and `post` of every returned call. -/
theorem Outline.holds {P : Program μ σ π Ω ρ} {held : π → μ → Prop} (hd : Disciplined P held)
    {C : τ → Sys τ μ σ π Ω ρ → Prop} {σ₀ : σ} {A : Frame σ π Ω → σ → Prop} {J : μ → σ → Prop}
    {post : Ω → ρ → σ → Prop} (ho : Outline P held C σ₀ A J post) {s : Sys τ μ σ π Ω ρ}
    (h : Reach P C σ₀ s) : Asserted A J post s := by
  induction h with
  | init =>
    refine ⟨fun t f hf => ?_, fun m _ => ho.init m, fun c hc => ?_⟩
    · exact absurd hf (by simp [Sys.initial])
    · exact absurd hc (by simp [Sys.initial])
  | step hr hc hs ih => exact ho.step ih (owner_iff hd hr) hc hs

/-! ## Deadlock -/

/-- The thread `t` is at a lock of `m`. -/
def Wants (P : Program μ σ π Ω ρ) (s : Sys τ μ σ π Ω ρ) (t : τ) (m : μ) : Prop :=
  ∃ f next, s.thread t = some f ∧ P.instr f.pc = .lock m next

/-- A set of threads, each blocked on a mutex held by another thread of the set. -/
def Deadlock (P : Program μ σ π Ω ρ) (s : Sys τ μ σ π Ω ρ) : Prop :=
  ∃ T : Set τ, T.Nonempty ∧
    ∀ t ∈ T, ∃ m, Wants P s t m ∧ ∃ t' ∈ T, t' ≠ t ∧ s.owner m = some t'

end ASky.Lib

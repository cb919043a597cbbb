import ASky.Lib.Linearizable

/-!
# Procedures around one call

A procedure computes on its own, makes at most one call of a program of `ASky.Lib.Threads`, and
computes its result from what the call returned (`Procedure`). What it computes on its own touches
nothing shared: `Program.around` gives it one step before the call and one after it.

* `Calls body s' s`: the calls under way in `s` are those of the procedures under way in `s'`.
* **`Simulation.around`**: if the calls simulate an object, the procedures simulate the object on
  which a procedure runs at once (`Procedure.run`). So procedures whose calls are linearizable are
  linearizable, and the real time that counts is that of the procedures.
-/

namespace ASky.Lib

variable {τ μ σ π Ω Ω' ρ ρ' ρ'' : Type}

/-- A result, or a call and what to make of its result. -/
inductive Procedure (Ω ρ ρ' : Type) where
  | answer (r : ρ')
  | call (op : Ω) (k : ρ → ρ')

/-- The procedure on the object, at once. -/
def Procedure.run (apply : σ → Ω → ρ × σ) (a : σ) : Procedure Ω ρ ρ' → ρ' × σ
  | .answer r => (r, a)
  | .call op k => (k (apply a op).1, (apply a op).2)

/-- The procedure that goes on with `f`. -/
def Procedure.map (f : ρ' → ρ'') : Procedure Ω ρ ρ' → Procedure Ω ρ ρ''
  | .answer r => .answer (f r)
  | .call op k => .call op fun r => f (k r)

theorem Procedure.run_map (f : ρ' → ρ'') (apply : σ → Ω → ρ × σ) (a : σ) (p : Procedure Ω ρ ρ') :
    (p.map f).run apply a = (f (p.run apply a).1, (p.run apply a).2) := by
  cases p with
  | answer r => rfl
  | call op k => rfl

/-- The program points of a procedure. -/
inductive Stage (π Ω' ρ ρ' : Type) where
  | start (x : Ω')
  | within (k : ρ → ρ') (pc : π)
  | finish (r : ρ')

/-- An instruction of the call. -/
def Instr.within (k : ρ → ρ') : Instr μ σ π ρ → Instr μ σ (Stage π Ω' ρ ρ') ρ'
  | .lock m next => .lock m (.within k next)
  | .unlock m next => .unlock m (.within k next)
  | .access g => .access fun x => (g x).map fun r => (r.1, .within k r.2)
  | .ret r => .access fun x => some (x, .finish (k r))

/-- The point to which a procedure's own computation leads. -/
def Program.enter (P : Program μ σ π Ω ρ) : Procedure Ω ρ ρ' → Stage π Ω' ρ ρ'
  | .answer r => .finish r
  | .call op k => .within k (P.entry op)

/-- The procedures as a program. -/
def Program.around (P : Program μ σ π Ω ρ) (body : Ω' → Procedure Ω ρ ρ') :
    Program μ σ (Stage π Ω' ρ ρ') Ω' ρ' where
  entry := .start
  instr
    | .start x => .access fun a => some (a, P.enter (body x))
    | .within k pc => (P.instr pc).within k
    | .finish r => .ret r

/-- A procedure has taken effect when its call has, or when it has its result. -/
def Stage.lin (lin : π → Option ρ) : Stage π Ω' ρ ρ' → Option ρ'
  | .start _ => none
  | .within k pc => (lin pc).map k
  | .finish r => some r

/-- The call a procedure is in. -/
inductive Inner (body : Ω' → Procedure Ω ρ ρ') :
    Option (Frame σ (Stage π Ω' ρ ρ') Ω') → Option (Frame σ π Ω) → Prop where
  | idle : Inner body none none
  | start {f : Frame σ (Stage π Ω' ρ ρ') Ω'} (h : f.pc = .start f.op) : Inner body (some f) none
  | within {f : Frame σ (Stage π Ω' ρ ρ') Ω'} {f' : Frame σ π Ω} {k : ρ → ρ'}
    (h : f.pc = .within k f'.pc) (hbody : body f.op = .call f'.op k) : Inner body (some f) (some f')
  | finish {f : Frame σ (Stage π Ω' ρ ρ') Ω'} {r : ρ'} (h : f.pc = .finish r) :
    Inner body (some f) none

/-- The system `s` of the calls under way in the system `s'` of procedures. -/
structure Calls (body : Ω' → Procedure Ω ρ ρ') (s' : Sys τ μ σ (Stage π Ω' ρ ρ') Ω' ρ')
    (s : Sys τ μ σ π Ω ρ) : Prop where
  store : s.store = s'.store
  owner : s.owner = s'.owner
  thread : ∀ t, Inner body (s'.thread t) (s.thread t)

/-! ## The instructions of a procedure -/

section

variable {k : ρ → ρ'} {i : Instr μ σ π ρ} {m : μ} {next : Stage π Ω' ρ ρ'}

theorem Instr.within_lock (h : i.within k = .lock m next) :
    ∃ pc, i = .lock m pc ∧ next = .within k pc := by
  cases i with
  | lock m' pc =>
    obtain ⟨rfl, rfl⟩ := Instr.lock.inj h
    exact ⟨pc, rfl, rfl⟩
  | unlock m' pc => exact absurd h (by simp [within])
  | access g => exact absurd h (by simp [within])
  | ret r => exact absurd h (by simp [within])

theorem Instr.within_unlock (h : i.within k = .unlock m next) :
    ∃ pc, i = .unlock m pc ∧ next = .within k pc := by
  cases i with
  | lock m' pc => exact absurd h (by simp [within])
  | unlock m' pc =>
    obtain ⟨rfl, rfl⟩ := Instr.unlock.inj h
    exact ⟨pc, rfl, rfl⟩
  | access g => exact absurd h (by simp [within])
  | ret r => exact absurd h (by simp [within])

/-- An access of a procedure in its call is an access of the call, or takes over its result. -/
theorem Instr.within_access {g : σ → Option (σ × Stage π Ω' ρ ρ')} {x x' : σ}
    (h : i.within k = .access g) (hg : g x = some (x', next)) :
    (∃ g' pc, i = .access g' ∧ g' x = some (x', pc) ∧ next = .within k pc) ∨
      ∃ r, i = .ret r ∧ x' = x ∧ next = .finish (k r) := by
  cases i with
  | lock m' pc => exact absurd h (by simp [within])
  | unlock m' pc => exact absurd h (by simp [within])
  | access g' =>
    rw [← Instr.access.inj h] at hg
    obtain ⟨⟨y, pc⟩, hy, he⟩ := Option.map_eq_some_iff.mp hg
    obtain ⟨rfl, rfl⟩ := Prod.mk.inj he
    exact Or.inl ⟨g', pc, rfl, hy, rfl⟩
  | ret r =>
    rw [← Instr.access.inj h] at hg
    obtain ⟨rfl, rfl⟩ := Prod.mk.inj (Option.some.inj hg)
    exact Or.inr ⟨r, rfl, rfl, rfl⟩

theorem Instr.within_ne_ret {r : ρ'} :
    (i.within k : Instr μ σ (Stage π Ω' ρ ρ') ρ') ≠ .ret r := by
  cases i with
  | lock m' pc => simp [within]
  | unlock m' pc => simp [within]
  | access g => simp [within]
  | ret r => simp [within]

end

/-! ## The simulation -/

variable [DecidableEq τ] [DecidableEq μ]

section

variable {P : Program μ σ π Ω ρ} {C : τ → Sys τ μ σ π Ω ρ → Prop} {σ₀ : σ}
  {apply : σ → Ω → ρ × σ} {abs : Sys τ μ σ π Ω ρ → σ → Prop} {lin : π → Option ρ}
  {body : Ω' → Procedure Ω ρ ρ'} {s' s₁' : Sys τ μ σ (Stage π Ω' ρ ρ') Ω' ρ'}
  {s s₁ : Sys τ μ σ π Ω ρ} {t : τ} {a a' : σ}

omit [DecidableEq μ] in
/-- Both systems move the thread `t`. -/
theorem Calls.move (h : Calls body s' s) {f' : Option (Frame σ (Stage π Ω' ρ ρ') Ω')}
    {f : Option (Frame σ π Ω)} (hin : Inner body f' f) (hstore : s₁.store = s₁'.store)
    (howner : s₁.owner = s₁'.owner) (hth' : s₁'.thread = Function.update s'.thread t f')
    (hth : s₁.thread = Function.update s.thread t f) : Calls body s₁' s₁ where
  store := hstore
  owner := howner
  thread t' := by
    rw [hth', hth]
    by_cases ht : t' = t
    · subst ht
      rw [Function.update_self, Function.update_self]
      exact hin
    · rw [Function.update_of_ne ht, Function.update_of_ne ht]
      exact h.thread t'

omit [DecidableEq μ] in
/-- The procedure of the thread `t` moves on outside its call. -/
theorem Calls.stay (h : Calls body s' s) {f' : Option (Frame σ (Stage π Ω' ρ ρ') Ω')}
    (hin : Inner body f' (s.thread t)) (hstore : s₁'.store = s'.store)
    (howner : s₁'.owner = s'.owner) (hth' : s₁'.thread = Function.update s'.thread t f') :
    Calls body s₁' s :=
  h.move hin (h.store.trans hstore.symm) (h.owner.trans howner.symm) hth'
    (Function.update_eq_self t s.thread).symm

omit [DecidableEq τ] [DecidableEq μ] in
/-- A step of the call is one of its procedure. -/
theorem Point.around {f' f₁' : Frame σ (Stage π Ω' ρ ρ') Ω'} {f f₁ : Frame σ π Ω} {k : ρ → ρ'}
    (hp : Point apply lin (some f) (some f₁) a a') (hpc : f'.pc = .within k f.pc)
    (hpc₁ : f₁'.pc = .within k f₁.pc) (hbody : body f'.op = .call f.op k) (hop : f₁'.op = f'.op)
    (hstart : f₁'.start = f'.start) :
    Point (fun a x => (body x).run apply a) (Stage.lin lin) (some f') (some f₁') a a' := by
  cases hp with
  | stay hop' hstart' hl =>
    refine .stay hop hstart ?_
    rw [hpc, hpc₁, Stage.lin, Stage.lin, hl]
  | @effect _ _ _ _ r hop' hstart' hl hl' ha =>
    refine .effect (r := k r) hop hstart ?_ ?_ ?_
    · rw [hpc, Stage.lin, hl]
      rfl
    · rw [hpc₁, Stage.lin, hl']
      rfl
    · rw [hbody, Procedure.run, ha]

omit [DecidableEq τ] [DecidableEq μ] in
theorem Inner.of_none {f : Option (Frame σ π Ω)} (h : Inner body none f) : f = none := by
  cases h with
  | idle => rfl

omit [DecidableEq τ] [DecidableEq μ] in
/-- A procedure before its call. -/
theorem Inner.of_start {f' : Frame σ (Stage π Ω' ρ ρ') Ω'} {f : Option (Frame σ π Ω)} {x : Ω'}
    (h : Inner body (some f') f) (hpc : f'.pc = .start x) : f = none ∧ f'.op = x := by
  cases h with
  | start h => exact ⟨rfl, Stage.start.inj (h.symm.trans hpc)⟩
  | within h hbody => exact absurd (h.symm.trans hpc) (by simp)
  | finish h => exact absurd (h.symm.trans hpc) (by simp)

omit [DecidableEq τ] [DecidableEq μ] in
/-- A procedure in its call. -/
theorem Inner.of_within {f' : Frame σ (Stage π Ω' ρ ρ') Ω'} {f : Option (Frame σ π Ω)} {k : ρ → ρ'}
    {pc : π} (h : Inner body (some f') f) (hpc : f'.pc = .within k pc) :
    ∃ f₀, f = some f₀ ∧ f₀.pc = pc ∧ body f'.op = .call f₀.op k := by
  cases h with
  | start h => exact absurd (h.symm.trans hpc) (by simp)
  | @within _ f₀ k' h hbody =>
    obtain ⟨rfl, rfl⟩ := Stage.within.inj (h.symm.trans hpc)
    exact ⟨f₀, rfl, rfl, hbody⟩
  | finish h => exact absurd (h.symm.trans hpc) (by simp)

omit [DecidableEq τ] [DecidableEq μ] in
/-- A procedure after its call. -/
theorem Inner.of_finish {f' : Frame σ (Stage π Ω' ρ ρ') Ω'} {f : Option (Frame σ π Ω)} {r : ρ'}
    (h : Inner body (some f') f) (hpc : f'.pc = .finish r) : f = none := by
  cases h with
  | start h => rfl
  | within h hbody => exact absurd (h.symm.trans hpc) (by simp)
  | finish h => rfl

/-- A step of a call is one step of its procedure. -/
theorem Simulation.within (hsim : Simulation P C σ₀ apply abs lin) (hr : Reach P C σ₀ s)
    (hc : C t s) (hcalls : Calls body s' s) (habs : abs s a)
    {f' f₁' : Frame σ (Stage π Ω' ρ ρ') Ω'} {f f₁ : Frame σ π Ω} {k : ρ → ρ'}
    (ht : s'.thread t = some f') (hf : s.thread t = some f) (hpc : f'.pc = .within k f.pc)
    (hbody : body f'.op = .call f.op k) (hstep : Step P t s s₁)
    (hth : s₁.thread = Function.update s.thread t (some f₁))
    (hth' : s₁'.thread = Function.update s'.thread t (some f₁')) (hop : f₁.op = f.op)
    (hop' : f₁'.op = f'.op) (hstart' : f₁'.start = f'.start) (hpc' : f₁'.pc = .within k f₁.pc)
    (hstore : s₁.store = s₁'.store) (howner : s₁.owner = s₁'.owner) :
    ∃ a', (∃ s, Reach P C σ₀ s ∧ Calls body s₁' s ∧ abs s a') ∧
      Point (fun a x => (body x).run apply a) (Stage.lin lin) (s'.thread t) (s₁'.thread t)
        a a' := by
  have hin : Inner body (some f₁') (some f₁) := by
    refine .within hpc' ?_
    rw [hop', hop]
    exact hbody
  obtain ⟨a', habs', hp⟩ := hsim.step hr hc hstep habs
  refine ⟨a', ⟨s₁, .step hr hc hstep, hcalls.move hin hstore howner hth' hth, habs'⟩, ?_⟩
  rw [hf, hth, Function.update_self] at hp
  rw [ht, hth', Function.update_self]
  exact hp.around hpc hpc' hbody hop' hstart'

/-- A procedure without a call takes effect when it has its result. -/
theorem Simulation.answers (hr : Reach P C σ₀ s) (hcalls : Calls body s' s) (habs : abs s a)
    {f' f₁' : Frame σ (Stage π Ω' ρ ρ') Ω'} {r : ρ'} (ht : s'.thread t = some f')
    (hpc : f'.pc = .start f'.op) (hbody : body f'.op = .answer r) (hf : s.thread t = none)
    (hth' : s₁'.thread = Function.update s'.thread t (some f₁')) (hstore : s₁'.store = s'.store)
    (howner : s₁'.owner = s'.owner) (hop' : f₁'.op = f'.op) (hstart' : f₁'.start = f'.start)
    (hpc' : f₁'.pc = .finish r) :
    ∃ a', (∃ s, Reach P C σ₀ s ∧ Calls body s₁' s ∧ abs s a') ∧
      Point (fun a x => (body x).run apply a) (Stage.lin lin) (s'.thread t) (s₁'.thread t)
        a a' := by
  refine ⟨a, ⟨s, hr, hcalls.stay ?_ hstore howner hth', habs⟩, ?_⟩
  · rw [hf]
    exact .finish hpc'
  · rw [ht, hth', Function.update_self]
    refine .effect (r := r) hop' hstart' ?_ ?_ ?_
    · rw [hpc, Stage.lin]
    · rw [hpc', Stage.lin]
    · rw [hbody, Procedure.run]

/-- A procedure makes its call. -/
theorem Simulation.invokes (hsim : Simulation P C σ₀ apply abs lin) (hr : Reach P C σ₀ s)
    (hc : C t s) (hcalls : Calls body s' s) (habs : abs s a)
    {f' f₁' : Frame σ (Stage π Ω' ρ ρ') Ω'} {op : Ω} {k : ρ → ρ'} (ht : s'.thread t = some f')
    (hpc : f'.pc = .start f'.op) (hbody : body f'.op = .call op k) (hf : s.thread t = none)
    (hth' : s₁'.thread = Function.update s'.thread t (some f₁')) (hstore : s₁'.store = s'.store)
    (howner : s₁'.owner = s'.owner) (hop' : f₁'.op = f'.op) (hstart' : f₁'.start = f'.start)
    (hpc' : f₁'.pc = .within k (P.entry op)) :
    ∃ a', (∃ s, Reach P C σ₀ s ∧ Calls body s₁' s ∧ abs s a') ∧
      Point (fun a x => (body x).run apply a) (Stage.lin lin) (s'.thread t) (s₁'.thread t)
        a a' := by
  have hstep := Step.invoke (P := P) op hf
  obtain ⟨a', habs', hp⟩ := hsim.step hr hc hstep habs
  dsimp only at hp
  rw [hf, Function.update_self] at hp
  rw [ht, hth', Function.update_self]
  cases hp with
  | invoke hl =>
    have hin : Inner body (some f₁') (some ⟨op, s.clock, s.store, P.entry op⟩) :=
      .within hpc' (by rw [hop', hbody])
    refine ⟨a, ⟨_, .step hr hc hstep, hcalls.move hin (hcalls.store.trans hstore.symm)
      (hcalls.owner.trans howner.symm) hth' rfl, habs'⟩, .stay hop' hstart' ?_⟩
    rw [hpc, hpc', Stage.lin, Stage.lin, hl]
    rfl

/-- A procedure takes the result over when its call returns. -/
theorem Simulation.resumes (hsim : Simulation P C σ₀ apply abs lin) (hr : Reach P C σ₀ s)
    (hc : C t s) (hcalls : Calls body s' s) (habs : abs s a)
    {f' f₁' : Frame σ (Stage π Ω' ρ ρ') Ω'} {f : Frame σ π Ω} {k : ρ → ρ'} {r : ρ}
    (ht : s'.thread t = some f') (hf : s.thread t = some f) (hpc : f'.pc = .within k f.pc)
    (hi : P.instr f.pc = .ret r)
    (hth' : s₁'.thread = Function.update s'.thread t (some f₁')) (hstore : s₁'.store = s'.store)
    (howner : s₁'.owner = s'.owner) (hop' : f₁'.op = f'.op) (hstart' : f₁'.start = f'.start)
    (hpc' : f₁'.pc = .finish (k r)) :
    ∃ a', (∃ s, Reach P C σ₀ s ∧ Calls body s₁' s ∧ abs s a') ∧
      Point (fun a x => (body x).run apply a) (Stage.lin lin) (s'.thread t) (s₁'.thread t)
        a a' := by
  have hstep := Step.ret hf hi
  obtain ⟨a', habs', hp⟩ := hsim.step hr hc hstep habs
  dsimp only at hp
  rw [hf, Function.update_self] at hp
  rw [ht, hth', Function.update_self]
  cases hp with
  | ret =>
    refine ⟨a, ⟨_, .step hr hc hstep, hcalls.move (.finish hpc') (hcalls.store.trans hstore.symm)
      (hcalls.owner.trans howner.symm) hth' rfl, habs'⟩, .stay hop' hstart' ?_⟩
    rw [hpc, hpc', Stage.lin, Stage.lin, hsim.ret hi]
    rfl

/-- **Procedures around the calls of a simulation are a simulation.** -/
theorem Simulation.around (hsim : Simulation P C σ₀ apply abs lin)
    {C' : τ → Sys τ μ σ (Stage π Ω' ρ ρ') Ω' ρ' → Prop}
    (hC : ∀ {t s' s}, Reach P C σ₀ s → Calls body s' s → C' t s' → C t s) :
    Simulation (P.around body) C' σ₀ (fun a x => (body x).run apply a)
      (fun s' a => ∃ s, Reach P C σ₀ s ∧ Calls body s' s ∧ abs s a) (Stage.lin lin) where
  init := ⟨Sys.initial σ₀, .init, ⟨rfl, rfl, fun _ => .idle⟩, hsim.init⟩
  ret {pc r} h := by
    cases pc with
    | start x => exact absurd h (by simp [Program.around])
    | within k pc => exact absurd h Instr.within_ne_ret
    | finish r' =>
      obtain rfl := Instr.ret.inj h
      rfl
  step {s' s₁' t a} _ hc hs := by
    rintro ⟨s, hr, hcalls, habs⟩
    have hct := hC hr hcalls hc
    have hin := hcalls.thread t
    cases hs with
    | invoke x ht =>
      rw [ht] at hin
      refine ⟨a, ⟨s, hr, hcalls.stay ?_ rfl rfl rfl, habs⟩, ?_⟩
      · rw [hin.of_none]
        exact .start rfl
      · dsimp only
        rw [ht, Function.update_self]
        exact .invoke rfl
    | @lock f' m next ht hi ho =>
      rw [ht] at hin
      cases hpc : f'.pc with
      | start x => exact absurd (hpc ▸ hi) (by simp [Program.around])
      | finish r => exact absurd (hpc ▸ hi) (by simp [Program.around])
      | within k pc =>
        obtain ⟨f, hf, rfl, hbody⟩ := hin.of_within hpc
        rw [hpc] at hi
        obtain ⟨pc', hi', rfl⟩ := Instr.within_lock hi
        refine hsim.within hr hct hcalls habs ht hf hpc hbody (.lock hf hi' (hcalls.owner ▸ ho))
          rfl rfl rfl rfl rfl rfl hcalls.store ?_
        dsimp only
        rw [hcalls.owner]
    | @unlock f' m next ht hi =>
      rw [ht] at hin
      cases hpc : f'.pc with
      | start x => exact absurd (hpc ▸ hi) (by simp [Program.around])
      | finish r => exact absurd (hpc ▸ hi) (by simp [Program.around])
      | within k pc =>
        obtain ⟨f, hf, rfl, hbody⟩ := hin.of_within hpc
        rw [hpc] at hi
        obtain ⟨pc', hi', rfl⟩ := Instr.within_unlock hi
        refine hsim.within hr hct hcalls habs ht hf hpc hbody (.unlock hf hi') rfl rfl rfl rfl rfl
          rfl hcalls.store ?_
        dsimp only
        rw [hcalls.owner]
    | @access f' g x' next ht hi hg =>
      rw [ht] at hin
      cases hpc : f'.pc with
      | start x =>
        rw [hpc] at hi
        obtain ⟨hf, rfl⟩ := hin.of_start hpc
        rw [← Instr.access.inj hi] at hg
        obtain ⟨rfl, rfl⟩ := Prod.mk.inj (Option.some.inj hg)
        cases hbody : body f'.op with
        | answer r =>
          exact Simulation.answers hr hcalls habs ht hpc hbody hf rfl rfl rfl rfl rfl rfl
        | call op k =>
          exact hsim.invokes hr hct hcalls habs ht hpc hbody hf rfl rfl rfl rfl rfl rfl
      | within k pc =>
        obtain ⟨f, hf, rfl, hbody⟩ := hin.of_within hpc
        rw [hpc] at hi
        rcases Instr.within_access hi hg with ⟨g', pc', hi', hg', rfl⟩ | ⟨r, hi', rfl, rfl⟩
        · rw [← hcalls.store] at hg'
          exact hsim.within hr hct hcalls habs ht hf hpc hbody (.access hf hi' hg') rfl rfl rfl rfl
            rfl rfl rfl hcalls.owner
        · exact hsim.resumes hr hct hcalls habs ht hf hpc hi' rfl rfl rfl rfl rfl rfl
      | finish r => exact absurd (hpc ▸ hi) (by simp [Program.around])
    | @ret f' r ht hi =>
      rw [ht] at hin
      cases hpc : f'.pc with
      | start x => exact absurd (hpc ▸ hi) (by simp [Program.around])
      | within k pc => exact absurd (hpc ▸ hi) Instr.within_ne_ret
      | finish r' =>
        refine ⟨a, ⟨s, hr, hcalls.stay ?_ rfl rfl rfl, habs⟩, ?_⟩
        · rw [hin.of_finish hpc]
          exact .idle
        · dsimp only
          rw [ht, Function.update_self]
          exact .ret

end

end ASky.Lib

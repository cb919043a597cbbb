import ASky.Lib.Threads

/-!
# Linearizability

A sequential object is a function `apply` from a state and an operation to a result and a state.
The calls of a run are linearizable when they can be put in an order that keeps the real-time order
of calls that do not overlap and in which the sequential object gives every call its result and
ends in the same state (`Linearizable`).

`Simulation` is the rule to show it. `abs` relates a system to a state of the object, and `lin`
says at each program point whether the call has taken effect, and with which result. Each step
either leaves both as they are or is the one step at which its call takes effect on the object.
**`Simulation.linearizable`**: when all calls have returned, they are linearizable, in the order
of these steps.
-/

namespace ASky.Lib

variable {τ μ σ π Ω ρ : Type}

/-- The object gives these operations these results, and ends in `y`. -/
def Replays (apply : σ → Ω → ρ × σ) : σ → List (Ω × ρ) → σ → Prop
  | x, [], y => x = y
  | x, (op, r) :: l, y => (apply x op).1 = r ∧ Replays apply (apply x op).2 l y

instance Replays.decidable [DecidableEq σ] [DecidableEq ρ] (apply : σ → Ω → ρ × σ) :
    ∀ (x : σ) (l : List (Ω × ρ)) (y : σ), Decidable (Replays apply x l y)
  | x, [], y => inferInstanceAs (Decidable (x = y))
  | x, (op, r) :: l, y =>
    have := Replays.decidable apply (apply x op).2 l y
    inferInstanceAs (Decidable ((apply x op).1 = r ∧ Replays apply (apply x op).2 l y))

/-- An order of the calls that agrees with real time and with the object. -/
def Linearizable (apply : σ → Ω → ρ × σ) (x : σ) (calls : List (Call τ σ Ω ρ)) (y : σ) : Prop :=
  ∃ order : List (Call τ σ Ω ρ), order.Perm calls ∧
    order.Pairwise (fun c c' => ¬ c'.stop < c.start) ∧
    Replays apply x (order.map fun c => (c.op, c.result)) y

theorem replays_concat {apply : σ → Ω → ρ × σ} {x y z : σ} {l : List (Ω × ρ)} {op : Ω} {r : ρ}
    (h : Replays apply x l y) (ha : apply y op = (r, z)) : Replays apply x (l ++ [(op, r)]) z := by
  induction l generalizing x with
  | nil =>
    rw [show x = y from h]
    exact ⟨by rw [ha], by rw [ha]; rfl⟩
  | cons e l ih => exact ⟨h.1, ih h.2⟩

/-! ## The simulation -/

/-- What a step of a thread, from its frame before to its frame after, does on the object. -/
inductive Point (apply : σ → Ω → ρ × σ) (lin : π → Option ρ) :
    Option (Frame σ π Ω) → Option (Frame σ π Ω) → σ → σ → Prop where
  | invoke {f : Frame σ π Ω} {a : σ} (h : lin f.pc = none) : Point apply lin none (some f) a a
  | stay {f f' : Frame σ π Ω} {a : σ} (hop : f'.op = f.op) (hstart : f'.start = f.start)
    (h : lin f'.pc = lin f.pc) : Point apply lin (some f) (some f') a a
  | effect {f f' : Frame σ π Ω} {a a' : σ} {r : ρ} (hop : f'.op = f.op)
    (hstart : f'.start = f.start) (h : lin f.pc = none) (h' : lin f'.pc = some r)
    (ha : apply a f.op = (r, a')) : Point apply lin (some f) (some f') a a'
  | ret {f : Frame σ π Ω} {a : σ} : Point apply lin (some f) none a a

variable [DecidableEq τ] [DecidableEq μ]

/-- The system simulates the object: `abs` relates their states, `lin` tells which calls have taken
effect. -/
structure Simulation (P : Program μ σ π Ω ρ) (C : τ → Sys τ μ σ π Ω ρ → Prop) (σ₀ : σ)
    (apply : σ → Ω → ρ × σ) (abs : Sys τ μ σ π Ω ρ → σ → Prop) (lin : π → Option ρ) : Prop where
  init : abs (Sys.initial σ₀) σ₀
  ret : ∀ {pc r}, P.instr pc = .ret r → lin pc = some r
  step : ∀ {s s' : Sys τ μ σ π Ω ρ} {t : τ} {a : σ}, Reach P C σ₀ s → C t s → Step P t s s' →
    abs s a → ∃ a', abs s' a' ∧ Point apply lin (s.thread t) (s'.thread t) a a'

/-- A call that has taken effect, with its end and last store once it has returned. -/
structure Entry (τ σ Ω ρ : Type) where
  tid : τ
  op : Ω
  result : ρ
  start : Nat
  finish : Option (Nat × σ)

/-- The returned call of an entry. -/
def Entry.call? (e : Entry τ σ Ω ρ) : Option (Call τ σ Ω ρ) :=
  e.finish.map fun p => ⟨e.tid, e.op, e.result, e.start, p.1, p.2⟩

/-- The calls that have taken effect, in the order in which they did. -/
structure Order (apply : σ → Ω → ρ × σ) (lin : π → Option ρ) (σ₀ : σ) (s : Sys τ μ σ π Ω ρ) (a : σ)
    (l : List (Entry τ σ Ω ρ)) : Prop where
  replays : Replays apply σ₀ (l.map fun e => (e.op, e.result)) a
  calls : (l.filterMap Entry.call?).Perm s.calls
  realTime : l.Pairwise fun e e' => ∀ p, e'.finish = some p → e.start ≤ p.1
  start_lt : ∀ e ∈ l, e.start < s.clock
  frame_lt : ∀ t f, s.thread t = some f → f.start < s.clock
  pending : ∀ e ∈ l, e.finish = none → ∃ f, s.thread e.tid = some f ∧ f.op = e.op ∧
    f.start = e.start ∧ lin f.pc = some e.result
  has_entry : ∀ t f r, s.thread t = some f → lin f.pc = some r → ∃ e ∈ l, e.finish = none ∧
    e.tid = t
  one_pending : l.Pairwise fun e e' => e.finish = none → e'.finish = none → e.tid ≠ e'.tid

section

variable {apply : σ → Ω → ρ × σ} {lin : π → Option ρ} {σ₀ a a' : σ} {s s' : Sys τ μ σ π Ω ρ}
  {l : List (Entry τ σ Ω ρ)} {t : τ} {f f' : Frame σ π Ω}

omit [DecidableEq τ] [DecidableEq μ] in
theorem Order.initial : Order apply lin σ₀ (Sys.initial σ₀ : Sys τ μ σ π Ω ρ) σ₀ [] where
  replays := rfl
  calls := .refl _
  realTime := .nil
  start_lt := fun e he => absurd he List.not_mem_nil
  frame_lt := fun t f hf => absurd hf (by simp [Sys.initial])
  pending := fun e he => absurd he List.not_mem_nil
  has_entry := fun t f r hf => absurd hf (by simp [Sys.initial])
  one_pending := .nil

omit [DecidableEq μ] in
/-- A call starts. -/
theorem Order.invoke (ho : Order apply lin σ₀ s a l) (ht : s.thread t = none)
    (hf : lin f.pc = none) (hstart : f.start = s.clock)
    (hth : s'.thread = Function.update s.thread t (some f)) (hcalls : s'.calls = s.calls)
    (hclock : s'.clock = s.clock + 1) : Order apply lin σ₀ s' a l where
  replays := ho.replays
  calls := hcalls ▸ ho.calls
  realTime := ho.realTime
  start_lt e he := by
    have := ho.start_lt e he
    omega
  frame_lt t' f' hf' := by
    rw [hth, Function.update_apply] at hf'
    split at hf'
    · rw [← Option.some.inj hf', hstart]
      omega
    · have := ho.frame_lt t' f' hf'
      omega
  pending e he hfin := by
    obtain ⟨f', hf', hrest⟩ := ho.pending e he hfin
    refine ⟨f', ?_, hrest⟩
    rw [hth, Function.update_of_ne, hf']
    rintro rfl
    rw [ht] at hf'
    exact absurd hf' (by simp)
  has_entry t' f' r hf' hl := by
    rw [hth, Function.update_apply] at hf'
    split at hf'
    · rw [← Option.some.inj hf', hf] at hl
      exact absurd hl (by simp)
    · exact ho.has_entry t' f' r hf' hl
  one_pending := ho.one_pending

omit [DecidableEq μ] in
/-- A call that goes on has started before. -/
theorem Order.frame_lt_of_update (ho : Order apply lin σ₀ s a l) (ht : s.thread t = some f)
    (hstart : f'.start = f.start) (hth : s'.thread = Function.update s.thread t (some f'))
    (hclock : s'.clock = s.clock) : ∀ t' f₁, s'.thread t' = some f₁ → f₁.start < s'.clock := by
  intro t' f₁ hf₁
  rw [hth, Function.update_apply] at hf₁
  rw [hclock]
  split at hf₁
  · rw [← Option.some.inj hf₁, hstart]
    exact ho.frame_lt t f ht
  · exact ho.frame_lt t' f₁ hf₁

omit [DecidableEq μ] in
/-- A call moves on, before or after its effect. -/
theorem Order.stay (ho : Order apply lin σ₀ s a l) (ht : s.thread t = some f)
    (hop : f'.op = f.op) (hstart : f'.start = f.start) (hl : lin f'.pc = lin f.pc)
    (hth : s'.thread = Function.update s.thread t (some f')) (hcalls : s'.calls = s.calls)
    (hclock : s'.clock = s.clock) : Order apply lin σ₀ s' a l where
  replays := ho.replays
  calls := hcalls ▸ ho.calls
  realTime := ho.realTime
  start_lt := hclock ▸ ho.start_lt
  frame_lt := ho.frame_lt_of_update ht hstart hth hclock
  pending e he hfin := by
    obtain ⟨f₁, hf₁, ho₁, hs₁, hl₁⟩ := ho.pending e he hfin
    rw [hth, Function.update_apply]
    split
    · rename_i heq
      rw [heq, ht] at hf₁
      obtain rfl := Option.some.inj hf₁
      exact ⟨f', rfl, hop.trans ho₁, hstart.trans hs₁, hl.trans hl₁⟩
    · exact ⟨f₁, hf₁, ho₁, hs₁, hl₁⟩
  has_entry t' f₁ r hf₁ hl₁ := by
    rw [hth, Function.update_apply] at hf₁
    split at hf₁
    · rename_i heq
      rw [← Option.some.inj hf₁, hl] at hl₁
      exact heq ▸ ho.has_entry t f r ht hl₁
    · exact ho.has_entry t' f₁ r hf₁ hl₁
  one_pending := ho.one_pending

omit [DecidableEq μ] in
/-- A call takes effect: it goes to the end of the order. -/
theorem Order.effect (ho : Order apply lin σ₀ s a l) (ht : s.thread t = some f) {r : ρ}
    (hop : f'.op = f.op) (hstart : f'.start = f.start) (hn : lin f.pc = none)
    (hl : lin f'.pc = some r) (ha : apply a f.op = (r, a'))
    (hth : s'.thread = Function.update s.thread t (some f')) (hcalls : s'.calls = s.calls)
    (hclock : s'.clock = s.clock) :
    Order apply lin σ₀ s' a' (l ++ [⟨t, f.op, r, f.start, none⟩]) where
  replays := by
    rw [List.map_append]
    exact replays_concat ho.replays ha
  calls := by
    rw [List.filterMap_append, hcalls]
    exact (List.append_nil _).symm ▸ ho.calls
  realTime := by
    refine List.pairwise_append.mpr ⟨ho.realTime, List.pairwise_singleton _ _, ?_⟩
    intro e _ e' he' p hp
    rw [List.mem_singleton.mp he'] at hp
    exact absurd hp (by simp)
  start_lt e he := by
    rw [hclock]
    rcases List.mem_append.mp he with he | he
    · exact ho.start_lt e he
    · rw [List.mem_singleton.mp he]
      exact ho.frame_lt t f ht
  frame_lt := ho.frame_lt_of_update ht hstart hth hclock
  pending e he hfin := by
    rw [hth, Function.update_apply]
    rcases List.mem_append.mp he with he | he
    · obtain ⟨f₁, hf₁, ho₁, hs₁, hl₁⟩ := ho.pending e he hfin
      rw [if_neg]
      · exact ⟨f₁, hf₁, ho₁, hs₁, hl₁⟩
      · intro heq
        rw [heq, ht] at hf₁
        rw [← Option.some.inj hf₁, hn] at hl₁
        exact absurd hl₁ (by simp)
    · rw [List.mem_singleton.mp he, if_pos rfl]
      exact ⟨f', rfl, hop, hstart, hl⟩
  has_entry t' f₁ r₁ hf₁ hl₁ := by
    rw [hth, Function.update_apply] at hf₁
    split at hf₁
    · rename_i heq
      exact ⟨_, List.mem_append_right l List.mem_cons_self, rfl, heq.symm⟩
    · obtain ⟨e, he, hfin, htid⟩ := ho.has_entry t' f₁ r₁ hf₁ hl₁
      exact ⟨e, List.mem_append_left _ he, hfin, htid⟩
  one_pending := by
    refine List.pairwise_append.mpr ⟨ho.one_pending, List.pairwise_singleton _ _, ?_⟩
    intro e he e' he' hfin _ htid
    obtain ⟨f₁, hf₁, -, -, hl₁⟩ := ho.pending e he hfin
    rw [htid, List.mem_singleton.mp he', ht] at hf₁
    rw [← Option.some.inj hf₁, hn] at hl₁
    exact absurd hl₁ (by simp)

omit [DecidableEq τ] [DecidableEq μ] in
/-- Replacing one element of a pairwise related list. -/
theorem pairwise_replace {α : Type} {R : α → α → Prop} {l₁ l₂ : List α} {x x' : α}
    (h : (l₁ ++ x :: l₂).Pairwise R) (hl : ∀ y ∈ l₁, R y x → R y x')
    (hr : ∀ y ∈ l₂, R x y → R x' y) : (l₁ ++ x' :: l₂).Pairwise R := by
  obtain ⟨h₁, h₂, hcross⟩ := List.pairwise_append.mp h
  obtain ⟨hhead, htail⟩ := List.pairwise_cons.mp h₂
  refine List.pairwise_append.mpr ⟨h₁, List.pairwise_cons.mpr ⟨?_, htail⟩, ?_⟩
  · exact fun y hy => hr y hy (hhead y hy)
  · intro y hy z hz
    rcases List.mem_cons.mp hz with rfl | hz
    · exact hl y hy (hcross y hy x List.mem_cons_self)
    · exact hcross y hy z (List.mem_cons_of_mem x hz)

omit [DecidableEq τ] [DecidableEq μ] in
/-- The entries besides a pending one that are pending belong to other threads. -/
theorem Order.other_pending {l₁ l₂ : List (Entry τ σ Ω ρ)} {e : Entry τ σ Ω ρ}
    (ho : Order apply lin σ₀ s a (l₁ ++ e :: l₂)) (hfin : e.finish = none) :
    ∀ e' ∈ l₁ ++ l₂, e'.finish = none → e'.tid ≠ e.tid := by
  obtain ⟨-, hpw₂, hcross⟩ := List.pairwise_append.mp ho.one_pending
  intro e' he' hfin'
  rcases List.mem_append.mp he' with he' | he'
  · exact hcross e' he' e List.mem_cons_self hfin' hfin
  · exact ((List.pairwise_cons.mp hpw₂).1 e' he' hfin hfin').symm

omit [DecidableEq μ] in
/-- A call returns: its entry gets its end. -/
theorem Order.ret (ho : Order apply lin σ₀ s a l) (ht : s.thread t = some f) {r : ρ}
    (hl : lin f.pc = some r) (hth : s'.thread = Function.update s.thread t none)
    (hcalls : s'.calls = s.calls ++ [⟨t, f.op, r, f.start, s.clock, f.seen⟩])
    (hclock : s'.clock = s.clock + 1) : ∃ l', Order apply lin σ₀ s' a l' := by
  obtain ⟨e, he, hfin, htid⟩ := ho.has_entry t f r ht hl
  obtain ⟨f₁, hf₁, hop, hstart, hres⟩ := ho.pending e he hfin
  rw [htid, ht] at hf₁
  obtain rfl := Option.some.inj hf₁
  obtain rfl := Option.some.inj (hl.symm.trans hres)
  obtain ⟨l₁, l₂, rfl⟩ := List.append_of_mem he
  have hother := ho.other_pending hfin
  have hin : ∀ e' ∈ l₁ ++ l₂, e' ∈ l₁ ++ e :: l₂ := fun e' he' =>
    List.perm_middle.mem_iff.mpr (List.mem_cons_of_mem e he')
  have hsplit : ∀ {e' e₀ : Entry τ σ Ω ρ}, e' ∈ l₁ ++ e₀ :: l₂ → e' = e₀ ∨ e' ∈ l₁ ++ l₂ :=
    fun he' => List.mem_cons.mp (List.perm_middle.mem_iff.mp he')
  refine ⟨l₁ ++ { e with finish := some (s.clock, f.seen) } :: l₂, ?_, ?_, ?_, ?_, ?_, ?_, ?_, ?_⟩
  · have hr := ho.replays
    rw [List.map_append, List.map_cons] at hr ⊢
    exact hr
  · have hc := ho.calls
    rw [List.filterMap_append, List.filterMap_cons_none (by rw [Entry.call?, hfin]; rfl)] at hc
    rw [List.filterMap_append, List.filterMap_cons_some (b := ⟨t, f.op, e.result, f.start, s.clock,
      f.seen⟩) (by rw [Entry.call?, ← htid, hop, hstart]; rfl), hcalls]
    exact List.perm_middle.trans ((List.Perm.cons _ hc).trans (List.perm_append_singleton _ _).symm)
  · refine pairwise_replace ho.realTime (fun e' he' _ p hp => ?_) fun e' _ h => h
    have := ho.start_lt e' (List.mem_append_left _ he')
    rw [← Option.some.inj hp]
    exact Nat.le_of_lt this
  · intro e' he'
    rcases hsplit he' with rfl | he'
    · have := ho.start_lt e he
      dsimp only
      omega
    · have := ho.start_lt e' (hin e' he')
      omega
  · intro t' f' hf'
    rw [hth, Function.update_apply] at hf'
    split at hf'
    · exact absurd hf' (by simp)
    · have := ho.frame_lt t' f' hf'
      omega
  · intro e' he' hfin'
    rcases hsplit he' with rfl | he'
    · exact absurd hfin' (by simp)
    · obtain ⟨f', hf', hrest⟩ := ho.pending e' (hin e' he') hfin'
      refine ⟨f', ?_, hrest⟩
      rw [hth, Function.update_of_ne (htid ▸ hother e' he' hfin'), hf']
  · intro t' f' r' hf' hl'
    rw [hth, Function.update_apply] at hf'
    split at hf'
    · exact absurd hf' (by simp)
    · rename_i hne
      obtain ⟨e', he', hfin', htid'⟩ := ho.has_entry t' f' r' hf' hl'
      rcases hsplit he' with rfl | he'
      · exact absurd (htid'.symm.trans htid) hne
      · exact ⟨e', List.perm_middle.mem_iff.mpr (List.mem_cons_of_mem _ he'), hfin', htid'⟩
  · refine pairwise_replace ho.one_pending (fun e' _ _ _ hfin' => ?_) fun e' _ _ hfin' => ?_
    · exact absurd hfin' (by simp)
    · exact absurd hfin' (by simp)

end

/-! ## The theorem -/

variable {P : Program μ σ π Ω ρ} {C : τ → Sys τ μ σ π Ω ρ → Prop} {σ₀ : σ}
  {apply : σ → Ω → ρ × σ} {abs : Sys τ μ σ π Ω ρ → σ → Prop} {lin : π → Option ρ}
  {s s' : Sys τ μ σ π Ω ρ} {t : τ} {a a' : σ}

/-- One step keeps an order of the calls that have taken effect. -/
theorem Order.step (hret : ∀ {pc r}, P.instr pc = .ret r → lin pc = some r)
    {l : List (Entry τ σ Ω ρ)} (ho : Order apply lin σ₀ s a l) (hs : Step P t s s')
    (hp : Point apply lin (s.thread t) (s'.thread t) a a') : ∃ l', Order apply lin σ₀ s' a' l' := by
  -- a step inside a call
  have hmove : ∀ {f f' : Frame σ π Ω}, s.thread t = some f →
      s'.thread = Function.update s.thread t (some f') → s'.calls = s.calls →
      s'.clock = s.clock → ∃ l', Order apply lin σ₀ s' a' l' := by
    intro f f' ht hth hcalls hclock
    rw [ht, hth, Function.update_self] at hp
    cases hp with
    | stay hop hstart hl => exact ⟨l, ho.stay ht hop hstart hl hth hcalls hclock⟩
    | effect hop hstart hn hl ha =>
      exact ⟨_, ho.effect ht hop hstart hn hl ha hth hcalls hclock⟩
  cases hs with
  | invoke op h =>
    dsimp only at hp
    rw [h, Function.update_self] at hp
    cases hp with
    | invoke hl => exact ⟨l, ho.invoke h hl rfl rfl rfl rfl⟩
  | lock h hi hfree => exact hmove h rfl rfl rfl
  | unlock h hi => exact hmove h rfl rfl rfl
  | access h hi hg => exact hmove h rfl rfl rfl
  | ret h hi =>
    dsimp only at hp
    rw [h, Function.update_self] at hp
    cases hp with
    | ret => exact ho.ret h (hret hi) rfl rfl rfl

theorem Simulation.order (hsim : Simulation P C σ₀ apply abs lin) (h : Reach P C σ₀ s) :
    ∃ a l, abs s a ∧ Order apply lin σ₀ s a l := by
  induction h with
  | init => exact ⟨σ₀, [], hsim.init, .initial⟩
  | step hr hc hs ih =>
    obtain ⟨a, l, habs, ho⟩ := ih
    obtain ⟨a', habs', hp⟩ := hsim.step hr hc hs habs
    obtain ⟨l', ho'⟩ := ho.step hsim.ret hs hp
    exact ⟨a', l', habs', ho'⟩

/-- **When all calls have returned, they are linearizable.** -/
theorem Simulation.linearizable (hsim : Simulation P C σ₀ apply abs lin) (h : Reach P C σ₀ s)
    (hidle : ∀ t, s.thread t = none) : ∃ a, abs s a ∧ Linearizable apply σ₀ s.calls a := by
  obtain ⟨a, l, habs, ho⟩ := hsim.order h
  have hdone : ∀ e ∈ l, ∃ p, e.finish = some p := by
    intro e he
    cases hfin : e.finish with
    | some p => exact ⟨p, rfl⟩
    | none =>
      obtain ⟨f, hf, -⟩ := ho.pending e he hfin
      rw [hidle] at hf
      exact absurd hf (by simp)
  have hmap : ∀ l : List (Entry τ σ Ω ρ), (∀ e ∈ l, ∃ p, e.finish = some p) →
      (l.filterMap Entry.call?).map (fun c => (c.op, c.result)) =
        l.map fun e => (e.op, e.result) := by
    intro l hl
    induction l with
    | nil => rfl
    | cons e l ih =>
      obtain ⟨p, hp⟩ := hl e List.mem_cons_self
      rw [List.filterMap_cons_some (by rw [Entry.call?, hp]; rfl), List.map_cons, List.map_cons,
        ih fun e' he' => hl e' (List.mem_cons_of_mem e he')]
  refine ⟨a, habs, l.filterMap Entry.call?, ho.calls, ?_, ?_⟩
  · refine List.pairwise_filterMap.mpr (ho.realTime.imp ?_)
    intro e e' hle c hc c' hc'
    obtain ⟨p, -, rfl⟩ := Option.map_eq_some_iff.mp hc
    obtain ⟨p', hp', rfl⟩ := Option.map_eq_some_iff.mp hc'
    exact Nat.not_lt.mpr (hle p' hp')
  · rw [hmap l hdone]
    exact ho.replays

end ASky.Lib

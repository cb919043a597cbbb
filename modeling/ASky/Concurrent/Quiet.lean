import ASky.Concurrent.Outline

/-!
# Queries that take no mutex

`is_user_part_of_group` reads `groups_` without `gmutex_`. It goes wrong in three ways: it can read
the new set of `create_group` before its first member is in it, a membership that `delete_user` is
about to erase while others are erased already, and after the `clear()` of `delete_all_data` its
`groups_[gname]` brings the group back, empty.

`Quiet` is the condition on a step that excludes them. Under it one more assertion holds at the
program points (`Standing`): the group of a query stays, and nobody makes the group that
`create_group` has not found. So the `groups_[gname]` of a query inserts nothing
(`query_keeps_store`), and a thread outside `gmutex_` leaves the groups alone.
-/

namespace ASky.Concurrent

open Std (ExtTreeMap ExtTreeSet)
open Lib MemDatabase

/-- `is_user_part_of_group` after its `find`. -/
def Pc.querying : Pc → Bool
  | .partRef _ _ | .partSetFind _ _ | .partEnd _ _ _ => true
  | _ => false

/-- The condition on a step: a query reads no set that another thread is in the middle of changing
for its user, and `groups_` is not cleared under a query. -/
def Quiet (t : Nat) (s : System) : Prop :=
  ∀ f, s.thread t = some f → ∀ t' f', s.thread t' = some f' →
    (∀ u g, f.pc = .partSetFind u g → f'.pc ≠ .createInsert g u ∧
      ∀ last, f'.pc = .deleteNext u (some last) → ¬ s.store.Member u g) ∧
    (f.pc = .clearGroups → f'.pc.querying = false)

/-- Whether the group of a call exists, where `Local` does not say. -/
def Standing (db : MemDatabase) : Pc → Prop
  | .uLock k g _ | .uFind k g _ | .uUnlock k g _ | .gRef k g _ =>
    k.wantsGroup = false → g ∉ db.groups
  | .partRef _ g | .partSetFind _ g | .partEnd _ g _ => g ∈ db.groups
  | _ => True

/-! ## The outline -/

theorem Access.standing {db db' : MemDatabase} {pc next : Pc} (h : Access db pc db' next)
    (hs : Standing db pc) : Standing db' next := by
  cases h with
  | gFindRight h => exact fun hk => of_decide_eq_false (h.trans hk)
  | uFindKnown h => exact hs
  | gRef => rename_i k g u; cases k <;> trivial
  | partFind h => exact h
  | partRef => exact mem_subscript db _
  | partSetFind h => exact hs
  | _ => trivial

/-- A thread outside `gmutex_` leaves the groups alone. -/
theorem Access.groups_eq {db db' : MemDatabase} {pc next : Pc} (h : Access db pc db' next)
    (hs : Standing db pc) (hg : pc.holdsG = false) : db'.groups = db.groups := by
  cases h with
  | userFindNew hu => rfl
  | userFindOld hu => rfl
  | userAssign => rfl
  | partFind hm => rfl
  | partFindNone hm => rfl
  | partRef => rw [subscript_of_mem hs]
  | partSetFind hm => rfl
  | partEnd => rw [subscript_of_mem hs]
  | _ => exact absurd hg (by simp [Pc.holdsG])

theorem mem_groups_insert {db : MemDatabase} {g q : Bytes} {members : Members}
    (h : q ∈ db.groups) : q ∈ db.groups.insert g members :=
  ExtTreeMap.mem_insert.mpr (Or.inr h)

/-- Only `delete_all_data` removes a group. -/
theorem Access.mem_groups {db db' : MemDatabase} {pc next : Pc} (h : Access db pc db' next)
    (hpc : pc ≠ .clearGroups) {q : Bytes} (hq : q ∈ db.groups) : q ∈ db'.groups := by
  cases h with
  | clearGroups => exact absurd rfl hpc
  | gRef => exact (grows_subscript db _).mem_groups hq
  | addInsertNew h hu => exact mem_groups_insert hq
  | addInsertOld h hu => exact mem_groups_insert hq
  | createInsert h => exact mem_groups_insert hq
  | removeEndFound => exact (grows_subscript db _).mem_groups hq
  | removeEndMissing => exact (grows_subscript db _).mem_groups hq
  | removeRef => exact (grows_subscript db _).mem_groups hq
  | removeErase h hu => exact mem_groups_insert hq
  | removeEraseNone h hu => exact mem_groups_insert hq
  | deleteNext h hg => exact mem_groups_insert hq
  | partRef => exact (grows_subscript db _).mem_groups hq
  | partEnd => exact (grows_subscript db _).mem_groups hq
  | keysEmpty h => exact (grows_subscript db _).mem_groups hq
  | keysNonempty h => exact (grows_subscript db _).mem_groups hq
  | keysRef => exact (grows_subscript db _).mem_groups hq
  | _ => exact hq

/-- What is known of the groups is not disturbed by the others. -/
theorem Standing.stable {db db' : MemDatabase} {pc : Pc} (hs : Standing db pc)
    (hg : pc.holdsG = true → db'.groups = db.groups)
    (hq : pc.querying = true → ∀ q, q ∈ db.groups → q ∈ db'.groups) : Standing db' pc := by
  cases pc with
  | uLock k g u => exact fun hk => (hg rfl).symm ▸ hs hk
  | uFind k g u => exact fun hk => (hg rfl).symm ▸ hs hk
  | uUnlock k g u => exact fun hk => (hg rfl).symm ▸ hs hk
  | gRef k g u => exact fun hk => (hg rfl).symm ▸ hs hk
  | partRef u g => exact hq rfl g hs
  | partSetFind u g => exact hq rfl g hs
  | partEnd u g found => exact hq rfl g hs
  | _ => trivial

theorem Locks.standing {db : MemDatabase} {pc next : Pc} {m : Mutex} (h : Locks pc m next)
    (hs : Standing db pc) : Standing db next := by
  cases h with
  | uLock => exact hs
  | _ => trivial

theorem Unlocks.standing {db : MemDatabase} {pc next : Pc} {m : Mutex} (h : Unlocks pc m next)
    (hs : Standing db pc) : Standing db next := by
  cases h with
  | uUnlock => exact hs
  | _ => trivial

/-- **The proof outline of the runs whose steps are all `Quiet`.** -/
theorem quietOutline :
    Outline program Pc.holds Quiet {} (fun f db => Assert f db ∧ Standing db f.pc) lockInv
      KeysOf where
  init := (outline Quiet).init
  entry op n x := ⟨(outline Quiet).entry op n x, by cases op <;> trivial⟩
  lock hi ha hj := ⟨(outline Quiet).lock hi ha.1 hj, (locks_of_instr hi).standing ha.2⟩
  unlock hi ha :=
    ⟨⟨((outline Quiet).unlock hi ha.1).1, (unlocks_of_instr hi).standing ha.2⟩,
      ((outline Quiet).unlock hi ha.1).2⟩
  access hi ha hg := ⟨(outline Quiet).access hi ha.1 hg, (access_of_instr hi hg).standing ha.2⟩
  frame hi ha hg := (outline Quiet).frame hi ha.1 hg
  stable {s t t' f f' g x' next} hc hne hf hf' hi ha hg ha' hex := by
    have hacc := access_of_instr hi hg
    refine ⟨(outline Quiet).stable hc hne hf hf' hi ha.1 hg ha'.1 hex, ha'.2.stable ?_ ?_⟩
    · exact fun h => hacc.groups_eq ha.2 (Bool.not_eq_true _ ▸ fun h' => hex .gmutex h' h)
    · intro hq
      refine fun q => hacc.mem_groups fun hpc => ?_
      rw [(hc f hf t' f' hf').2 hpc] at hq
      exact absurd hq (by simp)
  ret hi ha := (outline Quiet).ret hi ha.1

theorem standing_of_reach {s : System} (h : Reach program Quiet {} s) {t : Nat}
    {f : Frame MemDatabase Pc Op} (hf : s.thread t = some f) : Standing s.store f.pc :=
  ((quietOutline.holds disciplined h).frames t f hf).2

/-- A query holds no mutex. -/
theorem holds_of_query {pc : Pc} {u g : Bytes} (h : pc.call = some (.isUserPartOfGroup u g)) :
    pc.holdsG = false ∧ pc.holdsU = false := by
  have hk : ∀ (k : Kind) (q v : Bytes), some (k.op q v) ≠ some (.isUserPartOfGroup u g) := by
    intro k q v
    cases k <;> simp [Kind.op]
  cases pc with
  | partFind v q => exact ⟨rfl, rfl⟩
  | partRef v q => exact ⟨rfl, rfl⟩
  | partSetFind v q => exact ⟨rfl, rfl⟩
  | partEnd v q found => exact ⟨rfl, rfl⟩
  | gLock k q v => exact absurd h (hk k q v)
  | gFind k q v => exact absurd h (hk k q v)
  | uLock k q v => exact absurd h (hk k q v)
  | uFind k q v => exact absurd h (hk k q v)
  | uUnlock k q v => exact absurd h (hk k q v)
  | gRef k q v => exact absurd h (hk k q v)
  | _ => simp [Pc.call] at h

/-- **A query does not change the store.** -/
theorem query_keeps_store {s s' : System} (h : Reach program Quiet {} s) {t : Nat}
    {f : Frame MemDatabase Pc Op} (hf : s.thread t = some f) {u g : Bytes}
    (hop : f.op = .isUserPartOfGroup u g) (hs : Step program t s s') : s'.store = s.store := by
  cases hs with
  | invoke op h' => rfl
  | lock h' hi ho => rfl
  | unlock h' hi => rfl
  | ret h' hi => rfl
  | access h' hi hg =>
    obtain rfl := Option.some.inj (hf.symm.trans h')
    have hacc := access_of_instr hi hg
    have hstand := standing_of_reach h hf
    obtain ⟨op, hcall⟩ := hacc.call_some
    rw [← (assert_of_reach h hf).call op hcall, hop] at hcall
    obtain ⟨hG, hU⟩ := holds_of_query hcall
    exact MemDatabase.ext (hacc.groups_eq hstand hG) (hacc.users_eq hU)

end ASky.Concurrent

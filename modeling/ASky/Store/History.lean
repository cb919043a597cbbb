import ASky.Lib.Since
import ASky.Store.Run

/-!
# The store follows its history

A history is the list of calls with what each returned (`history`). Every fact the store holds is
the last relevant event of the history, in the sense of `Lib.Since`:

* `u` is a member of `g` iff a successful `create_group(g, u)` or `add_user_to_group(g, u)` was
  followed by no successful `remove_user_from_group(g, u)`, no `delete_user(u)` and no
  `delete_all_data` (`Joins`, `Leaves`);
* `g` is a group iff a successful `create_group(g, _)` was followed by no `delete_all_data`
  (`Founds`, `Wipes`);
* the key of `u` is the one given to its most recent successful `create_user` (`Issues`).

`Follows h db` states the three for a history and a store. `Follows.step` is one call,
`follows_run` a whole run, and `membership_and_keys_follow_history` reads off what
`is_user_part_of_group` and `get_keys_of_group` answer.
-/

namespace ASky

open Std (ExtTreeMap ExtTreeSet)
open Lib

namespace MemDatabase

/-- A call and what it returned. -/
abbrev Event := Op × Outcome

/-- The calls of a run with their outcomes, oldest first. -/
def history (db : MemDatabase) : List Op → List Event
  | [] => []
  | op :: ops => (op, (db.apply op).1) :: history (db.apply op).2 ops

theorem history_concat (db : MemDatabase) (ops : List Op) (op : Op) :
    db.history (ops ++ [op]) = db.history ops ++ [(op, ((db.run ops).apply op).1)] := by
  induction ops generalizing db with
  | nil => rfl
  | cons o ops ih =>
    simp only [List.cons_append, history, run]
    rw [ih]

theorem run_concat (db : MemDatabase) (ops : List Op) (op : Op) :
    db.run (ops ++ [op]) = ((db.run ops).apply op).2 := run_append db ops [op]

/-! ## The events that matter -/

/-- A successful `create_group(g, u)` or `add_user_to_group(g, u)`. -/
def Joins (u g : Bytes) (e : Event) : Prop :=
  e = (.createGroup g u, .ok .unit) ∨ e = (.addUserToGroup g u, .ok .unit)

/-- A successful `remove_user_from_group(g, u)`, a `delete_user(u)` or a `delete_all_data`. -/
def Leaves (u g : Bytes) (e : Event) : Prop :=
  e = (.removeUserFromGroup g u, .ok .unit) ∨ e.1 = .deleteUser u ∨ e.1 = .deleteAllData

/-- A successful `create_group(g, _)`. -/
def Founds (g : Bytes) (e : Event) : Prop := ∃ u, e = (.createGroup g u, .ok .unit)

/-- A `delete_all_data`. -/
def Wipes (e : Event) : Prop := e.1 = .deleteAllData

/-- A successful `create_user(u, k)`. -/
def Issues (u k : Bytes) (e : Event) : Prop := e = (.createUser u k, .ok .unit)

/-- `u` is a member of `g` by the history `h`. -/
def MemberSince (h : List Event) (u g : Bytes) : Prop := Since (Joins u g) (Leaves u g) h

/-- `g` is a group by the history `h`. -/
def GroupSince (h : List Event) (g : Bytes) : Prop := Since (Founds g) Wipes h

/-- `k` is the key of the most recent successful `create_user(u, _)` of `h`. -/
def LastKey (h : List Event) (u k : Bytes) : Prop :=
  Since (Issues u k) (fun e => ∃ k', Issues u k' e) h

/-! ## The store follows them -/

/-- The store `db` is what the history `h` says. -/
structure Follows (h : List Event) (db : MemDatabase) : Prop where
  member : ∀ u g, db.Member u g ↔ MemberSince h u g
  group : ∀ g, g ∈ db.groups ↔ GroupSince h g
  key : ∀ u k, db.users[u]? = some k → LastKey h u k

theorem follows_init : Follows [] {} where
  member _ _ := iff_of_false (not_member_empty ∅) not_since_nil
  group _ := iff_of_false ExtTreeMap.not_mem_empty not_since_nil
  key _ _ h := by simp at h

theorem memberSince_concat {h : List Event} {e : Event} {u g : Bytes} :
    MemberSince (h ++ [e]) u g ↔ Joins u g e ∨ (MemberSince h u g ∧ ¬ Leaves u g e) :=
  since_concat

theorem groupSince_concat {h : List Event} {e : Event} {g : Bytes} :
    GroupSince (h ++ [e]) g ↔ Founds g e ∨ (GroupSince h g ∧ ¬ Wipes e) :=
  since_concat

theorem lastKey_concat {h : List Event} {e : Event} {u k : Bytes} :
    LastKey (h ++ [e]) u k ↔ Issues u k e ∨ (LastKey h u k ∧ ¬ ∃ k', Issues u k' e) :=
  since_concat

/-- Membership after one call. -/
theorem Effect.member_iff {db db' : MemDatabase} {op : Op} {r : Outcome}
    (h : Effect db op r db') (v q : Bytes) :
    db'.Member v q ↔ Joins v q (op, r) ∨ (db.Member v q ∧ ¬ Leaves v q (op, r)) := by
  cases h with
  | createUser hu => simp [Joins, Leaves, Member]
  | @createGroup g u hg hu =>
    rw [member_insert]
    by_cases hq : q = g
    · subst hq
      have hno : ¬ db.Member v q := fun ⟨s, hs, _⟩ => hg (mem_of_getElem? hs)
      rw [if_pos rfl, Lib.mem_insert]
      simp [Joins, hno, eq_comm]
    · simp [Joins, Leaves, hq, Ne.symm hq]
  | @addUser g u s hg hu hs =>
    rw [member_insert]
    by_cases hq : q = g
    · subst hq
      rw [if_pos rfl, Lib.mem_insert, member_iff_of_getElem? hg]
      simp [Joins, Leaves, eq_comm]
    · simp [Joins, Leaves, hq, Ne.symm hq]
  | @removeUser g u s hg hu hs =>
    rw [member_insert]
    by_cases hq : q = g
    · subst hq
      rw [if_pos rfl, Lib.mem_erase, member_iff_of_getElem? hg]
      simp [Joins, Leaves, eq_comm, and_comm]
    · simp [Joins, Leaves, hq, Ne.symm hq]
  | deleteUser =>
    rw [member_deleteUser]
    simp [Joins, Leaves, eq_comm, and_comm]
  | deleteAll =>
    refine iff_of_false (not_member_empty ∅) ?_
    simp [Joins, Leaves]
  | belongs hg => simp [Joins, Leaves]
  | keys hg hs => simp [Joins, Leaves]
  | throws ho => cases op <;> simp_all [Joins, Leaves, Op.mayThrow]

/-- The group names after one call. -/
theorem Effect.group_iff {db db' : MemDatabase} {op : Op} {r : Outcome}
    (h : Effect db op r db') (q : Bytes) :
    q ∈ db'.groups ↔ Founds q (op, r) ∨ (q ∈ db.groups ∧ ¬ Wipes (op, r)) := by
  cases h with
  | createUser hu => simp [Founds, Wipes]
  | createGroup hg hu =>
    rw [ExtTreeMap.mem_insert, Std.LawfulEqCmp.compare_eq_iff_eq]
    simp [Founds, Wipes]
  | addUser hg hu hs =>
    rw [mem_insert_of_mem (mem_of_getElem? hg)]
    simp [Founds, Wipes]
  | removeUser hg hu hs =>
    rw [mem_insert_of_mem (mem_of_getElem? hg)]
    simp [Founds, Wipes]
  | deleteUser => simp [Founds, Wipes, MemDatabase.deleteUser]
  | deleteAll => simp [Founds, Wipes, deleteAllData]
  | belongs hg => simp [Founds, Wipes]
  | keys hg hs => simp [Founds, Wipes]
  | throws ho => cases op <;> simp_all [Founds, Wipes, Op.mayThrow]

/-- Where a key comes from after one call. -/
theorem Effect.key_cases {db db' : MemDatabase} {op : Op} {r : Outcome}
    (h : Effect db op r db') {u k : Bytes} (hk : db'.users[u]? = some k) :
    Issues u k (op, r) ∨ (db.users[u]? = some k ∧ ¬ ∃ k', Issues u k' (op, r)) := by
  cases h with
  | @createUser v w hv =>
    simp only [Lib.getElem?_insert] at hk
    by_cases hu : u = v
    · rw [if_pos hu] at hk
      rw [hu, ← Option.some.inj hk]
      exact Or.inl rfl
    · rw [if_neg hu] at hk
      refine Or.inr ⟨hk, ?_⟩
      simp [Issues, Ne.symm hu]
  | deleteUser =>
    simp only [MemDatabase.deleteUser, Lib.getElem?_erase] at hk
    split at hk
    · exact absurd hk (by simp)
    · exact Or.inr ⟨hk, by simp [Issues]⟩
  | deleteAll => simp [deleteAllData] at hk
  | createGroup hg hu => exact Or.inr ⟨hk, by simp [Issues]⟩
  | addUser hg hu hs => exact Or.inr ⟨hk, by simp [Issues]⟩
  | removeUser hg hu hs => exact Or.inr ⟨hk, by simp [Issues]⟩
  | belongs hg => exact Or.inr ⟨hk, by simp [Issues]⟩
  | keys hg hs => exact Or.inr ⟨hk, by simp [Issues]⟩
  | throws ho => exact Or.inr ⟨hk, by simp [Issues]⟩

/-- One call keeps the store and the history together. -/
theorem Follows.step {h : List Event} {db db' : MemDatabase} {op : Op} {r : Outcome}
    (hf : Follows h db) (he : Effect db op r db') : Follows (h ++ [(op, r)]) db' where
  member u g := by rw [memberSince_concat, he.member_iff, hf.member]
  group g := by rw [groupSince_concat, he.group_iff, hf.group]
  key u k hk := lastKey_concat.mpr ((he.key_cases hk).imp id fun h => ⟨hf.key u k h.1, h.2⟩)

/-- **Every run's store follows its history.** -/
theorem follows_run (ops : List Op) : Follows (history {} ops) (run {} ops) := by
  induction ops using List.reverseRecOn with
  | nil => exact follows_init
  | append_singleton ops op ih =>
    rw [history_concat, run_concat]
    exact ih.step (apply_effect _ op)

/-- The keys of a group's members are the last ones the history gave them. -/
theorem Follows.keys {h : List Event} {db : MemDatabase} (hf : Follows h db) (hi : Integrity db)
    {g : Bytes} {s : Members} (hg : db.groups[g]? = some s) :
    List.Forall₂ (fun v (key : Key) => ∃ k, LastKey h v k ∧ key = keyOf k) s.toList
      (s.toList.filterMap fun uid => (db.users[uid]?).map keyOf) := by
  rw [filterMap_keys_of_integrity hi hg, List.forall₂_map_right_iff, List.forall₂_same]
  intro v hv
  have hu := hi v g ⟨s, hg, ExtTreeSet.mem_toList.mp hv⟩
  obtain ⟨k, hk⟩ := exists_getElem?_of_mem hu
  exact ⟨k, hf.key v k hk, by rw [getD_of_getElem? hk]⟩

/-- **Membership and keys follow the history.** After any sequence of calls from the empty store:
`is_user_part_of_group(u, g)` returns `true` exactly when the history makes `u` a member of `g`,
and throws exactly when it makes `g` no group; `get_keys_of_group(g)` throws exactly when `g` is no
group or has no member, and otherwise returns one key for each member, in the byte order of the
user ids, cut or padded from the key of the member's most recent `create_user`. -/
theorem membership_and_keys_follow_history (ops : List Op) (u g : Bytes) :
    let h := history {} ops
    let db := run {} ops
    ((db.isUserPartOfGroup u g).1 = .ok true ↔ MemberSince h u g) ∧
    ((∃ e, (db.isUserPartOfGroup u g).1 = .error e) ↔ ¬ GroupSince h g) ∧
    ((∃ e, (db.getKeysOfGroup g).1 = .error e) ↔
      ¬ GroupSince h g ∨ ∀ v, ¬ MemberSince h v g) ∧
    ∀ ks, (db.getKeysOfGroup g).1 = .ok ks →
      ∃ us : List Bytes, us.Pairwise (fun a b => compare a b = .lt) ∧
        (∀ v, v ∈ us ↔ MemberSince h v g) ∧
        List.Forall₂ (fun v (key : Key) => ∃ k, LastKey h v k ∧ key = keyOf k) us ks := by
  intro h db
  have hf : Follows h db := follows_run ops
  have hi : Integrity db := integrity_of_reachable ⟨ops, rfl⟩
  rw [isUserPartOfGroup_eq, getKeysOfGroup_eq]
  cases hg : db.groups[g]? with
  | none =>
    have hno : ¬ GroupSince h g := fun hc => not_mem_of_getElem? hg ((hf.group g).mpr hc)
    have hnm : ¬ MemberSince h u g := fun hc => by
      obtain ⟨s, hs, -⟩ := (hf.member u g).mpr hc
      rw [hg] at hs
      exact absurd hs (by simp)
    refine ⟨iff_of_false (by simp) hnm, iff_of_true ⟨_, rfl⟩ hno,
      iff_of_true ⟨_, rfl⟩ (Or.inl hno), fun ks hks => ?_⟩
    exact absurd hks (by simp)
  | some s =>
    have hgs : GroupSince h g := (hf.group g).mp (mem_of_getElem? hg)
    have hmem : ∀ v, v ∈ s ↔ MemberSince h v g := fun v => by
      rw [← hf.member, member_iff_of_getElem? hg]
    refine ⟨?_, iff_of_false (by simp) (not_not.mpr hgs), ?_, ?_⟩
    · rw [← hmem]
      simp
    · by_cases hs : s.isEmpty = true
      · have hnone : ∀ v, ¬ MemberSince h v g := fun v hv =>
          isEmpty_eq_true_iff.mp hs v ((hmem v).mpr hv)
        exact iff_of_true (by simp [hs]) (Or.inr hnone)
      · obtain ⟨v, hv⟩ : ∃ v, v ∈ s := by
          rw [isEmpty_eq_true_iff] at hs
          exact not_forall_not.mp hs
        refine iff_of_false (by simp [hs]) ?_
        rintro (hc | hc)
        · exact hc hgs
        · exact hc v ((hmem v).mp hv)
    · intro ks hks
      simp only at hks
      split at hks
      · exact absurd hks (by simp)
      · refine ⟨s.toList, ExtTreeSet.ordered_toList, fun v => ?_, ?_⟩
        · rw [ExtTreeSet.mem_toList, hmem]
        · exact Except.ok.inj hks ▸ hf.keys hi hg

end MemDatabase

end ASky

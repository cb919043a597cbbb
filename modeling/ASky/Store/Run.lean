import ASky.Store.MemDatabase

/-!
# Runs of the store

`Op` is one call of one of the eight `MemDatabase` operations, `apply` runs it, `run` a list of
them. `Effect` is the inversion of `apply`: what a call can return and leave behind, one
constructor for each way a call ends. Facts about every run are proved from `Effect` alone.

* `Integrity`: every member of every group is a key of `users_`. `get_keys_of_group` skips
  members it does not find, so only this invariant makes it return one key per member
  (`getKeysOfGroup_of_nonempty`).
* `integrity_of_reachable`: it holds after any sequence of calls from the empty store.
-/

namespace ASky

open Std (ExtTreeMap ExtTreeSet)
open Lib

/-- A call of a `MemDatabase` operation. -/
inductive Op where
  | addUserToGroup (gname newUid : Bytes)
  | createUser (uid key : Bytes)
  | createGroup (gname uid : Bytes)
  | deleteUser (uid : Bytes)
  | deleteAllData
  | isUserPartOfGroup (uname gname : Bytes)
  | removeUserFromGroup (gname uid : Bytes)
  | getKeysOfGroup (gname : Bytes)
  deriving DecidableEq

/-- `delete_user` and `delete_all_data` have no `throw`. -/
def Op.mayThrow : Op → Bool
  | .deleteUser _ => false
  | .deleteAllData => false
  | _ => true

/-- A user is created with a 32-byte key, as `AnonymBE::create_user` does. -/
def Op.Sized : Op → Prop
  | .createUser _ key => key.length = keySize
  | _ => True

/-- What a call can return. -/
inductive Value where
  | unit
  | bool (b : Bool)
  | keys (ks : KeyArray)
  deriving DecidableEq

/-- A returned value or a thrown exception. -/
abbrev Outcome := Except DbError Value

namespace MemDatabase

/-- One call. -/
def apply (db : MemDatabase) : Op → Outcome × MemDatabase
  | .addUserToGroup g u => ((db.addUserToGroup g u).1.map fun _ => .unit, (db.addUserToGroup g u).2)
  | .createUser u k => ((db.createUser u k).1.map fun _ => .unit, (db.createUser u k).2)
  | .createGroup g u => ((db.createGroup g u).1.map fun _ => .unit, (db.createGroup g u).2)
  | .deleteUser u => (.ok .unit, db.deleteUser u)
  | .deleteAllData => (.ok .unit, db.deleteAllData)
  | .isUserPartOfGroup u g => ((db.isUserPartOfGroup u g).1.map .bool, (db.isUserPartOfGroup u g).2)
  | .removeUserFromGroup g u =>
    ((db.removeUserFromGroup g u).1.map fun _ => .unit, (db.removeUserFromGroup g u).2)
  | .getKeysOfGroup g => ((db.getKeysOfGroup g).1.map .keys, (db.getKeysOfGroup g).2)

/-- The store after a list of calls. -/
def run (db : MemDatabase) : List Op → MemDatabase
  | [] => db
  | op :: ops => run (db.apply op).2 ops

theorem run_append (db : MemDatabase) (ops ops' : List Op) :
    db.run (ops ++ ops') = (db.run ops).run ops' := by
  induction ops generalizing db with
  | nil => rfl
  | cons op ops ih => exact ih _

/-- The stores reachable from the empty one. -/
def Reachable (db : MemDatabase) : Prop := ∃ ops, db = run {} ops

/-! ## What a call can do -/

/-- **The inversion of `apply`**: each way a call can end, with its guard and the store it
leaves. A throwing call leaves the store as it was. -/
inductive Effect (db : MemDatabase) : Op → Outcome → MemDatabase → Prop where
  | createUser {u k : Bytes} (hu : u ∉ db.users) :
    Effect db (.createUser u k) (.ok .unit) { db with users := db.users.insert u k }
  | createGroup {g u : Bytes} (hg : g ∉ db.groups) (hu : u ∈ db.users) :
    Effect db (.createGroup g u) (.ok .unit)
      { db with groups := db.groups.insert g ((∅ : Members).insert u) }
  | addUser {g u : Bytes} {s : Members} (hg : db.groups[g]? = some s) (hu : u ∈ db.users)
    (hs : u ∉ s) :
    Effect db (.addUserToGroup g u) (.ok .unit)
      { db with groups := db.groups.insert g (s.insert u) }
  | removeUser {g u : Bytes} {s : Members} (hg : db.groups[g]? = some s) (hu : u ∈ db.users)
    (hs : u ∈ s) :
    Effect db (.removeUserFromGroup g u) (.ok .unit)
      { db with groups := db.groups.insert g (s.erase u) }
  | deleteUser {u : Bytes} : Effect db (.deleteUser u) (.ok .unit) (db.deleteUser u)
  | deleteAll : Effect db .deleteAllData (.ok .unit) db.deleteAllData
  | belongs {u g : Bytes} {s : Members} (hg : db.groups[g]? = some s) :
    Effect db (.isUserPartOfGroup u g) (.ok (.bool (decide (u ∈ s)))) db
  | keys {g : Bytes} {s : Members} (hg : db.groups[g]? = some s) (hs : s.isEmpty = false) :
    Effect db (.getKeysOfGroup g)
      (.ok (.keys (s.toList.filterMap fun uid => (db.users[uid]?).map keyOf))) db
  | throws {op : Op} {e : DbError} (ho : op.mayThrow = true) : Effect db op (.error e) db

theorem apply_effect (db : MemDatabase) (op : Op) :
    Effect db op (db.apply op).1 (db.apply op).2 := by
  cases op with
  | addUserToGroup g u =>
    simp only [apply, addUserToGroup_eq]
    cases hg : db.groups[g]? with
    | none => exact .throws rfl
    | some s =>
      simp only
      split
      · exact .throws rfl
      · rename_i hu
        split
        · exact .throws rfl
        · rename_i hs
          exact .addUser hg (not_not.mp hu) hs
  | createUser u k =>
    simp only [apply, createUser_eq]
    split
    · exact .throws rfl
    · rename_i hu
      exact .createUser hu
  | createGroup g u =>
    simp only [apply, createGroup_eq]
    split
    · exact .throws rfl
    · rename_i hg
      split
      · exact .throws rfl
      · rename_i hu
        exact .createGroup hg (not_not.mp hu)
  | deleteUser u => exact .deleteUser
  | deleteAllData => exact .deleteAll
  | isUserPartOfGroup u g =>
    simp only [apply, isUserPartOfGroup_eq]
    cases hg : db.groups[g]? with
    | none => exact .throws rfl
    | some s => exact .belongs hg
  | removeUserFromGroup g u =>
    simp only [apply, removeUserFromGroup_eq]
    cases hg : db.groups[g]? with
    | none => exact .throws rfl
    | some s =>
      simp only
      split
      · exact .throws rfl
      · rename_i hu
        split
        · exact .throws rfl
        · rename_i hs
          exact .removeUser hg (not_not.mp hu) (not_not.mp hs)
  | getKeysOfGroup g =>
    simp only [apply, getKeysOfGroup_eq]
    cases hg : db.groups[g]? with
    | none => exact .throws rfl
    | some s =>
      simp only
      split
      · exact .throws rfl
      · rename_i hs
        exact .keys hg (Bool.not_eq_true _ ▸ hs)

/-- The run rule: what holds of the empty store and what every effect of the calls in `ok` keeps
holds after every run of such calls. -/
theorem run_induction {P : MemDatabase → Prop} (ok : Op → Prop) (init : P {})
    (step : ∀ {db db' : MemDatabase} {op : Op} {r : Outcome}, P db → ok op → Effect db op r db' →
      P db') {ops : List Op} (hops : ∀ op ∈ ops, ok op) : P (run {} ops) := by
  suffices ∀ (ops : List Op) (db : MemDatabase), (∀ op ∈ ops, ok op) → P db → P (db.run ops) from
    this ops {} hops init
  intro ops
  induction ops with
  | nil => exact fun _ _ h => h
  | cons op ops ih =>
    intro db hops h
    exact ih _ (fun o ho => hops o (List.mem_cons_of_mem op ho))
      (step h (hops op List.mem_cons_self) (apply_effect db op))

/-- The run rule for reachable stores. -/
theorem reachable_induction {P : MemDatabase → Prop} (init : P {})
    (step : ∀ {db db' : MemDatabase} {op : Op} {r : Outcome}, P db → Effect db op r db' → P db')
    {db : MemDatabase} (h : Reachable db) : P db := by
  obtain ⟨ops, rfl⟩ := h
  exact run_induction (fun _ => True) init (fun h _ he => step h he) fun _ _ => trivial

/-! ## Reading `groups_` and `users_` after a write -/

/-- `u` is in the set of `g`. -/
def Member (db : MemDatabase) (u g : Bytes) : Prop :=
  ∃ s, db.groups[g]? = some s ∧ u ∈ s

theorem member_iff_of_getElem? {db : MemDatabase} {g : Bytes} {s : Members}
    (h : db.groups[g]? = some s) (u : Bytes) : db.Member u g ↔ u ∈ s := by
  constructor
  · rintro ⟨s', hs', hu⟩
    rw [h] at hs'
    exact Option.some.inj hs' ▸ hu
  · exact fun hu => ⟨s, h, hu⟩

/-- Replacing one group's set. -/
theorem member_insert {db : MemDatabase} {g : Bytes} {s : Members} (u q : Bytes) :
    Member { db with groups := db.groups.insert g s } u q ↔
      if q = g then u ∈ s else db.Member u q := by
  unfold Member
  simp only [Lib.getElem?_insert]
  split <;> simp

/-- `delete_user` takes one id out of every group. -/
theorem member_deleteUser {db : MemDatabase} {u v g : Bytes} :
    (db.deleteUser u).Member v g ↔ v ≠ u ∧ db.Member v g := by
  unfold Member deleteUser
  simp only [ExtTreeMap.getElem?_map, Option.map_eq_some_iff]
  constructor
  · rintro ⟨_, ⟨s, hs, rfl⟩, hv⟩
    obtain ⟨hne, hv⟩ := Lib.mem_erase.mp hv
    exact ⟨hne, s, hs, hv⟩
  · rintro ⟨hne, s, hs, hv⟩
    exact ⟨_, ⟨s, hs, rfl⟩, Lib.mem_erase.mpr ⟨hne, hv⟩⟩

theorem not_member_empty {u g : Bytes} (users : ExtTreeMap Bytes Bytes) :
    ¬ Member { groups := ∅, users := users } u g := by
  rintro ⟨s, hs, -⟩
  simp at hs

/-! ## Every member is a known user -/

/-- Every member of every group is a key of `users_`. -/
def Integrity (db : MemDatabase) : Prop := ∀ u g, db.Member u g → u ∈ db.users

theorem integrity_empty : Integrity {} := fun _ _ h => absurd h (not_member_empty ∅)

/-- Replacing one group's set by a set of known users. -/
theorem Integrity.insertGroup {db : MemDatabase} (hi : Integrity db) {g : Bytes} {s : Members}
    (hs : ∀ v ∈ s, v ∈ db.users) : Integrity { db with groups := db.groups.insert g s } := by
  intro v q hm
  rw [member_insert] at hm
  split at hm
  · exact hs v hm
  · exact hi v q hm

/-- A known user joins a group. -/
theorem Integrity.insertMember {db : MemDatabase} (hi : Integrity db) {g u : Bytes} {s : Members}
    (hg : db.groups[g]? = some s) (hu : u ∈ db.users) :
    Integrity { db with groups := db.groups.insert g (s.insert u) } := by
  refine hi.insertGroup fun v hv => ?_
  rcases Lib.mem_insert.mp hv with rfl | hv
  · exact hu
  · exact hi v g ⟨s, hg, hv⟩

/-- A user leaves a group. -/
theorem Integrity.eraseMember {db : MemDatabase} (hi : Integrity db) {g u : Bytes} {s : Members}
    (hg : db.groups[g]? = some s) :
    Integrity { db with groups := db.groups.insert g (s.erase u) } :=
  hi.insertGroup fun v hv => hi v g ⟨s, hg, (Lib.mem_erase.mp hv).2⟩

theorem Effect.integrity {db db' : MemDatabase} {op : Op} {r : Outcome} (hi : Integrity db)
    (h : Effect db op r db') : Integrity db' := by
  cases h with
  | createUser hu => exact fun v g hm => ExtTreeMap.mem_insert.mpr (Or.inr (hi v g hm))
  | createGroup hg hu =>
    refine hi.insertGroup fun v hv => ?_
    rcases Lib.mem_insert.mp hv with rfl | hv
    · exact hu
    · exact absurd hv ExtTreeSet.not_mem_empty
  | addUser hg hu hs => exact hi.insertMember hg hu
  | removeUser hg hu hs => exact hi.eraseMember hg
  | deleteUser =>
    intro v q hm
    obtain ⟨hne, hm⟩ := member_deleteUser.mp hm
    refine ExtTreeMap.mem_erase.mpr ⟨fun hc => hne ?_, hi v q hm⟩
    exact (Std.LawfulEqCmp.compare_eq_iff_eq.mp hc).symm
  | deleteAll => exact fun v q hm => absurd hm (not_member_empty ∅)
  | belongs hg => exact hi
  | keys hg hs => exact hi
  | throws ho => exact hi

/-- **Referential integrity of every reachable store.** -/
theorem integrity_of_reachable {db : MemDatabase} (h : Reachable db) : Integrity db :=
  reachable_induction integrity_empty (fun hi he => he.integrity hi) h

/-- With every member known, the loop of `get_keys_of_group` skips nobody. -/
theorem filterMap_keys_of_integrity {db : MemDatabase} (hi : Integrity db) {g : Bytes}
    {s : Members} (hg : db.groups[g]? = some s) :
    s.toList.filterMap (fun uid => (db.users[uid]?).map keyOf) =
      s.toList.map fun uid => keyOf (db.users.getD uid []) := by
  have hl : ∀ u ∈ s.toList, u ∈ db.users := fun u hu =>
    hi u g ⟨s, hg, ExtTreeSet.mem_toList.mp hu⟩
  generalize s.toList = l at hl
  induction l with
  | nil => rfl
  | cons u l ih =>
    have hu := hl u List.mem_cons_self
    rw [List.map_cons, List.filterMap_cons_some
      (by rw [ExtTreeMap.getElem?_eq_some_getElem hu]; rfl),
      ih fun v hv => hl v (List.mem_cons_of_mem u hv), ExtTreeMap.getD_eq_getD_getElem?,
      ExtTreeMap.getElem?_eq_some_getElem hu]
    rfl

/-! ## The keys of a group -/

/-- The 32-byte keys of the members of `g`. -/
def memberKeys (db : MemDatabase) (g : Bytes) : Set Key :=
  { key | ∃ u stored, db.Member u g ∧ db.users[u]? = some stored ∧ keyOf stored = key }

theorem mem_filterMap_keys {db : MemDatabase} {g : Bytes} {s : Members}
    (hg : db.groups[g]? = some s) (key : Key) :
    key ∈ s.toList.filterMap (fun uid => (db.users[uid]?).map keyOf) ↔ key ∈ db.memberKeys g := by
  rw [List.mem_filterMap]
  constructor
  · rintro ⟨u, hu, hk⟩
    obtain ⟨stored, hs, rfl⟩ := Option.map_eq_some_iff.mp hk
    exact ⟨u, stored, ⟨s, hg, ExtTreeSet.mem_toList.mp hu⟩, hs, rfl⟩
  · rintro ⟨u, stored, hm, hs, rfl⟩
    refine ⟨u, ExtTreeSet.mem_toList.mpr ((member_iff_of_getElem? hg u).mp hm), ?_⟩
    rw [hs]
    rfl

/-- `get_keys_of_group` on a group with a member returns the members' keys. -/
theorem getKeysOfGroup_of_nonempty {db : MemDatabase} (hi : Integrity db) {g : Bytes} {s : Members}
    (hg : db.groups[g]? = some s) (hs : s.isEmpty = false) :
    ∃ ka, db.getKeysOfGroup g = (.ok ka, db) ∧
      ka = s.toList.map (fun uid => keyOf (db.users.getD uid [])) ∧ ka.isEmpty = false ∧
      ∀ key, key ∈ ka ↔ key ∈ db.memberKeys g := by
  have hget := getKeysOfGroup_eq db g
  rw [hg] at hget
  simp only [hs, Bool.false_eq_true, if_false] at hget
  have hmem := mem_filterMap_keys hg
  refine ⟨_, hget, filterMap_keys_of_integrity hi hg, ?_, hmem⟩
  obtain ⟨u, hu⟩ := not_forall_not.mp (mt isEmpty_eq_true_iff.mpr (by rw [hs]; simp))
  obtain ⟨stored, hk⟩ := exists_getElem?_of_mem (hi u g ⟨s, hg, hu⟩)
  exact List.isEmpty_eq_false_iff.mpr
    (List.ne_nil_of_mem ((hmem _).mpr ⟨u, stored, ⟨s, hg, hu⟩, hk, rfl⟩))

/-! ## Keys of 32 bytes -/

/-- Every stored key has 32 bytes. -/
def KeysSized (db : MemDatabase) : Prop :=
  ∀ u k : Bytes, db.users[u]? = some k → k.length = keySize

/-- When users are created with 32-byte keys, every stored key has 32 bytes. -/
theorem keysSized_of_sized {ops : List Op} (h : ∀ op ∈ ops, op.Sized) : KeysSized (run {} ops) := by
  refine run_induction (P := KeysSized) Op.Sized (by simp [KeysSized]) ?_ h
  intro db db' op r ih ho he
  cases he with
  | createUser hu =>
    intro v k hk
    rw [Lib.getElem?_insert] at hk
    split at hk
    · exact Option.some.inj hk ▸ ho
    · exact ih v k hk
  | deleteUser =>
    intro v k hk
    unfold deleteUser at hk
    rw [Lib.getElem?_erase] at hk
    split at hk
    · exact absurd hk (by simp)
    · exact ih v k hk
  | deleteAll =>
    intro v k hk
    exact absurd hk (by simp [deleteAllData])
  | createGroup hg hu => exact ih
  | addUser hg hu hs => exact ih
  | removeUser hg hu hs => exact ih
  | belongs hg => exact ih
  | keys hg hs => exact ih
  | throws ho => exact ih

end MemDatabase

end ASky

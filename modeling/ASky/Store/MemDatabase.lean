import ASky.Bytes
import ASky.Lib.OrdMap

/-!
# The in-memory store

Model of `MemDatabase` (`enclave/memory_database.cpp`, `memory_database.h`), the store behind
`AnonymBE<MemDatabase>`, one call at a time. The mutexes are in `ASky.Concurrent.Threads`.

* `groups_` is a `std::map` from group names to `std::set`s of user ids, `users_` a `std::map`
  from user ids to keys. Their iteration order is the byte order of the names.
* A call returns a value or throws, and leaves a store behind in both cases: an operation is a
  function to `Except DbError α × MemDatabase`. `std::invalid_argument` and `std::logic_error`
  keep their texts; the texts are the ones in the source, run-together words included.
* `m[k]` inserts a default entry when `k` is missing. Every use of it is written out as
  `insertIfNew`, so "a lookup creates no entry" is a theorem and not a convention.

`*_eq` is the specification of each operation without the subscripts.
-/

namespace ASky

open Std (ExtTreeMap ExtTreeSet)
open Lib

/-- `std::set<std::string>`. -/
abbrev Members := ExtTreeSet Bytes

/-- The exceptions the store throws, with their `what()`. -/
inductive DbError where
  | invalidArgument (what : Bytes)
  | logicError (what : Bytes)
  deriving DecidableEq

namespace DbError

/-! ### The texts, one definition for each `throw` -/

def addNoGroup (gname newUid : Bytes) : DbError :=
  .invalidArgument (lit "attempt to add user '" ++ newUid ++ lit "' tonon existing group: '" ++
    gname ++ lit "'")

def addUnknownUser (gname newUid : Bytes) : DbError :=
  .invalidArgument (lit "attempt to add unknown user '" ++ newUid ++ lit "' to group '" ++
    gname ++ lit "'")

def alreadyMember (gname newUid : Bytes) : DbError :=
  .logicError (lit "'" ++ newUid ++ lit "' was already a member of group '" ++ gname ++ lit "'")

def existingUser (uid : Bytes) : DbError :=
  .invalidArgument (lit "attempt to create an existing user: '" ++ uid ++ lit "'")

def groupUnknownUser (gname uid : Bytes) : DbError :=
  .invalidArgument (lit "tried to create group '" ++ gname ++ lit "' with an unknown user:'" ++
    uid ++ lit "'")

def existingGroup (gname : Bytes) : DbError :=
  .invalidArgument (lit "attempt to create an existing group: '" ++ gname ++ lit "'")

def unknownGroup (gname : Bytes) : DbError :=
  .invalidArgument (lit "unknown group '" ++ gname ++ lit "'")

def removeUnknownUser (gname uid : Bytes) : DbError :=
  .invalidArgument (lit "tried to remove an unknown user '" ++ uid ++ lit "' from group '" ++
    gname ++ lit "'")

def removeNotMember (gname uid : Bytes) : DbError :=
  .invalidArgument (lit "attempt to remove user '" ++ uid ++ lit "' from group '" ++ gname ++
    lit "' to which he or she does not belong")

def runToTheHills : DbError :=
  .invalidArgument (lit "run to the hills: this should not ever happen")

def removeNoGroup (gname uid : Bytes) : DbError :=
  .invalidArgument (lit "attempt to remove user '" ++ uid ++ lit "' from inexistent group: '" ++
    gname ++ lit "'")

def emptyGroup (gname : Bytes) : DbError :=
  .invalidArgument (lit "group '" ++ gname ++ lit "' is empty")

end DbError

/-- `MemDatabase`: `groups_` and `users_`. -/
@[ext]
structure MemDatabase where
  groups : ExtTreeMap Bytes Members := ∅
  users : ExtTreeMap Bytes Bytes := ∅
  deriving DecidableEq

namespace MemDatabase

/-! ## The operations -/

/-- `add_user_to_group`. -/
def addUserToGroup (db : MemDatabase) (gname newUid : Bytes) :
    Except DbError Unit × MemDatabase :=
  if gname ∉ db.groups then (.error (.addNoGroup gname newUid), db)
  else if newUid ∉ db.users then (.error (.addUnknownUser gname newUid), db)
  else
    -- `groups_[gname].insert(new_uid)`
    let groups := db.groups.insertIfNew gname ∅
    let members := groups.getD gname ∅
    let db' := { db with groups := groups.insert gname (members.insert newUid) }
    if newUid ∈ members then (.error (.alreadyMember gname newUid), db') else (.ok (), db')

/-- `create_user`. -/
def createUser (db : MemDatabase) (uid key : Bytes) : Except DbError Unit × MemDatabase :=
  if uid ∉ db.users then
    -- `users_[uid] = key`
    (.ok (), { db with users := (db.users.insertIfNew uid []).insert uid key })
  else (.error (.existingUser uid), db)

/-- `create_group`. -/
def createGroup (db : MemDatabase) (gname uid : Bytes) : Except DbError Unit × MemDatabase :=
  if gname ∉ db.groups then
    if uid ∉ db.users then (.error (.groupUnknownUser gname uid), db)
    else
      -- `groups_[gname].insert(uid)`
      let groups := db.groups.insertIfNew gname ∅
      (.ok (), { db with groups := groups.insert gname ((groups.getD gname ∅).insert uid) })
  else (.error (.existingGroup gname), db)

/-- `delete_user`: erase the id from every group, then from `users_`. -/
def deleteUser (db : MemDatabase) (uid : Bytes) : MemDatabase :=
  { groups := db.groups.map fun _ members => members.erase uid
    users := db.users.erase uid }

/-- `delete_all_data`. -/
def deleteAllData (_db : MemDatabase) : MemDatabase :=
  { groups := ∅, users := ∅ }

/-- `is_user_part_of_group`. -/
def isUserPartOfGroup (db : MemDatabase) (uname gname : Bytes) :
    Except DbError Bool × MemDatabase :=
  if gname ∈ db.groups then
    -- `groups_[gname].find(uname) != groups_[gname].end()`
    let groups := db.groups.insertIfNew gname ∅
    (.ok (decide (uname ∈ groups.getD gname ∅)), { db with groups := groups.insertIfNew gname ∅ })
  else (.error (.unknownGroup gname), db)

/-- `remove_user_from_group`. -/
def removeUserFromGroup (db : MemDatabase) (gname uid : Bytes) :
    Except DbError Unit × MemDatabase :=
  if gname ∈ db.groups then
    if uid ∉ db.users then (.error (.removeUnknownUser gname uid), db)
    else
      -- `groups_[gname].find(uid) == groups_[gname].end()`
      let groups := db.groups.insertIfNew gname ∅
      if uid ∉ groups.getD gname ∅ then
        (.error (.removeNotMember gname uid), { db with groups := groups.insertIfNew gname ∅ })
      else
        -- `groups_[gname].erase(uid) == 0`
        let groups := (groups.insertIfNew gname ∅).insertIfNew gname ∅
        let members := groups.getD gname ∅
        let db' := { db with groups := groups.insert gname (members.erase uid) }
        if uid ∉ members then (.error .runToTheHills, db') else (.ok (), db')
  else (.error (.removeNoGroup gname uid), db)

/-- The loop of `get_keys_of_group` over the members, with the `users_` it leaves. -/
def collectKeys : List Bytes → ExtTreeMap Bytes Bytes → KeyArray × ExtTreeMap Bytes Bytes
  | [], users => ([], users)
  | uid :: rest, users =>
    if uid ∈ users then
      -- `users_[uid].c_str()`, `users_[uid].size()`
      let users' := users.insertIfNew uid []
      (keyOf (users'.getD uid []) :: (collectKeys rest users').1, (collectKeys rest users').2)
    else collectKeys rest users

/-- `get_keys_of_group`. -/
def getKeysOfGroup (db : MemDatabase) (gname : Bytes) : Except DbError KeyArray × MemDatabase :=
  if gname ∈ db.groups then
    -- `groups_[gname].empty()`
    let groups := db.groups.insertIfNew gname ∅
    if (groups.getD gname ∅).isEmpty then
      (.error (.emptyGroup gname), { db with groups := groups })
    else
      -- `for (const auto &uid : groups_[gname])`
      let groups' := groups.insertIfNew gname ∅
      let r := collectKeys (groups'.getD gname ∅).toList db.users
      (.ok r.1, { groups := groups', users := r.2 })
  else (.error (.unknownGroup gname), db)

/-! ## The operations without the subscripts

`groups_[gname]` only runs behind a `find`, so it never inserts. Each operation is then a `match`
on the group's set. -/

theorem collectKeys_eq (l : List Bytes) (users : ExtTreeMap Bytes Bytes) :
    collectKeys l users = (l.filterMap fun uid => (users[uid]?).map keyOf, users) := by
  induction l with
  | nil => rfl
  | cons uid rest ih =>
    simp only [collectKeys]
    split
    · rename_i h
      rw [insertIfNew_of_mem h, ih, ExtTreeMap.getD_eq_getD_getElem?]
      simp [ExtTreeMap.getElem?_eq_some_getElem h]
    · rename_i h
      rw [ih]
      simp [ExtTreeMap.getElem?_eq_none h]

theorem addUserToGroup_eq (db : MemDatabase) (gname newUid : Bytes) :
    db.addUserToGroup gname newUid =
      match db.groups[gname]? with
      | none => (.error (.addNoGroup gname newUid), db)
      | some members =>
        if newUid ∉ db.users then (.error (.addUnknownUser gname newUid), db)
        else if newUid ∈ members then (.error (.alreadyMember gname newUid), db)
        else (.ok (), { db with groups := db.groups.insert gname (members.insert newUid) }) := by
  unfold addUserToGroup
  cases h : db.groups[gname]? with
  | none => rw [if_pos (not_mem_of_getElem? h)]
  | some members =>
    have hm := mem_of_getElem? h
    rw [if_neg (not_not.mpr hm)]
    simp only [insertIfNew_of_mem hm, getD_of_getElem? h]
    split
    · rfl
    · split
      · rename_i hu
        rw [insert_of_mem hu, insert_self h]
      · rfl

theorem createUser_eq (db : MemDatabase) (uid key : Bytes) :
    db.createUser uid key =
      if uid ∈ db.users then (.error (.existingUser uid), db)
      else (.ok (), { db with users := db.users.insert uid key }) := by
  unfold createUser
  rw [insert_insertIfNew]
  split <;> simp_all

theorem createGroup_eq (db : MemDatabase) (gname uid : Bytes) :
    db.createGroup gname uid =
      if gname ∈ db.groups then (.error (.existingGroup gname), db)
      else if uid ∉ db.users then (.error (.groupUnknownUser gname uid), db)
      else (.ok (), { db with groups := db.groups.insert gname ((∅ : Members).insert uid) }) := by
  unfold createGroup
  by_cases h : gname ∈ db.groups
  · rw [if_neg (not_not.mpr h), if_pos h]
  · rw [if_pos h, if_neg h]
    have hd : (db.groups.insertIfNew gname ∅).getD gname ∅ = (∅ : Members) := by
      rw [ExtTreeMap.getD_insertIfNew, if_pos ⟨Std.ReflCmp.compare_self, h⟩]
    simp only [insert_insertIfNew, hd]

theorem isUserPartOfGroup_eq (db : MemDatabase) (uname gname : Bytes) :
    db.isUserPartOfGroup uname gname =
      match db.groups[gname]? with
      | none => (.error (.unknownGroup gname), db)
      | some members => (.ok (decide (uname ∈ members)), db) := by
  unfold isUserPartOfGroup
  cases h : db.groups[gname]? with
  | none => rw [if_neg (not_mem_of_getElem? h)]
  | some members =>
    have hm := mem_of_getElem? h
    rw [if_pos hm]
    simp only [insertIfNew_of_mem hm, getD_of_getElem? h]

theorem removeUserFromGroup_eq (db : MemDatabase) (gname uid : Bytes) :
    db.removeUserFromGroup gname uid =
      match db.groups[gname]? with
      | none => (.error (.removeNoGroup gname uid), db)
      | some members =>
        if uid ∉ db.users then (.error (.removeUnknownUser gname uid), db)
        else if uid ∉ members then (.error (.removeNotMember gname uid), db)
        else (.ok (), { db with groups := db.groups.insert gname (members.erase uid) }) := by
  unfold removeUserFromGroup
  cases h : db.groups[gname]? with
  | none => rw [if_neg (not_mem_of_getElem? h)]
  | some members =>
    have hm := mem_of_getElem? h
    rw [if_pos hm]
    simp only [insertIfNew_of_mem hm, getD_of_getElem? h]
    split
    · rfl
    · split <;> rfl

theorem getKeysOfGroup_eq (db : MemDatabase) (gname : Bytes) :
    db.getKeysOfGroup gname =
      match db.groups[gname]? with
      | none => (.error (.unknownGroup gname), db)
      | some members =>
        if members.isEmpty then (.error (.emptyGroup gname), db)
        else (.ok (members.toList.filterMap fun uid => (db.users[uid]?).map keyOf), db) := by
  unfold getKeysOfGroup
  cases h : db.groups[gname]? with
  | none => rw [if_neg (not_mem_of_getElem? h)]
  | some members =>
    have hm := mem_of_getElem? h
    rw [if_pos hm]
    simp only [insertIfNew_of_mem hm, getD_of_getElem? h, collectKeys_eq]

end MemDatabase

end ASky

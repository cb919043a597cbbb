import ASky.Lib.Threads
import ASky.Store.Run

/-!
# The store under several threads

The eight operations of `MemDatabase` (`enclave/memory_database.cpp`) with their mutexes, as a
program of `ASky.Lib.Threads`. A step is a lock, an unlock, or one access to `groups_`, `users_` or
one group's set: `find`, `operator[]`, `insert`, `erase` or `clear`.

* `std::lock_guard` locks at its declaration. `release` is the end of a call, by `return` or by an
  exception: it unlocks what the call still holds, inner guard first, and then returns.
* `add_user_to_group`, `create_group` and `remove_user_from_group` begin alike: `gmutex_`, a `find`
  in `groups_`, and inside it `umutex_` and a `find` in `users_`. These points carry a `Kind`.
* `delete_user` and `delete_all_data` take **`umutex_` first**, then `gmutex_`.
* `is_user_part_of_group` takes **no mutex**. Its two `groups_[gname]` are two accesses. The
  operands of its `!=` have no fixed order (g++ takes `end()` first); here the `find` goes first.
  The order can be seen only when `groups_` is cleared in between: the real call then compares an
  iterator of the set that is gone with one of a new set and can return true, while here it answers
  what its `find` has found. `Quiet` leaves these runs out.
* `for (auto &kv : groups_)` and the loop of `get_keys_of_group` move an iterator through the map
  or set as it is when they do so (`nextAfter`).
* An access to the set of a group that is gone (a dangling reference) is undefined: it has no step.

`Pc.holds` says which mutexes are held where, and `disciplined` that the program keeps to it.
-/

namespace ASky.Concurrent

open Std (ExtTreeMap ExtTreeSet)
open Lib

/-- `gmutex_` and `umutex_`. -/
inductive Mutex where
  | gmutex
  | umutex
  deriving DecidableEq

/-- The operations that check a group under `gmutex_` and inside it a user under `umutex_`. -/
inductive Kind where
  | add
  | create
  | remove
  deriving DecidableEq

/-- The locks still held at the end of a call, in the order in which they are released. -/
inductive Unwind where
  | done
  | g
  | u
  | gThenU
  | uThenG
  deriving DecidableEq

/-- The program points, with the arguments and local variables that are still needed. -/
inductive Pc where
  -- `add_user_to_group`, `create_group`, `remove_user_from_group`
  | gLock (k : Kind) (g u : Bytes)
  | gFind (k : Kind) (g u : Bytes)
  | uLock (k : Kind) (g u : Bytes)
  | uFind (k : Kind) (g u : Bytes)
  | uUnlock (k : Kind) (g u : Bytes)
  | gRef (k : Kind) (g u : Bytes)
  | addInsert (g u : Bytes)
  | createInsert (g u : Bytes)
  | removeFind (g u : Bytes)
  | removeEnd (g u : Bytes) (found : Bool)
  | removeRef (g u : Bytes)
  | removeErase (g u : Bytes)
  -- `create_user`
  | userLock (u key : Bytes)
  | userFind (u key : Bytes)
  | userAssign (u key : Bytes)
  -- `delete_user`
  | deleteLockU (u : Bytes)
  | deleteLockG (u : Bytes)
  | deleteNext (u : Bytes) (last : Option Bytes)
  | deleteErase (u : Bytes)
  -- `delete_all_data`
  | clearLockU
  | clearLockG
  | clearUsers
  | clearGroups
  -- `is_user_part_of_group`
  | partFind (u g : Bytes)
  | partRef (u g : Bytes)
  | partSetFind (u g : Bytes)
  | partEnd (u g : Bytes) (found : Bool)
  -- `get_keys_of_group`
  | keysLock (g : Bytes)
  | keysFind (g : Bytes)
  | keysEmpty (g : Bytes)
  | keysRef (g : Bytes)
  | keysNext (g : Bytes) (last : Option Bytes) (ret : KeyArray)
  | keysLockU (g uid : Bytes) (ret : KeyArray)
  | keysFindU (g uid : Bytes) (ret : KeyArray)
  | keysSize (g uid : Bytes) (ret : KeyArray)
  | keysCopy (g uid : Bytes) (ret : KeyArray) (size : Nat)
  | keysUnlockU (g uid : Bytes) (ret : KeyArray)
  | release (w : Unwind) (o : Outcome)

/-- The first point of a call. -/
def entry : Op → Pc
  | .addUserToGroup g u => .gLock .add g u
  | .createUser u key => .userLock u key
  | .createGroup g u => .gLock .create g u
  | .deleteUser u => .deleteLockU u
  | .deleteAllData => .clearLockU
  | .isUserPartOfGroup u g => .partFind u g
  | .removeUserFromGroup g u => .gLock .remove g u
  | .getKeysOfGroup g => .keysLock g

/-- `groups_[gname]`. -/
def subscript (db : MemDatabase) (g : Bytes) : MemDatabase :=
  { db with groups := db.groups.insertIfNew g ∅ }

/-- `create_group` goes on when the group does not exist, the other two when it does. -/
def Kind.wantsGroup : Kind → Bool
  | .add => true
  | .create => false
  | .remove => true

/-- The exception for a group that is not there, or is there already. -/
def Kind.wrongGroup (k : Kind) (g u : Bytes) : DbError :=
  match k with
  | .add => .addNoGroup g u
  | .create => .existingGroup g
  | .remove => .removeNoGroup g u

/-- The exception for an unknown user. -/
def Kind.unknownUser (k : Kind) (g u : Bytes) : DbError :=
  match k with
  | .add => .addUnknownUser g u
  | .create => .groupUnknownUser g u
  | .remove => .removeUnknownUser g u

/-- After the first `groups_[gname]`. -/
def Kind.afterRef (k : Kind) (g u : Bytes) : Pc :=
  match k with
  | .add => .addInsert g u
  | .create => .createInsert g u
  | .remove => .removeFind g u

/-- An access to the set of the group `g`. -/
def onSet (g : Bytes) (h : MemDatabase → Members → MemDatabase × Pc) :
    Instr Mutex MemDatabase Pc Outcome :=
  .access fun db => (db.groups[g]?).map (h db)

/-- An access that is always defined. -/
def onStore (h : MemDatabase → MemDatabase × Pc) : Instr Mutex MemDatabase Pc Outcome :=
  .access fun db => some (h db)

/-- What each program point does. -/
def instr : Pc → Instr Mutex MemDatabase Pc Outcome
  | .gLock k g u => .lock .gmutex (.gFind k g u)
  | .gFind k g u => onStore fun db =>
    (db, if decide (g ∈ db.groups) = k.wantsGroup then .uLock k g u
      else .release .g (.error (k.wrongGroup g u)))
  | .uLock k g u => .lock .umutex (.uFind k g u)
  | .uFind k g u => onStore fun db =>
    (db, if u ∈ db.users then .uUnlock k g u
      else .release .uThenG (.error (k.unknownUser g u)))
  | .uUnlock k g u => .unlock .umutex (.gRef k g u)
  | .gRef k g u => onStore fun db => (subscript db g, k.afterRef g u)
  | .addInsert g u => onSet g fun db members =>
    ({ db with groups := db.groups.insert g (members.insert u) },
      .release .g (if u ∈ members then .error (.alreadyMember g u) else .ok .unit))
  | .createInsert g u => onSet g fun db members =>
    ({ db with groups := db.groups.insert g (members.insert u) }, .release .g (.ok .unit))
  | .removeFind g u => onSet g fun db members => (db, .removeEnd g u (decide (u ∈ members)))
  | .removeEnd g u found => onStore fun db =>
    (subscript db g, if found then .removeRef g u
      else .release .g (.error (.removeNotMember g u)))
  | .removeRef g u => onStore fun db => (subscript db g, .removeErase g u)
  | .removeErase g u => onSet g fun db members =>
    ({ db with groups := db.groups.insert g (members.erase u) },
      .release .g (if u ∉ members then .error .runToTheHills else .ok .unit))
  | .userLock u key => .lock .umutex (.userFind u key)
  | .userFind u key => onStore fun db =>
    (db, if u ∉ db.users then .userAssign u key else .release .u (.error (.existingUser u)))
  | .userAssign u key => onStore fun db =>
    ({ db with users := (db.users.insertIfNew u []).insert u key }, .release .u (.ok .unit))
  | .deleteLockU u => .lock .umutex (.deleteLockG u)
  | .deleteLockG u => .lock .gmutex (.deleteNext u none)
  | .deleteNext u last => .access fun db =>
    match nextAfter db.groups.keys last with
    | none => some (db, .deleteErase u)
    | some g => (db.groups[g]?).map fun members =>
      ({ db with groups := db.groups.insert g (members.erase u) }, .deleteNext u (some g))
  | .deleteErase u => onStore fun db =>
    ({ db with users := db.users.erase u }, .release .gThenU (.ok .unit))
  | .clearLockU => .lock .umutex .clearLockG
  | .clearLockG => .lock .gmutex .clearUsers
  | .clearUsers => onStore fun db => ({ db with users := ∅ }, .clearGroups)
  | .clearGroups => onStore fun db => ({ db with groups := ∅ }, .release .gThenU (.ok .unit))
  | .partFind u g => onStore fun db =>
    (db, if g ∈ db.groups then .partRef u g else .release .done (.error (.unknownGroup g)))
  | .partRef u g => onStore fun db => (subscript db g, .partSetFind u g)
  | .partSetFind u g => onSet g fun db members => (db, .partEnd u g (decide (u ∈ members)))
  | .partEnd _ g found => onStore fun db =>
    (subscript db g, .release .done (.ok (.bool found)))
  | .keysLock g => .lock .gmutex (.keysFind g)
  | .keysFind g => onStore fun db =>
    (db, if g ∈ db.groups then .keysEmpty g else .release .g (.error (.unknownGroup g)))
  | .keysEmpty g => onStore fun db =>
    (subscript db g, if ((subscript db g).groups.getD g ∅).isEmpty then
      .release .g (.error (.emptyGroup g)) else .keysRef g)
  | .keysRef g => onStore fun db => (subscript db g, .keysNext g none [])
  | .keysNext g last ret => onSet g fun db members =>
    (db, match nextAfter members.toList last with
      | none => .release .g (.ok (.keys ret))
      | some uid => .keysLockU g uid ret)
  | .keysLockU g uid ret => .lock .umutex (.keysFindU g uid ret)
  | .keysFindU g uid ret => onStore fun db =>
    (db, if uid ∈ db.users then .keysSize g uid ret else .keysUnlockU g uid ret)
  | .keysSize g uid ret => onStore fun db =>
    ({ db with users := db.users.insertIfNew uid [] },
      .keysCopy g uid ret ((db.users.insertIfNew uid []).getD uid []).length)
  | .keysCopy g uid ret size => onStore fun db =>
    ({ db with users := db.users.insertIfNew uid [] },
      .keysUnlockU g uid (ret ++
        [keyOf (((db.users.insertIfNew uid []).getD uid []).take (min size keySize))]))
  | .keysUnlockU g uid ret => .unlock .umutex (.keysNext g (some uid) ret)
  | .release .done o => .ret o
  | .release .g o => .unlock .gmutex (.release .done o)
  | .release .u o => .unlock .umutex (.release .done o)
  | .release .gThenU o => .unlock .gmutex (.release .u o)
  | .release .uThenG o => .unlock .umutex (.release .g o)

/-- The eight operations. -/
def program : Program Mutex MemDatabase Pc Op Outcome := ⟨entry, instr⟩

/-- A state of the threads, which are numbered. -/
abbrev System := Sys Nat Mutex MemDatabase Pc Op Outcome

/-- A piece of a schedule: thread `t` calls `op` and takes `n` steps. -/
def calling (t : Nat) (op : Op) (n : Nat) : List (Nat × Option Op) :=
  (t, some op) :: List.replicate n (t, none)

/-- The states of all runs from the empty store. -/
abbrev Reachable (s : System) : Prop := Reach program (fun _ _ => True) {} s

/-! ## The mutexes held at each point -/

/-- `gmutex_` is held. -/
def Pc.holdsG : Pc → Bool
  | .gFind _ _ _ | .uLock _ _ _ | .uFind _ _ _ | .uUnlock _ _ _ | .gRef _ _ _ => true
  | .addInsert _ _ | .createInsert _ _ => true
  | .removeFind _ _ | .removeEnd _ _ _ | .removeRef _ _ | .removeErase _ _ => true
  | .deleteNext _ _ | .deleteErase _ | .clearUsers | .clearGroups => true
  | .keysFind _ | .keysEmpty _ | .keysRef _ | .keysNext _ _ _ | .keysLockU _ _ _ => true
  | .keysFindU _ _ _ | .keysSize _ _ _ | .keysCopy _ _ _ _ | .keysUnlockU _ _ _ => true
  | .release .g _ | .release .gThenU _ | .release .uThenG _ => true
  | _ => false

/-- `umutex_` is held. -/
def Pc.holdsU : Pc → Bool
  | .uFind _ _ _ | .uUnlock _ _ _ => true
  | .userFind _ _ | .userAssign _ _ => true
  | .deleteLockG _ | .deleteNext _ _ | .deleteErase _ => true
  | .clearLockG | .clearUsers | .clearGroups => true
  | .keysFindU _ _ _ | .keysSize _ _ _ | .keysCopy _ _ _ _ | .keysUnlockU _ _ _ => true
  | .release .u _ | .release .gThenU _ | .release .uThenG _ => true
  | _ => false

/-- The mutexes held at a point. -/
def Pc.holds (pc : Pc) : Mutex → Prop
  | .gmutex => pc.holdsG = true
  | .umutex => pc.holdsU = true

/-! ## What an access can do -/

/-- **The inversion of an access**: each way an access can go, with its guard, the store it leaves
and the next point. -/
inductive Access (db : MemDatabase) : Pc → MemDatabase → Pc → Prop where
  | gFindRight {k : Kind} {g u : Bytes} (h : decide (g ∈ db.groups) = k.wantsGroup) :
    Access db (.gFind k g u) db (.uLock k g u)
  | gFindWrong {k : Kind} {g u : Bytes} (h : decide (g ∈ db.groups) ≠ k.wantsGroup) :
    Access db (.gFind k g u) db (.release .g (.error (k.wrongGroup g u)))
  | uFindKnown {k : Kind} {g u : Bytes} (h : u ∈ db.users) :
    Access db (.uFind k g u) db (.uUnlock k g u)
  | uFindUnknown {k : Kind} {g u : Bytes} (h : u ∉ db.users) :
    Access db (.uFind k g u) db (.release .uThenG (.error (k.unknownUser g u)))
  | gRef {k : Kind} {g u : Bytes} : Access db (.gRef k g u) (subscript db g) (k.afterRef g u)
  | addInsertNew {g u : Bytes} {members : Members} (h : db.groups[g]? = some members)
    (hu : u ∉ members) :
    Access db (.addInsert g u) { db with groups := db.groups.insert g (members.insert u) }
      (.release .g (.ok .unit))
  | addInsertOld {g u : Bytes} {members : Members} (h : db.groups[g]? = some members)
    (hu : u ∈ members) :
    Access db (.addInsert g u) { db with groups := db.groups.insert g (members.insert u) }
      (.release .g (.error (.alreadyMember g u)))
  | createInsert {g u : Bytes} {members : Members} (h : db.groups[g]? = some members) :
    Access db (.createInsert g u) { db with groups := db.groups.insert g (members.insert u) }
      (.release .g (.ok .unit))
  | removeFind {g u : Bytes} {members : Members} (h : db.groups[g]? = some members) :
    Access db (.removeFind g u) db (.removeEnd g u (decide (u ∈ members)))
  | removeEndFound {g u : Bytes} :
    Access db (.removeEnd g u true) (subscript db g) (.removeRef g u)
  | removeEndMissing {g u : Bytes} :
    Access db (.removeEnd g u false) (subscript db g) (.release .g (.error (.removeNotMember g u)))
  | removeRef {g u : Bytes} : Access db (.removeRef g u) (subscript db g) (.removeErase g u)
  | removeErase {g u : Bytes} {members : Members} (h : db.groups[g]? = some members)
    (hu : u ∈ members) :
    Access db (.removeErase g u) { db with groups := db.groups.insert g (members.erase u) }
      (.release .g (.ok .unit))
  | removeEraseNone {g u : Bytes} {members : Members} (h : db.groups[g]? = some members)
    (hu : u ∉ members) :
    Access db (.removeErase g u) { db with groups := db.groups.insert g (members.erase u) }
      (.release .g (.error .runToTheHills))
  | userFindNew {u key : Bytes} (h : u ∉ db.users) :
    Access db (.userFind u key) db (.userAssign u key)
  | userFindOld {u key : Bytes} (h : u ∈ db.users) :
    Access db (.userFind u key) db (.release .u (.error (.existingUser u)))
  | userAssign {u key : Bytes} :
    Access db (.userAssign u key) { db with users := (db.users.insertIfNew u []).insert u key }
      (.release .u (.ok .unit))
  | deleteNextEnd {u : Bytes} {last : Option Bytes} (h : nextAfter db.groups.keys last = none) :
    Access db (.deleteNext u last) db (.deleteErase u)
  | deleteNext {u g : Bytes} {last : Option Bytes} {members : Members}
    (h : nextAfter db.groups.keys last = some g) (hg : db.groups[g]? = some members) :
    Access db (.deleteNext u last) { db with groups := db.groups.insert g (members.erase u) }
      (.deleteNext u (some g))
  | deleteErase {u : Bytes} :
    Access db (.deleteErase u) { db with users := db.users.erase u } (.release .gThenU (.ok .unit))
  | clearUsers : Access db .clearUsers { db with users := ∅ } .clearGroups
  | clearGroups :
    Access db .clearGroups { db with groups := ∅ } (.release .gThenU (.ok .unit))
  | partFind {u g : Bytes} (h : g ∈ db.groups) : Access db (.partFind u g) db (.partRef u g)
  | partFindNone {u g : Bytes} (h : g ∉ db.groups) :
    Access db (.partFind u g) db (.release .done (.error (.unknownGroup g)))
  | partRef {u g : Bytes} : Access db (.partRef u g) (subscript db g) (.partSetFind u g)
  | partSetFind {u g : Bytes} {members : Members} (h : db.groups[g]? = some members) :
    Access db (.partSetFind u g) db (.partEnd u g (decide (u ∈ members)))
  | partEnd {u g : Bytes} {found : Bool} :
    Access db (.partEnd u g found) (subscript db g) (.release .done (.ok (.bool found)))
  | keysFind {g : Bytes} (h : g ∈ db.groups) : Access db (.keysFind g) db (.keysEmpty g)
  | keysFindNone {g : Bytes} (h : g ∉ db.groups) :
    Access db (.keysFind g) db (.release .g (.error (.unknownGroup g)))
  | keysEmpty {g : Bytes} (h : ((subscript db g).groups.getD g ∅).isEmpty = true) :
    Access db (.keysEmpty g) (subscript db g) (.release .g (.error (.emptyGroup g)))
  | keysNonempty {g : Bytes} (h : ((subscript db g).groups.getD g ∅).isEmpty = false) :
    Access db (.keysEmpty g) (subscript db g) (.keysRef g)
  | keysRef {g : Bytes} : Access db (.keysRef g) (subscript db g) (.keysNext g none [])
  | keysNextEnd {g : Bytes} {last : Option Bytes} {ret : KeyArray} {members : Members}
    (h : db.groups[g]? = some members) (hn : nextAfter members.toList last = none) :
    Access db (.keysNext g last ret) db (.release .g (.ok (.keys ret)))
  | keysNext {g uid : Bytes} {last : Option Bytes} {ret : KeyArray} {members : Members}
    (h : db.groups[g]? = some members) (hn : nextAfter members.toList last = some uid) :
    Access db (.keysNext g last ret) db (.keysLockU g uid ret)
  | keysFindU {g uid : Bytes} {ret : KeyArray} (h : uid ∈ db.users) :
    Access db (.keysFindU g uid ret) db (.keysSize g uid ret)
  | keysFindUNone {g uid : Bytes} {ret : KeyArray} (h : uid ∉ db.users) :
    Access db (.keysFindU g uid ret) db (.keysUnlockU g uid ret)
  | keysSize {g uid : Bytes} {ret : KeyArray} :
    Access db (.keysSize g uid ret) { db with users := db.users.insertIfNew uid [] }
      (.keysCopy g uid ret ((db.users.insertIfNew uid []).getD uid []).length)
  | keysCopy {g uid : Bytes} {ret : KeyArray} {size : Nat} :
    Access db (.keysCopy g uid ret size) { db with users := db.users.insertIfNew uid [] }
      (.keysUnlockU g uid (ret ++
        [keyOf (((db.users.insertIfNew uid []).getD uid []).take (min size keySize))]))

section

variable {db : MemDatabase} {k : Kind} {g u key : Bytes}

/-! The accesses that choose their next point, one lemma each. -/

theorem Access.gFind : Access db (.gFind k g u) db
    (if decide (g ∈ db.groups) = k.wantsGroup then .uLock k g u
      else .release .g (.error (k.wrongGroup g u))) := by
  split
  · rename_i hc
    exact .gFindRight hc
  · rename_i hc
    exact .gFindWrong hc

theorem Access.uFind : Access db (.uFind k g u) db
    (if u ∈ db.users then .uUnlock k g u
      else .release .uThenG (.error (k.unknownUser g u))) := by
  split
  · rename_i hc
    exact .uFindKnown hc
  · rename_i hc
    exact .uFindUnknown hc

theorem Access.addInsert {members : Members} (h : db.groups[g]? = some members) :
    Access db (.addInsert g u) { db with groups := db.groups.insert g (members.insert u) }
      (.release .g (if u ∈ members then .error (.alreadyMember g u) else .ok .unit)) := by
  split
  · rename_i hu
    exact .addInsertOld h hu
  · rename_i hu
    exact .addInsertNew h hu

theorem Access.removeEnd {found : Bool} : Access db (.removeEnd g u found) (subscript db g)
    (if found then .removeRef g u else .release .g (.error (.removeNotMember g u))) := by
  cases found with
  | true => exact .removeEndFound
  | false => exact .removeEndMissing

theorem Access.removeOne {members : Members} (h : db.groups[g]? = some members) :
    Access db (.removeErase g u) { db with groups := db.groups.insert g (members.erase u) }
      (.release .g (if u ∉ members then .error .runToTheHills else .ok .unit)) := by
  split
  · rename_i hu
    exact .removeEraseNone h hu
  · rename_i hu
    exact .removeErase h (not_not.mp hu)

theorem Access.userFind : Access db (.userFind u key) db
    (if u ∉ db.users then .userAssign u key else .release .u (.error (.existingUser u))) := by
  split
  · rename_i hc
    exact .userFindNew hc
  · rename_i hc
    exact .userFindOld (not_not.mp hc)

/-- One round of the loop of `delete_user`, or its end. -/
theorem Access.deleteRound {last : Option Bytes} {db' : MemDatabase} {next : Pc}
    (h : (match nextAfter db.groups.keys last with
      | none => some (db, .deleteErase u)
      | some g => (db.groups[g]?).map fun members =>
        ({ db with groups := db.groups.insert g (members.erase u) }, .deleteNext u (some g))) =
      some (db', next)) : Access db (.deleteNext u last) db' next := by
  cases hn : nextAfter db.groups.keys last with
  | none =>
    rw [hn] at h
    obtain ⟨rfl, rfl⟩ := Prod.mk.inj (Option.some.inj h)
    exact .deleteNextEnd hn
  | some g =>
    rw [hn] at h
    obtain ⟨members, hm, hk⟩ := Option.map_eq_some_iff.mp h
    obtain ⟨rfl, rfl⟩ := Prod.mk.inj hk
    exact .deleteNext hn hm

theorem Access.partFirst : Access db (.partFind u g) db
    (if g ∈ db.groups then .partRef u g else .release .done (.error (.unknownGroup g))) := by
  split
  · rename_i hc
    exact .partFind hc
  · rename_i hc
    exact .partFindNone hc

theorem Access.keysFirst : Access db (.keysFind g) db
    (if g ∈ db.groups then .keysEmpty g else .release .g (.error (.unknownGroup g))) := by
  split
  · rename_i hc
    exact .keysFind hc
  · rename_i hc
    exact .keysFindNone hc

theorem Access.keysTest : Access db (.keysEmpty g) (subscript db g)
    (if ((subscript db g).groups.getD g ∅).isEmpty then .release .g (.error (.emptyGroup g))
      else .keysRef g) := by
  split
  · rename_i hc
    exact .keysEmpty hc
  · rename_i hc
    exact .keysNonempty (Bool.not_eq_true _ ▸ hc)

/-- The loop test of `get_keys_of_group`. -/
theorem Access.keysRound {last : Option Bytes} {ret : KeyArray} {members : Members}
    (h : db.groups[g]? = some members) : Access db (.keysNext g last ret) db
    (match nextAfter members.toList last with
      | none => .release .g (.ok (.keys ret))
      | some uid => .keysLockU g uid ret) := by
  split
  · rename_i hn
    exact .keysNextEnd h hn
  · rename_i uid hn
    exact .keysNext h hn

theorem Access.keysUser {ret : KeyArray} : Access db (.keysFindU g u ret) db
    (if u ∈ db.users then .keysSize g u ret else .keysUnlockU g u ret) := by
  split
  · rename_i hc
    exact .keysFindU hc
  · rename_i hc
    exact .keysFindUNone hc

variable {db' : MemDatabase} {pc next : Pc} {h : MemDatabase → Option (MemDatabase × Pc)}
  (hs : h db = some (db', next))
include hs

theorem access_of_onStore {f : MemDatabase → MemDatabase × Pc} (hi : onStore f = .access h)
    (ha : Access db pc (f db).1 (f db).2) : Access db pc db' next := by
  rw [← Instr.access.inj hi] at hs
  rw [Option.some.inj hs] at ha
  exact ha

theorem access_of_onSet {f : MemDatabase → Members → MemDatabase × Pc}
    (hi : onSet g f = .access h)
    (ha : ∀ {members}, db.groups[g]? = some members →
      Access db pc (f db members).1 (f db members).2) : Access db pc db' next := by
  rw [← Instr.access.inj hi] at hs
  obtain ⟨members, hm, hf⟩ := Option.map_eq_some_iff.mp hs
  have := ha hm
  rw [hf] at this
  exact this

end

/-- **The steps of `instr` are those of `Access`.** -/
theorem access_of_instr {pc next : Pc} {db db' : MemDatabase}
    {h : MemDatabase → Option (MemDatabase × Pc)} (hi : instr pc = .access h)
    (hs : h db = some (db', next)) : Access db pc db' next := by
  cases pc with
  | gLock k g u => cases hi
  | gFind k g u => exact access_of_onStore hs hi .gFind
  | uLock k g u => cases hi
  | uFind k g u => exact access_of_onStore hs hi .uFind
  | uUnlock k g u => cases hi
  | gRef k g u => exact access_of_onStore hs hi .gRef
  | addInsert g u => exact access_of_onSet hs hi .addInsert
  | createInsert g u => exact access_of_onSet hs hi .createInsert
  | removeFind g u => exact access_of_onSet hs hi .removeFind
  | removeEnd g u found => exact access_of_onStore hs hi .removeEnd
  | removeRef g u => exact access_of_onStore hs hi .removeRef
  | removeErase g u => exact access_of_onSet hs hi .removeOne
  | userLock u key => cases hi
  | userFind u key => exact access_of_onStore hs hi .userFind
  | userAssign u key => exact access_of_onStore hs hi .userAssign
  | deleteLockU u => cases hi
  | deleteLockG u => cases hi
  | deleteNext u last =>
    rw [← Instr.access.inj hi] at hs
    exact .deleteRound hs
  | deleteErase u => exact access_of_onStore hs hi .deleteErase
  | clearLockU => cases hi
  | clearLockG => cases hi
  | clearUsers => exact access_of_onStore hs hi .clearUsers
  | clearGroups => exact access_of_onStore hs hi .clearGroups
  | partFind u g => exact access_of_onStore hs hi .partFirst
  | partRef u g => exact access_of_onStore hs hi .partRef
  | partSetFind u g => exact access_of_onSet hs hi .partSetFind
  | partEnd u g found => exact access_of_onStore hs hi .partEnd
  | keysLock g => cases hi
  | keysFind g => exact access_of_onStore hs hi .keysFirst
  | keysEmpty g => exact access_of_onStore hs hi .keysTest
  | keysRef g => exact access_of_onStore hs hi .keysRef
  | keysNext g last ret => exact access_of_onSet hs hi .keysRound
  | keysLockU g uid ret => cases hi
  | keysFindU g uid ret => exact access_of_onStore hs hi .keysUser
  | keysSize g uid ret => exact access_of_onStore hs hi .keysSize
  | keysCopy g uid ret size => exact access_of_onStore hs hi .keysCopy
  | keysUnlockU g uid ret => cases hi
  | release w o => cases w <;> cases hi

/-! ## The locks and unlocks -/

/-- The points that lock a mutex. -/
inductive Locks : Pc → Mutex → Pc → Prop where
  | gLock {k : Kind} {g u : Bytes} : Locks (.gLock k g u) .gmutex (.gFind k g u)
  | uLock {k : Kind} {g u : Bytes} : Locks (.uLock k g u) .umutex (.uFind k g u)
  | userLock {u key : Bytes} : Locks (.userLock u key) .umutex (.userFind u key)
  | deleteLockU {u : Bytes} : Locks (.deleteLockU u) .umutex (.deleteLockG u)
  | deleteLockG {u : Bytes} : Locks (.deleteLockG u) .gmutex (.deleteNext u none)
  | clearLockU : Locks .clearLockU .umutex .clearLockG
  | clearLockG : Locks .clearLockG .gmutex .clearUsers
  | keysLock {g : Bytes} : Locks (.keysLock g) .gmutex (.keysFind g)
  | keysLockU {g uid : Bytes} {ret : KeyArray} :
    Locks (.keysLockU g uid ret) .umutex (.keysFindU g uid ret)

/-- The points that unlock a mutex. -/
inductive Unlocks : Pc → Mutex → Pc → Prop where
  | uUnlock {k : Kind} {g u : Bytes} : Unlocks (.uUnlock k g u) .umutex (.gRef k g u)
  | keysUnlockU {g uid : Bytes} {ret : KeyArray} :
    Unlocks (.keysUnlockU g uid ret) .umutex (.keysNext g (some uid) ret)
  | g {o : Outcome} : Unlocks (.release .g o) .gmutex (.release .done o)
  | u {o : Outcome} : Unlocks (.release .u o) .umutex (.release .done o)
  | gThenU {o : Outcome} : Unlocks (.release .gThenU o) .gmutex (.release .u o)
  | uThenG {o : Outcome} : Unlocks (.release .uThenG o) .umutex (.release .g o)

theorem locks_of_instr {pc next : Pc} {m : Mutex} (h : instr pc = .lock m next) :
    Locks pc m next := by
  cases pc with
  | gLock k g u => cases h; exact .gLock
  | uLock k g u => cases h; exact .uLock
  | userLock u key => cases h; exact .userLock
  | deleteLockU u => cases h; exact .deleteLockU
  | deleteLockG u => cases h; exact .deleteLockG
  | clearLockU => cases h; exact .clearLockU
  | clearLockG => cases h; exact .clearLockG
  | keysLock g => cases h; exact .keysLock
  | keysLockU g uid ret => cases h; exact .keysLockU
  | release w o => cases w <;> cases h
  | _ => simp [instr, onStore, onSet] at h

theorem unlocks_of_instr {pc next : Pc} {m : Mutex} (h : instr pc = .unlock m next) :
    Unlocks pc m next := by
  cases pc with
  | uUnlock k g u => cases h; exact .uUnlock
  | keysUnlockU g uid ret => cases h; exact .keysUnlockU
  | release w o =>
    cases w with
    | done => cases h
    | g => cases h; exact .g
    | u => cases h; exact .u
    | gThenU => cases h; exact .gThenU
    | uThenG => cases h; exact .uThenG
  | _ => simp [instr, onStore, onSet] at h

/-- Only the end of a call returns. -/
theorem release_of_instr {pc : Pc} {o : Outcome} (h : instr pc = .ret o) :
    pc = .release .done o := by
  cases pc with
  | release w o' =>
    cases w with
    | done => cases h; rfl
    | g => cases h
    | u => cases h
    | gThenU => cases h
    | uThenG => cases h
  | _ => simp [instr, onStore, onSet] at h

/-- An access takes and gives back no mutex. -/
theorem Access.holds {db db' : MemDatabase} {pc next : Pc} (h : Access db pc db' next) (m : Mutex) :
    next.holds m ↔ pc.holds m := by
  cases h with
  | gRef => rename_i k g u; cases k <;> cases m <;> rfl
  | _ => cases m <;> rfl

/-- **Every operation takes and releases its mutexes as `Pc.holds` says.** -/
theorem disciplined : Disciplined program Pc.holds where
  entry op m := by cases op <;> cases m <;> simp [program, entry, Pc.holds, Pc.holdsG, Pc.holdsU]
  lock h := by
    cases locks_of_instr h <;>
      refine ⟨by simp [Pc.holds, Pc.holdsG, Pc.holdsU], fun m' => ?_⟩ <;>
      cases m' <;> simp [Pc.holds, Pc.holdsG, Pc.holdsU]
  unlock h := by
    cases unlocks_of_instr h <;>
      refine ⟨by simp [Pc.holds, Pc.holdsG, Pc.holdsU], fun m' => ?_⟩ <;>
      cases m' <;> simp [Pc.holds, Pc.holdsG, Pc.holdsU]
  access hi _ _ _ hs m := (access_of_instr hi hs).holds m
  ret h m := by
    rw [release_of_instr h]
    cases m <;> simp [Pc.holds, Pc.holdsG, Pc.holdsU]

end ASky.Concurrent

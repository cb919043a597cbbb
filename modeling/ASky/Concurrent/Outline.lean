import ASky.Concurrent.Threads

/-!
# Assertions at the program points

The proof outline of the store under several threads. A thread inside `gmutex_` knows the groups:
the others can only add users (`create_user`, inside `umutex_`) and empty groups (the
`groups_[gname]` of `is_user_part_of_group`), which is `Grows`. A thread inside `umutex_` knows
`users_`.

`Local` is what a call knows at each point, besides integrity, which a thread inside `gmutex_` may
break only between the two `clear()`s of `delete_all_data`. **`assert_of_reach`** proves it for
every reachable state, from one lemma for each access (`Access.assert`) and one for what the other
threads do (`Local.stable`).
-/

namespace ASky.Concurrent

open Std (ExtTreeMap ExtTreeSet)
open Lib MemDatabase

/-! ## The assertions -/

/-- The operation of a `Kind`. -/
def Kind.op (k : Kind) (g u : Bytes) : Op :=
  match k with
  | .add => .addUserToGroup g u
  | .create => .createGroup g u
  | .remove => .removeUserFromGroup g u

/-- The call a point belongs to; the points of `release` belong to all. -/
def Pc.call : Pc → Option Op
  | .gLock k g u | .gFind k g u | .uLock k g u | .uFind k g u | .uUnlock k g u | .gRef k g u =>
    some (k.op g u)
  | .addInsert g u => some (.addUserToGroup g u)
  | .createInsert g u => some (.createGroup g u)
  | .removeFind g u | .removeEnd g u _ | .removeRef g u | .removeErase g u =>
    some (.removeUserFromGroup g u)
  | .userLock u key | .userFind u key | .userAssign u key => some (.createUser u key)
  | .deleteLockU u | .deleteLockG u | .deleteNext u _ | .deleteErase u => some (.deleteUser u)
  | .clearLockU | .clearLockG | .clearUsers | .clearGroups => some .deleteAllData
  | .partFind u g | .partRef u g | .partSetFind u g | .partEnd u g _ =>
    some (.isUserPartOfGroup u g)
  | .keysLock g | .keysFind g | .keysEmpty g | .keysRef g | .keysNext g _ _
  | .keysLockU g _ _ | .keysFindU g _ _ | .keysSize g _ _ | .keysCopy g _ _ _
  | .keysUnlockU g _ _ => some (.getKeysOfGroup g)
  | .release _ _ => none

/-- The key `get_keys_of_group` copies for `uid`. -/
def keyIn (db : MemDatabase) (uid : Bytes) : Key := keyOf (db.users.getD uid [])

/-- `ret` holds the keys of the members of `g` up to `last`. -/
def Collected (db : MemDatabase) (g : Bytes) (last : Option Bytes) (ret : KeyArray) : Prop :=
  ∃ members, db.groups[g]? = some members ∧ members.isEmpty = false ∧
    ret = (members.toList.filter fun v => !isAfter last v).map (keyIn db)

/-- `ret` holds the keys of the members of `g` before `uid`. -/
def Collecting (db : MemDatabase) (g uid : Bytes) (ret : KeyArray) : Prop :=
  ∃ members last, db.groups[g]? = some members ∧ members.isEmpty = false ∧
    nextAfter members.toList last = some uid ∧
    ret = (members.toList.filter fun v => !isAfter last v).map (keyIn db)

/-- The array `get_keys_of_group` returns has the key of every member, in the store `seen`. -/
def KeysOf (op : Op) (o : Outcome) (seen : MemDatabase) : Prop :=
  ∀ g ks, op = .getKeysOfGroup g → o = .ok (.keys ks) →
    ∃ members, seen.groups[g]? = some members ∧ ks = members.toList.map (keyIn seen) ∧ ks ≠ []

/-- What a call knows at a point, besides integrity. -/
def Local (op : Op) (seen db : MemDatabase) : Pc → Prop
  | .uLock k g _ | .uFind k g _ => k.wantsGroup = true → g ∈ db.groups
  | .uUnlock k g u | .gRef k g u => (k.wantsGroup = true → g ∈ db.groups) ∧ u ∈ db.users
  | .addInsert g u | .createInsert g u | .removeFind g u => g ∈ db.groups ∧ u ∈ db.users
  | .removeEnd g u found => u ∈ db.users ∧
      ∃ members, db.groups[g]? = some members ∧ found = decide (u ∈ members)
  | .removeRef g u | .removeErase g u => db.Member u g
  | .userAssign u _ => u ∉ db.users
  | .deleteNext u last => ∀ g members, db.groups[g]? = some members → isAfter last g = false →
      u ∉ members
  | .deleteErase u => ∀ g, ¬ db.Member u g
  | .clearGroups => db.users = ∅
  | .keysEmpty g => g ∈ db.groups
  | .keysRef g => ∃ members, db.groups[g]? = some members ∧ members.isEmpty = false
  | .keysNext g last ret => Collected db g last ret
  | .keysLockU g uid ret | .keysFindU g uid ret => Collecting db g uid ret
  | .keysSize g uid ret => Collecting db g uid ret ∧ uid ∈ db.users
  | .keysCopy g uid ret size => Collecting db g uid ret ∧ uid ∈ db.users ∧
      size = (db.users.getD uid []).length
  | .keysUnlockU g uid ret => Collected db g (some uid) ret
  | .release _ o => KeysOf op o seen
  | _ => True

/-- Integrity holds at this point. -/
def Pc.sound (pc : Pc) (db : MemDatabase) : Prop :=
  pc.holdsG = true → pc ≠ .clearGroups → db.Integrity

/-- The assertion of a call. -/
structure Assert (f : Frame MemDatabase Pc Op) (db : MemDatabase) : Prop where
  call : ∀ o, f.pc.call = some o → f.op = o
  sound : f.pc.sound db
  known : Local f.op f.seen db f.pc

/-! ## What the other threads do -/

/-- What threads outside `gmutex_` do to the store: new users and new empty groups. -/
structure Grows (db db' : MemDatabase) : Prop where
  groups : ∀ (g : Bytes) (members : Members), db.groups[g]? = some members →
    db'.groups[g]? = some members
  fresh : ∀ (g : Bytes) (members : Members), db'.groups[g]? = some members →
    db.groups[g]? = some members ∨ members = ∅
  users : ∀ u key : Bytes, db.users[u]? = some key → db'.users[u]? = some key

/-- Nothing was added. -/
theorem Grows.refl (db : MemDatabase) : Grows db db :=
  ⟨fun _ _ h => h, fun _ _ h => Or.inl h, fun _ _ h => h⟩

/-- `groups_[g]` of a group that is there. -/
theorem subscript_of_mem {db : MemDatabase} {g : Bytes} (h : g ∈ db.groups) :
    subscript db g = db := by
  unfold subscript
  rw [insertIfNew_of_mem h]

/-- `groups_[gname]` adds an empty group at most. -/
theorem grows_subscript (db : MemDatabase) (g : Bytes) : Grows db (subscript db g) := by
  by_cases h : g ∈ db.groups
  · rw [subscript_of_mem h]
    exact .refl db
  · refine ⟨fun q members hq => ?_, fun q members hq => ?_, fun _ _ h => h⟩
    · unfold subscript
      rw [ExtTreeMap.getElem?_insertIfNew, if_neg, hq]
      rintro ⟨hc, -⟩
      rw [Std.LawfulEqCmp.compare_eq_iff_eq.mp hc] at h
      exact h (mem_of_getElem? hq)
    · unfold subscript at hq
      rw [ExtTreeMap.getElem?_insertIfNew] at hq
      split at hq
      · exact Or.inr (Option.some.inj hq).symm
      · exact Or.inl hq

/-- A group stays. -/
theorem Grows.mem_groups {db db' : MemDatabase} (h : Grows db db') {g : Bytes}
    (hg : g ∈ db.groups) : g ∈ db'.groups := by
  obtain ⟨members, hm⟩ := exists_getElem?_of_mem hg
  exact mem_of_getElem? (h.groups g members hm)

/-- A user stays. -/
theorem Grows.mem_users {db db' : MemDatabase} (h : Grows db db') {u : Bytes}
    (hu : u ∈ db.users) : u ∈ db'.users := by
  obtain ⟨key, hk⟩ := exists_getElem?_of_mem hu
  exact mem_of_getElem? (h.users u key hk)

/-- Nobody joins or leaves. -/
theorem Grows.member_iff {db db' : MemDatabase} (h : Grows db db') {u g : Bytes} :
    db'.Member u g ↔ db.Member u g := by
  constructor
  · rintro ⟨members, hm, hu⟩
    rcases h.fresh g members hm with hm | rfl
    · exact ⟨members, hm, hu⟩
    · exact absurd hu ExtTreeSet.not_mem_empty
  · rintro ⟨members, hm, hu⟩
    exact ⟨members, h.groups g members hm, hu⟩

/-- Integrity is kept, as the members are the same and the users no fewer. -/
theorem Grows.integrity {db db' : MemDatabase} (h : Grows db db') (hi : db.Integrity) :
    db'.Integrity := fun u g hm => h.mem_users (hi u g (h.member_iff.mp hm))

/-- The keys of known users stay. -/
theorem Grows.keyIn_eq {db db' : MemDatabase} (h : Grows db db') {u : Bytes} (hu : u ∈ db.users) :
    keyIn db' u = keyIn db u := by
  obtain ⟨key, hk⟩ := exists_getElem?_of_mem hu
  unfold keyIn
  rw [getD_of_getElem? hk, getD_of_getElem? (h.users u key hk)]

/-- The members keep their keys. -/
theorem Grows.map_keyIn {db db' : MemDatabase} (h : Grows db db') (hi : db.Integrity) {g : Bytes}
    {members : Members} (hg : db.groups[g]? = some members) (p : Bytes → Bool) :
    (members.toList.filter p).map (keyIn db') = (members.toList.filter p).map (keyIn db) := by
  refine List.map_congr_left fun v hv => h.keyIn_eq (hi v g ⟨members, hg, ?_⟩)
  exact ExtTreeSet.mem_toList.mp (List.mem_filter.mp hv).1

/-- What was collected is still right. -/
theorem Grows.collected {db db' : MemDatabase} (h : Grows db db') (hi : db.Integrity) {g : Bytes}
    {last : Option Bytes} {ret : KeyArray} (hc : Collected db g last ret) :
    Collected db' g last ret := by
  obtain ⟨members, hg, hne, rfl⟩ := hc
  exact ⟨members, h.groups g members hg, hne, (h.map_keyIn hi hg _).symm⟩

/-- So is what is being collected. -/
theorem Grows.collecting {db db' : MemDatabase} (h : Grows db db') (hi : db.Integrity)
    {g uid : Bytes} {ret : KeyArray} (hc : Collecting db g uid ret) : Collecting db' g uid ret := by
  obtain ⟨members, last, hg, hne, hn, rfl⟩ := hc
  exact ⟨members, last, h.groups g members hg, hne, hn, (h.map_keyIn hi hg _).symm⟩

/-- A thread outside `gmutex_` only lets the store grow. -/
theorem Access.grows {op : Op} {seen db db' : MemDatabase} {pc next : Pc}
    (h : Access db pc db' next) (hl : Local op seen db pc) (hg : pc.holdsG = false) :
    Grows db db' := by
  cases h with
  | userFindNew hu => exact .refl db
  | userFindOld hu => exact .refl db
  | userAssign =>
    rename_i u key
    refine ⟨fun _ _ h => h, fun _ _ h => Or.inl h, fun v k hk => ?_⟩
    rw [insert_insertIfNew, getElem?_insert, if_neg, hk]
    rintro rfl
    exact hl (mem_of_getElem? hk)
  | partFind hm => exact .refl db
  | partFindNone hm => exact .refl db
  | partRef => exact grows_subscript db _
  | partSetFind hm => exact .refl db
  | partEnd => exact grows_subscript db _
  | _ => exact absurd hg (by simp [Pc.holdsG])

/-- A thread outside `umutex_` leaves `users_` alone. -/
theorem Access.users_eq {db db' : MemDatabase} {pc next : Pc} (h : Access db pc db' next)
    (hu : pc.holdsU = false) : db'.users = db.users := by
  cases h with
  | userAssign => exact absurd hu (by simp [Pc.holdsU])
  | deleteErase => exact absurd hu (by simp [Pc.holdsU])
  | clearUsers => exact absurd hu (by simp [Pc.holdsU])
  | keysSize => exact absurd hu (by simp [Pc.holdsU])
  | keysCopy => exact absurd hu (by simp [Pc.holdsU])
  | _ => rfl

/-- What a call knows is not disturbed by threads that hold none of its mutexes. -/
theorem Local.stable {op : Op} {seen db db' : MemDatabase} {pc : Pc} (hl : Local op seen db pc)
    (hi : pc.sound db) (hg : pc.holdsG = true → Grows db db')
    (hu : pc.holdsU = true → db'.users = db.users) : Local op seen db' pc := by
  cases pc with
  | uLock k g u => exact fun hk => (hg rfl).mem_groups (hl hk)
  | uFind k g u => exact fun hk => (hg rfl).mem_groups (hl hk)
  | uUnlock k g u => exact ⟨fun hk => (hg rfl).mem_groups (hl.1 hk), (hg rfl).mem_users hl.2⟩
  | gRef k g u => exact ⟨fun hk => (hg rfl).mem_groups (hl.1 hk), (hg rfl).mem_users hl.2⟩
  | addInsert g u => exact ⟨(hg rfl).mem_groups hl.1, (hg rfl).mem_users hl.2⟩
  | createInsert g u => exact ⟨(hg rfl).mem_groups hl.1, (hg rfl).mem_users hl.2⟩
  | removeFind g u => exact ⟨(hg rfl).mem_groups hl.1, (hg rfl).mem_users hl.2⟩
  | removeEnd g u found =>
    obtain ⟨hus, members, hm, hf⟩ := hl
    exact ⟨(hg rfl).mem_users hus, members, (hg rfl).groups g members hm, hf⟩
  | removeRef g u => exact (hg rfl).member_iff.mpr hl
  | removeErase g u => exact (hg rfl).member_iff.mpr hl
  | userAssign u key =>
    unfold Local at hl ⊢
    rw [hu rfl]
    exact hl
  | deleteNext u last =>
    intro g members hm hlast
    rcases (hg rfl).fresh g members hm with hm | rfl
    · exact hl g members hm hlast
    · exact ExtTreeSet.not_mem_empty
  | deleteErase u => exact fun g hm => hl g ((hg rfl).member_iff.mp hm)
  | clearGroups => exact (hu rfl).trans hl
  | keysEmpty g => exact (hg rfl).mem_groups hl
  | keysRef g =>
    obtain ⟨members, hm, hne⟩ := hl
    exact ⟨members, (hg rfl).groups g members hm, hne⟩
  | keysNext g last ret => exact (hg rfl).collected (hi rfl (by simp)) hl
  | keysLockU g uid ret => exact (hg rfl).collecting (hi rfl (by simp)) hl
  | keysFindU g uid ret => exact (hg rfl).collecting (hi rfl (by simp)) hl
  | keysSize g uid ret =>
    exact ⟨(hg rfl).collecting (hi rfl (by simp)) hl.1, (hg rfl).mem_users hl.2⟩
  | keysCopy g uid ret size =>
    refine ⟨(hg rfl).collecting (hi rfl (by simp)) hl.1, (hg rfl).mem_users hl.2.1, ?_⟩
    rw [hu rfl]
    exact hl.2.2
  | keysUnlockU g uid ret => exact (hg rfl).collected (hi rfl (by simp)) hl
  | release w o => exact hl
  | _ => trivial

/-! ## What a call learns from its own access -/

/-- An outcome that is no key array. -/
theorem keysOf_of_ne {op : Op} {o : Outcome} {seen : MemDatabase} (h : ∀ ks, o ≠ .ok (.keys ks)) :
    KeysOf op o seen := fun _ ks _ ho => absurd ho (h ks)

/-- `groups_[g]` makes the group. -/
theorem mem_subscript (db : MemDatabase) (g : Bytes) : g ∈ (subscript db g).groups :=
  ExtTreeMap.mem_insertIfNew_self

/-- The call stays the same until it ends. -/
theorem Access.call {db db' : MemDatabase} {pc next : Pc} (h : Access db pc db' next) :
    next.call = none ∨ next.call = pc.call := by
  cases h with
  | gRef => rename_i k g u; cases k <;> exact Or.inr rfl
  | _ => first | exact Or.inr rfl | exact Or.inl rfl

/-- Every point that accesses the store belongs to a call. -/
theorem Access.call_some {db db' : MemDatabase} {pc next : Pc} (h : Access db pc db' next) :
    ∃ op, pc.call = some op := by
  cases h <;> exact ⟨_, rfl⟩

/-- The end of the loop of `delete_user`: the user is in no group. -/
theorem not_member_of_nextAfter_none {db : MemDatabase} {u : Bytes} {last : Option Bytes}
    (h : nextAfter db.groups.keys last = none)
    (hl : ∀ g members, db.groups[g]? = some members → isAfter last g = false → u ∉ members)
    (g : Bytes) : ¬ db.Member u g := by
  rintro ⟨members, hm, hu⟩
  have hkey : g ∈ db.groups.keys := ExtTreeMap.mem_keys.mpr (mem_of_getElem? hm)
  exact hl g members hm (isAfter_of_nextAfter_none h g hkey) hu

/-- One round of the loop of `delete_user`. -/
theorem deleteNext_known {db : MemDatabase} {u g : Bytes} {last : Option Bytes} {members : Members}
    (h : nextAfter db.groups.keys last = some g)
    (hl : ∀ g members, db.groups[g]? = some members → isAfter last g = false → u ∉ members) :
    ∀ (q : Bytes) (ms : Members), (db.groups.insert g (members.erase u))[q]? = some ms →
      isAfter (some g) q = false → u ∉ ms := by
  intro q ms hq hlast
  rw [getElem?_insert] at hq
  split at hq
  · rw [← Option.some.inj hq]
    exact fun hu => (mem_erase.mp hu).1 rfl
  · rename_i hne
    have hkey : q ∈ db.groups.keys := ExtTreeMap.mem_keys.mpr (mem_of_getElem? hq)
    rcases isAfter_next ExtTreeMap.ordered_keys h hkey hlast with heq | hlast'
    · exact absurd heq hne
    · exact hl q ms hq hlast'

/-- The end of the loop of `get_keys_of_group`: the key of every member is there. -/
theorem Collected.all {db : MemDatabase} {g : Bytes} {last : Option Bytes} {ret : KeyArray}
    {members : Members} (hc : Collected db g last ret) (hg : db.groups[g]? = some members)
    (hn : nextAfter members.toList last = none) :
    ret = members.toList.map (keyIn db) ∧ ret ≠ [] := by
  obtain ⟨members', hg', hne, rfl⟩ := hc
  rw [hg] at hg'
  obtain rfl := Option.some.inj hg'
  have hall : members.toList.filter (fun v => !isAfter last v) = members.toList :=
    List.filter_eq_self.mpr fun v hv => by rw [isAfter_of_nextAfter_none hn v hv]; rfl
  rw [hall]
  refine ⟨rfl, fun hnil => ?_⟩
  have hempty : members.isEmpty = true := isEmpty_eq_true_iff.mpr fun u hu => by
    have := ExtTreeSet.mem_toList.mpr hu
    rw [List.map_eq_nil_iff.mp hnil] at this
    exact List.not_mem_nil this
  rw [hne] at hempty
  exact absurd hempty (by simp)

/-- The member the loop is at is a known user. -/
theorem Collecting.known {db : MemDatabase} {g uid : Bytes} {ret : KeyArray} (hi : db.Integrity)
    (hc : Collecting db g uid ret) : uid ∈ db.users := by
  obtain ⟨members, last, hg, -, hn, -⟩ := hc
  exact hi uid g ⟨members, hg, ExtTreeSet.mem_toList.mp (mem_of_nextAfter hn)⟩

/-- One round of the loop of `get_keys_of_group`. -/
theorem Collecting.push {db : MemDatabase} {g uid : Bytes} {ret : KeyArray}
    (hc : Collecting db g uid ret) : Collected db g (some uid) (ret ++ [keyIn db uid]) := by
  obtain ⟨members, last, hg, hne, hn, rfl⟩ := hc
  refine ⟨members, hg, hne, ?_⟩
  rw [filter_isAfter_next ExtTreeSet.ordered_toList hn, List.map_append]
  rfl

/-- `users_[uid]` on a known user. -/
theorem users_insertIfNew {db : MemDatabase} {uid : Bytes} (h : uid ∈ db.users) :
    { db with users := db.users.insertIfNew uid [] } = db := by
  rw [insertIfNew_of_mem h]

/-- **Each access leads from the assertion of its point to the assertion of the next.** -/
theorem Access.known {op : Op} {seen db db' : MemDatabase} {pc next : Pc}
    (h : Access db pc db' next) (hcall : ∀ o, pc.call = some o → op = o) (hs : pc.sound db)
    (hl : Local op seen db pc) : Local op db' db' next ∧ next.sound db' := by
  have herr : ∀ (e : DbError) (x : MemDatabase), KeysOf op (.error e) x :=
    fun e x => keysOf_of_ne fun ks => by simp
  have hunit : ∀ x : MemDatabase, KeysOf op (.ok .unit) x := fun x => keysOf_of_ne fun ks => by simp
  cases h with
  | gFindRight h =>
    exact ⟨fun hk => of_decide_eq_true (h.trans hk), fun _ _ => hs rfl (by simp)⟩
  | gFindWrong h => exact ⟨herr _ _, fun _ _ => hs rfl (by simp)⟩
  | uFindKnown h => exact ⟨⟨hl, h⟩, fun _ _ => hs rfl (by simp)⟩
  | uFindUnknown h => exact ⟨herr _ _, fun _ _ => hs rfl (by simp)⟩
  | gRef =>
    rename_i k g u
    have hi := (grows_subscript db g).integrity (hs rfl (by simp))
    cases k with
    | add => exact ⟨⟨mem_subscript db g, hl.2⟩, fun _ _ => hi⟩
    | create => exact ⟨⟨mem_subscript db g, hl.2⟩, fun _ _ => hi⟩
    | remove => exact ⟨⟨mem_subscript db g, hl.2⟩, fun _ _ => hi⟩
  | addInsertNew h hu => exact ⟨hunit _, fun _ _ => (hs rfl (by simp)).insertMember h hl.2⟩
  | addInsertOld h hu => exact ⟨herr _ _, fun _ _ => (hs rfl (by simp)).insertMember h hl.2⟩
  | createInsert h => exact ⟨hunit _, fun _ _ => (hs rfl (by simp)).insertMember h hl.2⟩
  | removeFind h => exact ⟨⟨hl.2, _, h, rfl⟩, fun _ _ => hs rfl (by simp)⟩
  | removeEndFound =>
    obtain ⟨-, members, hm, hf⟩ := hl
    rw [subscript_of_mem (mem_of_getElem? hm)]
    exact ⟨⟨members, hm, of_decide_eq_true hf.symm⟩, fun _ _ => hs rfl (by simp)⟩
  | removeEndMissing =>
    obtain ⟨-, members, hm, -⟩ := hl
    rw [subscript_of_mem (mem_of_getElem? hm)]
    exact ⟨herr _ _, fun _ _ => hs rfl (by simp)⟩
  | removeRef =>
    obtain ⟨members, hm, hu⟩ := hl
    rw [subscript_of_mem (mem_of_getElem? hm)]
    exact ⟨⟨members, hm, hu⟩, fun _ _ => hs rfl (by simp)⟩
  | removeErase h hu => exact ⟨hunit _, fun _ _ => (hs rfl (by simp)).eraseMember h⟩
  | removeEraseNone h hu => exact ⟨herr _ _, fun _ _ => (hs rfl (by simp)).eraseMember h⟩
  | userFindNew h => exact ⟨h, fun hg => absurd hg (by simp [Pc.holdsG])⟩
  | userFindOld h => exact ⟨herr _ _, fun hg => absurd hg (by simp [Pc.holdsG])⟩
  | userAssign => exact ⟨hunit _, fun hg => absurd hg (by simp [Pc.holdsG])⟩
  | deleteNextEnd h =>
    exact ⟨not_member_of_nextAfter_none h hl, fun _ _ => hs rfl (by simp)⟩
  | deleteNext h hg => exact ⟨deleteNext_known h hl, fun _ _ => (hs rfl (by simp)).eraseMember hg⟩
  | deleteErase =>
    refine ⟨hunit _, fun _ _ v g hm => ?_⟩
    refine ExtTreeMap.mem_erase.mpr ⟨fun hc => ?_, hs rfl (by simp) v g hm⟩
    rw [← Std.LawfulEqCmp.compare_eq_iff_eq.mp hc] at hm
    exact hl g hm
  | clearUsers => exact ⟨rfl, fun _ hne => absurd rfl hne⟩
  | clearGroups => exact ⟨hunit _, fun _ _ v g hm => absurd hm (not_member_empty _)⟩
  | partFind h => exact ⟨trivial, fun hg => absurd hg (by simp [Pc.holdsG])⟩
  | partFindNone h => exact ⟨herr _ _, fun hg => absurd hg (by simp [Pc.holdsG])⟩
  | partRef => exact ⟨trivial, fun hg => absurd hg (by simp [Pc.holdsG])⟩
  | partSetFind h => exact ⟨trivial, fun hg => absurd hg (by simp [Pc.holdsG])⟩
  | partEnd => exact ⟨keysOf_of_ne fun ks => by simp, fun hg => absurd hg (by simp [Pc.holdsG])⟩
  | keysFind h => exact ⟨h, fun _ _ => hs rfl (by simp)⟩
  | keysFindNone h => exact ⟨herr _ _, fun _ _ => hs rfl (by simp)⟩
  | keysEmpty h =>
    rw [subscript_of_mem hl]
    exact ⟨herr _ _, fun _ _ => hs rfl (by simp)⟩
  | keysNonempty h =>
    rw [subscript_of_mem hl] at h ⊢
    obtain ⟨members, hm⟩ := exists_getElem?_of_mem hl
    rw [getD_of_getElem? hm] at h
    exact ⟨⟨members, hm, h⟩, fun _ _ => hs rfl (by simp)⟩
  | keysRef =>
    obtain ⟨members, hm, hne⟩ := hl
    rw [subscript_of_mem (mem_of_getElem? hm)]
    refine ⟨⟨members, hm, hne, ?_⟩, fun _ _ => hs rfl (by simp)⟩
    rw [List.filter_eq_nil_iff.mpr fun v _ => by simp [isAfter]]
    rfl
  | keysNextEnd h hn =>
    rename_i g last ret members
    obtain ⟨hret, hne⟩ := hl.all h hn
    refine ⟨fun g' ks hop ho => ?_, fun _ _ => hs rfl (by simp)⟩
    obtain rfl : g = g' := Op.getKeysOfGroup.inj ((hcall _ rfl).symm.trans hop)
    obtain rfl : ret = ks := Value.keys.inj (Except.ok.inj ho)
    exact ⟨members, h, hret, hne⟩
  | keysNext h hn =>
    rename_i g uid last ret members
    obtain ⟨members', hg, hne, hret⟩ := hl
    obtain rfl := Option.some.inj (h.symm.trans hg)
    exact ⟨⟨members, last, h, hne, hn, hret⟩, fun _ _ => hs rfl (by simp)⟩
  | keysFindU h => exact ⟨⟨hl, h⟩, fun _ _ => hs rfl (by simp)⟩
  | keysFindUNone h => exact absurd (hl.known (hs rfl (by simp))) h
  | keysSize =>
    rw [users_insertIfNew hl.2, insertIfNew_of_mem hl.2]
    exact ⟨⟨hl.1, hl.2, rfl⟩, fun _ _ => hs rfl (by simp)⟩
  | keysCopy =>
    obtain ⟨hc, hu, rfl⟩ := hl
    rw [users_insertIfNew hu, insertIfNew_of_mem hu, keyOf_take]
    exact ⟨hc.push, fun _ _ => hs rfl (by simp)⟩

/-! ## The outline -/

/-- What a free mutex protects: integrity, for `gmutex_`. -/
def lockInv : Mutex → MemDatabase → Prop
  | .gmutex, db => db.Integrity
  | .umutex, _ => True

/-- A lock stays in the call. -/
theorem Locks.call {pc next : Pc} {m : Mutex} (h : Locks pc m next) : next.call = pc.call := by
  cases h <;> rfl

/-- So does an unlock. -/
theorem Unlocks.call {pc next : Pc} {m : Mutex} (h : Unlocks pc m next) : next.call = pc.call := by
  cases h <;> rfl

/-- What a call knows when it gets a mutex. -/
theorem Locks.known {op : Op} {seen db : MemDatabase} {pc next : Pc} {m : Mutex}
    (h : Locks pc m next) (hl : Local op seen db pc) : Local op seen db next := by
  cases h with
  | uLock => exact hl
  | deleteLockG => exact fun g members hm hlast => absurd hlast (by simp [isAfter])
  | keysLockU => exact hl
  | _ => trivial

/-- What the mutex guards is known behind its lock. -/
theorem Locks.sound {db : MemDatabase} {pc next : Pc} {m : Mutex} (h : Locks pc m next)
    (hs : pc.sound db) (hj : lockInv m db) : next.sound db := by
  cases h with
  | gLock => exact fun _ _ => hj
  | uLock => exact fun _ _ => hs rfl (by simp)
  | userLock => exact fun hg => absurd hg (by simp [Pc.holdsG])
  | deleteLockU => exact fun hg => absurd hg (by simp [Pc.holdsG])
  | deleteLockG => exact fun _ _ => hj
  | clearLockU => exact fun hg => absurd hg (by simp [Pc.holdsG])
  | clearLockG => exact fun _ _ => hj
  | keysLock => exact fun _ _ => hj
  | keysLockU => exact fun _ _ => hs rfl (by simp)

/-- What a call knows is not lost when it gives a mutex back. -/
theorem Unlocks.known {op : Op} {seen db : MemDatabase} {pc next : Pc} {m : Mutex}
    (h : Unlocks pc m next) (hl : Local op seen db pc) : Local op seen db next := by
  cases h <;> exact hl

/-- Before an unlock the store is as the mutex promises. -/
theorem Unlocks.sound {db : MemDatabase} {pc next : Pc} {m : Mutex} (h : Unlocks pc m next)
    (hs : pc.sound db) : next.sound db ∧ lockInv m db := by
  cases h with
  | uUnlock => exact ⟨fun _ _ => hs rfl (by simp), trivial⟩
  | keysUnlockU => exact ⟨fun _ _ => hs rfl (by simp), trivial⟩
  | g => exact ⟨fun hg => absurd hg (by simp [Pc.holdsG]), hs rfl (by simp)⟩
  | u => exact ⟨fun hg => absurd hg (by simp [Pc.holdsG]), trivial⟩
  | gThenU => exact ⟨fun hg => absurd hg (by simp [Pc.holdsG]), hs rfl (by simp)⟩
  | uThenG => exact ⟨fun _ _ => hs rfl (by simp), trivial⟩

/-- A call starts as itself. -/
theorem entry_call (op : Op) : (entry op).call = some op := by cases op <;> rfl

/-- **The proof outline of the eight operations**, for runs under any condition. -/
theorem outline (C : Nat → System → Prop) :
    Outline program Pc.holds C {} Assert lockInv KeysOf where
  init m := by
    cases m with
    | gmutex => exact integrity_empty
    | umutex => trivial
  entry op n x := by
    refine ⟨fun o ho => ?_, ?_, ?_⟩
    · exact Option.some.inj ((entry_call op).symm.trans ho)
    · cases op <;> exact fun hg => absurd hg (by simp [program, entry, Pc.holdsG])
    · cases op <;> trivial
  lock {f m next x} hi ha hj := by
    have hl := locks_of_instr hi
    exact ⟨fun o ho => ha.call o (hl.call ▸ ho), hl.sound ha.sound hj, hl.known ha.known⟩
  unlock {f m next x} hi ha := by
    have hl := unlocks_of_instr hi
    obtain ⟨hs, hj⟩ := hl.sound ha.sound
    exact ⟨⟨fun o ho => ha.call o (hl.call ▸ ho), hs, hl.known ha.known⟩, hj⟩
  access {f g x x' next} hi ha hg := by
    have hacc := access_of_instr hi hg
    obtain ⟨hl, hs⟩ := hacc.known ha.call ha.sound ha.known
    refine ⟨fun o ho => ?_, hs, hl⟩
    rcases hacc.call with hn | hc
    · exact absurd (hn.symm.trans ho) (by simp)
    · exact ha.call o (hc ▸ ho)
  frame {f g x x' next} hi ha hg m hm hj := by
    cases m with
    | umutex => trivial
    | gmutex =>
      exact ((access_of_instr hi hg).grows ha.known (Bool.not_eq_true _ ▸ hm)).integrity hj
  stable {s t t' f f' g x' next} hc hne hf hf' hi ha hg ha' hex := by
    have hacc := access_of_instr hi hg
    have hgrow : f'.pc.holdsG = true → Grows s.store x' := fun h =>
      hacc.grows ha.known (Bool.not_eq_true _ ▸ fun h' => hex .gmutex h' h)
    refine ⟨ha'.call, fun hg' hne' => (hgrow hg').integrity (ha'.sound hg' hne'), ?_⟩
    refine ha'.known.stable ha'.sound hgrow fun hu => ?_
    exact hacc.users_eq (Bool.not_eq_true _ ▸ fun h' => hex .umutex h' hu)
  ret {f r x} hi ha := by
    have hpc := release_of_instr hi
    have hk := ha.known
    rw [hpc] at hk
    exact hk

section

variable {C : Nat → System → Prop} {s : System} (h : Reach program C {} s)
include h

/-- **The assertions hold in every reachable state.** -/
theorem assert_of_reach {t : Nat} {f : Frame MemDatabase Pc Op} (hf : s.thread t = some f) :
    Assert f s.store :=
  ((outline C).holds disciplined h).frames t f hf

/-- With `gmutex_` free, every member is a user. -/
theorem integrity_of_free (hfree : s.owner .gmutex = none) : s.store.Integrity :=
  ((outline C).holds disciplined h).free .gmutex hfree

end

end ASky.Concurrent

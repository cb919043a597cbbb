import ASky.Concurrent.Quiet
import ASky.Lib.Linearizable

/-!
# Linearizability of the store

The eight operations against the store one call at a time (`MemDatabase.apply`).

A call takes effect at one of its accesses (`Pc.taken` is the result from there on): the one that
finds what it throws for, the last write of `add_user_to_group`, `remove_user_from_group` and
`create_user`, the `groups_[gname]` of `create_group`, the first round of the loop of `delete_user`,
the second `clear()` of `delete_all_data`, and the `find` in the set of a query. Between that access
and the last write of its call the store lags behind: `Completes` says what it will be.

**`linearizable_of_quiet`**: the calls of every run whose steps are all `Quiet` are linearizable.
`reviving_not_linearizable` is a run without the condition: a query brings a group back that
`delete_all_data` has removed.
-/

namespace ASky.Concurrent

open Std (ExtTreeMap ExtTreeSet)
open Lib MemDatabase

/-! ## Where a call takes effect -/

/-- The result of a call that has taken effect. -/
def Pc.taken : Pc → Option Outcome
  | .createInsert _ _ => some (.ok .unit)
  | .removeEnd g u false => some (.error (.removeNotMember g u))
  | .deleteNext _ (some _) | .deleteErase _ => some (.ok .unit)
  | .partEnd _ _ found => some (.ok (.bool found))
  | .release _ o => some o
  | _ => none

/-- `a` is what the store `db` will be when the call at this point, inside `gmutex_`, has done what
it has already taken effect for. -/
def Completes (db a : MemDatabase) : Pc → Prop
  | .createInsert g u =>
    a = { db with groups := db.groups.insert g ((db.groups.getD g ∅).insert u) }
  | .deleteNext u (some _) | .deleteErase u => a = db.deleteUser u
  | .clearGroups => a.groups = db.groups
  | _ => a = db

/-- `a` is the store of the calls that have taken effect. -/
def Abs (s : System) (a : MemDatabase) : Prop :=
  (s.owner .gmutex = none → a = s.store) ∧
    ∀ t f, s.thread t = some f → f.pc.holdsG = true → Completes s.store a f.pc

/-- A step changes nothing for the object, or its call takes effect. -/
def Takes (op : Op) (pc next : Pc) (a a' : MemDatabase) : Prop :=
  (next.taken = pc.taken ∧ a' = a) ∨
    ∃ r, pc.taken = none ∧ next.taken = some r ∧ a.apply op = (r, a')

/-! ## The operations on the object -/

/-- The group is there, or is not, and should not be, or should: the call throws. -/
theorem apply_wrongGroup {db : MemDatabase} {k : Kind} {g u : Bytes}
    (h : decide (g ∈ db.groups) ≠ k.wantsGroup) :
    db.apply (k.op g u) = (.error (k.wrongGroup g u), db) := by
  cases k with
  | add =>
    have hg : g ∉ db.groups := of_decide_eq_false (Bool.eq_false_of_not_eq_true h)
    simp [Kind.op, Kind.wrongGroup, apply, addUserToGroup, hg, Except.map]
  | create =>
    have hg : g ∈ db.groups := of_decide_eq_true (Bool.eq_true_of_not_eq_false h)
    simp [Kind.op, Kind.wrongGroup, apply, createGroup, hg, Except.map]
  | remove =>
    have hg : g ∉ db.groups := of_decide_eq_false (Bool.eq_false_of_not_eq_true h)
    simp [Kind.op, Kind.wrongGroup, apply, removeUserFromGroup, hg, Except.map]

/-- The user is unknown: the call throws. -/
theorem apply_unknownUser {db : MemDatabase} {k : Kind} {g u : Bytes}
    (hg : k.wantsGroup = true → g ∈ db.groups) (hg' : k.wantsGroup = false → g ∉ db.groups)
    (hu : u ∉ db.users) : db.apply (k.op g u) = (.error (k.unknownUser g u), db) := by
  cases k with
  | add => simp [Kind.op, Kind.unknownUser, apply, addUserToGroup, hg rfl, hu, Except.map]
  | create => simp [Kind.op, Kind.unknownUser, apply, createGroup, hg' rfl, hu, Except.map]
  | remove => simp [Kind.op, Kind.unknownUser, apply, removeUserFromGroup, hg rfl, hu, Except.map]

/-- A new member. -/
theorem apply_addNew {db : MemDatabase} {g u : Bytes} {members : Members}
    (hm : db.groups[g]? = some members) (hu : u ∈ db.users) (hnew : u ∉ members) :
    db.apply (.addUserToGroup g u) =
      (.ok .unit, { db with groups := db.groups.insert g (members.insert u) }) := by
  simp [apply, addUserToGroup_eq, hm, hu, hnew, Except.map]

/-- A member already. -/
theorem apply_addOld {db : MemDatabase} {g u : Bytes} {members : Members}
    (hm : db.groups[g]? = some members) (hu : u ∈ db.users) (hold : u ∈ members) :
    db.apply (.addUserToGroup g u) = (.error (.alreadyMember g u), db) := by
  simp [apply, addUserToGroup_eq, hm, hu, hold, Except.map]

/-- A new group: `operator[]` makes it, and `insert` its member. -/
theorem apply_createGroup {db : MemDatabase} {g u : Bytes} (hg : g ∉ db.groups)
    (hu : u ∈ db.users) :
    db.apply (.createGroup g u) = (.ok .unit,
      { db with
        groups := (subscript db g).groups.insert g
          (((subscript db g).groups.getD g ∅).insert u) }) := by
  simp [apply, createGroup, subscript, hg, hu, Except.map]

/-- A member leaves. -/
theorem apply_removeMember {db : MemDatabase} {g u : Bytes} {members : Members}
    (hm : db.groups[g]? = some members) (hu : u ∈ db.users) (hin : u ∈ members) :
    db.apply (.removeUserFromGroup g u) =
      (.ok .unit, { db with groups := db.groups.insert g (members.erase u) }) := by
  simp [apply, removeUserFromGroup_eq, hm, hu, hin, Except.map]

/-- No member. -/
theorem apply_removeOther {db : MemDatabase} {g u : Bytes} {members : Members}
    (hm : db.groups[g]? = some members) (hu : u ∈ db.users) (hout : u ∉ members) :
    db.apply (.removeUserFromGroup g u) = (.error (.removeNotMember g u), db) := by
  simp [apply, removeUserFromGroup_eq, hm, hu, hout, Except.map]

/-- The keys of no group. -/
theorem apply_keysUnknown {db : MemDatabase} {g : Bytes} (hg : g ∉ db.groups) :
    db.apply (.getKeysOfGroup g) = (.error (.unknownGroup g), db) := by
  simp [apply, getKeysOfGroup, hg, Except.map]

/-- The keys of nobody. -/
theorem apply_keysEmpty {db : MemDatabase} {g : Bytes} {members : Members}
    (hm : db.groups[g]? = some members) (he : members.isEmpty = true) :
    db.apply (.getKeysOfGroup g) = (.error (.emptyGroup g), db) := by
  simp [apply, getKeysOfGroup_eq, hm, he, Except.map]

/-- The keys of the members in their order. -/
theorem apply_keys {db : MemDatabase} (hi : db.Integrity) {g : Bytes} {members : Members}
    (hm : db.groups[g]? = some members) (he : members.isEmpty = false) :
    db.apply (.getKeysOfGroup g) = (.ok (.keys (members.toList.map (keyIn db))), db) := by
  obtain ⟨ka, hka, rfl, -⟩ := getKeysOfGroup_of_nonempty hi hm he
  simp [apply, hka, Except.map, keyIn]

/-- `delete_user` on a store from which the loop has erased one more membership. -/
theorem deleteUser_eraseMember {db : MemDatabase} {g u : Bytes} {members : Members}
    (hm : db.groups[g]? = some members) :
    MemDatabase.deleteUser { db with groups := db.groups.insert g (members.erase u) } u =
      db.deleteUser u := by
  refine MemDatabase.ext (ExtTreeMap.ext_getElem? fun q => ?_) rfl
  simp only [MemDatabase.deleteUser, ExtTreeMap.getElem?_map]
  rw [getElem?_insert]
  split
  · rename_i hq
    rw [hq, hm]
    refine congrArg some (ExtTreeSet.ext_mem fun v => ?_)
    simp only [mem_erase]
    tauto
  · rfl

/-- The end of the loop: only the entry in `users_` is left to erase. -/
theorem deleteUser_of_not_member {db : MemDatabase} {u : Bytes} (h : ∀ g, ¬ db.Member u g) :
    db.deleteUser u = { db with users := db.users.erase u } := by
  refine MemDatabase.ext (ExtTreeMap.ext_getElem? fun q => ?_) rfl
  simp only [MemDatabase.deleteUser, ExtTreeMap.getElem?_map]
  cases hq : db.groups[q]? with
  | none => rfl
  | some members =>
    refine congrArg some (ExtTreeSet.ext_mem fun v => ?_)
    rw [mem_erase]
    constructor
    · exact fun hv => hv.2
    · refine fun hv => ⟨?_, hv⟩
      rintro rfl
      exact h q ⟨members, hq, hv⟩

/-! ## The accesses inside `gmutex_` -/

/-- From `a`, which the store `db'` completes to at the next point, the call takes effect or not. -/
def Follows (op : Op) (db' a : MemDatabase) (pc next : Pc) : Prop :=
  ∃ a', Completes db' a' next ∧ Takes op pc next a a'

section

variable {seen db db' a : MemDatabase} {next : Pc} {k : Kind} {g u uid : Bytes}
  {last : Option Bytes} {ret : KeyArray}

/-- Nothing happens to the object. -/
theorem Follows.stay {op : Op} {pc : Pc} (hc : Completes db' a next)
    (ht : next.taken = pc.taken) : Follows op db' a pc next :=
  ⟨a, hc, .inl ⟨ht, rfl⟩⟩

/-- The access with which a call takes effect. -/
theorem Follows.effect {op : Op} {pc : Pc} {a' : MemDatabase} {r : Outcome}
    (hc : Completes db' a' next) (hn : pc.taken = none) (ht : next.taken = some r)
    (ha : a.apply op = (r, a')) : Follows op db' a pc next :=
  ⟨a', hc, .inr ⟨r, hn, ht, ha⟩⟩

/-! `add_user_to_group`, `create_group` and `remove_user_from_group`. -/

/-- The `find` in `groups_` takes effect if the call throws behind it. -/
theorem Access.inside_gFind (h : Access db (.gFind k g u) db' next)
    (hc : Completes db a (.gFind k g u)) : Follows (k.op g u) db' a (.gFind k g u) next := by
  obtain rfl := hc
  cases h with
  | gFindRight h => exact .stay rfl rfl
  | gFindWrong h => exact .effect rfl rfl rfl (apply_wrongGroup h)

/-- The `find` in `users_`: the call throws, or goes on to its effect. -/
theorem Access.inside_uFind (h : Access db (.uFind k g u) db' next)
    (hl : Local (k.op g u) seen db (.uFind k g u)) (hst : Standing db (.uFind k g u))
    (hc : Completes db a (.uFind k g u)) : Follows (k.op g u) db' a (.uFind k g u) next := by
  obtain rfl := hc
  cases h with
  | uFindKnown h => exact .stay rfl rfl
  | uFindUnknown h => exact .effect rfl rfl rfl (apply_unknownUser hl hst h)

/-- `create_group` takes effect here, the other two find the group. -/
theorem Access.inside_gRef (h : Access db (.gRef k g u) db' next)
    (hl : Local (k.op g u) seen db (.gRef k g u)) (hst : Standing db (.gRef k g u))
    (hc : Completes db a (.gRef k g u)) : Follows (k.op g u) db' a (.gRef k g u) next := by
  obtain rfl := hc
  cases h
  cases k with
  | add =>
    rw [subscript_of_mem (hl.1 rfl)]
    exact .stay rfl rfl
  | create => exact .effect rfl rfl rfl (apply_createGroup (hst rfl) hl.2)
  | remove =>
    rw [subscript_of_mem (hl.1 rfl)]
    exact .stay rfl rfl

/-- The `insert` is the effect of `add_user_to_group`, also when it inserts nothing. -/
theorem Access.inside_addInsert (h : Access db (.addInsert g u) db' next)
    (hl : Local (.addUserToGroup g u) seen db (.addInsert g u))
    (hc : Completes db a (.addInsert g u)) :
    Follows (.addUserToGroup g u) db' a (.addInsert g u) next := by
  obtain rfl := hc
  cases h with
  | addInsertNew h hu => exact .effect rfl rfl rfl (apply_addNew h hl.2 hu)
  | addInsertOld h hu =>
    rw [insert_of_mem hu, insert_self h]
    exact .effect rfl rfl rfl (apply_addOld h hl.2 hu)

/-- The group has its first member now, as the object has had since `groups_[gname]`. -/
theorem Access.inside_createInsert (h : Access db (.createInsert g u) db' next)
    (hc : Completes db a (.createInsert g u)) :
    Follows (.createGroup g u) db' a (.createInsert g u) next := by
  cases h with
  | createInsert h =>
    refine .stay ?_ rfl
    unfold Completes at hc ⊢
    rw [hc, getD_of_getElem? h]

/-- The member is looked up in the set. -/
theorem Access.inside_removeFind (h : Access db (.removeFind g u) db' next)
    (hl : Local (.removeUserFromGroup g u) seen db (.removeFind g u))
    (hc : Completes db a (.removeFind g u)) :
    Follows (.removeUserFromGroup g u) db' a (.removeFind g u) next := by
  obtain rfl := hc
  cases h with
  | removeFind h =>
    rename_i members
    by_cases hu : u ∈ members
    · rw [decide_eq_true hu]
      exact .stay rfl rfl
    · rw [decide_eq_false hu]
      exact .effect rfl rfl rfl (apply_removeOther h hl.2 hu)

/-- The comparison with `end()`: no member, or on to the `erase`. -/
theorem Access.inside_removeEnd {found : Bool} (h : Access db (.removeEnd g u found) db' next)
    (hl : Local (.removeUserFromGroup g u) seen db (.removeEnd g u found))
    (hc : Completes db a (.removeEnd g u found)) :
    Follows (.removeUserFromGroup g u) db' a (.removeEnd g u found) next := by
  obtain ⟨-, members, hm, -⟩ := hl
  have hsub := subscript_of_mem (mem_of_getElem? hm)
  cases h with
  | removeEndFound => exact .stay (hsub.symm ▸ hc) rfl
  | removeEndMissing => exact .stay (hsub.symm ▸ hc) rfl

/-- The second `operator[]` finds the group still there. -/
theorem Access.inside_removeRef (h : Access db (.removeRef g u) db' next)
    (hl : Local (.removeUserFromGroup g u) seen db (.removeRef g u))
    (hc : Completes db a (.removeRef g u)) :
    Follows (.removeUserFromGroup g u) db' a (.removeRef g u) next := by
  obtain ⟨members, hm, -⟩ := hl
  cases h with
  | removeRef => exact .stay ((subscript_of_mem (mem_of_getElem? hm)).symm ▸ hc) rfl

/-- The member was found under the same `gmutex_`, so it is there. -/
theorem Access.inside_removeErase (h : Access db (.removeErase g u) db' next)
    (hs : db.Integrity) (hl : Local (.removeUserFromGroup g u) seen db (.removeErase g u))
    (hc : Completes db a (.removeErase g u)) :
    Follows (.removeUserFromGroup g u) db' a (.removeErase g u) next := by
  obtain rfl := hc
  cases h with
  | removeErase h hu => exact .effect rfl rfl rfl (apply_removeMember h (hs _ _ hl) hu)
  | removeEraseNone h hu => exact absurd ((member_iff_of_getElem? h _).mp hl) hu

/-! `delete_user` and `delete_all_data`. -/

/-- The first round takes effect, or the end of a loop without rounds. -/
theorem Access.inside_deleteNext (h : Access db (.deleteNext u last) db' next)
    (hc : Completes db a (.deleteNext u last)) :
    Follows (.deleteUser u) db' a (.deleteNext u last) next := by
  cases h with
  | deleteNextEnd h =>
    cases last with
    | none =>
      obtain rfl := hc
      exact .effect rfl rfl rfl rfl
    | some q => exact .stay hc rfl
  | deleteNext h hg =>
    have hdel := deleteUser_eraseMember (u := u) hg
    cases last with
    | none =>
      obtain rfl := hc
      exact .effect hdel.symm rfl rfl rfl
    | some q => exact .stay (hc.trans hdel.symm) rfl

/-- The `erase` in `users_` comes after the loop, in which the call took effect. -/
theorem Access.inside_deleteErase (h : Access db (.deleteErase u) db' next)
    (hl : Local (.deleteUser u) seen db (.deleteErase u))
    (hc : Completes db a (.deleteErase u)) :
    Follows (.deleteUser u) db' a (.deleteErase u) next := by
  cases h with
  | deleteErase => exact .stay (hc.trans (deleteUser_of_not_member hl)) rfl

/-- `users_.clear()` is no effect yet: queries see the groups. -/
theorem Access.inside_clearUsers (h : Access db .clearUsers db' next)
    (hc : Completes db a .clearUsers) : Follows .deleteAllData db' a .clearUsers next := by
  obtain rfl := hc
  cases h with
  | clearUsers => exact .stay rfl rfl

/-- `groups_.clear()` is. -/
theorem Access.inside_clearGroups (h : Access db .clearGroups db' next)
    (hl : Local .deleteAllData seen db .clearGroups) :
    Follows .deleteAllData db' a .clearGroups next := by
  cases h with
  | clearGroups =>
    refine .effect ?_ rfl rfl rfl
    exact MemDatabase.ext rfl hl.symm

/-! `get_keys_of_group`. -/

/-- No such group: the call throws. -/
theorem Access.inside_keysFind (h : Access db (.keysFind g) db' next)
    (hc : Completes db a (.keysFind g)) : Follows (.getKeysOfGroup g) db' a (.keysFind g) next := by
  obtain rfl := hc
  cases h with
  | keysFind h => exact .stay rfl rfl
  | keysFindNone h => exact .effect rfl rfl rfl (apply_keysUnknown h)

/-- An empty group: the call throws. -/
theorem Access.inside_keysEmpty (h : Access db (.keysEmpty g) db' next)
    (hl : Local (.getKeysOfGroup g) seen db (.keysEmpty g))
    (hc : Completes db a (.keysEmpty g)) :
    Follows (.getKeysOfGroup g) db' a (.keysEmpty g) next := by
  obtain rfl := hc
  have hsub := subscript_of_mem hl
  cases h with
  | keysEmpty h =>
    obtain ⟨members, hm⟩ := exists_getElem?_of_mem hl
    rw [hsub] at h ⊢
    rw [getD_of_getElem? hm] at h
    exact .effect rfl rfl rfl (apply_keysEmpty hm h)
  | keysNonempty h =>
    rw [hsub]
    exact .stay rfl rfl

/-- The loop starts on the members as they are. -/
theorem Access.inside_keysRef (h : Access db (.keysRef g) db' next)
    (hl : Local (.getKeysOfGroup g) seen db (.keysRef g)) (hc : Completes db a (.keysRef g)) :
    Follows (.getKeysOfGroup g) db' a (.keysRef g) next := by
  obtain ⟨members, hm, -⟩ := hl
  cases h with
  | keysRef => exact .stay ((subscript_of_mem (mem_of_getElem? hm)).symm ▸ hc) rfl

/-- The loop has copied the key of every member. -/
theorem Access.inside_keysNext (h : Access db (.keysNext g last ret) db' next)
    (hs : db.Integrity) (hl : Local (.getKeysOfGroup g) seen db (.keysNext g last ret))
    (hc : Completes db a (.keysNext g last ret)) :
    Follows (.getKeysOfGroup g) db' a (.keysNext g last ret) next := by
  obtain rfl := hc
  cases h with
  | keysNextEnd h hn =>
    obtain ⟨rfl, -⟩ := hl.all h hn
    obtain ⟨members', hg, hne, -⟩ := hl
    obtain rfl := Option.some.inj (h.symm.trans hg)
    exact .effect rfl rfl rfl (apply_keys hs h hne)
  | keysNext h hn => exact .stay rfl rfl

/-- The `find` in `users_` has no effect. -/
theorem Access.inside_keysFindU (h : Access db (.keysFindU g uid ret) db' next)
    (hc : Completes db a (.keysFindU g uid ret)) :
    Follows (.getKeysOfGroup g) db' a (.keysFindU g uid ret) next := by
  cases h with
  | keysFindU h => exact .stay hc rfl
  | keysFindUNone h => exact .stay hc rfl

/-- The size of the key that is stored. -/
theorem Access.inside_keysSize (h : Access db (.keysSize g uid ret) db' next)
    (hl : Local (.getKeysOfGroup g) seen db (.keysSize g uid ret))
    (hc : Completes db a (.keysSize g uid ret)) :
    Follows (.getKeysOfGroup g) db' a (.keysSize g uid ret) next := by
  cases h with
  | keysSize =>
    rw [users_insertIfNew hl.2]
    exact .stay hc rfl

/-- The key of one more member. -/
theorem Access.inside_keysCopy {size : Nat} (h : Access db (.keysCopy g uid ret size) db' next)
    (hl : Local (.getKeysOfGroup g) seen db (.keysCopy g uid ret size))
    (hc : Completes db a (.keysCopy g uid ret size)) :
    Follows (.getKeysOfGroup g) db' a (.keysCopy g uid ret size) next := by
  cases h with
  | keysCopy =>
    rw [users_insertIfNew hl.2.1]
    exact .stay hc rfl

end

/-- **Each access inside `gmutex_` keeps `Completes`, as the call takes effect or not.** -/
theorem Access.inside {op : Op} {seen db db' a : MemDatabase} {pc next : Pc}
    (h : Access db pc db' next) (hG : pc.holdsG = true) (hcall : ∀ o, pc.call = some o → op = o)
    (hs : pc.sound db) (hl : Local op seen db pc) (hst : Standing db pc)
    (hc : Completes db a pc) : Follows op db' a pc next := by
  obtain ⟨o, ho⟩ := h.call_some
  obtain rfl := hcall o ho
  cases pc with
  | gFind k g u =>
    obtain rfl := Option.some.inj ho
    exact h.inside_gFind hc
  | uFind k g u =>
    obtain rfl := Option.some.inj ho
    exact h.inside_uFind hl hst hc
  | gRef k g u =>
    obtain rfl := Option.some.inj ho
    exact h.inside_gRef hl hst hc
  | addInsert g u =>
    obtain rfl := Option.some.inj ho
    exact h.inside_addInsert hl hc
  | createInsert g u =>
    obtain rfl := Option.some.inj ho
    exact h.inside_createInsert hc
  | removeFind g u =>
    obtain rfl := Option.some.inj ho
    exact h.inside_removeFind hl hc
  | removeEnd g u found =>
    obtain rfl := Option.some.inj ho
    exact h.inside_removeEnd hl hc
  | removeRef g u =>
    obtain rfl := Option.some.inj ho
    exact h.inside_removeRef hl hc
  | removeErase g u =>
    obtain rfl := Option.some.inj ho
    exact h.inside_removeErase (hs rfl (by simp)) hl hc
  | deleteNext u last =>
    obtain rfl := Option.some.inj ho
    exact h.inside_deleteNext hc
  | deleteErase u =>
    obtain rfl := Option.some.inj ho
    exact h.inside_deleteErase hl hc
  | clearUsers =>
    obtain rfl := Option.some.inj ho
    exact h.inside_clearUsers hc
  | clearGroups =>
    obtain rfl := Option.some.inj ho
    exact h.inside_clearGroups hl
  | keysFind g =>
    obtain rfl := Option.some.inj ho
    exact h.inside_keysFind hc
  | keysEmpty g =>
    obtain rfl := Option.some.inj ho
    exact h.inside_keysEmpty hl hc
  | keysRef g =>
    obtain rfl := Option.some.inj ho
    exact h.inside_keysRef hl hc
  | keysNext g last ret =>
    obtain rfl := Option.some.inj ho
    exact h.inside_keysNext (hs rfl (by simp)) hl hc
  | keysFindU g uid ret =>
    obtain rfl := Option.some.inj ho
    exact h.inside_keysFindU hc
  | keysSize g uid ret =>
    obtain rfl := Option.some.inj ho
    exact h.inside_keysSize hl hc
  | keysCopy g uid ret size =>
    obtain rfl := Option.some.inj ho
    exact h.inside_keysCopy hl hc
  | _ => cases h <;> exact absurd hG (by simp [Pc.holdsG])

/-! ## The accesses outside `gmutex_` -/

/-- With `umutex_` free, `users_` is as the sequential store has it. -/
theorem Completes.users {db a : MemDatabase} {pc : Pc} (hc : Completes db a pc)
    (hU : pc.holdsU = false) : a.users = db.users := by
  cases pc with
  | createInsert g u => rw [show a = _ from hc]
  | deleteNext u last => exact absurd hU (by simp [Pc.holdsU])
  | deleteErase u => exact absurd hU (by simp [Pc.holdsU])
  | clearGroups => exact absurd hU (by simp [Pc.holdsU])
  | _ => rw [show a = _ from hc]

/-- To delete a user takes no group away. -/
theorem mem_deleteUser_groups {db : MemDatabase} {u q : Bytes} :
    q ∈ (db.deleteUser u).groups ↔ q ∈ db.groups := ExtTreeMap.mem_map

/-- The groups are those of the sequential store. -/
theorem Completes.mem_groups {op : Op} {seen db a : MemDatabase} {pc : Pc} (hc : Completes db a pc)
    (hl : Local op seen db pc) (q : Bytes) : q ∈ a.groups ↔ q ∈ db.groups := by
  cases pc with
  | createInsert g u =>
    rw [show a = _ from hc]
    refine ⟨fun hq => ?_, fun hq => mem_groups_insert hq⟩
    rcases ExtTreeMap.mem_insert.mp hq with he | hq
    · exact Std.LawfulEqCmp.compare_eq_iff_eq.mp he ▸ hl.1
    · exact hq
  | deleteNext u last =>
    cases last with
    | none => rw [show a = db from hc]
    | some g => rw [show a = _ from hc, mem_deleteUser_groups]
  | deleteErase u => rw [show a = _ from hc, mem_deleteUser_groups]
  | clearGroups => rw [show a.groups = db.groups from hc]
  | _ => rw [show a = _ from hc]

/-- The members of a group, which has none if it is not there. -/
theorem mem_getD_iff {db : MemDatabase} {u g : Bytes} :
    u ∈ db.groups.getD g ∅ ↔ db.Member u g := by
  rw [ExtTreeMap.getD_eq_getD_getElem?]
  unfold Member
  cases db.groups[g]? with
  | none => simp
  | some members => simp

/-- What a query finds in the set of its group. -/
theorem Completes.member_iff {db a : MemDatabase} {pc : Pc} (hc : Completes db a pc) {u g : Bytes}
    (hcreate : pc ≠ .createInsert g u)
    (hdel : ∀ last, pc = .deleteNext u (some last) → ¬ db.Member u g)
    (herase : pc = .deleteErase u → ¬ db.Member u g) : a.Member u g ↔ db.Member u g := by
  cases pc with
  | createInsert q v =>
    rw [show a = _ from hc, member_insert]
    split
    · rename_i hq
      subst hq
      have hne : u ≠ v := by
        rintro rfl
        exact hcreate rfl
      rw [mem_insert, mem_getD_iff]
      exact or_iff_right hne
    · exact Iff.rfl
  | deleteNext v last =>
    cases last with
    | none => rw [show a = db from hc]
    | some q =>
      rw [show a = _ from hc, member_deleteUser]
      refine ⟨fun h => h.2, fun h => ⟨?_, h⟩⟩
      rintro rfl
      exact hdel q rfl h
  | deleteErase v =>
    rw [show a = _ from hc, member_deleteUser]
    refine ⟨fun h => h.2, fun h => ⟨?_, h⟩⟩
    rintro rfl
    exact herase rfl h
  | clearGroups =>
    unfold Member
    rw [show a.groups = db.groups from hc]
  | _ => rw [show a = _ from hc]

/-- `create_user` holds only `umutex_`, beside a call that holds `gmutex_`. -/
theorem Completes.createUser {db a : MemDatabase} {pc : Pc} (hc : Completes db a pc)
    (hU : pc.holdsU = false) (u key : Bytes) :
    Completes { db with users := db.users.insert u key } { a with users := a.users.insert u key }
      pc := by
  cases pc with
  | createInsert g v =>
    obtain rfl := hc
    rfl
  | deleteNext v last => exact absurd hU (by simp [Pc.holdsU])
  | deleteErase v => exact absurd hU (by simp [Pc.holdsU])
  | clearGroups => exact absurd hU (by simp [Pc.holdsU])
  | _ =>
    obtain rfl := hc
    rfl

/-- A new user. -/
theorem apply_createUserNew {db : MemDatabase} {u key : Bytes} (hu : u ∉ db.users) :
    db.apply (.createUser u key) = (.ok .unit, { db with users := db.users.insert u key }) := by
  simp [apply, createUser_eq, hu, Except.map]

/-- A user already. -/
theorem apply_createUserOld {db : MemDatabase} {u key : Bytes} (hu : u ∈ db.users) :
    db.apply (.createUser u key) = (.error (.existingUser u), db) := by
  simp [apply, createUser_eq, hu, Except.map]

/-- A query about no group. -/
theorem apply_queryUnknown {db : MemDatabase} {u g : Bytes} (hg : g ∉ db.groups) :
    db.apply (.isUserPartOfGroup u g) = (.error (.unknownGroup g), db) := by
  simp [apply, isUserPartOfGroup, hg, Except.map]

/-- A query with its answer. -/
theorem apply_query {db : MemDatabase} {u g : Bytes} {found : Bool} (hg : g ∈ db.groups)
    (hf : found = true ↔ db.Member u g) :
    db.apply (.isUserPartOfGroup u g) = (.ok (.bool found), db) := by
  obtain ⟨members, hm⟩ := exists_getElem?_of_mem hg
  rw [member_iff_of_getElem? hm] at hf
  have hfound : decide (u ∈ members) = found := by
    rw [Bool.eq_iff_iff, decide_eq_true_iff, hf]
  simp [apply, isUserPartOfGroup_eq, hm, hfound, Except.map]

/-- What the thread inside `gmutex_`, if there is one, leaves the others to see: `a` has the groups
of the store and, for a thread inside `umutex_`, its users. -/
structure Sees (db a : MemDatabase) (pc : Pc) : Prop where
  users : pc.holdsU = true → a.users = db.users
  groups : ∀ q, q ∈ a.groups ↔ q ∈ db.groups
  member : ∀ u g, pc = .partSetFind u g → (a.Member u g ↔ db.Member u g)

/-- An access outside `gmutex_`: on the store and on `a` it creates a user or does nothing. -/
theorem Access.outside {op : Op} {seen db db' a : MemDatabase} {pc next : Pc}
    (h : Access db pc db' next) (hG : pc.holdsG = false) (hcall : ∀ o, pc.call = some o → op = o)
    (hl : Local op seen db pc) (hst : Standing db pc) (hsee : Sees db a pc) :
    ∃ a', Takes op pc next a a' ∧ (db' = db ∧ a' = a ∨ pc.holdsU = true ∧
      ∃ u key, db' = { db with users := db.users.insert u key } ∧
        a' = { a with users := a.users.insert u key }) := by
  cases h with
  | userFindNew h => exact ⟨a, .inl ⟨rfl, rfl⟩, .inl ⟨rfl, rfl⟩⟩
  | userFindOld h =>
    obtain rfl := hcall _ rfl
    rw [← hsee.users rfl] at h
    exact ⟨a, .inr ⟨_, rfl, rfl, apply_createUserOld h⟩, .inl ⟨rfl, rfl⟩⟩
  | userAssign =>
    rename_i u key
    obtain rfl := hcall _ rfl
    have hu : u ∉ a.users := hsee.users rfl ▸ hl
    refine ⟨_, .inr ⟨_, rfl, rfl, apply_createUserNew hu⟩, .inr ⟨rfl, u, key, ?_, rfl⟩⟩
    rw [insert_insertIfNew]
  | partFind h => exact ⟨a, .inl ⟨rfl, rfl⟩, .inl ⟨rfl, rfl⟩⟩
  | partFindNone h =>
    obtain rfl := hcall _ rfl
    rw [← hsee.groups] at h
    exact ⟨a, .inr ⟨_, rfl, rfl, apply_queryUnknown h⟩, .inl ⟨rfl, rfl⟩⟩
  | partRef => exact ⟨a, .inl ⟨rfl, rfl⟩, .inl ⟨subscript_of_mem hst, rfl⟩⟩
  | partSetFind h =>
    rename_i u g members
    obtain rfl := hcall _ rfl
    refine ⟨a, .inr ⟨_, rfl, rfl, apply_query ((hsee.groups g).mpr hst) ?_⟩, .inl ⟨rfl, rfl⟩⟩
    rw [decide_eq_true_iff, hsee.member u g rfl, member_iff_of_getElem? h]
  | partEnd => exact ⟨a, .inl ⟨rfl, rfl⟩, .inl ⟨subscript_of_mem hst, rfl⟩⟩
  | _ => exact absurd hG (by simp [Pc.holdsG])

/-! ## The simulation -/

/-- A thread moves and the store stays. -/
theorem Abs.move {s s' : System} {a : MemDatabase} {t : Nat} {f₀ : Option (Frame MemDatabase Pc Op)}
    (h : Abs s a) (hstore : s'.store = s.store) (hth : s'.thread = Function.update s.thread t f₀)
    (hfree : s'.owner .gmutex = none → a = s.store)
    (hself : ∀ f, f₀ = some f → f.pc.holdsG = true → Completes s.store a f.pc) : Abs s' a := by
  refine ⟨fun ho => hstore ▸ hfree ho, fun t' f hf hG => ?_⟩
  rw [hth, Function.update_apply] at hf
  rw [hstore]
  split at hf
  · exact hself f hf hG
  · exact h.2 t' f hf hG

/-- A call starts without a mutex. -/
theorem entry_holdsG (op : Op) : (entry op).holdsG = false := by cases op <;> rfl

/-- A call starts without an effect. -/
theorem entry_taken (op : Op) : (entry op).taken = none := by cases op <;> rfl

/-- A lock has no effect. -/
theorem Locks.taken {pc next : Pc} {m : Mutex} (h : Locks pc m next) : next.taken = pc.taken := by
  cases h <;> rfl

/-- Nor has an unlock. -/
theorem Unlocks.taken {pc next : Pc} {m : Mutex} (h : Unlocks pc m next) :
    next.taken = pc.taken := by
  cases h <;> rfl

/-- The store does not lag behind at a lock. -/
theorem Locks.completes {db a : MemDatabase} {pc next : Pc} {m : Mutex} (h : Locks pc m next) :
    (Completes db a pc ↔ a = db) ∧ (Completes db a next ↔ a = db) := by
  cases h <;> exact ⟨Iff.rfl, Iff.rfl⟩

/-- The store does not lag behind at an unlock. -/
theorem Unlocks.completes {db a : MemDatabase} {pc next : Pc} {m : Mutex} (h : Unlocks pc m next) :
    (Completes db a pc ↔ a = db) ∧ (Completes db a next ↔ a = db) := by
  cases h <;> exact ⟨Iff.rfl, Iff.rfl⟩

/-- A lock leaves the store of both as it is. -/
theorem Abs.lock {s : System} {a : MemDatabase} {t : Nat} {f : Frame MemDatabase Pc Op} {m : Mutex}
    {next : Pc} (h : Abs s a) (ht : s.thread t = some f) (hi : instr f.pc = .lock m next)
    (ho : s.owner m = none) :
    Abs { s with
      owner := Function.update s.owner m (some t)
      thread := Function.update s.thread t (some { f with pc := next }) } a := by
  have hl := locks_of_instr hi
  refine h.move rfl rfl (fun ho' => ?_) fun f' hf' hG => ?_
  · dsimp only at ho'
    rw [Function.update_apply] at ho'
    split at ho'
    · exact absurd ho' (by simp)
    · exact h.1 ho'
  · rw [← Option.some.inj hf'] at hG ⊢
    refine hl.completes.2.mpr ?_
    rcases ((disciplined.lock hi).2 .gmutex).mp hG with hG | rfl
    · exact hl.completes.1.mp (h.2 t f ht hG)
    · exact h.1 ho

/-- So does an unlock. -/
theorem Abs.unlock {s : System} {a : MemDatabase} {t : Nat} {f : Frame MemDatabase Pc Op}
    {m : Mutex} {next : Pc} (h : Abs s a) (ht : s.thread t = some f)
    (hi : instr f.pc = .unlock m next) :
    Abs { s with
      owner := Function.update s.owner m none
      thread := Function.update s.thread t (some { f with pc := next }) } a := by
  have hl := unlocks_of_instr hi
  refine h.move rfl rfl (fun ho' => ?_) fun f' hf' hG => ?_
  · dsimp only at ho'
    rw [Function.update_apply] at ho'
    split at ho'
    · rename_i hm
      have hG : f.pc.holds .gmutex := hm ▸ (disciplined.unlock hi).1
      exact hl.completes.1.mp (h.2 t f ht hG)
    · exact h.1 ho'
  · rw [← Option.some.inj hf'] at hG ⊢
    have hG' := (((disciplined.unlock hi).2 .gmutex).mp hG).1
    exact hl.completes.2.mpr (hl.completes.1.mp (h.2 t f ht hG'))

/-- The linearization point of a call. -/
theorem Takes.point {f : Frame MemDatabase Pc Op} {next : Pc} {a a' seen : MemDatabase}
    (h : Takes f.op f.pc next a a') :
    Point MemDatabase.apply Pc.taken (some f) (some { f with seen := seen, pc := next }) a a' := by
  rcases h with ⟨ht, rfl⟩ | ⟨r, hn, ht, ha⟩
  · exact .stay rfl rfl ht
  · exact .effect rfl rfl hn ht ha

section

variable {s : System} {a : MemDatabase} {t : Nat} {f : Frame MemDatabase Pc Op}
  (h : Reach program Quiet {} s) (habs : Abs s a) (hf : s.thread t = some f)
include h habs hf

/-- What a query of a quiet run finds is so in the sequential store. -/
theorem sees_of_abs (hq : Quiet t s) (hG : f.pc.holdsG = false) : Sees s.store a f.pc := by
  cases ho : s.owner .gmutex with
  | none =>
    obtain rfl := habs.1 ho
    exact ⟨fun _ => rfl, fun _ => Iff.rfl, fun _ _ _ => Iff.rfl⟩
  | some t' =>
    obtain ⟨f', hf', hG'⟩ := (owner_iff disciplined h .gmutex t').mp ho
    have hc := habs.2 t' f' hf' hG'
    have hl := (assert_of_reach h hf').known
    refine ⟨fun hU => hc.users (Bool.not_eq_true _ ▸ fun hU' => ?_), hc.mem_groups hl, ?_⟩
    · obtain rfl := exclusive disciplined h (m := .umutex) ⟨f, hf, hU⟩ ⟨f', hf', hU'⟩
      obtain rfl := Option.some.inj (hf.symm.trans hf')
      exact absurd (hG.symm.trans hG') (by simp)
    · intro u g hpc
      obtain ⟨hcreate, hdel⟩ := (hq f hf t' f' hf').1 u g hpc
      refine hc.member_iff hcreate hdel fun he => ?_
      rw [he] at hl
      exact hl g

/-- An access inside `gmutex_`. -/
theorem Abs.inside {x' : MemDatabase} {next : Pc} (hacc : Access s.store f.pc x' next)
    (hG : f.pc.holdsG = true) :
    ∃ a', Abs { s with
      store := x'
      thread := Function.update s.thread t (some { f with seen := x', pc := next }) } a' ∧
      Takes f.op f.pc next a a' := by
  have ha := assert_of_reach h hf
  obtain ⟨a', hc, htakes⟩ :=
    hacc.inside hG ha.call ha.sound ha.known (standing_of_reach h hf) (habs.2 t f hf hG)
  refine ⟨a', ⟨fun ho => ?_, fun t' f' hf' hG' => ?_⟩, htakes⟩
  · have hown := (owner_iff disciplined h .gmutex t).mpr ⟨f, hf, hG⟩
    exact absurd (hown.symm.trans ho) (by simp)
  · dsimp only at hf' ⊢
    rw [Function.update_apply] at hf'
    split at hf'
    · rw [← Option.some.inj hf']
      exact hc
    · rename_i hne
      exact absurd (exclusive disciplined h (m := .gmutex) ⟨f', hf', hG'⟩ ⟨f, hf, hG⟩) hne

/-- An access outside `gmutex_`. -/
theorem Abs.outside {x' : MemDatabase} {next : Pc} (hq : Quiet t s)
    (hacc : Access s.store f.pc x' next) (hG : f.pc.holdsG = false) :
    ∃ a', Abs { s with
      store := x'
      thread := Function.update s.thread t (some { f with seen := x', pc := next }) } a' ∧
      Takes f.op f.pc next a a' := by
  have ha := assert_of_reach h hf
  obtain ⟨a', htakes, hcase⟩ := hacc.outside hG ha.call ha.known (standing_of_reach h hf)
    (sees_of_abs h habs hf hq hG)
  refine ⟨a', ⟨fun ho => ?_, fun t' f' hf' hG' => ?_⟩, htakes⟩
  · have heq := habs.1 ho
    rcases hcase with ⟨rfl, rfl⟩ | ⟨-, u, key, rfl, rfl⟩
    · exact heq
    · rw [heq]
  · dsimp only at hf' ⊢
    rw [Function.update_apply] at hf'
    split at hf'
    · rw [← Option.some.inj hf'] at hG'
      have := (hacc.holds .gmutex).mp hG'
      exact absurd (hG.symm.trans this) (by simp)
    · rename_i hne
      have hc := habs.2 t' f' hf' hG'
      rcases hcase with ⟨rfl, rfl⟩ | ⟨hU, u, key, rfl, rfl⟩
      · exact hc
      · refine hc.createUser (Bool.not_eq_true _ ▸ fun hU' => hne ?_) u key
        exact exclusive disciplined h (m := .umutex) ⟨f', hf', hU'⟩ ⟨f, hf, hU⟩

end

/-- **Each step of a quiet run keeps `Abs`, and a call takes effect at one step.** -/
theorem simulation : Simulation program Quiet {} MemDatabase.apply Abs Pc.taken where
  init := ⟨fun _ => rfl, fun t f hf => absurd hf (by simp [Sys.initial])⟩
  ret h := by rw [release_of_instr h]; rfl
  step {s s' t a} h hq hs habs := by
    cases hs with
    | invoke op ht =>
      refine ⟨a, habs.move rfl rfl habs.1 fun f hf hG => ?_, ?_⟩
      · rw [← Option.some.inj hf] at hG
        exact absurd ((entry_holdsG op).symm.trans hG) (by simp)
      · dsimp only
        rw [ht, Function.update_self]
        exact .invoke (entry_taken op)
    | lock ht hi ho =>
      refine ⟨a, habs.lock ht hi ho, ?_⟩
      dsimp only
      rw [ht, Function.update_self]
      exact .stay rfl rfl (locks_of_instr hi).taken
    | unlock ht hi =>
      refine ⟨a, habs.unlock ht hi, ?_⟩
      dsimp only
      rw [ht, Function.update_self]
      exact .stay rfl rfl (unlocks_of_instr hi).taken
    | access ht hi hg =>
      rename_i f g x' next
      have hacc := access_of_instr hi hg
      dsimp only
      rw [ht, Function.update_self]
      by_cases hG : f.pc.holdsG = true
      · obtain ⟨a', habs', htakes⟩ := Abs.inside h habs ht hacc hG
        exact ⟨a', habs', htakes.point⟩
      · obtain ⟨a', habs', htakes⟩ := Abs.outside h habs ht hq hacc (Bool.not_eq_true _ ▸ hG)
        exact ⟨a', habs', htakes.point⟩
    | ret ht hi =>
      refine ⟨a, habs.move rfl rfl habs.1 fun f' hf' => absurd hf' (by simp), ?_⟩
      dsimp only
      rw [ht, Function.update_self]
      exact .ret

/-! ## The result -/

/-- **The calls of a quiet run are linearizable, and a query never modifies `groups_`.** -/
theorem linearizable_of_quiet {s : System} (h : Reach program Quiet {} s) :
    ((∀ t, s.thread t = none) → Linearizable MemDatabase.apply {} s.calls s.store) ∧
    ∀ t f u g s', s.thread t = some f → f.op = .isUserPartOfGroup u g → Step program t s s' →
      s'.store.groups = s.store.groups := by
  refine ⟨fun hidle => ?_, fun t f u g s' hf hop hs => ?_⟩
  · obtain ⟨a, habs, hlin⟩ := simulation.linearizable h hidle
    have hfree : s.owner .gmutex = none := by
      refine Option.eq_none_iff_forall_ne_some.mpr fun t ho => ?_
      obtain ⟨f, hf, -⟩ := (owner_iff disciplined h .gmutex t).mp ho
      exact absurd ((hidle t).symm.trans hf) (by simp)
    exact habs.1 hfree ▸ hlin
  · rw [query_keeps_store h hf hop hs]

/-- `Quiet` for two calls, as a test. -/
def quietPair (db : MemDatabase) : Pc → Pc → Bool
  | .partSetFind u g, .createInsert q v => decide (q ≠ g ∨ v ≠ u)
  | .partSetFind u g, .deleteNext v (some _) =>
    decide (v ≠ u) || (db.groups[g]?).all fun members => decide (u ∉ members)
  | .clearGroups, pc => !pc.querying
  | _, _ => true

/-- What passes the test is quiet. -/
theorem quiet_of_meets (t : Nat) (s : System) (h : Meets quietPair t s) : Quiet t s := by
  intro f hf t' f' hf'
  have hp := h f hf t' f' hf'
  refine ⟨fun u g hpc => ⟨fun hc => ?_, fun last hd => ?_⟩, fun hpc => ?_⟩
  · rw [hpc, hc] at hp
    simp [quietPair] at hp
  · rw [hpc, hd] at hp
    rintro ⟨members, hm, hu⟩
    simp [quietPair, hm, hu] at hp
  · rw [hpc] at hp
    cases hq : f'.pc.querying with
    | false => rfl
    | true => simp [quietPair, hq] at hp

/-- Thread 0 creates the user `a` and the group `g`. -/
def creating : List (Nat × Option Op) :=
  calling 0 (.createUser [97] [107]) 5 ++ calling 0 (.createGroup [103] [97]) 9

/-- Thread 0 creates `a`, `g` and `b` and adds `b` to `g`. Thread 1 queries `b` in `g`, from before
the addition until after its `insert`, and thread 2 queries the same before that `insert`; both are
done before the addition returns. -/
def querying : List (Nat × Option Op) :=
  creating ++ calling 0 (.createUser [98] [108]) 5 ++ calling 1 (.isUserPartOfGroup [98] [103]) 1 ++
    calling 0 (.addUserToGroup [103] [98]) 6 ++ calling 2 (.isUserPartOfGroup [98] [103]) 0 ++
    [(1, none)] ++ List.replicate 5 (2, none) ++ [(0, none)] ++ List.replicate 3 (1, none) ++
    List.replicate 2 (0, none)

/-- The theorem at this run: the query of thread 2 goes before the addition and that of thread 1
after it. -/
theorem linearizable_querying :
    ((scheduled program {} querying).calls.map fun c => (c.tid, c.result)) =
      [(0, .ok .unit), (0, .ok .unit), (0, .ok .unit), (2, .ok (.bool false)),
        (1, .ok (.bool true)), (0, .ok .unit)] ∧
    Linearizable MemDatabase.apply {} (scheduled program {} querying).calls
      (scheduled program {} querying).store := by
  have hr : Reach program Quiet {} (scheduled program {} querying) :=
    scheduled_meets quiet_of_meets [0, 1, 2] (by decide +kernel)
  have hthree : ∀ e ∈ querying, e.1 = 0 ∨ e.1 = 1 ∨ e.1 = 2 := by decide
  have hidle : ∀ t, (scheduled program {} querying).thread t = none := by
    intro t
    by_cases ht : t = 0 ∨ t = 1 ∨ t = 2
    · rcases ht with rfl | rfl | rfl
      · exact Option.isNone_iff_eq_none.mp (by decide +kernel)
      · exact Option.isNone_iff_eq_none.mp (by decide +kernel)
      · exact Option.isNone_iff_eq_none.mp (by decide +kernel)
    · refine scheduled_idle fun e he => ?_
      have := hthree e he
      omega
  exact ⟨by decide +kernel, (linearizable_of_quiet hr).1 hidle⟩

/-! ## A query that brings a group back -/

/-- Thread 1 queries `a` in `g` and stops after the `find` in `groups_`; thread 0 deletes all data;
the query goes on. -/
def reviving : List (Nat × Option Op) :=
  creating ++ calling 1 (.isUserPartOfGroup [97] [103]) 1 ++ calling 0 .deleteAllData 7 ++
    List.replicate 4 (1, none)

/-- All calls have returned, `groups_` has the empty group `g`, no order of the calls ends so. -/
theorem reviving_not_linearizable :
    Reachable (scheduled program {} reviving) ∧
    (∀ t, (scheduled program {} reviving).thread t = none) ∧
    ¬ Linearizable MemDatabase.apply {} (scheduled program {} reviving).calls
      (scheduled program {} reviving).store := by
  refine ⟨scheduled_reach (fun _ _ => trivial) _, fun t => ?_, ?_⟩
  · have htwo : ∀ e ∈ reviving, e.1 = 0 ∨ e.1 = 1 := by decide
    by_cases ht : t = 0 ∨ t = 1
    · rcases ht with rfl | rfl
      · exact Option.isNone_iff_eq_none.mp (by decide +kernel)
      · exact Option.isNone_iff_eq_none.mp (by decide +kernel)
    · refine scheduled_idle fun e he => ?_
      have := htwo e he
      omega
  · rintro ⟨order, hperm, -, hrep⟩
    have hno : ∀ l ∈ ((scheduled program {} reviving).calls.map fun c =>
        (c.op, c.result)).permutations',
        ¬ Replays MemDatabase.apply {} l (scheduled program {} reviving).store := by decide +kernel
    exact hno _ (List.mem_permutations'.mpr (hperm.map _)) hrep

end ASky.Concurrent

import ASky.Lib.Footprint
import ASky.Store.History

/-!
# Operations on different users commute

The store is taken apart into cells: the key of a user id, whether a group exists, and whether a
user id is in a group. `Op.reads` and `Op.writes` are the cells of each operation, and
`footprint` proves them from the inversion `Effect` and from the specification of each operation.
`delete_user` rewrites every group, but of each group only the cell of its user.

**`apply_comm`**: two operations for different user ids commute, results and exceptions included,
unless one of them is a `create_group` of the group the other names. The store needs no invariant.
-/

namespace ASky

open Std (ExtTreeMap ExtTreeSet)
open Lib

/-- The user id an operation is for. -/
def Op.user : Op → Option Bytes
  | .addUserToGroup _ u => some u
  | .createUser u _ => some u
  | .createGroup _ u => some u
  | .deleteUser u => some u
  | .isUserPartOfGroup u _ => some u
  | .removeUserFromGroup _ u => some u
  | .deleteAllData => none
  | .getKeysOfGroup _ => none

/-- The group an operation names. -/
def Op.group : Op → Option Bytes
  | .addUserToGroup g _ => some g
  | .createGroup g _ => some g
  | .isUserPartOfGroup _ g => some g
  | .removeUserFromGroup g _ => some g
  | .getKeysOfGroup g => some g
  | .createUser _ _ => none
  | .deleteUser _ => none
  | .deleteAllData => none

/-- The operation is a `create_group`. -/
def Op.isCreateGroup : Op → Bool
  | .createGroup _ _ => true
  | _ => false

/-- A part of the store: the key of `u`, whether there is a group `g`, whether `u` is in `g`. -/
inductive Cell where
  | user (u : Bytes)
  | group (g : Bytes)
  | member (u g : Bytes)

/-- The cells an operation can change. -/
def Op.writes : Op → Set Cell
  | .addUserToGroup g u => {.member u g}
  | .createUser u _ => {.user u}
  | .createGroup g u => {.group g, .member u g}
  | .deleteUser u => {c | c = .user u ∨ ∃ g, c = .member u g}
  | .deleteAllData => Set.univ
  | .isUserPartOfGroup _ _ => ∅
  | .removeUserFromGroup g u => {.member u g}
  | .getKeysOfGroup _ => ∅

/-- The cells its result and its effect depend on. -/
def Op.reads : Op → Set Cell
  | .addUserToGroup g u => {.user u, .group g, .member u g}
  | .createUser u _ => {.user u}
  | .createGroup g u => {.user u, .group g, .member u g}
  | .deleteUser u => {c | c = .user u ∨ ∃ g, c = .member u g}
  | .deleteAllData => Set.univ
  | .isUserPartOfGroup u g => {.group g, .member u g}
  | .removeUserFromGroup g u => {.user u, .group g, .member u g}
  | .getKeysOfGroup _ => Set.univ

namespace MemDatabase

/-- The two stores agree on a cell. -/
def Same : Cell → MemDatabase → MemDatabase → Prop
  | .user u, db, db' => db.users[u]? = db'.users[u]?
  | .group g, db, db' => g ∈ db.groups ↔ g ∈ db'.groups
  | .member u g, db, db' => db.Member u g ↔ db'.Member u g

theorem same_equivalence (c : Cell) : Equivalence (Same c) := by
  cases c with
  | user u => exact ⟨fun _ => rfl, Eq.symm, Eq.trans⟩
  | group g => exact ⟨fun _ => Iff.rfl, Iff.symm, Iff.trans⟩
  | member u g => exact ⟨fun _ => Iff.rfl, Iff.symm, Iff.trans⟩

/-- The set of a group in two stores that agree on the group and on one member. -/
theorem getElem?_of_same {db db' : MemDatabase} {u g : Bytes} (hg : Same (.group g) db db')
    (hm : Same (.member u g) db db') :
    (db.groups[g]? = none ∧ db'.groups[g]? = none) ∨
      ∃ s s', db.groups[g]? = some s ∧ db'.groups[g]? = some s' ∧ (u ∈ s ↔ u ∈ s') := by
  by_cases h : g ∈ db.groups
  · obtain ⟨s, hs⟩ := exists_getElem?_of_mem h
    obtain ⟨s', hs'⟩ := exists_getElem?_of_mem (hg.mp h)
    refine Or.inr ⟨s, s', hs, hs', ?_⟩
    rw [← member_iff_of_getElem? hs, ← member_iff_of_getElem? hs']
    exact hm
  · exact Or.inl ⟨ExtTreeMap.getElem?_eq_none h,
      ExtTreeMap.getElem?_eq_none fun h' => h (hg.mpr h')⟩

/-- The cells are all there is. -/
theorem ext_same {db db' : MemDatabase} (h : ∀ c, Same c db db') : db = db' := by
  refine MemDatabase.ext (ExtTreeMap.ext_getElem? fun g => ?_)
    (ExtTreeMap.ext_getElem? fun u => h (.user u))
  rcases getElem?_of_same (h (.group g)) (h (.member [] g)) with ⟨hn, hn'⟩ | ⟨s, s', hs, hs', -⟩
  · rw [hn, hn']
  · rw [hs, hs', Option.some.injEq]
    refine ExtTreeSet.ext_mem fun u => ?_
    rw [← member_iff_of_getElem? hs, ← member_iff_of_getElem? hs']
    exact h (.member u g)

/-! ## The footprint of each operation -/

theorem mem_users_of_same {db db' : MemDatabase} {u : Bytes} (h : Same (.user u) db db') :
    u ∈ db.users ↔ u ∈ db'.users := by
  rw [ExtTreeMap.mem_iff_isSome_getElem?, ExtTreeMap.mem_iff_isSome_getElem?, show _ = _ from h]

/-- Only `create_user`, `delete_user` and `delete_all_data` change `users_`. -/
theorem Effect.users_frame {db db' : MemDatabase} {op : Op} {r : Outcome}
    (h : Effect db op r db') {v : Bytes} (hv : Cell.user v ∉ op.writes) :
    db.users[v]? = db'.users[v]? := by
  cases h with
  | @createUser u k hu =>
    have hne : v ≠ u := fun he => hv (he ▸ rfl)
    rw [Lib.getElem?_insert, if_neg hne]
  | @deleteUser u =>
    have hne : v ≠ u := fun he => hv (Or.inl (he ▸ rfl))
    rw [MemDatabase.deleteUser, Lib.getElem?_erase, if_neg hne]
  | deleteAll => exact absurd (Set.mem_univ _) hv
  | _ => rfl

theorem mem_writes_of_joins {op : Op} {r : Outcome} {v q : Bytes} (h : Joins v q (op, r)) :
    Cell.member v q ∈ op.writes := by
  rcases h with h | h
  · obtain ⟨rfl, -⟩ := Prod.mk.inj h
    exact Or.inr rfl
  · obtain ⟨rfl, -⟩ := Prod.mk.inj h
    exact rfl

theorem mem_writes_of_leaves {op : Op} {r : Outcome} {v q : Bytes} (h : Leaves v q (op, r)) :
    Cell.member v q ∈ op.writes := by
  rcases h with h | rfl | rfl
  · obtain ⟨rfl, -⟩ := Prod.mk.inj h
    exact rfl
  · exact Or.inr ⟨q, rfl⟩
  · exact Set.mem_univ _

theorem mem_writes_of_founds {op : Op} {r : Outcome} {q : Bytes} (h : Founds q (op, r)) :
    Cell.group q ∈ op.writes := by
  obtain ⟨u, h⟩ := h
  obtain ⟨rfl, -⟩ := Prod.mk.inj h
  exact Or.inl rfl

theorem mem_writes_of_wipes {op : Op} {r : Outcome} (h : Wipes (op, r)) (c : Cell) :
    c ∈ op.writes := by
  obtain rfl : op = .deleteAllData := h
  exact Set.mem_univ c

/-- An operation leaves the cells it does not write. -/
theorem apply_frame (db : MemDatabase) (op : Op) {c : Cell} (hc : c ∉ op.writes) :
    Same c db (db.apply op).2 := by
  have he := apply_effect db op
  cases c with
  | user v => exact he.users_frame hc
  | group q =>
    have hfounds := fun h => hc (mem_writes_of_founds (r := (db.apply op).1) h)
    have hwipes := fun h => hc (mem_writes_of_wipes (r := (db.apply op).1) h _)
    show q ∈ db.groups ↔ q ∈ (db.apply op).2.groups
    rw [he.group_iff, or_iff_right hfounds, and_iff_left hwipes]
  | member v q =>
    have hjoins := fun h => hc (mem_writes_of_joins (r := (db.apply op).1) h)
    have hleaves := fun h => hc (mem_writes_of_leaves (r := (db.apply op).1) h)
    show db.Member v q ↔ (db.apply op).2.Member v q
    rw [he.member_iff, or_iff_right hjoins, and_iff_left hleaves]

/-- Its result depends on the cells it reads. -/
theorem apply_result {db db' : MemDatabase} (op : Op) (h : ∀ c ∈ op.reads, Same c db db') :
    (db.apply op).1 = (db'.apply op).1 := by
  cases op with
  | addUserToGroup g u =>
    have hu := mem_users_of_same (h (.user u) (Or.inl rfl))
    simp only [apply, addUserToGroup_eq]
    rcases getElem?_of_same (h (.group g) (Or.inr (Or.inl rfl)))
      (h (.member u g) (Or.inr (Or.inr rfl))) with ⟨hn, hn'⟩ | ⟨s, s', hs, hs', hm⟩
    · rw [hn, hn']
    · simp only [hs, hs', hu, hm]
      split
      · rfl
      · split <;> rfl
  | createUser u k =>
    have hu := mem_users_of_same (h (.user u) rfl)
    simp only [apply, createUser_eq, hu]
    split <;> rfl
  | createGroup g u =>
    have hu := mem_users_of_same (h (.user u) (Or.inl rfl))
    have hg : g ∈ db.groups ↔ g ∈ db'.groups := h (.group g) (Or.inr (Or.inl rfl))
    simp only [apply, createGroup_eq, hu, hg]
    split
    · rfl
    · split <;> rfl
  | deleteUser u => rfl
  | deleteAllData => rfl
  | isUserPartOfGroup u g =>
    simp only [apply, isUserPartOfGroup_eq]
    rcases getElem?_of_same (h (.group g) (Or.inl rfl)) (h (.member u g) (Or.inr rfl)) with
      ⟨hn, hn'⟩ | ⟨s, s', hs, hs', hm⟩
    · rw [hn, hn']
    · simp only [hs, hs', hm]
  | removeUserFromGroup g u =>
    have hu := mem_users_of_same (h (.user u) (Or.inl rfl))
    simp only [apply, removeUserFromGroup_eq]
    rcases getElem?_of_same (h (.group g) (Or.inr (Or.inl rfl)))
      (h (.member u g) (Or.inr (Or.inr rfl))) with ⟨hn, hn'⟩ | ⟨s, s', hs, hs', hm⟩
    · rw [hn, hn']
    · simp only [hs, hs', hu, hm]
      split
      · rfl
      · split <;> rfl
  | getKeysOfGroup g =>
    obtain rfl := ext_same fun c => h c (Set.mem_univ c)
    rfl

theorem writes_subset_reads (op : Op) : op.writes ⊆ op.reads := by
  cases op with
  | addUserToGroup g u => exact fun c hc => Or.inr (Or.inr hc)
  | createGroup g u => exact fun c hc => Or.inr hc
  | removeUserFromGroup g u => exact fun c hc => Or.inr (Or.inr hc)
  | isUserPartOfGroup u g => exact Set.empty_subset _
  | getKeysOfGroup g => exact Set.empty_subset _
  | createUser u k => exact subset_rfl
  | deleteUser u => exact subset_rfl
  | deleteAllData => exact subset_rfl

/-- So does what it writes. A group or a membership after the call is decided by the event and by
what was there before. -/
theorem apply_written {db db' : MemDatabase} (op : Op) (h : ∀ c ∈ op.reads, Same c db db')
    {c : Cell} (hc : c ∈ op.writes) : Same c (db.apply op).2 (db'.apply op).2 := by
  have hsame := h c (writes_subset_reads op hc)
  have hres := apply_result op h
  cases c with
  | group q =>
    show q ∈ (db.apply op).2.groups ↔ q ∈ (db'.apply op).2.groups
    rw [(apply_effect db op).group_iff, (apply_effect db' op).group_iff, hres,
      show q ∈ db.groups ↔ q ∈ db'.groups from hsame]
  | member v q =>
    show (db.apply op).2.Member v q ↔ (db'.apply op).2.Member v q
    rw [(apply_effect db op).member_iff, (apply_effect db' op).member_iff, hres,
      show db.Member v q ↔ db'.Member v q from hsame]
  | user v =>
    have hsame : db.users[v]? = db'.users[v]? := hsame
    show (db.apply op).2.users[v]? = (db'.apply op).2.users[v]?
    cases op with
    | createUser u k =>
      have hu := mem_users_of_same (h (.user u) rfl)
      simp only [apply, createUser_eq, hu]
      split
      · exact hsame
      · simp only [Lib.getElem?_insert, hsame]
    | deleteUser u => simp only [apply, deleteUser, Lib.getElem?_erase, hsame]
    | deleteAllData => rfl
    | addUserToGroup g u => exact absurd hc (by simp [Op.writes])
    | createGroup g u => exact absurd hc (by simp [Op.writes])
    | removeUserFromGroup g u => exact absurd hc (by simp [Op.writes])
    | isUserPartOfGroup u g => exact absurd hc (by simp [Op.writes])
    | getKeysOfGroup g => exact absurd hc (by simp [Op.writes])

/-- **The footprint of each operation.** -/
theorem footprint (op : Op) :
    Footprint Same (fun db : MemDatabase => db.apply op) op.reads op.writes where
  written_read := writes_subset_reads op
  frame db _ hc := apply_frame db op hc
  result h := apply_result op h
  effect h _ hc := apply_written op h hc

/-! ## Different users -/

/-- What an operation for `u` reads is about `u`, or is whether the group it names exists. -/
theorem reads_cases {op : Op} {u : Bytes} (hu : op.user = some u) {c : Cell} (hc : c ∈ op.reads) :
    c = .user u ∨ (∃ g, c = .member u g) ∨ ∃ g, c = .group g ∧ op.group = some g := by
  cases op with
  | addUserToGroup g v =>
    obtain rfl := Option.some.inj hu
    rcases hc with rfl | rfl | rfl
    · exact Or.inl rfl
    · exact Or.inr (Or.inr ⟨g, rfl, rfl⟩)
    · exact Or.inr (Or.inl ⟨g, rfl⟩)
  | createUser v k =>
    obtain rfl := Option.some.inj hu
    exact Or.inl hc
  | createGroup g v =>
    obtain rfl := Option.some.inj hu
    rcases hc with rfl | rfl | rfl
    · exact Or.inl rfl
    · exact Or.inr (Or.inr ⟨g, rfl, rfl⟩)
    · exact Or.inr (Or.inl ⟨g, rfl⟩)
  | deleteUser v =>
    obtain rfl := Option.some.inj hu
    exact hc.imp id Or.inl
  | isUserPartOfGroup v g =>
    obtain rfl := Option.some.inj hu
    rcases hc with rfl | rfl
    · exact Or.inr (Or.inr ⟨g, rfl, rfl⟩)
    · exact Or.inr (Or.inl ⟨g, rfl⟩)
  | removeUserFromGroup g v =>
    obtain rfl := Option.some.inj hu
    rcases hc with rfl | rfl | rfl
    · exact Or.inl rfl
    · exact Or.inr (Or.inr ⟨g, rfl, rfl⟩)
    · exact Or.inr (Or.inl ⟨g, rfl⟩)
  | deleteAllData => exact absurd hu (by simp [Op.user])
  | getKeysOfGroup g => exact absurd hu (by simp [Op.user])

/-- Of the operations for a user, only `create_group` writes a group. -/
theorem isCreateGroup_of_writes {op : Op} {u g : Bytes} (hu : op.user = some u)
    (hc : Cell.group g ∈ op.writes) : op.isCreateGroup = true := by
  cases op with
  | createGroup g' v => rfl
  | deleteAllData => exact absurd hu (by simp [Op.user])
  | _ => exact absurd hc (by simp [Op.writes])

/-- An operation for `u` writes nothing that one for `v` reads, but for a group it creates. -/
theorem disjoint_writes_reads {a b : Op} {u v : Bytes} (ha : a.user = some u)
    (hb : b.user = some v) (huv : u ≠ v)
    (hgroup : ∀ g, a.group = some g → b.group = some g → a.isCreateGroup = false) :
    Disjoint a.writes b.reads := by
  refine Set.disjoint_left.mpr fun c hw hr => ?_
  rcases reads_cases ha (writes_subset_reads a hw) with rfl | ⟨g, rfl⟩ | ⟨g, rfl, hg⟩
  · rcases reads_cases hb hr with h | ⟨_, h⟩ | ⟨_, h, -⟩
    · exact huv (Cell.user.inj h)
    · exact absurd h (by simp)
    · exact absurd h (by simp)
  · rcases reads_cases hb hr with h | ⟨_, h⟩ | ⟨_, h, -⟩
    · exact absurd h (by simp)
    · exact huv (Cell.member.inj h).1
    · exact absurd h (by simp)
  · rcases reads_cases hb hr with h | ⟨_, h⟩ | ⟨g', h, hg'⟩
    · exact absurd h (by simp)
    · exact absurd h (by simp)
    · obtain rfl := Cell.group.inj h
      have hcreate := isCreateGroup_of_writes ha hw
      rw [hgroup g hg hg'] at hcreate
      exact absurd hcreate (by simp)

/-- **Operations for different users commute**: in either order, each has the same result or
throws the same exception, and the store is the same, unless they name the same group and one of
them is a `create_group`. -/
theorem apply_comm (db : MemDatabase) {a b : Op} {u v : Bytes} (ha : a.user = some u)
    (hb : b.user = some v) (huv : u ≠ v)
    (hgroup : ∀ g, a.group = some g → b.group = some g →
      a.isCreateGroup = false ∧ b.isCreateGroup = false) :
    (db.apply a).1 = ((db.apply b).2.apply a).1 ∧ (db.apply b).1 = ((db.apply a).2.apply b).1 ∧
      ((db.apply a).2.apply b).2 = ((db.apply b).2.apply a).2 := by
  have hab : Disjoint a.writes b.reads :=
    disjoint_writes_reads ha hb huv fun g hga hgb => (hgroup g hga hgb).1
  have hba : Disjoint b.writes a.reads :=
    disjoint_writes_reads hb ha huv.symm fun g hgb hga => (hgroup g hga hgb).2
  exact (footprint a).comm same_equivalence (fun _ _ => ext_same) (footprint b) hab hba db

/-- The users `a` and `b`, and the group `g` of `a`. -/
def twoUsers : MemDatabase where
  groups := (∅ : ExtTreeMap Bytes Members).insert [103] ((∅ : Members).insert [97])
  users := ((∅ : ExtTreeMap Bytes Bytes).insert [97] []).insert [98] []

/-- The theorem for a user who joins a group while another one is deleted from it. -/
theorem apply_comm_sample :
    (twoUsers.apply (.addUserToGroup [103] [98])).1 = .ok .unit ∧
      ((twoUsers.apply (.addUserToGroup [103] [98])).2.apply (.deleteUser [97])).2 =
        ((twoUsers.apply (.deleteUser [97])).2.apply (.addUserToGroup [103] [98])).2 := by
  refine ⟨by decide +kernel, ?_⟩
  refine (apply_comm twoUsers (a := .addUserToGroup [103] [98]) (b := .deleteUser [97]) rfl rfl
    (by decide) ?_).2.2
  intro g _ hg
  exact absurd hg (by simp [Op.group])

/-- Two users who create one group do not commute: the first one is its member. -/
example : ((twoUsers.apply (.createGroup [104] [97])).2.apply (.createGroup [104] [98])).2 ≠
    ((twoUsers.apply (.createGroup [104] [98])).2.apply (.createGroup [104] [97])).2 := by
  decide +kernel

end MemDatabase

end ASky

import ASky.Lib.Utf8
import ASky.Service.Json

/-!
# When a dump fails

`dump_escaped` decodes with the table `utf8d`. `dfaState` gives the state of the table for each
state of the automaton of `Lib.Utf8`, and `decode_dfaState` checks all transitions.

* **`dumpEscaped_isOk_iff`**: `dump_escaped` does not throw iff its string is well-formed UTF-8.
* **`dump2_isOk_iff`**: `dump(2)` does not throw iff all names and values are.
-/

namespace ASky

open Std (ExtTreeMap)
open Lib

/-- The states of the automaton. -/
def pendings : List Pending :=
  [[], [tail], [tail, tail], [(0xA0, 0xBF), tail], [(0x80, 0x9F), tail], [(0x90, 0xBF), tail, tail],
    [tail, tail, tail], [(0x80, 0x8F), tail, tail]]

/-- The state of the table for a state of the automaton. -/
def dfaState (p : Pending) : Nat :=
  if p = [] then utf8Accept
  else if p = [tail] then 2
  else if p = [tail, tail] then 3
  else if p = [(0xA0, 0xBF), tail] then 4
  else if p = [(0x80, 0x9F), tail] then 5
  else if p = [(0x90, 0xBF), tail, tail] then 6
  else if p = [tail, tail, tail] then 7
  else if p = [(0x80, 0x8F), tail, tail] then 8
  else utf8Reject

/-- The transitions of the table, row by row. -/
theorem utf8d_row : ∀ p ∈ pendings,
    (utf8d.take 256).map (fun type => (utf8d.drop (256 + dfaState p * 16)).getD type 0) =
      (List.range 256).map fun n => (utf8Step p (UInt8.ofNat n)).elim utf8Reject dfaState := by
  decide +kernel

/-- **The table is the automaton.** -/
theorem decode_dfaState {p : Pending} (hp : p ∈ pendings) (codep : UInt32) (b : UInt8) :
    (decode (dfaState p) codep b).1 = (utf8Step p b).elim utf8Reject dfaState := by
  have hlt : b.toNat < 256 := b.toNat_lt
  have hlen : b.toNat < utf8d.length := lt_trans hlt (by decide +kernel)
  have hrow := congrArg (fun row => row[b.toNat]?) (utf8d_row p hp)
  simp only [List.getElem?_map, List.getElem?_take_of_lt hlt, List.getElem?_range hlt,
    Option.map_some, List.getElem?_eq_getElem hlen, UInt8.ofNat_toNat, Option.some.injEq] at hrow
  rw [← hrow]
  simp only [decode, List.getD_eq_getElem?_getD, List.getElem?_drop, List.getElem?_eq_getElem hlen,
    Option.getD_some]

theorem utf8Step_mem_pendings {p q : Pending} (hp : p ∈ pendings) {b : UInt8}
    (h : utf8Step p b = some q) : q ∈ pendings := by
  cases p with
  | nil =>
    rw [utf8Step, lead] at h
    split_ifs at h <;> simp only [Option.some.injEq] at h <;> subst h <;> simp [pendings]
  | cons r p =>
    have htail : ∀ p ∈ pendings, List.tail p ∈ pendings := by decide +kernel
    rw [utf8Step] at h
    split at h
    · cases h
      exact htail _ hp
    · cases h

theorem dfaState_ne_reject {p : Pending} (hp : p ∈ pendings) : dfaState p ≠ utf8Reject := by
  have htable : ∀ p ∈ pendings, dfaState p ≠ utf8Reject := by decide +kernel
  exact htable p hp

theorem dfaState_eq_accept {p : Pending} (hp : p ∈ pendings) :
    dfaState p = utf8Accept ↔ p = [] := by
  have htable : ∀ p ∈ pendings, (dfaState p = utf8Accept ↔ p = []) := by decide +kernel
  exact htable p hp

theorem dumpEscapedFrom_isOk_iff {p : Pending} (hp : p ∈ pendings) (codep : UInt32)
    (acc s : Bytes) :
    (∃ r, dumpEscapedFrom (dfaState p) codep acc s = .ok r) ↔ utf8Run p s = some [] := by
  induction s generalizing p codep acc with
  | nil =>
    rw [dumpEscapedFrom, utf8Run_nil, Option.some_inj, ← dfaState_eq_accept hp]
    by_cases hacc : dfaState p = utf8Accept
    · rw [if_pos hacc]
      exact iff_of_true ⟨acc, rfl⟩ hacc
    · rw [if_neg hacc]
      exact iff_of_false (by simp) hacc
  | cons b s ih =>
    rw [dumpEscapedFrom, utf8Run_cons]
    have hdec := decode_dfaState hp codep b
    cases hstep : utf8Step p b with
    | some q =>
      have hq := utf8Step_mem_pendings hp hstep
      rw [hstep, Option.elim_some] at hdec
      rw [Option.bind_some]
      simp only [hdec]
      split
      · exact ih hq _ _
      · rw [if_neg (dfaState_ne_reject hq)]
        exact ih hq _ _
    | none =>
      rw [hstep, Option.elim_none] at hdec
      simp only [hdec]
      rw [if_neg (by decide), if_pos trivial]
      simp

/-- **`dump_escaped` throws exactly on ill-formed UTF-8.** -/
theorem dumpEscaped_isOk_iff (s : Bytes) : (∃ r, dumpEscaped s = .ok r) ↔ Utf8 s :=
  dumpEscapedFrom_isOk_iff (p := []) (by decide) 0 [] s

theorem dumpMembers_isOk_iff (l : List (Bytes × Bytes)) :
    (∃ r, dumpMembers l = .ok r) ↔ ∀ e ∈ l, Utf8 e.1 ∧ Utf8 e.2 := by
  induction l with
  | nil => exact iff_of_true ⟨[], rfl⟩ (by simp)
  | cons e l ih =>
    obtain ⟨k, v⟩ := e
    rw [List.forall_mem_cons, ← ih, ← dumpEscaped_isOk_iff, ← dumpEscaped_isOk_iff, dumpMembers]
    cases dumpEscaped k <;> cases dumpEscaped v <;> cases dumpMembers l <;> simp

/-- **`dump(2)` throws exactly when some name or value is ill-formed.** -/
theorem dump2_isOk_iff (j : KVString) :
    (∃ r, dump2 j = .ok r) ↔ ∀ k v, j[k]? = some v → Utf8 k ∧ Utf8 v := by
  have hmem : (∀ e ∈ j.toList, Utf8 e.1 ∧ Utf8 e.2) ↔
      ∀ k v, j[k]? = some v → Utf8 k ∧ Utf8 v := by
    constructor
    · intro h k v hkv
      exact h (k, v) (ExtTreeMap.mem_toList_iff_getElem?_eq_some.mpr hkv)
    · rintro h ⟨k, v⟩ he
      exact h k v (ExtTreeMap.mem_toList_iff_getElem?_eq_some.mp he)
  rw [← hmem, ← dumpMembers_isOk_iff]
  unfold dump2
  cases hd : dumpMembers j.toList with
  | error e => simp
  | ok ms =>
    cases ms with
    | nil => simp
    | cons m ms => simp

end ASky

import Mathlib

/-!
# Ordered maps and sets

`Std.ExtTreeMap` and `Std.ExtTreeSet` over a key type whose `compare` is a lawful total order,
read the way a C++ program reads `std::map` and `std::set`: `m[k]` (`insertIfNew k default`, then
the value), `m[k] = v`, and lookups after a write as `if q = k`. Two maps are equal when their
lookups are (`ExtTreeMap.ext_getElem?`), so a sequence of inserts is known by its last write at
each key. `nextAfter` is the increment of an iterator over the sorted elements.
-/

namespace ASky.Lib

open Std (ExtTreeMap ExtTreeSet TransOrd LawfulEqOrd)

variable {κ β : Type} [Ord κ] [TransOrd κ] [LawfulEqOrd κ] {m : ExtTreeMap κ β} {s : ExtTreeSet κ}

/-! ## Lookups -/

omit [LawfulEqOrd κ] in
theorem mem_of_getElem? {k : κ} {v : β} (h : m[k]? = some v) : k ∈ m := by
  rw [ExtTreeMap.mem_iff_isSome_getElem?, h]
  rfl

omit [LawfulEqOrd κ] in
theorem not_mem_of_getElem? {k : κ} (h : m[k]? = none) : k ∉ m := by
  rw [ExtTreeMap.mem_iff_isSome_getElem?, h]
  exact Bool.false_ne_true

omit [LawfulEqOrd κ] in
theorem exists_getElem?_of_mem {k : κ} (h : k ∈ m) : ∃ v, m[k]? = some v :=
  ⟨_, ExtTreeMap.getElem?_eq_some_getElem h⟩

omit [LawfulEqOrd κ] in
theorem getD_of_getElem? {k : κ} {v d : β} (h : m[k]? = some v) : m.getD k d = v := by
  rw [ExtTreeMap.getD_eq_getD_getElem?, h]
  rfl

/-! ## Writes -/

/-- `m[k]` on an existing key inserts nothing. -/
theorem insertIfNew_of_mem {k : κ} {v : β} (h : k ∈ m) : m.insertIfNew k v = m := by
  refine ExtTreeMap.ext_getElem? fun q => ?_
  rw [ExtTreeMap.getElem?_insertIfNew, if_neg (fun hq => hq.2 h)]

/-- A present key adds no key. -/
theorem mem_insert_of_mem {k : κ} {v : β} (h : k ∈ m) {q : κ} : q ∈ m.insert k v ↔ q ∈ m := by
  rw [ExtTreeMap.mem_insert, Std.LawfulEqCmp.compare_eq_iff_eq]
  constructor
  · rintro (rfl | hq)
    · exact h
    · exact hq
  · exact Or.inr

theorem getElem?_insert (m : ExtTreeMap κ β) (k : κ) (v : β) (q : κ) [DecidableEq κ] :
    (m.insert k v)[q]? = if q = k then some v else m[q]? := by
  rw [ExtTreeMap.getElem?_insert]
  by_cases h : q = k
  · subst h
    rw [if_pos Std.ReflCmp.compare_self, if_pos rfl]
  · rw [if_neg fun hc => h (Std.LawfulEqCmp.compare_eq_iff_eq.mp hc).symm, if_neg h]

theorem getElem?_erase (m : ExtTreeMap κ β) (k q : κ) [DecidableEq κ] :
    (m.erase k)[q]? = if q = k then none else m[q]? := by
  rw [ExtTreeMap.getElem?_erase]
  by_cases h : q = k
  · subst h
    rw [if_pos Std.ReflCmp.compare_self, if_pos rfl]
  · rw [if_neg fun hc => h (Std.LawfulEqCmp.compare_eq_iff_eq.mp hc).symm, if_neg h]

/-- `m[k] = w`, whether or not `k` was there. -/
theorem insert_insertIfNew (m : ExtTreeMap κ β) (k : κ) (v w : β) :
    (m.insertIfNew k v).insert k w = m.insert k w := by
  refine ExtTreeMap.ext_getElem? fun q => ?_
  rw [ExtTreeMap.getElem?_insert, ExtTreeMap.getElem?_insert, ExtTreeMap.getElem?_insertIfNew]
  split
  · rfl
  · rename_i hq
    rw [if_neg (fun h => hq h.1)]

/-- Writing back the value a key already has. -/
theorem insert_self {k : κ} {v : β} (h : m[k]? = some v) : m.insert k v = m := by
  refine ExtTreeMap.ext_getElem? fun q => ?_
  rw [ExtTreeMap.getElem?_insert]
  split
  · rename_i hq
    rw [← Std.LawfulEqCmp.compare_eq_iff_eq.mp hq, h]
  · rfl

/-! ## A loop of writes -/

theorem mem_foldl_insert {γ : Type} {f : γ → κ} {g : γ → β} {l : List γ} {q : κ} :
    q ∈ l.foldl (fun m x => m.insert (f x) (g x)) m ↔ (∃ x ∈ l, f x = q) ∨ q ∈ m := by
  induction l generalizing m with
  | nil => simp
  | cons x l ih =>
    rw [List.foldl_cons, ih, ExtTreeMap.mem_insert, Std.LawfulEqCmp.compare_eq_iff_eq]
    simp only [List.mem_cons, exists_eq_or_imp]
    rw [← or_assoc, or_comm (a := ∃ x ∈ l, f x = q)]

/-- An entry after the loop comes from one of its writes, or was there before and none of them
was at its key. -/
theorem getElem?_foldl_insert {γ : Type} {f : γ → κ} {g : γ → β} {l : List γ} {q : κ} {v : β}
    (h : (l.foldl (fun m x => m.insert (f x) (g x)) m)[q]? = some v) :
    (∃ x ∈ l, f x = q ∧ v = g x) ∨ ((∀ x ∈ l, f x ≠ q) ∧ m[q]? = some v) := by
  induction l generalizing m with
  | nil => exact Or.inr ⟨fun _ hx => absurd hx List.not_mem_nil, h⟩
  | cons x l ih =>
    rcases ih h with ⟨y, hy, hq, hv⟩ | ⟨hno, hm⟩
    · exact Or.inl ⟨y, List.mem_cons_of_mem x hy, hq, hv⟩
    · rw [ExtTreeMap.getElem?_insert] at hm
      split at hm
      · rename_i hq
        exact Or.inl ⟨x, List.mem_cons_self, Std.LawfulEqCmp.compare_eq_iff_eq.mp hq,
          (Option.some.inj hm).symm⟩
      · rename_i hq
        refine Or.inr ⟨fun y hy => ?_, hm⟩
        rcases List.mem_cons.mp hy with rfl | hy
        · exact fun he => hq (Std.LawfulEqCmp.compare_eq_iff_eq.mpr he)
        · exact hno y hy

/-- Writing all entries of one map into another. -/
theorem getElem?_foldl_toList (m m' : ExtTreeMap κ β) (q : κ) :
    (m'.toList.foldl (fun j kv => j.insert kv.1 kv.2) m)[q]? = (m'[q]?).or m[q]? := by
  have hmem := mem_foldl_insert (m := m) (f := Prod.fst) (g := Prod.snd) (l := m'.toList) (q := q)
  cases h : (m'.toList.foldl (fun j kv => j.insert kv.1 kv.2) m)[q]? with
  | some v =>
    rcases getElem?_foldl_insert h with ⟨⟨k, w⟩, hx, rfl, rfl⟩ | ⟨hno, hm⟩
    · rw [ExtTreeMap.mem_toList_iff_getElem?_eq_some.mp hx]
      rfl
    · cases h' : m'[q]? with
      | some w =>
        exact absurd rfl (hno (q, w) (ExtTreeMap.mem_toList_iff_getElem?_eq_some.mpr h'))
      | none => rw [hm]; rfl
  | none =>
    have hno := fun hc => not_mem_of_getElem? h (hmem.mpr hc)
    cases h' : m'[q]? with
    | some w =>
      exact absurd (Or.inl ⟨(q, w), ExtTreeMap.mem_toList_iff_getElem?_eq_some.mpr h', rfl⟩) hno
    | none =>
      cases hq : m[q]? with
      | some w => exact absurd (Or.inr (mem_of_getElem? hq)) hno
      | none => rfl

/-! ## Sets -/

theorem mem_insert {u q : κ} : q ∈ s.insert u ↔ q = u ∨ q ∈ s := by
  rw [ExtTreeSet.mem_insert, Std.LawfulEqCmp.compare_eq_iff_eq, eq_comm]

theorem mem_erase {u q : κ} : q ∈ s.erase u ↔ q ≠ u ∧ q ∈ s := by
  rw [ExtTreeSet.mem_erase, ne_eq, Std.LawfulEqCmp.compare_eq_iff_eq, eq_comm]

theorem insert_of_mem {u : κ} (h : u ∈ s) : s.insert u = s := by
  refine ExtTreeSet.ext_mem fun q => ?_
  rw [mem_insert]
  exact ⟨fun hq => hq.elim (fun e => e ▸ h) id, Or.inr⟩

theorem isEmpty_eq_true_iff : s.isEmpty = true ↔ ∀ u, u ∉ s := by
  rw [ExtTreeSet.isEmpty_iff]
  constructor
  · rintro rfl u
    exact ExtTreeSet.not_mem_empty
  · intro h
    exact ExtTreeSet.ext_mem fun q => iff_of_false (h q) ExtTreeSet.not_mem_empty

/-! ## Iterators -/

/-- `x` comes after the position `last` of an iterator; `none` is before the first element. -/
def isAfter (last : Option κ) (x : κ) : Bool :=
  match last with
  | none => true
  | some w => compare w x == .lt

/-- The element an iterator at `last` moves to in the sorted list `l`. -/
def nextAfter (l : List κ) (last : Option κ) : Option κ := l.find? (isAfter last)

omit [TransOrd κ] [LawfulEqOrd κ] in
/-- At the end nothing is left. -/
theorem isAfter_of_nextAfter_none {l : List κ} {last : Option κ} (h : nextAfter l last = none) :
    ∀ x ∈ l, isAfter last x = false := by
  intro x hx
  exact Bool.not_eq_true _ ▸ List.find?_eq_none.mp h x hx

omit [LawfulEqOrd κ] in
/-- The elements up to `k`, when an iterator at `last` moves to `k`: those up to `last`, and `k`. -/
theorem filter_isAfter_next {l : List κ} (hl : l.Pairwise fun x y => compare x y = .lt)
    {last : Option κ} {k : κ} (h : nextAfter l last = some k) :
    l.filter (fun x => !isAfter (some k) x) = l.filter (fun x => !isAfter last x) ++ [k] := by
  obtain ⟨hk, as, bs, rfl, has⟩ := List.find?_eq_some_iff_append.mp h
  obtain ⟨-, hkbs, hcross⟩ := List.pairwise_append.mp hl
  obtain ⟨hbs, -⟩ := List.pairwise_cons.mp hkbs
  have has' : ∀ x ∈ as, (!isAfter (some k) x) = true := by
    intro x hx
    have hlt := hcross x hx k List.mem_cons_self
    simp [isAfter, Std.OrientedCmp.gt_of_lt hlt]
  have hafter : ∀ x ∈ bs, isAfter last x = true := by
    intro x hx
    cases last with
    | none => rfl
    | some w =>
      have hwk : compare w k = .lt := by simpa [isAfter] using hk
      simp [isAfter, Std.TransCmp.lt_trans hwk (hbs x hx)]
  rw [List.filter_append, List.filter_append, List.filter_cons_of_pos (by simp [isAfter]),
    List.filter_cons_of_neg (by simp [hk]), List.filter_eq_self.mpr has',
    List.filter_eq_self.mpr has,
    List.filter_eq_nil_iff.mpr fun x hx => by simp [isAfter, hbs x hx],
    List.filter_eq_nil_iff.mpr fun x hx => by simp [hafter x hx], List.append_nil]

omit [TransOrd κ] [LawfulEqOrd κ] in
theorem mem_of_nextAfter {l : List κ} {last : Option κ} {k : κ} (h : nextAfter l last = some k) :
    k ∈ l := List.mem_of_find?_eq_some h

omit [LawfulEqOrd κ] in
/-- What an iterator has passed at `k` is `k` and what it had passed before. -/
theorem isAfter_next {l : List κ} (hl : l.Pairwise fun x y => compare x y = .lt)
    {last : Option κ} {k x : κ} (h : nextAfter l last = some k) (hx : x ∈ l)
    (hp : isAfter (some k) x = false) : x = k ∨ isAfter last x = false := by
  have hmem : x ∈ l.filter fun x => !isAfter (some k) x := List.mem_filter.mpr ⟨hx, by simp [hp]⟩
  rw [filter_isAfter_next hl h] at hmem
  rcases List.mem_append.mp hmem with hm | hm
  · exact Or.inr (by simpa using (List.mem_filter.mp hm).2)
  · exact Or.inl (List.mem_singleton.mp hm)

end ASky.Lib

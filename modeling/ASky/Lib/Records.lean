import Mathlib

/-!
# Fixed-size records in a flat buffer

A list of blocks of one length `n`, concatenated. The block at position `i` starts at offset
`i * n` (`drop_flatten`), the buffer holds `length / n` of them (`length_flatten`), and the blocks
can be read back, so two buffers are equal exactly when their blocks are (`flatten_inj`).
-/

namespace ASky.Lib

variable {α : Type} {n : Nat}

theorem length_flatten {bs : List (List α)} (h : ∀ b ∈ bs, b.length = n) :
    bs.flatten.length = bs.length * n := by
  induction bs with
  | nil => simp
  | cons b bs ih =>
    rw [List.flatten_cons, List.length_append, h b List.mem_cons_self,
      ih fun x hx => h x (List.mem_cons_of_mem b hx), List.length_cons, Nat.add_mul, Nat.one_mul,
      Nat.add_comm]

/-- Skipping `i` blocks. -/
theorem drop_flatten {bs : List (List α)} (h : ∀ b ∈ bs, b.length = n) (i : Nat) :
    bs.flatten.drop (i * n) = (bs.drop i).flatten := by
  induction bs generalizing i with
  | nil => simp
  | cons b bs ih =>
    cases i with
    | zero => simp
    | succ i =>
      have hb : b.length = n := h b List.mem_cons_self
      have hlen : (i + 1) * n = b.length + i * n := by
        rw [hb, Nat.add_mul, Nat.one_mul, Nat.add_comm]
      rw [List.flatten_cons, hlen, List.drop_append, List.drop_succ_cons, List.drop_eq_nil_of_le
        (Nat.le_add_right _ _), List.nil_append, Nat.add_sub_cancel_left,
        ih fun x hx => h x (List.mem_cons_of_mem b hx)]

/-- Reading inside block `i`: `k` bytes from its byte `o` on. -/
theorem take_drop_flatten {bs : List (List α)} (h : ∀ b ∈ bs, b.length = n) {i o k : Nat}
    (hi : i < bs.length) (hk : o + k ≤ n) :
    (bs.flatten.drop (i * n + o)).take k = (bs[i].drop o).take k := by
  have hb : bs[i].length = n := h _ (List.getElem_mem hi)
  rw [← List.drop_drop, drop_flatten h, List.drop_eq_getElem_cons hi, List.flatten_cons,
    List.drop_append_of_le_length (by omega), List.take_append_of_le_length]
  rw [List.length_drop]
  omega

/-- **The blocks can be read back.** -/
theorem flatten_inj (hn : 0 < n) {bs bs' : List (List α)} (h : ∀ b ∈ bs, b.length = n)
    (h' : ∀ b ∈ bs', b.length = n) : bs.flatten = bs'.flatten ↔ bs = bs' := by
  refine ⟨fun heq => ?_, fun heq => by rw [heq]⟩
  induction bs generalizing bs' with
  | nil =>
    have hl := length_flatten h'
    rw [← heq] at hl
    have : bs'.length = 0 := by
      rcases Nat.mul_eq_zero.mp hl.symm with h0 | h0
      · exact h0
      · omega
    exact (List.length_eq_zero_iff.mp this).symm
  | cons b bs ih =>
    cases bs' with
    | nil =>
      have hl := length_flatten h
      rw [heq, List.length_cons, Nat.add_mul] at hl
      simp at hl
      omega
    | cons b' bs' =>
      rw [List.flatten_cons, List.flatten_cons] at heq
      obtain ⟨hb, hrest⟩ := List.append_inj heq
        ((h b List.mem_cons_self).trans (h' b' List.mem_cons_self).symm)
      rw [hb, ih (fun x hx => h x (List.mem_cons_of_mem b hx))
        (fun x hx => h' x (List.mem_cons_of_mem b' hx)) hrest]

/-- Two lists of blocks written from lists of items, when the items can be told apart by their
blocks. -/
theorem map_eq_map_iff_of_injOn {β : Type} {f : α → β} {s : Set α} (hf : Set.InjOn f s)
    {l l' : List α} (h : ∀ x ∈ l, x ∈ s) (h' : ∀ x ∈ l', x ∈ s) :
    l.map f = l'.map f ↔ l = l' := by
  refine ⟨fun heq => ?_, fun heq => by rw [heq]⟩
  induction l generalizing l' with
  | nil => exact (List.map_eq_nil_iff.mp heq.symm).symm
  | cons x l ih =>
    cases l' with
    | nil => exact absurd heq (by simp)
    | cons y l' =>
      obtain ⟨hxy, hrest⟩ := List.cons.inj heq
      rw [hf (h x List.mem_cons_self) (h' y List.mem_cons_self) hxy,
        ih (fun z hz => h z (List.mem_cons_of_mem x hz))
          (fun z hz => h' z (List.mem_cons_of_mem y hz)) hrest]

end ASky.Lib

import Mathlib

/-!
# Past-time "since" over a history

`Since p q h`: some event of the history `h` satisfied `p`, and no event after it satisfied `q`.
`since_concat` is its recursion over the last event, so a state that follows it is proved to do so
one event at a time. With `q` a superset of `p` it speaks about the last event of a kind:
`Since (f · = some v) (f · ≠ none)` says that `v` is the most recent value of `f`.
-/

namespace ASky.Lib

variable {α : Type} {p q : α → Prop}

/-- An event satisfying `p`, then none satisfying `q`. -/
def Since (p q : α → Prop) (h : List α) : Prop :=
  ∃ pre e post, h = pre ++ e :: post ∧ p e ∧ ∀ x ∈ post, ¬ q x

theorem not_since_nil : ¬ Since p q [] := by
  rintro ⟨pre, e, post, h, -⟩
  simp at h

/-- **The recursion of `Since`** over the last event. -/
theorem since_concat {h : List α} {e : α} :
    Since p q (h ++ [e]) ↔ p e ∨ (Since p q h ∧ ¬ q e) := by
  constructor
  · rintro ⟨pre, x, post, heq, hp, hq⟩
    rcases List.eq_nil_or_concat post with rfl | ⟨post', y, hpost⟩
    · have he : e = x := List.singleton_inj.mp (List.append_inj' heq rfl).2
      exact Or.inl (he ▸ hp)
    · rw [List.concat_eq_append] at hpost
      subst hpost
      have heq' : h ++ [e] = (pre ++ x :: post') ++ [y] := by simpa using heq
      obtain ⟨hh, he⟩ := List.append_inj' heq' rfl
      have hey : e = y := List.singleton_inj.mp he
      refine Or.inr ⟨⟨pre, x, post', hh, hp, fun z hz => hq z (List.mem_append_left _ hz)⟩, ?_⟩
      rw [hey]
      exact hq y (List.mem_append_right _ (List.mem_singleton.mpr rfl))
  · rintro (hp | ⟨⟨pre, x, post, rfl, hp, hq⟩, hne⟩)
    · exact ⟨h, e, [], rfl, hp, fun _ hx => absurd hx List.not_mem_nil⟩
    · refine ⟨pre, x, post ++ [e], by simp, hp, fun z hz => ?_⟩
      rcases List.mem_append.mp hz with hz | hz
      · exact hq z hz
      · rw [List.mem_singleton.mp hz]
        exact hne

end ASky.Lib

import Mathlib

/-!
# Operations with footprints commute

A state is made of cells; `same c s s'` says that `s` and `s'` agree on cell `c`. An operation has
the footprint `reads`, `writes` when it changes no cell outside `writes`, and its result and the
cells it writes depend on the cells of `reads` only. **`Footprint.comm`**: two operations commute,
results included, if neither writes what the other reads. A written cell counts as read, since an
operation that fails leaves it as it was.
-/

namespace ASky.Lib

/-- What an operation reads and writes. -/
structure Footprint {σ κ ρ : Type*} (same : κ → σ → σ → Prop) (act : σ → ρ × σ)
    (reads writes : Set κ) : Prop where
  written_read : writes ⊆ reads
  frame : ∀ s, ∀ c ∉ writes, same c s (act s).2
  result : ∀ {s s'}, (∀ c ∈ reads, same c s s') → (act s).1 = (act s').1
  effect : ∀ {s s'}, (∀ c ∈ reads, same c s s') → ∀ c ∈ writes, same c (act s).2 (act s').2

namespace Footprint

variable {σ κ ρ ρ' : Type*} {same : κ → σ → σ → Prop} {a : σ → ρ × σ} {b : σ → ρ' × σ}
  {ra wa rb wb : Set κ}

/-- An operation that writes nothing of `reads` leaves it as it was. -/
theorem same_reads (h : Footprint same a ra wa) (hd : Disjoint wa rb) (s : σ) :
    ∀ c ∈ rb, same c s (a s).2 :=
  fun c hc => h.frame s c fun hw => Set.disjoint_left.mp hd hw hc

/-- The cells that `a` writes, when `b` has run before or after. -/
theorem same_written (hsame : ∀ c, Equivalence (same c)) (ha : Footprint same a ra wa)
    (hb : Footprint same b rb wb) (hab : Disjoint wa rb) (hba : Disjoint wb ra) (s : σ) {c : κ}
    (hc : c ∈ wa) : same c (b (a s).2).2 (a (b s).2).2 := by
  have hafter : same c (a s).2 (b (a s).2).2 :=
    hb.frame _ c fun hw => Set.disjoint_left.mp hab hc (hb.written_read hw)
  have hbefore : same c (a s).2 (a (b s).2).2 := ha.effect (hb.same_reads hba s) c hc
  exact (hsame c).trans ((hsame c).symm hafter) hbefore

/-- **Two operations commute if neither writes what the other reads.** -/
theorem comm (hsame : ∀ c, Equivalence (same c)) (hext : ∀ s s', (∀ c, same c s s') → s = s')
    (ha : Footprint same a ra wa) (hb : Footprint same b rb wb) (hab : Disjoint wa rb)
    (hba : Disjoint wb ra) (s : σ) :
    (a s).1 = (a (b s).2).1 ∧ (b s).1 = (b (a s).2).1 ∧ (b (a s).2).2 = (a (b s).2).2 := by
  refine ⟨ha.result (hb.same_reads hba s), hb.result (ha.same_reads hab s), ?_⟩
  refine hext _ _ fun c => ?_
  by_cases hca : c ∈ wa
  · exact ha.same_written hsame hb hab hba s hca
  by_cases hcb : c ∈ wb
  · exact (hsame c).symm (hb.same_written hsame ha hba hab s hcb)
  · have hleft := (hsame c).trans (ha.frame s c hca) (hb.frame (a s).2 c hcb)
    have hright := (hsame c).trans (hb.frame s c hcb) (ha.frame (b s).2 c hca)
    exact (hsame c).trans ((hsame c).symm hleft) hright

end Footprint

end ASky.Lib

import Mathlib

/-!
# Attempts until one stops

A loop, or a self-call, that makes attempts `m, m + 1, …` until one of them stops it, and that
nothing else bounds. `firstStop` is the search for that attempt among the first `fuel` of them. It
finds attempt `n` exactly when `n` is the first to stop and within the fuel
(`firstStop_eq_some`), and some fuel is enough exactly when some attempt stops
(`exists_map_firstStop_iff`). What enough fuel gives is stated with `∀ᶠ fuel in atTop`, so that two
loops can be given the same fuel.
-/

namespace ASky.Lib

variable {stop : Nat → Prop} [DecidablePred stop]

/-- The first of the attempts `m, m + 1, …` that stops, among `fuel` of them. -/
def firstStop (stop : Nat → Prop) [DecidablePred stop] : (fuel m : Nat) → Option Nat
  | 0, _ => none
  | fuel + 1, m => if stop m then some m else firstStop stop fuel (m + 1)

theorem firstStop_eq_some {fuel m n : Nat} :
    firstStop stop fuel m = some n ↔
      m ≤ n ∧ n < m + fuel ∧ stop n ∧ ∀ i, m ≤ i → i < n → ¬ stop i := by
  induction fuel generalizing m with
  | zero =>
    constructor
    · intro h
      exact absurd h (by simp [firstStop])
    · rintro ⟨hle, hlt, -⟩
      omega
  | succ fuel ih =>
    unfold firstStop
    by_cases hm : stop m
    · rw [if_pos hm]
      constructor
      · intro h
        obtain rfl := Option.some.inj h
        exact ⟨Nat.le_refl m, by omega, hm, fun i hi hlt => by omega⟩
      · rintro ⟨hle, -, -, hfirst⟩
        have : ¬ m < n := fun hlt => hfirst m (Nat.le_refl m) hlt hm
        rw [show m = n by omega]
    · rw [if_neg hm, ih]
      constructor
      · rintro ⟨hle, hlt, hn, hfirst⟩
        refine ⟨by omega, by omega, hn, fun i hi hin => ?_⟩
        by_cases him : i = m
        · rw [him]
          exact hm
        · exact hfirst i (by omega) hin
      · rintro ⟨hle, hlt, hn, hfirst⟩
        have hne : m ≠ n := fun h => hm (h ▸ hn)
        exact ⟨by omega, by omega, hn, fun i hi hin => hfirst i (by omega) hin⟩

/-- Enough fuel finds the first attempt that stops. -/
theorem eventually_firstStop {m n : Nat} (hmn : m ≤ n) (hstop : stop n)
    (hfirst : ∀ i, m ≤ i → i < n → ¬ stop i) :
    ∀ᶠ fuel in Filter.atTop, firstStop stop fuel m = some n := by
  refine Filter.eventually_atTop.mpr ⟨n + 1, fun fuel hfuel => ?_⟩
  exact firstStop_eq_some.mpr ⟨hmn, by omega, hstop, hfirst⟩

/-- If some attempt stops, one is the first. -/
theorem exists_first (h : ∃ n, stop n) : ∃ n, stop n ∧ ∀ i < n, ¬ stop i :=
  ⟨Nat.find h, Nat.find_spec h, fun _ hi => Nat.find_min h hi⟩

/-- **Some fuel is enough exactly when some attempt stops.** `f` is what is made of that attempt. -/
theorem exists_map_firstStop_iff {β : Type*} (f : Nat → β) :
    (∃ fuel r, (firstStop stop fuel 0).map f = some r) ↔ ∃ n, stop n := by
  constructor
  · rintro ⟨fuel, r, h⟩
    obtain ⟨n, hn, -⟩ := Option.map_eq_some_iff.mp h
    exact ⟨n, (firstStop_eq_some.mp hn).2.2.1⟩
  · intro h
    obtain ⟨n, hn, hfirst⟩ := exists_first h
    obtain ⟨fuel, hfuel⟩ :=
      (eventually_firstStop (Nat.zero_le n) hn fun i _ hi => hfirst i hi).exists
    exact ⟨fuel, f n, by rw [hfuel, Option.map_some]⟩

end ASky.Lib

import Mathlib

/-!
# Scripts

A script acts on a state and returns or throws (`Ending`). Scripts are put together by sequence,
`catch`, a loop over a range and a loop that tries again until it succeeds; the last takes the
number of turns it may make, and is `running` when they are used up.

`Returns P p Q` is total correctness: from every state with `P` the script `p` returns, in a state
with `Q`. There is one rule for each construction, and the rule of a loop is its invariant.
-/

namespace ASky.Lib

/-- How a script ends. -/
inductive Ending (ε : Type*) where
  | returned
  | thrown (e : ε)
  | running

/-- What a script does to the state, and how it ends. -/
def Script (σ ε : Type*) := σ → Ending ε × σ

namespace Script

variable {σ ε : Type*}

def skip : Script σ ε := fun s => (.returned, s)

/-- `p; q`. -/
def seq (p q : Script σ ε) : Script σ ε := fun s =>
  match p s with
  | (.returned, s') => q s'
  | r => r

/-- `try { p } catch (e) { h }`. -/
def orElse (p : Script σ ε) (h : ε → Script σ ε) : Script σ ε := fun s =>
  match p s with
  | (.thrown e, s') => h e s'
  | r => r

/-- `for (i in first until first + n) body`. -/
def forRange (body : ℕ → Script σ ε) : (n first : ℕ) → Script σ ε
  | 0, _ => skip
  | n + 1, i => (body i).seq (forRange body n (i + 1))

/-- `p` again and again until it returns. -/
def retry (p : Script σ ε) : (turns : ℕ) → Script σ ε
  | 0 => fun s => (.running, s)
  | turns + 1 => p.orElse fun _ => retry p turns

/-- **Total correctness.** -/
def Returns (P : σ → Prop) (p : Script σ ε) (Q : σ → Prop) : Prop :=
  ∀ s, P s → ∃ s', p s = (.returned, s') ∧ Q s'

variable {P P' Q Q' R : σ → Prop} {p q : Script σ ε}

theorem Returns.skip (h : ∀ s, P s → Q s) : Returns P (skip : Script σ ε) Q :=
  fun s hs => ⟨s, rfl, h s hs⟩

theorem Returns.mono (h : Returns P p Q) (hP : ∀ s, P' s → P s) (hQ : ∀ s, Q s → Q' s) :
    Returns P' p Q' := by
  intro s hs
  obtain ⟨s', hp, hs'⟩ := h s (hP s hs)
  exact ⟨s', hp, hQ s' hs'⟩

theorem Returns.seq (hp : Returns P p Q) (hq : Returns Q q R) : Returns P (p.seq q) R := by
  intro s hs
  obtain ⟨s₁, h₁, hs₁⟩ := hp s hs
  obtain ⟨s₂, h₂, hs₂⟩ := hq s₁ hs₁
  refine ⟨s₂, ?_, hs₂⟩
  rw [Script.seq, h₁]
  exact h₂

/-- A script that returns needs no handler. -/
theorem Returns.orElse (hp : Returns P p Q) (h : ε → Script σ ε) : Returns P (p.orElse h) Q := by
  intro s hs
  obtain ⟨s', hs', hQ⟩ := hp s hs
  refine ⟨s', ?_, hQ⟩
  rw [Script.orElse, hs']

theorem Returns.forRange (Inv : ℕ → σ → Prop) {body : ℕ → Script σ ε} {n first : ℕ}
    (h : ∀ i, first ≤ i → i < first + n → Returns (Inv i) (body i) (Inv (i + 1))) :
    Returns (Inv first) (forRange body n first) (Inv (first + n)) := by
  induction n generalizing first with
  | zero => exact .skip fun s hs => hs
  | succ n ih =>
    have hbody := h first (Nat.le_refl first) (by omega)
    have hrest : Returns (Inv (first + 1)) (Script.forRange body n (first + 1))
        (Inv (first + 1 + n)) :=
      ih fun i hi hlt => h i (by omega) (by omega)
    rw [Nat.add_assoc, Nat.add_comm 1 n] at hrest
    exact hbody.seq hrest

/-- A script that returns is not tried again. -/
theorem Returns.retry (hp : Returns P p Q) (turns : ℕ) : Returns P (p.retry (turns + 1)) Q :=
  hp.orElse _

end Script

end ASky.Lib

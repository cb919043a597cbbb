import Mathlib

/-!
# Well-formed UTF-8

The byte automaton of the table of well-formed byte sequences: between two code points the next
byte is a `lead` byte, and a lead byte fixes the ranges of the bytes that must follow it. The state
`Pending` is the list of these ranges. `Utf8 s` says that `s` takes the automaton back to where it
started.

* **`Utf8.append_iff`**: a well-formed prefix can be cut off, in both directions;
  `utf8_append_ascii_iff`: so can ASCII at the end.
* `utf8_of_ascii`, `Utf8.takeWhile_ne_zero`: ASCII is well formed, and what stands before the first
  NUL is.
* `utf8_flatMap_iff`: ASCII bytes may be replaced by ASCII texts, which changes nothing.
-/

namespace ASky.Lib

/-- The ranges the next bytes must lie in. -/
abbrev Pending := List (UInt8 × UInt8)

/-- A byte that continues a code point. -/
abbrev tail : UInt8 × UInt8 := (0x80, 0xBF)

/-- What must follow the first byte of a code point; `none` if no code point starts with it. -/
def lead (b : UInt8) : Option Pending :=
  if b ≤ 0x7F then some []
  else if 0xC2 ≤ b ∧ b ≤ 0xDF then some [tail]
  else if b = 0xE0 then some [(0xA0, 0xBF), tail]
  else if (0xE1 ≤ b ∧ b ≤ 0xEC) ∨ b = 0xEE ∨ b = 0xEF then some [tail, tail]
  else if b = 0xED then some [(0x80, 0x9F), tail]
  else if b = 0xF0 then some [(0x90, 0xBF), tail, tail]
  else if 0xF1 ≤ b ∧ b ≤ 0xF3 then some [tail, tail, tail]
  else if b = 0xF4 then some [(0x80, 0x8F), tail, tail]
  else none

/-- The automaton reads one byte. -/
def utf8Step : Pending → UInt8 → Option Pending
  | [], b => lead b
  | (lo, hi) :: p, b => if lo ≤ b ∧ b ≤ hi then some p else none

/-- The automaton reads a string. -/
def utf8Run (p : Pending) (s : List UInt8) : Option Pending := s.foldlM utf8Step p

/-- `s` is well-formed UTF-8. -/
def Utf8 (s : List UInt8) : Prop := utf8Run [] s = some []

instance : DecidablePred Utf8 := fun s => inferInstanceAs (Decidable (utf8Run [] s = some []))

@[simp] theorem utf8Run_nil (p : Pending) : utf8Run p [] = some p := rfl

theorem utf8Run_cons (p : Pending) (b : UInt8) (s : List UInt8) :
    utf8Run p (b :: s) = (utf8Step p b).bind fun q => utf8Run q s := rfl

theorem utf8Run_append (p : Pending) (s t : List UInt8) :
    utf8Run p (s ++ t) = (utf8Run p s).bind fun q => utf8Run q t :=
  List.foldlM_append

@[simp] theorem utf8_nil : Utf8 [] := rfl

/-- **A well-formed prefix can be cut off.** -/
theorem Utf8.append_iff {s t : List UInt8} (h : Utf8 s) : Utf8 (s ++ t) ↔ Utf8 t := by
  unfold Utf8 at h ⊢
  rw [utf8Run_append, h, Option.bind_some]

theorem Utf8.append {s t : List UInt8} (hs : Utf8 s) (ht : Utf8 t) : Utf8 (s ++ t) :=
  hs.append_iff.mpr ht

/-! ## ASCII -/

theorem lead_ascii {b : UInt8} (h : b.toNat < 128) : lead b = some [] := by
  have hb : b ≤ 0x7F := by
    rw [UInt8.le_iff_toNat_le]
    exact Nat.le_of_lt_succ h
  unfold lead
  rw [if_pos hb]

theorem utf8_cons_ascii {b : UInt8} (h : b.toNat < 128) (s : List UInt8) :
    Utf8 (b :: s) ↔ Utf8 s := by
  unfold Utf8
  rw [utf8Run_cons, utf8Step, lead_ascii h, Option.bind_some]

theorem utf8_of_ascii {s : List UInt8} (h : ∀ b ∈ s, b.toNat < 128) : Utf8 s := by
  induction s with
  | nil => exact utf8_nil
  | cons b s ih =>
    rw [utf8_cons_ascii (h b List.mem_cons_self)]
    exact ih fun x hx => h x (List.mem_cons_of_mem b hx)

/-- No ASCII byte is in one of the ranges. -/
def Continues (p : Pending) : Prop := ∀ r ∈ p, 128 ≤ r.1.toNat

theorem continues_lead {b : UInt8} {p : Pending} (h : lead b = some p) : Continues p := by
  unfold lead at h
  split_ifs at h <;> simp only [Option.some.injEq] at h <;> subst h <;>
    simp [Continues, tail]

theorem continues_step {p q : Pending} {b : UInt8} (hp : Continues p) (h : utf8Step p b = some q) :
    Continues q := by
  cases p with
  | nil => exact continues_lead h
  | cons r p =>
    rw [utf8Step] at h
    split at h
    · cases h
      exact fun x hx => hp x (List.mem_cons_of_mem r hx)
    · cases h

/-- Inside a code point an ASCII byte is an error. -/
theorem utf8Step_ascii {r : UInt8 × UInt8} {p : Pending} (hp : Continues (r :: p)) {b : UInt8}
    (hb : b.toNat < 128) : utf8Step (r :: p) b = none := by
  have hr := hp r List.mem_cons_self
  rw [utf8Step, if_neg]
  rintro ⟨hle, -⟩
  have hle' := UInt8.le_iff_toNat_le.mp hle
  omega

theorem continues_run {p q : Pending} {s : List UInt8} (hp : Continues p)
    (h : utf8Run p s = some q) : Continues q := by
  induction s generalizing p with
  | nil =>
    cases h
    exact hp
  | cons b s ih =>
    rw [utf8Run_cons] at h
    obtain ⟨r, hr, hrun⟩ := Option.bind_eq_some_iff.mp h
    exact ih (continues_step hp hr) hrun

/-- **ASCII can be cut off at the end.** -/
theorem utf8_append_ascii_iff {s t : List UInt8} (ht : ∀ b ∈ t, b.toNat < 128) :
    Utf8 (s ++ t) ↔ Utf8 s := by
  constructor
  · intro h
    unfold Utf8 at h ⊢
    rw [utf8Run_append] at h
    obtain ⟨q, hq, hrun⟩ := Option.bind_eq_some_iff.mp h
    have hc : Continues q := continues_run (by simp [Continues]) hq
    cases q with
    | nil => exact hq
    | cons r q =>
      cases t with
      | nil => exact absurd hrun (by simp)
      | cons b t =>
        rw [utf8Run_cons, utf8Step_ascii hc (ht b List.mem_cons_self)] at hrun
        cases hrun
  · intro h
    exact h.append (utf8_of_ascii ht)

/-- The part before the first NUL. -/
theorem utf8Run_takeWhile {s : List UInt8} {p : Pending} (hp : Continues p)
    (h : utf8Run p s = some []) : utf8Run p (s.takeWhile (· ≠ 0)) = some [] := by
  induction s generalizing p with
  | nil => exact h
  | cons b s ih =>
    by_cases hb : b = 0
    · subst hb
      rw [List.takeWhile_cons_of_neg (by simp)]
      cases p with
      | nil => rfl
      | cons r p =>
        rw [utf8Run_cons, utf8Step_ascii hp (by decide)] at h
        cases h
    · rw [List.takeWhile_cons_of_pos (by simpa using hb), utf8Run_cons]
      rw [utf8Run_cons] at h
      obtain ⟨q, hq, hrun⟩ := Option.bind_eq_some_iff.mp h
      rw [hq, Option.bind_some]
      exact ih (continues_step hp hq) hrun

theorem Utf8.takeWhile_ne_zero {s : List UInt8} (h : Utf8 s) : Utf8 (s.takeWhile (· ≠ 0)) :=
  utf8Run_takeWhile (by simp [Continues]) h

/-- `f` keeps every byte but some of ASCII, which it replaces by texts of ASCII. -/
def AsciiSubst (f : UInt8 → List UInt8) : Prop :=
  ∀ b, f b = [b] ∨ (b.toNat < 128 ∧ f b ≠ [] ∧ ∀ x ∈ f b, x.toNat < 128)

theorem utf8Run_flatMap {f : UInt8 → List UInt8} (hf : AsciiSubst f) (s : List UInt8) {p : Pending}
    (hp : Continues p) : utf8Run p (s.flatMap f) = some [] ↔ utf8Run p s = some [] := by
  induction s generalizing p with
  | nil => exact Iff.rfl
  | cons b s ih =>
    rw [List.flatMap_cons, utf8Run_append, utf8Run_cons]
    obtain hb | ⟨hb, hne, hascii⟩ := hf b
    · rw [hb, utf8Run_cons]
      simp only [utf8Run_nil]
      cases hq : utf8Step p b with
      | none => exact Iff.rfl
      | some q => exact ih (continues_step hp hq)
    · cases p with
      | nil =>
        have hrun : utf8Run [] (f b) = some [] := utf8_of_ascii hascii
        rw [hrun, utf8Step, lead_ascii hb, Option.bind_some, Option.bind_some]
        exact ih hp
      | cons r p =>
        obtain ⟨x, t, ht⟩ := List.exists_cons_of_ne_nil hne
        have hx : x.toNat < 128 := hascii x (ht ▸ List.mem_cons_self)
        rw [ht, utf8Run_cons, utf8Step_ascii hp hx, utf8Step_ascii hp hb]
        exact Iff.rfl

/-- **Replacing ASCII by ASCII changes nothing.** -/
theorem utf8_flatMap_iff {f : UInt8 → List UInt8} (hf : AsciiSubst f) {s : List UInt8} :
    Utf8 (s.flatMap f) ↔ Utf8 s :=
  utf8Run_flatMap hf s (by simp [Continues])

end ASky.Lib

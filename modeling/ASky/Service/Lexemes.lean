import ASky.Service.Values

/-!
# The scanners of strings and numbers read the grammar

* `stringStep_sound`, `stringStep_complete`: an iteration of `scan_string` reads one `Character`,
  and `scanStringFrom_sound`, `scanStringFrom_complete`: its loop reads `Characters`.
* `NumberTail state bs` is what may follow at a label of `scan_number`. `numberNext_sound` and
  `numberNext_complete` show that the transitions of the labels are those of the grammar, so that
  `scanNumberFrom_sound` and `scanNumberFrom_complete` hold of the loop.
-/

namespace ASky

open Lib

namespace Lexer

/-- The rest of the text behind what was read. -/
theorem Reads.rest_of {l l' : Lexer} {bs rest : Bytes} (hr : Reads l bs l')
    (h : l.rest = bs ++ rest) : l'.rest = rest :=
  List.append_cancel_left (hr.rest_eq.symm.trans h)

/-- A `get` takes the first byte of the rest. -/
theorem get_of_rest {l : Lexer} {b : UInt8} {rest : Bytes} (h : l.rest = b :: rest) :
    ∃ l', l.get = (some b, l') ∧ Reads l [b] l' ∧ l'.rest = rest := by
  have hg : l.get.1 = some b := by rw [get, h]
  refine ⟨l.get.2, by rw [← hg], get_some hg, ?_⟩
  exact (get_some hg).rest_of h

/-! ## Strings -/

/-- The four digits that `get_codepoint` accepts are a `Quad` of their value. -/
theorem quad_of_getCodepoint {l l' : Lexer} {cp : Nat} (h : l.getCodepoint = (some cp, l')) :
    ∃ ds, Quad ds cp ∧ Reads l ds l' := by
  have hstep : ∀ {factor : Nat} {factors : List Nat} {n : Nat} {l : Lexer},
      codepointFrom (factor :: factors) n l = (some cp, l') → ∃ c v l₁,
        hexValue c = some v ∧ Reads l [c] l₁ ∧
          codepointFrom factors (n + v <<< factor) l₁ = (some cp, l') := by
    intro factor factors n l h
    rw [codepointFrom] at h
    cases hg : l.get with
    | mk c l₁ =>
      have hread := get_reads l
      rw [hg] at h hread
      cases c with
      | none => cases h
      | some c =>
        dsimp only at h
        cases hx : hexValue c with
        | none =>
          rw [hx] at h
          cases h
        | some v =>
          rw [hx] at h
          exact ⟨c, v, l₁, hx, hread, h⟩
  obtain ⟨a, w, l₁, ha, hr₁, h₁⟩ := hstep h
  obtain ⟨b, x, l₂, hb, hr₂, h₂⟩ := hstep h₁
  obtain ⟨c, y, l₃, hc, hr₃, h₃⟩ := hstep h₂
  obtain ⟨d, z, l₄, hd, hr₄, h₄⟩ := hstep h₃
  rw [codepointFrom] at h₄
  simp only [Prod.mk.injEq, Option.some.injEq] at h₄
  obtain ⟨hcp, rfl⟩ := h₄
  refine ⟨[a, b, c, d], ⟨a, b, c, d, w, x, y, z, rfl, hexDigit_iff.mpr ha, hexDigit_iff.mpr hb,
    hexDigit_iff.mpr hc, hexDigit_iff.mpr hd, ?_⟩, ((hr₁.trans hr₂).trans hr₃).trans hr₄⟩
  simp only [Nat.shiftLeft_eq] at hcp
  simp only [Nat.ofDigits_cons, Nat.ofDigits_nil]
  omega

/-- The value of a `Quad` is what `get_codepoint` returns. -/
theorem getCodepoint_of_quad {l : Lexer} {ds rest : Bytes} {cp : Nat} (h : Quad ds cp)
    (hl : l.rest = ds ++ rest) : ∃ l', l.getCodepoint = (some cp, l') ∧ Reads l ds l' := by
  obtain ⟨a, b, c, d, w, x, y, z, rfl, ha, hb, hc, hd, rfl⟩ := h
  rw [hexDigit_iff] at ha hb hc hd
  obtain ⟨l₁, hg₁, hr₁, hl₁⟩ := get_of_rest hl
  obtain ⟨l₂, hg₂, hr₂, hl₂⟩ := get_of_rest hl₁
  obtain ⟨l₃, hg₃, hr₃, hl₃⟩ := get_of_rest hl₂
  obtain ⟨l₄, hg₄, hr₄, -⟩ := get_of_rest hl₃
  refine ⟨l₄, ?_, ((hr₁.trans hr₂).trans hr₃).trans hr₄⟩
  simp only [getCodepoint, codepointFrom, hg₁, hg₂, hg₃, hg₄, ha, hb, hc, hd, Nat.shiftLeft_eq,
    Nat.ofDigits_cons, Nat.ofDigits_nil, Prod.mk.injEq, Option.some.injEq, and_true]
  omega

/-- `next_byte_in_range` reads one byte in each of its ranges. -/
theorem forall₂_of_nextByteInRange {p : Pending} {buffer buffer' : Bytes} {l l' : Lexer}
    (h : nextByteInRange p buffer l = (some buffer', l')) :
    ∃ cs, List.Forall₂ (fun r b => r.1 ≤ b ∧ b ≤ r.2) p cs ∧ buffer' = buffer ++ cs ∧
      Reads l cs l' := by
  induction p generalizing buffer l with
  | nil =>
    rw [nextByteInRange] at h
    simp only [Prod.mk.injEq, Option.some.injEq] at h
    obtain ⟨rfl, rfl⟩ := h
    exact ⟨[], .nil, by simp, Reads.refl l⟩
  | cons r p ih =>
    obtain ⟨lo, hi⟩ := r
    rw [nextByteInRange] at h
    cases hg : l.get with
    | mk c l₁ =>
      have hread := get_reads l
      rw [hg] at h hread
      cases c with
      | none => cases h
      | some c =>
        dsimp only at h
        by_cases hin : lo ≤ c ∧ c ≤ hi
        · rw [if_pos hin] at h
          obtain ⟨cs, hcs, rfl, hr⟩ := ih h
          exact ⟨c :: cs, .cons hin hcs, by simp, hread.trans hr⟩
        · rw [if_neg hin] at h
          cases h

/-- Bytes within the ranges are read and added to the buffer. -/
theorem nextByteInRange_of_forall₂ {p : Pending} {cs rest : Bytes}
    (hcs : List.Forall₂ (fun r b => r.1 ≤ b ∧ b ≤ r.2) p cs) (buffer : Bytes) {l : Lexer}
    (hl : l.rest = cs ++ rest) :
    ∃ l', nextByteInRange p buffer l = (some (buffer ++ cs), l') ∧ Reads l cs l' := by
  induction hcs generalizing buffer l with
  | nil => exact ⟨l, by simp [nextByteInRange], Reads.refl l⟩
  | @cons r c p cs hin _ ih =>
    obtain ⟨l₁, hg, hr, hl₁⟩ := get_of_rest hl
    obtain ⟨l', hn, hr'⟩ := ih (buffer ++ [c]) hl₁
    refine ⟨l', ?_, hr.trans hr'⟩
    rw [nextByteInRange, hg]
    dsimp only
    rw [if_pos hin, hn, List.append_assoc]
    rfl

/-- What a step of `scan_string` reads, as a character of the grammar. -/
def StringStep.Sound (buffer : Bytes) (read : Bytes) (l : Lexer) : StringStep → Prop
  | .finished buffer' l' => buffer' = buffer ∧ ∃ bs, read ++ bs = [0x22] ∧ Reads l bs l'
  | .failed _ _ => True
  | .goesOn buffer' l' => ∃ bs added, Character (read ++ bs) added ∧ buffer' = buffer ++ added ∧
      Reads l bs l'

/-- What was read before the lexer `l`. -/
theorem StringStep.Sound.after {buffer read bs : Bytes} {l l' : Lexer} {step : StringStep}
    (h : step.Sound buffer (read ++ bs) l') (hr : Reads l bs l') : step.Sound buffer read l := by
  cases step with
  | finished buffer' l'' =>
    obtain ⟨rfl, bs', heq, hr'⟩ := h
    exact ⟨rfl, bs ++ bs', by rw [← List.append_assoc, heq], hr.trans hr'⟩
  | failed message l'' => trivial
  | goesOn buffer' l'' =>
    obtain ⟨bs', added, hchar, heq, hr'⟩ := h
    exact ⟨bs ++ bs', added, by rw [← List.append_assoc]; exact hchar, heq, hr.trans hr'⟩

/-- Behind the escape of a high surrogate: a pair is the character of both halves. -/
theorem lowSurrogate_sound {ds : Bytes} {cp : Nat} (hq : Quad ds cp)
    (hhigh : 0xD800 ≤ cp ∧ cp ≤ 0xDBFF) (buffer : Bytes) (l : Lexer) :
    (lowSurrogate cp buffer l).Sound buffer (0x5C :: 0x75 :: ds) l := by
  unfold lowSurrogate
  by_cases hb : l.get.1 = some 0x5C
  · rw [if_pos hb]
    by_cases hu : l.get.2.get.1 = some 0x75
    · rw [if_pos hu]
      have hr := (get_some hb).trans (get_some hu)
      cases h2 : l.get.2.get.2.getCodepoint with
      | mk cp2 l2 =>
        cases cp2 with
        | none => trivial
        | some cp2 =>
          dsimp only
          by_cases hlow : 0xDC00 ≤ cp2 ∧ cp2 ≤ 0xDFFF
          · rw [if_pos hlow]
            obtain ⟨ds', hq', hr'⟩ := quad_of_getCodepoint h2
            refine ⟨_, _, ?_, rfl, hr.trans hr'⟩
            obtain ⟨high, rfl⟩ := Nat.exists_eq_add_of_le hhigh.1
            obtain ⟨low, rfl⟩ := Nat.exists_eq_add_of_le hlow.1
            -- the constant that the code subtracts is `0xD800 << 10 + 0xDC00 - 0x10000`
            have hcp : (0xD800 + high) <<< 10 + (0xDC00 + low) - 0x35FDC00 =
                0x10000 + 0x400 * high + low := by
              rw [Nat.shiftLeft_eq]
              omega
            obtain ⟨c, hc⟩ := @exists_char (0x10000 + 0x400 * high + low) (by omega)
            rw [hcp, ← hc, codepointBytes_eq]
            exact .surrogates hq (by omega) hq' (by omega) hc
          · rw [if_neg hlow]
            trivial
    · rw [if_neg hu]
      trivial
  · rw [if_neg hb]
    trivial

/-- Behind `\u`: a scalar value, or a pair of surrogates. -/
theorem unicodeEscape_sound (buffer : Bytes) (l : Lexer) :
    (unicodeEscape buffer l).Sound buffer [0x5C, 0x75] l := by
  unfold unicodeEscape
  cases h1 : l.getCodepoint with
  | mk cp l1 =>
    cases cp with
    | none => trivial
    | some cp =>
      obtain ⟨ds, hq, hr⟩ := quad_of_getCodepoint h1
      dsimp only
      by_cases hhigh : 0xD800 ≤ cp ∧ cp ≤ 0xDBFF
      · rw [if_pos hhigh]
        exact (lowSurrogate_sound hq hhigh buffer l1).after hr
      · rw [if_neg hhigh]
        -- a low surrogate alone is an error
        by_cases hlow : 0xDC00 ≤ cp ∧ cp ≤ 0xDFFF
        · rw [if_pos hlow]
          trivial
        · rw [if_neg hlow]
          have hmax := hq.lt
          obtain ⟨c, rfl⟩ := @exists_char cp (by omega)
          exact ⟨ds, _, .unicode hq, by rw [codepointBytes_eq], hr⟩

/-- Behind a backslash: an escape of the table, or `\u`. -/
theorem escapeSequence_sound (buffer : Bytes) (l : Lexer) :
    (escapeSequence buffer l).Sound buffer [0x5C] l := by
  unfold escapeSequence
  cases hg : l.get with
  | mk c l' =>
    have hread := get_reads l
    rw [hg] at hread
    cases c with
    | none => trivial
    | some c =>
      dsimp only
      cases hs : simpleEscape c with
      | some b => exact ⟨[c], [b], .simple (escapes_iff.mpr hs), rfl, hread⟩
      | none =>
        dsimp only
        by_cases hu : c = 0x75
        · rw [if_pos hu]
          rw [hu] at hread
          exact (unicodeEscape_sound buffer l').after hread
        · rw [if_neg hu]
          trivial

/-- **An iteration of `scan_string` reads a character of the grammar.** -/
theorem stringStep_sound (buffer : Bytes) (l : Lexer) :
    (stringStep buffer l).Sound buffer [] l := by
  unfold stringStep
  cases hg : l.get with
  | mk c l' =>
    have hread := get_reads l
    rw [hg] at hread
    cases c with
    | none => trivial
    | some c =>
      dsimp only
      by_cases hq : c = 0x22
      · rw [if_pos hq]
        exact ⟨rfl, [c], by rw [hq]; rfl, hread⟩
      rw [if_neg hq]
      by_cases hb : c = 0x5C
      · rw [if_pos hb]
        rw [hb] at hread
        exact (escapeSequence_sound buffer l').after hread
      rw [if_neg hb]
      by_cases hctl : c ≤ 0x1F
      · rw [if_pos hctl]
        trivial
      rw [if_neg hctl]
      -- the lead byte says which bytes may follow
      cases hr : rangesAfter c with
      | none => trivial
      | some ranges =>
        dsimp only
        cases hn : nextByteInRange ranges (buffer ++ [c]) l' with
        | mk buffer' l'' =>
          cases buffer' with
          | none => trivial
          | some buffer' =>
            obtain ⟨cs, hcs, rfl, hr'⟩ := forall₂_of_nextByteInRange hn
            refine ⟨c :: cs, c :: cs, .plain hq hb ?_ (rangesAfter_eq c ▸ hr) hcs, by simp,
              hread.trans hr'⟩
            simp only [UInt8.le_iff_toNat_le, UInt8.reduceToNat] at hctl ⊢
            omega

/-- **A character of the grammar is read by one iteration.** -/
theorem stringStep_complete {u a rest : Bytes} (h : Character u a) (buffer : Bytes) {l : Lexer}
    (hl : l.rest = u ++ rest) :
    ∃ l', stringStep buffer l = .goesOn (buffer ++ a) l' ∧ Reads l u l' := by
  cases h with
  | @plain c p cs hquote hbackslash hcontrol hlead htail =>
    obtain ⟨l₁, hg, hr, hl₁⟩ := get_of_rest hl
    obtain ⟨l', hn, hr'⟩ := nextByteInRange_of_forall₂ htail (buffer ++ [c]) hl₁
    refine ⟨l', ?_, hr.trans hr'⟩
    have hctl : ¬ c ≤ 0x1F := by
      simp only [UInt8.le_iff_toNat_le, UInt8.reduceToNat] at hcontrol ⊢
      omega
    rw [stringStep, hg]
    dsimp only
    rw [if_neg hquote, if_neg hbackslash, if_neg hctl, rangesAfter_eq, hlead]
    dsimp only
    rw [hn, List.append_assoc]
    rfl
  | @simple e b hs =>
    rw [escapes_iff] at hs
    obtain ⟨l₁, hg₁, hr₁, hl₁⟩ := get_of_rest hl
    obtain ⟨l₂, hg₂, hr₂, -⟩ := get_of_rest hl₁
    refine ⟨l₂, ?_, hr₁.trans hr₂⟩
    simp [stringStep, hg₁, escapeSequence, hg₂, hs]
  | @unicode ds c hq =>
    obtain ⟨l₁, hg₁, hr₁, hl₁⟩ := get_of_rest hl
    obtain ⟨l₂, hg₂, hr₂, hl₂⟩ := get_of_rest hl₁
    obtain ⟨l₃, hg₃, hr₃⟩ := getCodepoint_of_quad hq hl₂
    refine ⟨l₃, ?_, (hr₁.trans hr₂).trans hr₃⟩
    have hscalar := scalar_char c
    have hhigh : ¬ (0xD800 ≤ c.toNat ∧ c.toNat ≤ 0xDBFF) := by omega
    have hlow : ¬ (0xDC00 ≤ c.toNat ∧ c.toNat ≤ 0xDFFF) := by omega
    have hsimple : simpleEscape 0x75 = none := by decide
    rw [← codepointBytes_eq]
    simp [stringStep, hg₁, escapeSequence, hg₂, hsimple, unicodeEscape, hg₃, hhigh, hlow]
  | @surrogates ds ds' high low c hq hhigh hq' hlow hc =>
    rw [List.append_assoc] at hl
    obtain ⟨l₁, hg₁, hr₁, hl₁⟩ := get_of_rest hl
    obtain ⟨l₂, hg₂, hr₂, hl₂⟩ := get_of_rest hl₁
    obtain ⟨l₃, hg₃, hr₃⟩ := getCodepoint_of_quad hq hl₂
    obtain ⟨l₄, hg₄, hr₄, hl₄⟩ := get_of_rest (hr₃.rest_of hl₂)
    obtain ⟨l₅, hg₅, hr₅, hl₅⟩ := get_of_rest hl₄
    obtain ⟨l₆, hg₆, hr₆⟩ := getCodepoint_of_quad hq' hl₅
    have hreads := (((hr₁.trans hr₂).trans hr₃).trans ((hr₄.trans hr₅).trans hr₆))
    refine ⟨l₆, ?_, hreads⟩
    have hhigh' : 0xD800 ≤ 0xD800 + high ∧ 0xD800 + high ≤ 0xDBFF := by omega
    have hlow' : 0xDC00 ≤ 0xDC00 + low ∧ 0xDC00 + low ≤ 0xDFFF := by omega
    have hsimple : simpleEscape 0x75 = none := by decide
    have hcp : (0xD800 + high) <<< 10 + (0xDC00 + low) - 0x35FDC00 =
        0x10000 + 0x400 * high + low := by
      rw [Nat.shiftLeft_eq]
      omega
    rw [stringStep, hg₁]
    dsimp only
    rw [if_neg (by decide), if_pos rfl, escapeSequence, hg₂]
    dsimp only
    rw [hsimple]
    dsimp only
    rw [if_pos rfl, unicodeEscape, hg₃]
    dsimp only
    rw [if_pos hhigh', lowSurrogate, hg₄]
    dsimp only
    rw [if_pos rfl, hg₅]
    dsimp only
    rw [if_pos rfl, hg₆]
    dsimp only
    rw [if_pos hlow', hcp, ← hc, codepointBytes_eq]

/-- The loop of `scan_string`, from the text it has read to the closing quote. -/
theorem scanStringFrom_sound {fuel : Nat} {buffer s : Bytes} {l l' : Lexer}
    (h : scanStringFrom fuel buffer l = (.valueString s, l')) :
    ∃ t added, Characters t added ∧ s = buffer ++ added ∧ Reads l (t ++ [0x22]) l' := by
  induction fuel generalizing buffer l with
  | zero => cases h
  | succ fuel ih =>
    have hstep := stringStep_sound buffer l
    rw [scanStringFrom] at h
    cases hs : stringStep buffer l with
    | finished buffer' l₁ =>
      rw [hs] at h hstep
      cases h
      obtain ⟨rfl, bs, heq, hr⟩ := hstep
      obtain rfl : bs = [0x22] := heq
      exact ⟨[], [], .nil, by simp, hr⟩
    | failed message l₁ =>
      rw [hs] at h
      cases h
    | goesOn buffer' l₁ =>
      rw [hs] at h hstep
      obtain ⟨u, a, hchar, rfl, hr⟩ := hstep
      obtain ⟨t, added, ht, rfl, hr'⟩ := ih h
      refine ⟨u ++ t, a ++ added, .cons hchar ht, by simp, ?_⟩
      rw [List.append_assoc]
      exact hr.trans hr'

/-- The loop of `scan_string`, from the characters to the string it returns. -/
theorem scanStringFrom_complete {t s rest : Bytes} (h : Characters t s) {fuel : Nat}
    (buffer : Bytes) {l : Lexer} (hl : l.rest = t ++ 0x22 :: rest) (hfuel : l.rest.length < fuel) :
    ∃ l', scanStringFrom fuel buffer l = (.valueString (buffer ++ s), l') ∧
      Reads l (t ++ [0x22]) l' := by
  induction h generalizing fuel buffer l with
  | nil =>
    obtain ⟨l', hg, hr, -⟩ := get_of_rest hl
    obtain ⟨fuel, rfl⟩ := Nat.exists_eq_succ_of_ne_zero (Nat.ne_zero_of_lt hfuel)
    refine ⟨l', ?_, hr⟩
    rw [scanStringFrom, stringStep, hg]
    simp
  | @cons t s u a hchar _ ih =>
    rw [List.append_assoc] at hl
    obtain ⟨fuel, rfl⟩ := Nat.exists_eq_succ_of_ne_zero (Nat.ne_zero_of_lt hfuel)
    obtain ⟨l₁, hs, hr⟩ := stringStep_complete hchar buffer hl
    have hpos : 0 < u.length := by cases hchar <;> simp
    have hlen := hr.length_le
    have hfuel' : l₁.rest.length < fuel := by omega
    obtain ⟨l', hscan, hr'⟩ := ih (buffer ++ a) (hr.rest_of hl) hfuel'
    refine ⟨l', ?_, by rw [List.append_assoc]; exact hr.trans hr'⟩
    rw [scanStringFrom, hs]
    dsimp only
    rw [hscan, List.append_assoc]

/-! ## Numbers -/

/-- What may follow at a label of `scan_number`. -/
def NumberTail : NumberState → Bytes → Prop
  | .minus, bs => ∃ int frac exp, bs = int ++ (frac ++ exp) ∧ IntegerPart int ∧ FractionPart frac ∧
      ExponentPart exp
  | .zero, bs => ∃ frac exp, bs = frac ++ exp ∧ FractionPart frac ∧ ExponentPart exp
  | .any1, bs => ∃ ds frac exp, bs = ds ++ (frac ++ exp) ∧ Digits ds ∧ FractionPart frac ∧
      ExponentPart exp
  | .decimal1, bs => ∃ ds exp, bs = ds ++ exp ∧ Digits ds ∧ ds ≠ [] ∧ ExponentPart exp
  | .decimal2, bs => ∃ ds exp, bs = ds ++ exp ∧ Digits ds ∧ ExponentPart exp
  | .exponent, bs => ∃ sign ds, bs = sign ++ ds ∧ (sign = [] ∨ sign = [0x2B] ∨ sign = [0x2D]) ∧
      Digits ds ∧ ds ≠ []
  | .sign, bs => Digits bs ∧ bs ≠ []
  | .any2, bs => Digits bs

/-- **A transition reads a byte of the grammar.** -/
theorem numberNext_sound {state state' : NumberState} {c : UInt8} {bs : Bytes}
    (h : numberNext state (some c) = .goto state') (ht : NumberTail state' bs) :
    NumberTail state (c :: bs) := by
  unfold numberNext at h
  simp only [Option.some.injEq, Option.any_some] at h
  cases state with
  | minus =>
    dsimp only at h
    split_ifs at h with h0 hd
    · cases h
      obtain ⟨frac, exp, rfl, hf, he⟩ := ht
      exact ⟨[c], frac, exp, rfl, .inl (by rw [h0]), hf, he⟩
    · cases h
      obtain ⟨ds, frac, exp, rfl, hds, hf, he⟩ := ht
      exact ⟨c :: ds, frac, exp, rfl, .inr ⟨c, ds, rfl, h0, digits_cons.mpr ⟨hd, hds⟩⟩, hf, he⟩
  | zero =>
    dsimp only at h
    split_ifs at h with hp he
    · cases h
      obtain ⟨ds, exp, rfl, hds, hne, hexp⟩ := ht
      exact ⟨c :: ds, exp, rfl, .inr ⟨ds, by rw [hp], hds, hne⟩, hexp⟩
    · cases h
      obtain ⟨sign, ds, rfl, hsign, hds, hne⟩ := ht
      exact ⟨[], c :: (sign ++ ds), rfl, .inl rfl,
        .inr ⟨c, sign, ds, rfl, isExponent_iff.mp he, hsign, hds, hne⟩⟩
  | any1 =>
    dsimp only at h
    split_ifs at h with hd hp he
    · cases h
      obtain ⟨ds, frac, exp, rfl, hds, hf, he⟩ := ht
      exact ⟨c :: ds, frac, exp, rfl, digits_cons.mpr ⟨hd, hds⟩, hf, he⟩
    · cases h
      obtain ⟨ds, exp, rfl, hds, hne, hexp⟩ := ht
      exact ⟨[], c :: ds, exp, rfl, digits_nil, .inr ⟨ds, by rw [hp], hds, hne⟩, hexp⟩
    · cases h
      obtain ⟨sign, ds, rfl, hsign, hds, hne⟩ := ht
      exact ⟨[], [], c :: (sign ++ ds), rfl, digits_nil, .inl rfl,
        .inr ⟨c, sign, ds, rfl, isExponent_iff.mp he, hsign, hds, hne⟩⟩
  | decimal1 =>
    dsimp only at h
    split_ifs at h with hd
    cases h
    obtain ⟨ds, exp, rfl, hds, hexp⟩ := ht
    exact ⟨c :: ds, exp, rfl, digits_cons.mpr ⟨hd, hds⟩, by simp, hexp⟩
  | decimal2 =>
    dsimp only at h
    split_ifs at h with hd he
    · cases h
      obtain ⟨ds, exp, rfl, hds, hexp⟩ := ht
      exact ⟨c :: ds, exp, rfl, digits_cons.mpr ⟨hd, hds⟩, hexp⟩
    · cases h
      obtain ⟨sign, ds, rfl, hsign, hds, hne⟩ := ht
      exact ⟨[], c :: (sign ++ ds), rfl, digits_nil,
        .inr ⟨c, sign, ds, rfl, isExponent_iff.mp he, hsign, hds, hne⟩⟩
  | exponent =>
    dsimp only at h
    split_ifs at h with hs hd
    · cases h
      obtain ⟨hds, hne⟩ := ht
      refine ⟨[c], bs, rfl, ?_, hds, hne⟩
      obtain rfl | rfl := hs
      · exact .inr (.inl rfl)
      · exact .inr (.inr rfl)
    · cases h
      exact ⟨[], c :: bs, rfl, .inl rfl, digits_cons.mpr ⟨hd, ht⟩, by simp⟩
  | sign =>
    dsimp only at h
    split_ifs at h with hd
    cases h
    exact ⟨digits_cons.mpr ⟨hd, ht⟩, by simp⟩
  | any2 =>
    dsimp only at h
    split_ifs at h with hd
    cases h
    exact digits_cons.mpr ⟨hd, ht⟩

/-- At a label where the number may end. -/
theorem numberNext_done {state : NumberState} {current : Option UInt8}
    (h : numberNext state current = .done) : NumberTail state [] := by
  unfold numberNext at h
  have hexp : ExponentPart [] := .inl rfl
  have hfrac : FractionPart [] := .inl rfl
  cases state with
  | zero => exact ⟨[], [], rfl, hfrac, hexp⟩
  | any1 => exact ⟨[], [], [], rfl, digits_nil, hfrac, hexp⟩
  | decimal2 => exact ⟨[], [], rfl, digits_nil, hexp⟩
  | any2 => exact digits_nil
  | _ =>
    dsimp only at h
    split_ifs at h

/-- An exponent starts with `e` or `E`. -/
theorem exponentPart_cons {c : UInt8} {bs : Bytes} (h : ExponentPart (c :: bs)) :
    isExponent c = true ∧ NumberTail .exponent bs := by
  obtain h | ⟨e, sign, ds, heq, he, hsign, hds, hne⟩ := h
  · cases h
  · cases heq
    exact ⟨isExponent_iff.mpr he, sign, ds, rfl, hsign, hds, hne⟩

/-- Behind the integer part comes a point, or `e`, or nothing. -/
theorem fractionPart_cons {c : UInt8} {bs frac exp : Bytes} (h : c :: bs = frac ++ exp)
    (hf : FractionPart frac) (he : ExponentPart exp) :
    (c = 0x2E ∧ NumberTail .decimal1 bs) ∨ (isExponent c = true ∧ NumberTail .exponent bs) := by
  obtain rfl | ⟨ds, rfl, hds, hne⟩ := hf
  · rw [List.nil_append] at h
    rw [← h] at he
    exact .inr (exponentPart_cons he)
  · rw [List.cons_append, List.cons.injEq] at h
    exact .inl ⟨h.1, ds, exp, h.2, hds, hne, he⟩

/-- The marks of a fraction and of an exponent differ. -/
theorem isExponent_ne_point {c : UInt8} (h : isExponent c = true) : c ≠ 0x2E := by
  rintro rfl
  simp [isExponent] at h

/-- An `e` ends the digits. -/
theorem isExponent_not_digit {c : UInt8} (h : isExponent c = true) : isDigit c = false := by
  cases hd : isDigit c with
  | false => rfl
  | true => rw [(isDigit_excludes hd).2.1] at h; cases h

/-- **A byte of the grammar has a transition.** -/
theorem numberNext_complete {state : NumberState} {c : UInt8} {bs : Bytes}
    (h : NumberTail state (c :: bs)) :
    ∃ state', numberNext state (some c) = .goto state' ∧ NumberTail state' bs := by
  have hpoint : isDigit 0x2E = false := by decide
  unfold numberNext
  simp only [Option.some.injEq, Option.any_some]
  cases state with
  | minus =>
    obtain ⟨int, frac, exp, heq, hint, hf, he⟩ := h
    obtain rfl | ⟨d, ds, rfl, hne, hds⟩ := hint
    · cases heq
      exact ⟨.zero, by simp, frac, exp, rfl, hf, he⟩
    · cases heq
      have hd := (digits_cons.mp hds).1
      exact ⟨.any1, by simp [hne, hd], ds, frac, exp, rfl, (digits_cons.mp hds).2, hf, he⟩
  | zero =>
    obtain ⟨frac, exp, heq, hf, he⟩ := h
    obtain ⟨rfl, ht⟩ | ⟨hexp, ht⟩ := fractionPart_cons heq hf he
    · exact ⟨.decimal1, by simp, ht⟩
    · exact ⟨.exponent, by simp [hexp, isExponent_ne_point hexp], ht⟩
  | any1 =>
    obtain ⟨ds, frac, exp, heq, hds, hf, he⟩ := h
    -- the byte ends the digits, or is the next of them
    cases ds with
    | nil =>
      rw [List.nil_append] at heq
      obtain ⟨rfl, ht⟩ | ⟨hexp, ht⟩ := fractionPart_cons heq hf he
      · exact ⟨.decimal1, by simp [hpoint], ht⟩
      · exact ⟨.exponent, by simp [hexp, isExponent_ne_point hexp, isExponent_not_digit hexp], ht⟩
    | cons d ds =>
      cases heq
      obtain ⟨hd, hds⟩ := digits_cons.mp hds
      exact ⟨.any1, by simp [hd], ds, frac, exp, rfl, hds, hf, he⟩
  | decimal1 =>
    obtain ⟨ds, exp, heq, hds, hne, he⟩ := h
    cases ds with
    | nil => exact absurd rfl hne
    | cons d ds =>
      cases heq
      obtain ⟨hd, hds⟩ := digits_cons.mp hds
      exact ⟨.decimal2, by simp [hd], ds, exp, rfl, hds, he⟩
  | decimal2 =>
    obtain ⟨ds, exp, heq, hds, he⟩ := h
    cases ds with
    | nil =>
      rw [List.nil_append] at heq
      rw [← heq] at he
      obtain ⟨hexp, ht⟩ := exponentPart_cons he
      exact ⟨.exponent, by simp [hexp, isExponent_not_digit hexp], ht⟩
    | cons d ds =>
      cases heq
      obtain ⟨hd, hds⟩ := digits_cons.mp hds
      exact ⟨.decimal2, by simp [hd], ds, exp, rfl, hds, he⟩
  | exponent =>
    obtain ⟨sign, ds, heq, hsign, hds, hne⟩ := h
    -- no sign, `+` or `-`
    obtain rfl | rfl | rfl := hsign
    · cases ds with
      | nil => exact absurd rfl hne
      | cons d ds =>
        cases heq
        obtain ⟨hd, hds⟩ := digits_cons.mp hds
        have hex := isDigit_excludes hd
        exact ⟨.any2, by simp [hd, hex.2.2.1, hex.2.2.2], hds⟩
    · cases heq
      exact ⟨.sign, by simp, hds, hne⟩
    · cases heq
      exact ⟨.sign, by simp, hds, hne⟩
  | sign =>
    obtain ⟨hd, hds⟩ := digits_cons.mp h.1
    exact ⟨.any2, by simp [hd], hds⟩
  | any2 =>
    obtain ⟨hd, hds⟩ := digits_cons.mp h
    exact ⟨.any2, by simp [hd], hds⟩

/-- No number goes on with the text. -/
def NumberEnd (rest : Bytes) : Prop :=
  ∀ b, rest.head? = some b → isDigit b = false ∧ isMark b = false

/-- Where the number may end and the text does not go on with it, the loop stops. -/
theorem numberNext_end {state : NumberState} {rest : Bytes} (h : NumberTail state [])
    (hend : NumberEnd rest) : numberNext state rest.head? = .done := by
  have hdigit : rest.head?.any isDigit = false := by
    cases hb : rest.head? with
    | none => rfl
    | some b => exact (hend b hb).1
  have hexp : rest.head?.any isExponent = false := by
    cases hb : rest.head? with
    | none => rfl
    | some b => exact (Bool.or_eq_false_iff.mp (hend b hb).2).2
  have hpoint : rest.head? ≠ some 0x2E := by
    intro hb
    exact absurd (hend _ hb).2 (by simp [isMark])
  unfold numberNext
  cases state with
  | zero => simp [hexp, hpoint]
  | any1 => simp [hdigit, hexp, hpoint]
  | decimal2 => simp [hdigit, hexp]
  | any2 => simp [hdigit]
  -- at the other labels more has to come
  | minus =>
    obtain ⟨int, frac, exp, heq, hint, -, -⟩ := h
    have hnil := (List.append_eq_nil_iff.mp heq.symm).1
    obtain hint | ⟨d, ds, hint, -, -⟩ := hint
    · rw [hnil] at hint
      cases hint
    · rw [hnil] at hint
      cases hint
  | decimal1 =>
    obtain ⟨ds, exp, heq, -, hne, -⟩ := h
    exact absurd (List.append_eq_nil_iff.mp heq.symm).1 hne
  | exponent =>
    obtain ⟨sign, ds, heq, -, -, hne⟩ := h
    exact absurd (List.append_eq_nil_iff.mp heq.symm).2 hne
  | sign => exact absurd rfl h.2

/-- A transition changes `number_type` at the beginning of a fraction or an exponent. -/
theorem numberType_goto {state state' : NumberState} {c : UInt8}
    (h : numberNext state (some c) = .goto state') (type : NumberType) :
    numberType state' type = if isMark c then .float else type := by
  have hdigit : isDigit c = true → (if isMark c then NumberType.float else type) = type := by
    intro hd
    have hex := isDigit_excludes hd
    simp [isMark, hex.1, hex.2.1]
  have hpoint : c = 0x2E → (if isMark c then NumberType.float else type) = .float := by
    rintro rfl
    simp [isMark]
  have hexp : isExponent c = true → (if isMark c then NumberType.float else type) = .float := by
    intro he
    simp [isMark, he]
  unfold numberNext at h
  simp only [Option.some.injEq, Option.any_some] at h
  cases state with
  | minus =>
    dsimp only at h
    split_ifs at h with h0 hd
    · cases h
      exact (hdigit (by rw [h0]; decide)).symm
    · cases h
      exact (hdigit hd).symm
  | zero =>
    dsimp only at h
    split_ifs at h with hp he
    · cases h
      exact (hpoint hp).symm
    · cases h
      exact (hexp he).symm
  | any1 =>
    dsimp only at h
    split_ifs at h with hd hp he
    · cases h
      exact (hdigit hd).symm
    · cases h
      exact (hpoint hp).symm
    · cases h
      exact (hexp he).symm
  | decimal1 =>
    dsimp only at h
    split_ifs at h with hd
    cases h
    exact (hdigit hd).symm
  | decimal2 =>
    dsimp only at h
    split_ifs at h with hd he
    · cases h
      exact (hdigit hd).symm
    · cases h
      exact (hexp he).symm
  | exponent =>
    dsimp only at h
    split_ifs at h with hs hd
    · cases h
      rw [if_neg (by obtain rfl | rfl := hs <;> decide)]
      rfl
    · cases h
      exact (hdigit hd).symm
  | sign =>
    dsimp only at h
    split_ifs at h with hd
    cases h
    exact (hdigit hd).symm
  | any2 =>
    dsimp only at h
    split_ifs at h with hd
    cases h
    exact (hdigit hd).symm

/-- The `number_type` after the bytes `bs`. -/
def typeAfter (type : NumberType) (bs : Bytes) : NumberType :=
  if bs.any isMark then .float else type

/-- The type after a byte, and after the rest of the number. -/
theorem typeAfter_goto {state state' : NumberState} {c : UInt8}
    (h : numberNext state (some c) = .goto state') (type : NumberType) (bs : Bytes) :
    typeAfter (numberType state' type) bs = typeAfter type (c :: bs) := by
  unfold typeAfter
  rw [numberType_goto h, List.any_cons]
  by_cases hc : isMark c = true
  · rw [if_pos hc, hc, Bool.true_or, if_pos rfl, ite_self]
  · rw [if_neg hc, Bool.eq_false_iff.mpr hc, Bool.false_or]

/-- `get` looks at the head of the rest. -/
theorem head?_eq_get (l : Lexer) : l.get.1 = l.rest.head? := by
  unfold get
  cases l.rest <;> rfl

/-- The loop of `scan_number` ends behind a number of the grammar. The bytes in its buffer and
the type it has kept are those of the text. -/
theorem scanNumberFrom_sound {fuel : Nat} {state : NumberState} {type : NumberType} {buffer : Bytes}
    {l l' : Lexer} {token : Token} (h : scanNumberFrom fuel state type buffer l = (token, l'))
    (htoken : ∀ message, token ≠ .parseError message) :
    ∃ bs, NumberTail state bs ∧ token = numberToken (typeAfter type bs) (buffer ++ bs) ∧
      Reads l bs l' := by
  induction fuel generalizing state type buffer l with
  | zero =>
    cases h
    exact absurd rfl (htoken _)
  | succ fuel ih =>
    rw [scanNumberFrom] at h
    cases hn : numberNext state l.get.1 with
    | failed message =>
      rw [hn] at h
      cases h
      exact absurd rfl (htoken _)
    | done =>
      rw [hn] at h
      cases h
      exact ⟨[], numberNext_done hn, by simp [typeAfter], Reads.refl _⟩
    | goto state' =>
      rw [hn] at h
      obtain ⟨c, hc, -⟩ := numberNext_goto hn
      obtain ⟨bs, ht, htok, hr⟩ := ih h
      rw [hc] at hn htok
      refine ⟨c :: bs, numberNext_sound hn ht, ?_, (get_some hc).trans hr⟩
      rw [htok, typeAfter_goto hn, List.append_assoc]
      rfl

/-- The loop reads a number of the grammar as far as `NumberEnd` says. -/
theorem scanNumberFrom_complete {fuel : Nat} {state : NumberState} (type : NumberType)
    (buffer : Bytes) {bs rest : Bytes} {l : Lexer} (h : NumberTail state bs)
    (hl : l.rest = bs ++ rest) (hend : NumberEnd rest) (hfuel : l.rest.length < fuel) :
    ∃ l', scanNumberFrom fuel state type buffer l =
        (numberToken (typeAfter type bs) (buffer ++ bs), l') ∧ Reads l bs l' := by
  induction bs generalizing fuel state type buffer l with
  | nil =>
    obtain ⟨fuel, rfl⟩ := Nat.exists_eq_succ_of_ne_zero (Nat.ne_zero_of_lt hfuel)
    refine ⟨l, ?_, Reads.refl l⟩
    rw [scanNumberFrom, head?_eq_get, hl, List.nil_append, numberNext_end h hend]
    simp [typeAfter]
  | cons c bs ih =>
    obtain ⟨fuel, rfl⟩ := Nat.exists_eq_succ_of_ne_zero (Nat.ne_zero_of_lt hfuel)
    obtain ⟨l₁, hg, hr, hl₁⟩ := get_of_rest hl
    obtain ⟨state', hn, ht⟩ := numberNext_complete h
    have hlen := hr.length_le
    have hfuel' : l₁.rest.length < fuel := by
      rw [List.length_singleton] at hlen
      omega
    obtain ⟨l', hscan, hr'⟩ := ih (numberType state' type) (buffer ++ [c]) ht hl₁ hfuel'
    refine ⟨l', ?_, hr.trans hr'⟩
    rw [scanNumberFrom, hg]
    dsimp only
    rw [hn]
    dsimp only [Option.toList_some]
    rw [hscan, typeAfter_goto hn, List.append_assoc]
    rfl

/-- The first byte of a number. -/
def firstState (c : UInt8) : NumberState :=
  if c = 0x2D then .minus else if c = 0x30 then .zero else .any1

/-- A number is its first byte and what may follow. -/
theorem numeric_cons_iff {c : UInt8} {bs : Bytes} :
    Numeric (c :: bs) ↔ (c = 0x2D ∨ isDigit c = true) ∧ NumberTail (firstState c) bs := by
  constructor
  · rintro ⟨sign, int, frac, exp, heq, rfl | rfl, hint, hf, he⟩
    · obtain rfl | ⟨d, ds, rfl, hne, hds⟩ := hint
      · cases heq
        exact ⟨.inr (by decide), frac, exp, rfl, hf, he⟩
      · cases heq
        obtain ⟨hd, hds⟩ := digits_cons.mp hds
        rw [firstState, if_neg (isDigit_excludes hd).2.2.2, if_neg hne]
        exact ⟨.inr hd, ds, frac, exp, rfl, hds, hf, he⟩
    · cases heq
      exact ⟨.inl rfl, int, frac, exp, rfl, hint, hf, he⟩
  · rintro ⟨hc, ht⟩
    by_cases hminus : c = 0x2D
    · rw [firstState, if_pos hminus] at ht
      obtain ⟨int, frac, exp, rfl, hint, hf, he⟩ := ht
      exact ⟨[c], int, frac, exp, rfl, .inr (by rw [hminus]), hint, hf, he⟩
    · have hd := hc.resolve_left hminus
      rw [firstState, if_neg hminus] at ht
      by_cases hzero : c = 0x30
      · rw [if_pos hzero] at ht
        obtain ⟨frac, exp, rfl, hf, he⟩ := ht
        exact ⟨[], [c], frac, exp, rfl, .inl rfl, .inl (by rw [hzero]), hf, he⟩
      · rw [if_neg hzero] at ht
        obtain ⟨ds, frac, exp, rfl, hds, hf, he⟩ := ht
        exact ⟨[], c :: ds, frac, exp, rfl, .inl rfl,
          .inr ⟨c, ds, rfl, hzero, digits_cons.mpr ⟨hd, hds⟩⟩, hf, he⟩

/-- The type that `scan_number` starts with, at the first byte, comes to that of the text. -/
theorem typeAfter_first {c : UInt8} (h : c = 0x2D ∨ isDigit c = true) (bs : Bytes) :
    typeAfter (numberType (firstState c) .unsigned) bs = numberTypeOf (c :: bs) := by
  have hmark : isMark c = false := by
    obtain rfl | hd := h
    · decide
    · have hex := isDigit_excludes hd
      simp [isMark, hex.1, hex.2.1]
  unfold typeAfter numberTypeOf firstState
  simp only [List.any_cons, hmark, Bool.false_or, List.head?_cons, Option.some.injEq]
  by_cases hminus : c = 0x2D
  · rw [if_pos hminus, if_pos hminus]
    rfl
  · rw [if_neg hminus, if_neg hminus]
    split_ifs <;> rfl

end Lexer

end ASky

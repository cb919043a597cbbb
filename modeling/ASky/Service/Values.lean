import ASky.Service.Grammar
import ASky.Service.Parsed

/-!
# The values of the grammar are those of the code

The tables of the grammar against those of the lexer, one lemma each: white space, digits
(`hexDigit_iff`), escapes (`escapes_iff`), the bytes of a code point (`codepointBytes_eq`), numbers
(**`number_iff`**) and the members of an object (`objectSet_lastOfEach`).

A number is split twice: by the grammar into sign, integer, fraction and exponent, and by `strtod`
at its first exponent character and, before that, at its point. `strtodFinite_eq` shows that both
come to one magnitude.
-/

namespace ASky

open Lib

/-! ## Strings -/

/-- The `do`-`while` of `scan` skips what the grammar calls white space. -/
theorem isSpace_iff {b : UInt8} :
    Lexer.isSpace b = true ↔ b = 0x20 ∨ b = 0x09 ∨ b = 0x0A ∨ b = 0x0D := decide_eq_true_iff

theorem Space.isSpace {w : Bytes} (hw : Space w) {b : UInt8} (hb : b ∈ w) :
    Lexer.isSpace b = true := isSpace_iff.mpr (hw b hb)

instance (c : UInt8) (v : Nat) : Decidable (HexDigit c v) :=
  inferInstanceAs (Decidable (_ ∨ _))

/-- The digits of `get_codepoint`, in lower and upper case. Each row of the table is evaluated. -/
theorem hexDigit_iff {c : UInt8} {v : Nat} : HexDigit c v ↔ Lexer.hexValue c = some v := by
  constructor
  · -- the two rows of the table have sixteen digits each
    have htable : ((List.range 16).all fun v => decide
        (((lit "0123456789abcdef")[v]?.any fun c => Lexer.hexValue c = some v) = true ∧
          ((lit "0123456789ABCDEF")[v]?.any fun c => Lexer.hexValue c = some v) = true)) =
        true := by
      decide +kernel
    have hrow : v < 16 → _ := fun hv =>
      of_decide_eq_true (List.all_eq_true.mp htable v (List.mem_range.mpr hv))
    rintro (h | h)
    · have hv : v < 16 := (List.getElem?_eq_some_iff.mp h).1
      simpa [h] using (hrow hv).1
    · have hv : v < 16 := (List.getElem?_eq_some_iff.mp h).1
      simpa [h] using (hrow hv).2
  · intro h
    have htable : ((List.range 256).all fun n =>
        (Lexer.hexValue (UInt8.ofNat n)).all fun v => HexDigit (UInt8.ofNat n) v) = true := by
      decide +kernel
    have hrow := List.all_eq_true.mp htable c.toNat (List.mem_range.mpr c.toNat_lt)
    rw [UInt8.ofNat_toNat, h] at hrow
    exact of_decide_eq_true hrow

theorem Quad.lt {ds : Bytes} {cp : Nat} (h : Quad ds cp) : cp < 0x10000 := by
  obtain ⟨a, b, c, d, w, x, y, z, -, ha, hb, hc, hd, rfl⟩ := h
  have hw := (Lexer.hexValue_spec (hexDigit_iff.mp ha)).1
  have hx := (Lexer.hexValue_spec (hexDigit_iff.mp hb)).1
  have hy := (Lexer.hexValue_spec (hexDigit_iff.mp hc)).1
  have hz := (Lexer.hexValue_spec (hexDigit_iff.mp hd)).1
  simp only [Nat.ofDigits_cons, Nat.ofDigits_nil]
  omega

/-- The `switch` of `scan_string` against the table. -/
theorem escapes_iff {e b : UInt8} : (e, b) ∈ escapes ↔ Lexer.simpleEscape e = some b := by
  constructor
  · intro h
    simp only [escapes, List.mem_cons, Prod.mk.injEq, List.not_mem_nil, or_false] at h
    obtain ⟨rfl, rfl⟩ | ⟨rfl, rfl⟩ | ⟨rfl, rfl⟩ | ⟨rfl, rfl⟩ | ⟨rfl, rfl⟩ | ⟨rfl, rfl⟩ |
      ⟨rfl, rfl⟩ | ⟨rfl, rfl⟩ := h <;> rfl
  · intro h
    unfold Lexer.simpleEscape at h
    split_ifs at h <;> cases h <;> subst_vars <;> simp [escapes]

/-- A `Char` is a code point that is no surrogate. -/
theorem scalar_char (c : Char) : c.toNat < 0xD800 ∨ (0xDFFF < c.toNat ∧ c.toNat < 0x110000) :=
  c.valid

/-- A code point that is no surrogate is a character. -/
theorem exists_char {cp : Nat} (h : cp < 0xD800 ∨ (0xDFFF < cp ∧ cp < 0x110000)) :
    ∃ c : Char, c.toNat = cp := ⟨Char.ofNat cp, by rw [Char.toNat_ofNat, if_pos h]⟩

/-- The bytes of a code point are its UTF-8. -/
theorem codepointBytes_eq (c : Char) :
    Lexer.codepointBytes c.toNat = String.utf8EncodeChar c := by
  have hmax : c.toNat < 0x110000 := by
    have hscalar := scalar_char c
    omega
  -- the marks of the bytes are added to bits that are free
  have htail : ∀ a < 64, 0x80 ||| a = a + 0x80 := by decide
  have htwo : ∀ a < 32, 0xC0 ||| a = a + 0xC0 := by decide
  have hthree : ∀ a < 16, 0xE0 ||| a = a + 0xE0 := by decide
  have hfour : ∀ a < 8, 0xF0 ||| a = a + 0xF0 := by decide
  unfold String.utf8EncodeChar Lexer.codepointBytes
  rw [show c.val.toNat = c.toNat from rfl]
  generalize c.toNat = n at hmax
  simp only [Lexer.and_0x3F, Nat.shiftRight_eq_div_pow, Nat.toUInt8]
  by_cases h1 : n < 0x80
  · have h1' : n ≤ 0x7F := by omega
    rw [if_pos h1, if_pos h1']
  have h1' : ¬ n ≤ 0x7F := by omega
  rw [if_neg h1, if_neg h1']
  by_cases h2 : n ≤ 0x7FF
  · rw [if_pos h2, if_pos h2, htwo _ (by omega), htail _ (by omega),
      Nat.mod_eq_of_lt (a := n / 64) (by omega)]
  rw [if_neg h2, if_neg h2]
  by_cases h3 : n ≤ 0xFFFF
  · rw [if_pos h3, if_pos h3, hthree _ (by omega), htail _ (by omega), htail _ (by omega),
      Nat.mod_eq_of_lt (a := n / 4096) (by omega)]
  · rw [if_neg h3, if_neg h3, hfour _ (by omega), htail _ (by omega), htail _ (by omega),
      htail _ (by omega), Nat.mod_eq_of_lt (a := n / 262144) (by omega)]

/-! ## Numbers -/

theorem isDigit_iff {c : UInt8} : Lexer.isDigit c = true ↔ 0x30 ≤ c ∧ c ≤ 0x39 :=
  decide_eq_true_iff

theorem isExponent_iff {c : UInt8} : Lexer.isExponent c = true ↔ c = 0x65 ∨ c = 0x45 :=
  decide_eq_true_iff

theorem digits_nil : Digits [] := by simp [Digits]

theorem digits_cons {c : UInt8} {ds : Bytes} :
    Digits (c :: ds) ↔ Lexer.isDigit c = true ∧ Digits ds := by
  rw [isDigit_iff]
  exact List.forall_mem_cons

/-- A digit is none of the other bytes of a number. -/
theorem isDigit_excludes {c : UInt8} (h : Lexer.isDigit c = true) :
    c ≠ 0x2E ∧ Lexer.isExponent c = false ∧ c ≠ 0x2B ∧ c ≠ 0x2D := by
  obtain ⟨hlo, hhi⟩ := isDigit_iff.mp h
  simp only [UInt8.le_iff_toNat_le, UInt8.reduceToNat] at hlo hhi
  refine ⟨?_, decide_eq_false ?_, ?_, ?_⟩
  · rintro rfl
    simp at hlo
  · rintro (rfl | rfl)
    · simp at hhi
    · simp at hhi
  · rintro rfl
    simp at hlo
  · rintro rfl
    simp at hlo

/-- An integer part has a digit. -/
theorem IntegerPart.digits {int : Bytes} (h : IntegerPart int) :
    ∃ c ds, int = c :: ds ∧ Digits (c :: ds) := by
  obtain rfl | ⟨c, ds, rfl, -, hds⟩ := h
  · exact ⟨0x30, [], rfl, by simp [Digits]⟩
  · exact ⟨c, ds, rfl, hds⟩

theorem FractionPart.tail {frac : Bytes} (h : FractionPart frac) : Digits frac.tail := by
  obtain rfl | ⟨ds, rfl, hds, -⟩ := h
  · exact digits_nil
  · exact hds

/-- The loop over decimal digits gives the number they stand for. -/
theorem digitsValue_eq (ds : Bytes) : Lexer.digitsValue ds = ofDecimal ds := by
  have hfrom : ∀ n, ds.foldl (fun n c => 10 * n + (c.toNat - 0x30)) n =
      n * 10 ^ ds.length + ofDecimal ds := by
    induction ds with
    | nil => simp [ofDecimal]
    | cons c ds ih =>
      intro n
      rw [List.foldl_cons, ih]
      unfold ofDecimal
      rw [List.reverse_cons, List.map_append, Nat.ofDigits_append, List.length_map,
        List.length_reverse, List.length_cons, pow_succ]
      simp only [List.map_cons, List.map_nil, Nat.ofDigits_singleton]
      ring
  rw [Lexer.digitsValue, hfrom, Nat.zero_mul, Nat.zero_add]

/-- To write digits behind a number shifts it. -/
theorem ofDecimal_append (ds ds' : Bytes) :
    ofDecimal (ds ++ ds') = ofDecimal ds * 10 ^ ds'.length + ofDecimal ds' := by
  unfold ofDecimal
  rw [List.reverse_append, List.map_append, Nat.ofDigits_append, List.length_map,
    List.length_reverse]
  ring

/-- `exponentValue` is given the exponent without its `e`. -/
theorem exponentValue_eq {exp : Bytes} (h : ExponentPart exp) :
    Lexer.exponentValue exp.tail = exponentOf exp := by
  obtain rfl | ⟨e, sign, ds, rfl, -, rfl | rfl | rfl, hds, hne⟩ := h
  · rfl
  · cases ds with
    | nil => exact absurd rfl hne
    | cons d ds =>
      obtain ⟨-, -, hplus, hminus⟩ := isDigit_excludes (digits_cons.mp hds).1
      rw [List.nil_append, List.tail_cons, Lexer.exponentValue, if_neg hminus, if_neg hplus,
        digitsValue_eq]
      unfold exponentOf
      split
      · rename_i heq
        cases heq
      · rename_i heq
        cases heq
        exact absurd rfl hminus
      · rename_i heq
        cases heq
        exact absurd rfl hplus
      · rename_i heq
        cases heq
        rfl
  · rw [List.tail_cons, List.singleton_append, Lexer.exponentValue, digitsValue_eq]
    simp [exponentOf]
  · rw [List.tail_cons, List.singleton_append, Lexer.exponentValue, digitsValue_eq]
    simp [exponentOf]

/-- `m * 10 ^ e` against a natural number, without fractions. -/
theorem decide_scaled (m bound : Nat) (e : Int) :
    (if 0 ≤ e then decide (m * 10 ^ e.toNat < bound) else decide (m < bound * 10 ^ (-e).toNat)) =
      decide ((m : ℚ) * 10 ^ e < bound) := by
  by_cases he : 0 ≤ e
  · obtain ⟨k, rfl⟩ := Int.eq_ofNat_of_zero_le he
    rw [if_pos he, decide_eq_decide, Int.toNat_natCast, zpow_natCast]
    exact_mod_cast Iff.rfl
  · obtain ⟨k, hk⟩ := Int.eq_ofNat_of_zero_le (a := -e) (by omega)
    obtain rfl : e = -(k : Int) := by omega
    rw [if_neg he, decide_eq_decide, neg_neg, Int.toNat_natCast, zpow_neg, zpow_natCast,
      ← div_eq_mul_inv, div_lt_iff₀ (by positivity)]
    exact_mod_cast Iff.rfl

/-- The three parts as one integer and a power of ten, as the lexer model has them. -/
theorem magnitude_eq (int frac exp : Bytes) : magnitude int frac exp =
    ((ofDecimal int * 10 ^ frac.tail.length + ofDecimal frac.tail : Nat) : ℚ) *
      10 ^ (exponentOf exp - frac.tail.length) := by
  unfold magnitude
  rw [zpow_sub₀ (by norm_num), zpow_natCast]
  push_cast
  field_simp

theorem doubleBound_eq : doubleBound = ((2 ^ 1024 - 2 ^ 970 : Nat) : ℚ) := by
  have hle : ∀ {a b : Nat}, a ≤ b → 2 ^ a ≤ 2 ^ b := Nat.pow_le_pow_right two_pos
  rw [Nat.cast_sub (hle (by norm_num)), Nat.cast_pow, Nat.cast_pow]
  rfl

/-- The byte begins a fraction or an exponent. -/
def isMark (c : UInt8) : Bool := decide (c = 0x2E) || Lexer.isExponent c

/-- The `number_type` of a number. -/
def numberTypeOf (bs : Bytes) : Lexer.NumberType :=
  if bs.any isMark then .float else if bs.head? = some 0x2D then .integer else .unsigned

/-- The grammar of numbers, without their values. -/
def Numeric (bs : Bytes) : Prop :=
  ∃ sign int frac exp, bs = sign ++ (int ++ (frac ++ exp)) ∧ (sign = [] ∨ sign = [0x2D]) ∧
    IntegerPart int ∧ FractionPart frac ∧ ExponentPart exp

/-- A list that passes a test, in front of an element that does not. -/
theorem span_append {α : Type} {p : α → Bool} {xs ys : List α} (hx : ∀ x ∈ xs, p x = true)
    (hy : ∀ y, ys.head? = some y → p y = false) : (xs ++ ys).span p = (xs, ys) := by
  rw [List.span_eq_takeWhile_dropWhile, List.takeWhile_append_of_pos hx,
    List.dropWhile_append_of_pos hx]
  cases ys with
  | nil => simp
  | cons y ys => simp [hy y rfl]

theorem isMark_of_isDigit {c : UInt8} (h : Lexer.isDigit c = true) : isMark c = false := by
  have hex := isDigit_excludes h
  simp [isMark, hex.1, hex.2.1]

section Parts

variable {sign int frac exp : Bytes} (hsign : sign = [] ∨ sign = [0x2D]) (hint : IntegerPart int)
  (hfrac : FractionPart frac) (hexp : ExponentPart exp)

include hexp in
/-- An exponent starts with its mark. -/
theorem exponent_head {c : UInt8} (hc : exp.head? = some c) : Lexer.isExponent c = true := by
  obtain rfl | ⟨e, s, ds, rfl, he, -⟩ := hexp
  · cases hc
  · cases hc
    exact isExponent_iff.mpr he

include hfrac in
/-- A fraction starts with the point. -/
theorem fraction_head {c : UInt8} (hc : frac.head? = some c) : c = 0x2E := by
  obtain rfl | ⟨ds, rfl, -⟩ := hfrac
  · cases hc
  · cases hc
    rfl

include hfrac hexp in
/-- A fraction or an exponent begins with a mark. -/
theorem any_isMark (hne : frac ++ exp ≠ []) : (frac ++ exp).any isMark = true := by
  rw [List.any_append, Bool.or_eq_true]
  cases hf : frac with
  | cons c cs =>
    have hc := fraction_head hfrac (by rw [hf, List.head?_cons])
    exact .inl (by simp [isMark, hc])
  | nil =>
    cases he : exp with
    | nil => exact absurd (by rw [hf, he]; rfl) hne
    | cons c cs =>
      have hc := exponent_head hexp (by rw [he, List.head?_cons])
      exact .inr (by simp [isMark, hc])

include hint in
theorem integer_isDigit {c : UInt8} (hc : c ∈ int) : Lexer.isDigit c = true := by
  obtain ⟨d, ds, rfl, hds⟩ := hint.digits
  exact isDigit_iff.mpr (hds c hc)

include hint in
/-- The sign of a number is its first byte, or there is none. -/
theorem head_int (rest : Bytes) : (int ++ rest).head? ≠ some 0x2D := by
  obtain ⟨d, ds, rfl, hds⟩ := hint.digits
  intro hd
  cases hd
  exact (isDigit_excludes (digits_cons.mp hds).1).2.2.2 rfl

include hsign hint in
/-- No mark before the fraction. -/
theorem not_any_isMark : (sign ++ int).any isMark = false := by
  rw [List.any_append, Bool.or_eq_false_iff, List.any_eq_false, List.any_eq_false]
  refine ⟨fun c hc => ?_, fun c hc => ?_⟩
  · obtain rfl | rfl := hsign
    · cases hc
    · rw [List.mem_singleton.mp hc]
      decide
  · rw [isMark_of_isDigit (integer_isDigit hint hc)]
    exact Bool.false_ne_true

include hsign hint hfrac hexp in
/-- The type of a number: the first mark makes it a float, a minus signed. -/
theorem numberTypeOf_parts : numberTypeOf (sign ++ (int ++ (frac ++ exp))) =
    if frac ++ exp = [] then (if sign = [] then .unsigned else .integer) else .float := by
  unfold numberTypeOf
  rw [← List.append_assoc sign int, List.any_append, not_any_isMark hsign hint, Bool.false_or]
  by_cases hne : frac ++ exp = []
  · rw [if_pos hne, hne, List.append_nil, List.any_nil, if_neg Bool.false_ne_true]
    obtain rfl | rfl := hsign
    · have hhead := head_int hint []
      rw [List.append_nil] at hhead
      rw [List.nil_append, if_neg hhead, if_pos rfl]
    · rw [List.singleton_append, List.head?_cons, if_pos rfl, if_neg (List.cons_ne_nil _ _)]
  · rw [if_neg hne, any_isMark hfrac hexp hne, if_pos rfl]

include hsign hint hfrac hexp in
/-- **`strtod` overflows where the magnitude does.** -/
theorem strtodFinite_eq : Lexer.strtodFinite (sign ++ (int ++ (frac ++ exp))) =
    decide (magnitude int frac exp < doubleBound) := by
  have hnumber : (if (sign ++ (int ++ (frac ++ exp))).head? = some 0x2D then
      (sign ++ (int ++ (frac ++ exp))).tail else sign ++ (int ++ (frac ++ exp))) =
      int ++ (frac ++ exp) := by
    obtain rfl | rfl := hsign
    · rw [List.nil_append, if_neg (head_int hint _)]
    · rw [List.singleton_append, List.head?_cons, if_pos rfl, List.tail_cons]
  have hexponent : (int ++ (frac ++ exp)).span (fun c => !Lexer.isExponent c) =
      (int ++ frac, exp) := by
    rw [← List.append_assoc]
    refine span_append (fun c hc => ?_) fun c hc => ?_
    · rw [Bool.not_eq_true']
      obtain hc | hc := List.mem_append.mp hc
      · exact (isDigit_excludes (integer_isDigit hint hc)).2.1
      · obtain rfl | ⟨ds, rfl, hds, -⟩ := hfrac
        · cases hc
        · obtain rfl | hc := List.mem_cons.mp hc
          · rfl
          · exact (isDigit_excludes (isDigit_iff.mpr (hds c hc))).2.1
    · rw [exponent_head hexp hc]
      rfl
  have hpoint : (int ++ frac).span (fun c => c != 0x2E) = (int, frac) := by
    refine span_append (fun c hc => ?_) fun c hc => ?_
    · exact bne_iff_ne.mpr (isDigit_excludes (integer_isDigit hint hc)).1
    · rw [fraction_head hfrac hc]
      rfl
  unfold Lexer.strtodFinite
  rw [hnumber]
  dsimp only
  rw [hexponent]
  dsimp only
  rw [hpoint]
  dsimp only
  rw [exponentValue_eq hexp, digitsValue_eq, ofDecimal_append, decide_scaled, magnitude_eq,
    doubleBound_eq]

end Parts

/-- **The value of a number in the grammar is the one `scan_number` gives it.** -/
theorem number_iff {bs : Bytes} {token : Token} :
    Number bs token ↔ Numeric bs ∧ token = Lexer.numberToken (numberTypeOf bs) bs := by
  constructor
  · intro h
    cases h with
    | unsigned hint hfits =>
      have htype := numberTypeOf_parts (.inl rfl) hint (.inl rfl) (.inl rfl)
      simp only [List.append_nil, List.nil_append, if_true] at htype
      refine ⟨⟨[], bs, [], [], by simp, .inl rfl, hint, .inl rfl, .inl rfl⟩, ?_⟩
      rw [htype, Lexer.numberToken, digitsValue_eq, if_pos hfits]
    | @integer int hint hfits =>
      have htype := numberTypeOf_parts (.inr rfl) hint (.inl rfl) (.inl rfl)
      simp only [List.append_nil, List.singleton_append, if_true, List.cons_ne_nil,
        if_false] at htype
      refine ⟨⟨[0x2D], int, [], [], by simp, .inr rfl, hint, .inl rfl, .inl rfl⟩, ?_⟩
      rw [htype, Lexer.numberToken, List.tail_cons, digitsValue_eq, if_pos hfits]
    | @float sign int frac exp hsign hint hfrac hexp hbig =>
      refine ⟨⟨sign, int, frac, exp, rfl, hsign, hint, hfrac, hexp⟩, ?_⟩
      rw [numberTypeOf_parts hsign hint hfrac hexp, ← strtodFinite_eq hsign hint hfrac hexp]
      by_cases hnil : frac ++ exp = []
      · obtain ⟨rfl, rfl⟩ := List.append_eq_nil_iff.mp hnil
        obtain ⟨hpos, hneg⟩ := hbig rfl rfl
        rw [if_pos hnil, List.append_nil, List.append_nil]
        obtain rfl | rfl := hsign
        · rw [if_pos rfl, Lexer.numberToken, List.nil_append, digitsValue_eq,
            if_neg (Nat.not_lt.mpr (hpos rfl))]
        · rw [if_neg (List.cons_ne_nil _ _), Lexer.numberToken, List.singleton_append,
            List.tail_cons, digitsValue_eq,
            if_neg (Nat.not_le.mpr (hneg (List.cons_ne_nil _ _)))]
      · rw [if_neg hnil, Lexer.numberToken]
  · rintro ⟨⟨sign, int, frac, exp, rfl, hsign, hint, hfrac, hexp⟩, rfl⟩
    have hfloat := Number.float hsign hint hfrac hexp
    rw [← strtodFinite_eq hsign hint hfrac hexp] at hfloat
    rw [numberTypeOf_parts hsign hint hfrac hexp]
    by_cases hnil : frac ++ exp = []
    · obtain ⟨rfl, rfl⟩ := List.append_eq_nil_iff.mp hnil
      rw [if_pos hnil]
      simp only [List.append_nil] at hfloat ⊢
      obtain rfl | rfl := hsign
      · rw [if_pos rfl, Lexer.numberToken, List.nil_append, digitsValue_eq]
        by_cases hfits : ofDecimal int < 2 ^ 64
        · rw [if_pos hfits]
          exact .unsigned hint hfits
        · rw [if_neg hfits]
          exact hfloat fun _ _ => ⟨fun _ => Nat.not_lt.mp hfits, fun hne => absurd rfl hne⟩
      · rw [if_neg (List.cons_ne_nil _ _), Lexer.numberToken, List.singleton_append,
          List.tail_cons, digitsValue_eq]
        by_cases hfits : ofDecimal int ≤ 2 ^ 63
        · rw [if_pos hfits]
          exact .integer hint hfits
        · rw [if_neg hfits]
          exact hfloat fun _ _ => ⟨fun hnil => absurd hnil (List.cons_ne_nil _ _),
            fun _ => Nat.not_le.mp hfits⟩
    · rw [if_neg hnil, Lexer.numberToken]
      refine hfloat fun hf he => absurd ?_ hnil
      rw [hf, he, List.append_nil]

/-! ## Objects -/

@[simp] theorem lastOfEach_nil : lastOfEach [] = [] := rfl

/-- `object[key] = v` after the members `ms`. -/
theorem objectSet_lastOfEach (ms : List (Bytes × Json)) (key : Bytes) (v : Json) :
    objectSet (lastOfEach ms) key v = lastOfEach (ms ++ [(key, v)]) := by
  have hlast : ∀ ms : List (Bytes × Json), (ms ++ [(key, v)]).pwFilter (fun m m' => m.1 ≠ m'.1) =
      ((ms.pwFilter fun m m' => m.1 ≠ m'.1).filter fun m => m.1 ≠ key) ++ [(key, v)] := by
    intro ms
    induction ms with
    | nil => rfl
    | cons m ms ih =>
      -- `m` stays if no later member has its key
      have hmem : (∀ m' ∈ ((ms.pwFilter fun m m' => m.1 ≠ m'.1).filter fun m => m.1 ≠ key) ++
          [(key, v)], m.1 ≠ m'.1) ↔
          m.1 ≠ key ∧ ∀ m' ∈ ms.pwFilter fun m m' => m.1 ≠ m'.1, m.1 ≠ m'.1 := by
        simp only [List.mem_append, List.mem_filter, List.mem_singleton, decide_eq_true_eq]
        constructor
        · intro h
          have hkey : m.1 ≠ key := h _ (.inr rfl)
          refine ⟨hkey, fun m' hm' heq => h m' (.inl ⟨hm', ?_⟩) heq⟩
          exact fun hk => hkey (heq.trans hk)
        · rintro ⟨hkey, h⟩ m' (⟨hm', -⟩ | rfl)
          · exact h m' hm'
          · exact hkey
      rw [← ih] at hmem
      rw [List.cons_append]
      by_cases hlater : ∀ m' ∈ ms.pwFilter fun m m' => m.1 ≠ m'.1, m.1 ≠ m'.1
      · rw [List.pwFilter_cons_of_pos hlater]
        by_cases hkey : m.1 = key
        · rw [List.pwFilter_cons_of_neg fun h => (hmem.mp h).1 hkey, ih,
            List.filter_cons_of_neg (by simpa using hkey)]
        · rw [List.pwFilter_cons_of_pos (hmem.mpr ⟨hkey, hlater⟩), ih,
            List.filter_cons_of_pos (by simpa using hkey), List.cons_append]
      · rw [List.pwFilter_cons_of_neg hlater,
          List.pwFilter_cons_of_neg fun h => hlater (hmem.mp h).2, ih]
  unfold lastOfEach objectSet
  rw [hlast, List.reverse_append, List.filter_reverse]
  rfl

end ASky

import ASky.Service.Lexemes

/-!
# The lexer scans the lexemes of the grammar

`scanRest` is `scan` after the byte order mark. `Consumes l bs l'` is `Reads` without the text that
is kept for error messages, which `reset` clears.

* **`scanRest_sound`**: a token that `scan` returns is white space and a lexeme.
* **`scanRest_complete`**: white space and a lexeme are scanned, if no number goes on behind it.
* `scan_new_sound`, `scan_new_complete`: the first token, with a byte order mark before it.
-/

namespace ASky

namespace Lexer

/-- `scan_literal` returns its token only behind the whole word. -/
theorem scanLiteral_sound {token token' : Token} {text : Bytes} {l l' : Lexer}
    (h : scanLiteral token text l = (token', l'))
    (htoken : ∀ message, token' ≠ .parseError message) : token' = token ∧ Reads l text l' := by
  induction text generalizing l with
  | nil =>
    cases h
    exact ⟨rfl, Reads.refl _⟩
  | cons c text ih =>
    rw [scanLiteral] at h
    by_cases hc : l.get.1 = some c
    · rw [if_pos hc] at h
      obtain ⟨rfl, hr⟩ := ih h
      exact ⟨rfl, (get_some hc).trans hr⟩
    · rw [if_neg hc] at h
      cases h
      exact absurd rfl (htoken _)

/-- The rest of the word is compared byte by byte. -/
theorem scanLiteral_complete (token : Token) {text rest : Bytes} {l : Lexer}
    (hl : l.rest = text ++ rest) :
    ∃ l', scanLiteral token text l = (token, l') ∧ Reads l text l' := by
  induction text generalizing l with
  | nil => exact ⟨l, rfl, Reads.refl l⟩
  | cons c text ih =>
    obtain ⟨l₁, hg, hr, hl₁⟩ := get_of_rest hl
    obtain ⟨l', hscan, hr'⟩ := ih hl₁
    refine ⟨l', ?_, hr.trans hr'⟩
    rw [scanLiteral, hg, if_pos rfl, hscan]

/-- White space is read up to the byte that is returned, or up to the end. -/
theorem skipSpace_sound (fuel : Nat) (l : Lexer) (hfuel : l.rest.length < fuel) :
    ∃ w, Space w ∧ Reads l (w ++ (skipSpace fuel l).1.toList) (skipSpace fuel l).2 ∧
      ((skipSpace fuel l).1 = none → (skipSpace fuel l).2.rest = []) := by
  induction fuel generalizing l with
  | zero => omega
  | succ fuel ih =>
    rw [skipSpace]
    by_cases hs : l.get.1.any isSpace = true
    · rw [if_pos hs]
      obtain ⟨b, hb, hspace⟩ := (Option.any_eq_true _ _).mp hs
      have hr := get_some hb
      have hlen := hr.length_le
      obtain ⟨w, hw, hr', hnone⟩ := ih l.get.2
        (by simp only [List.length_singleton] at hlen; omega)
      refine ⟨b :: w, List.forall_mem_cons.mpr ⟨isSpace_iff.mp hspace, hw⟩, hr.trans hr', hnone⟩
    · rw [if_neg hs]
      refine ⟨[], by simp [Space], get_reads l, fun hnone => ?_⟩
      rw [head?_eq_get, List.head?_eq_none_iff] at hnone
      simp [get, hnone]

/-- White space is skipped as far as it goes; the byte behind it is read. -/
theorem skipSpace_complete {w rest : Bytes} (hw : Space w)
    (hrest : rest.head?.any isSpace = false) {fuel : Nat} {l : Lexer} (hl : l.rest = w ++ rest)
    (hfuel : l.rest.length < fuel) :
    ∃ l', l'.rest = rest ∧ Reads l w l' ∧ skipSpace fuel l = l'.get := by
  induction w generalizing fuel l with
  | nil =>
    obtain ⟨fuel, rfl⟩ := Nat.exists_eq_succ_of_ne_zero (Nat.ne_zero_of_lt hfuel)
    refine ⟨l, hl, Reads.refl l, ?_⟩
    rw [skipSpace, head?_eq_get, hl, List.nil_append, hrest]
    simp
  | cons b w ih =>
    obtain ⟨fuel, rfl⟩ := Nat.exists_eq_succ_of_ne_zero (Nat.ne_zero_of_lt hfuel)
    obtain ⟨hb, hw⟩ := List.forall_mem_cons.mp hw
    obtain ⟨l₁, hg, hr, hl₁⟩ := get_of_rest hl
    have hlen := hr.length_le
    have hfuel' : l₁.rest.length < fuel := by
      rw [List.length_singleton] at hlen
      omega
    obtain ⟨l', hl', hr', hskip⟩ := ih hw hl₁ hfuel'
    refine ⟨l', hl', hr.trans hr', ?_⟩
    rw [skipSpace, hg]
    dsimp only [Option.any_some]
    rw [if_pos (isSpace_iff.mpr hb), hskip]

/-- `scan` after the byte order mark. -/
def scanRest (l : Lexer) : Token × Lexer :=
  scanToken (skipSpace (l.rest.length + 1) l).1 (skipSpace (l.rest.length + 1) l).2

/-- `scan` looks for a byte order mark only at the beginning. -/
theorem scan_of_charsRead {l : Lexer} (h : l.charsRead ≠ 0) : l.scan = l.scanRest := by
  rw [scan, if_neg h, scanRest]

/-- The lexer has read `bs`, whatever it keeps of them for error messages. -/
structure Consumes (l : Lexer) (bs : Bytes) (l' : Lexer) : Prop where
  rest_eq : l.rest = bs ++ l'.rest
  charsRead_le : l.charsRead + bs.length ≤ l'.charsRead

theorem Reads.consumes {l l' : Lexer} {bs : Bytes} (h : Reads l bs l') : Consumes l bs l' := by
  refine ⟨h.rest_eq, ?_⟩
  obtain heq | ⟨-, hle⟩ := h.charsRead_eq
  · exact heq.ge
  · exact hle

theorem Consumes.trans {l l' l'' : Lexer} {bs bs' : Bytes} (h : Consumes l bs l')
    (h' : Consumes l' bs' l'') : Consumes l (bs ++ bs') l'' where
  rest_eq := by rw [h.rest_eq, h'.rest_eq, List.append_assoc]
  charsRead_le := by
    have hle := h.charsRead_le
    have hle' := h'.charsRead_le
    rw [List.length_append]
    omega

/-- The rest of the text behind what was consumed. -/
theorem Consumes.rest_of {l l' : Lexer} {bs rest : Bytes} (hr : Consumes l bs l')
    (h : l.rest = bs ++ rest) : l'.rest = rest :=
  List.append_cancel_left (hr.rest_eq.symm.trans h)

/-- `reset` consumes nothing. -/
theorem Consumes.of_reset {l l' : Lexer} {c : UInt8} {bs : Bytes}
    (h : Consumes (l.reset c) bs l') : Consumes l bs l' :=
  ⟨h.rest_eq, h.charsRead_le⟩

theorem lit_true : lit "true" = 0x74 :: lit "rue" := rfl

theorem lit_false : lit "false" = 0x66 :: lit "alse" := rfl

theorem lit_null : lit "null" = 0x6E :: lit "ull" := rfl

/-- `scan_string` returns a string or an error. -/
theorem scanStringFrom_token {fuel : Nat} {buffer : Bytes} {l l' : Lexer} {token : Token}
    (h : scanStringFrom fuel buffer l = (token, l'))
    (htoken : ∀ message, token ≠ .parseError message) : ∃ s, token = .valueString s := by
  induction fuel generalizing buffer l with
  | zero =>
    cases h
    exact absurd rfl (htoken _)
  | succ fuel ih =>
    rw [scanStringFrom] at h
    cases hs : stringStep buffer l with
    | finished buffer' l₁ =>
      rw [hs] at h
      cases h
      exact ⟨_, rfl⟩
    | failed message l₁ =>
      rw [hs] at h
      cases h
      exact absurd rfl (htoken _)
    | goesOn buffer' l₁ =>
      rw [hs] at h
      exact ih h

/-- **The `switch` of `scan`** returns the lexeme that begins with the byte `c`, or stops at a
NUL. -/
theorem scanToken_sound {c : UInt8} {l l' : Lexer} {token : Token}
    (h : scanToken (some c) l = (token, l')) (htoken : ∀ message, token ≠ .parseError message) :
    (∃ bs, Lexeme (c :: bs) token ∧ Consumes l bs l') ∨ (token = .endOfInput ∧ c = 0x00) := by
  have hnone : Consumes l [] l := (Reads.refl l).consumes
  unfold scanToken at h
  dsimp only at h
  by_cases hopen : c = 0x5B
  · rw [if_pos hopen] at h
    cases h
    exact .inl ⟨[], by rw [hopen]; exact .beginArray, hnone⟩
  rw [if_neg hopen] at h
  by_cases hclose : c = 0x5D
  · rw [if_pos hclose] at h
    cases h
    exact .inl ⟨[], by rw [hclose]; exact .endArray, hnone⟩
  rw [if_neg hclose] at h
  by_cases hbrace : c = 0x7B
  · rw [if_pos hbrace] at h
    cases h
    exact .inl ⟨[], by rw [hbrace]; exact .beginObject, hnone⟩
  rw [if_neg hbrace] at h
  by_cases hendBrace : c = 0x7D
  · rw [if_pos hendBrace] at h
    cases h
    exact .inl ⟨[], by rw [hendBrace]; exact .endObject, hnone⟩
  rw [if_neg hendBrace] at h
  by_cases hcolon : c = 0x3A
  · rw [if_pos hcolon] at h
    cases h
    exact .inl ⟨[], by rw [hcolon]; exact .nameSeparator, hnone⟩
  rw [if_neg hcolon] at h
  by_cases hcomma : c = 0x2C
  · rw [if_pos hcomma] at h
    cases h
    exact .inl ⟨[], by rw [hcomma]; exact .valueSeparator, hnone⟩
  rw [if_neg hcomma] at h
  by_cases htrue : c = 0x74
  · rw [if_pos htrue] at h
    obtain ⟨rfl, hr⟩ := scanLiteral_sound h htoken
    exact .inl ⟨lit "rue", by rw [htrue, ← lit_true]; exact .literalTrue, hr.consumes⟩
  rw [if_neg htrue] at h
  by_cases hfalse : c = 0x66
  · rw [if_pos hfalse] at h
    obtain ⟨rfl, hr⟩ := scanLiteral_sound h htoken
    exact .inl ⟨lit "alse", by rw [hfalse, ← lit_false]; exact .literalFalse, hr.consumes⟩
  rw [if_neg hfalse] at h
  by_cases hnull : c = 0x6E
  · rw [if_pos hnull] at h
    obtain ⟨rfl, hr⟩ := scanLiteral_sound h htoken
    exact .inl ⟨lit "ull", by rw [hnull, ← lit_null]; exact .literalNull, hr.consumes⟩
  rw [if_neg hnull] at h
  by_cases hquote : c = 0x22
  · rw [if_pos hquote] at h
    obtain ⟨s, rfl⟩ := scanStringFrom_token h htoken
    obtain ⟨t, added, ht, rfl, hr⟩ := scanStringFrom_sound h
    exact .inl ⟨t ++ [0x22], by rw [hquote]; exact .string ht, hr.consumes.of_reset⟩
  rw [if_neg hquote] at h
  by_cases hnumber : c = 0x2D ∨ isDigit c
  · rw [if_pos hnumber] at h
    obtain ⟨bs, ht, htok, hr⟩ := scanNumberFrom_sound h htoken
    refine .inl ⟨bs, ?_, hr.consumes.of_reset⟩
    have htype := typeAfter_first hnumber bs
    unfold firstState at htype
    rw [htok, htype]
    exact .number (number_iff.mpr ⟨numeric_cons_iff.mpr ⟨hnumber, ht⟩, rfl⟩)
  rw [if_neg hnumber] at h
  by_cases hnul : c = 0x00
  · rw [if_pos hnul] at h
    cases h
    exact .inr ⟨rfl, hnul⟩
  · rw [if_neg hnul] at h
    cases h
    exact absurd rfl (htoken _)

/-- The first byte of a lexeme is not white space, nor a part of a byte order mark. -/
theorem lexeme_head {bs : Bytes} {token : Token} (h : Lexeme bs token) :
    ∃ c cs, bs = c :: cs ∧ isSpace c = false ∧ c.toNat < 128 := by
  cases h with
  | string ht => exact ⟨_, _, rfl, by decide, by simp⟩
  | number hn =>
    have hn := (number_iff.mp hn).1
    cases bs with
    | nil =>
      obtain ⟨sign, int, frac, exp, heq, -, hint, -, -⟩ := hn
      have hnil := (List.append_eq_nil_iff.mp (List.append_eq_nil_iff.mp heq.symm).2).1
      obtain hint | ⟨d, ds, hint, -, -⟩ := hint
      · rw [hnil] at hint
        cases hint
      · rw [hnil] at hint
        cases hint
    | cons c cs =>
      refine ⟨c, cs, rfl, ?_⟩
      obtain rfl | hd := (numeric_cons_iff.mp hn).1
      · exact ⟨by decide, by simp⟩
      · refine ⟨decide_eq_false ?_, isDigit_ascii hd⟩
        rintro (rfl | rfl | rfl | rfl) <;> exact absurd hd (by decide)
  | literalTrue => exact ⟨_, _, lit_true, by decide, by simp⟩
  | literalFalse => exact ⟨_, _, lit_false, by decide, by simp⟩
  | literalNull => exact ⟨_, _, lit_null, by decide, by simp⟩
  | _ => exact ⟨_, _, rfl, by decide, by simp⟩

/-- The end of the input is no lexeme. -/
theorem lexeme_ne_endOfInput {bs : Bytes} {token : Token} (h : Lexeme bs token) :
    token ≠ .endOfInput := by
  cases h with
  | number hn => cases hn <;> simp
  | _ => simp

/-- The `case` labels of the digits and the minus. -/
theorem scanToken_number {c : UInt8} (h : c = 0x2D ∨ isDigit c = true) (l : Lexer) :
    scanToken (some c) l = l.scanNumber c := by
  have hdigit : isDigit c = true → 0x30 ≤ c.toNat ∧ c.toNat ≤ 0x39 := by
    intro hd
    obtain ⟨hlo, hhi⟩ := of_decide_eq_true hd
    simp only [UInt8.le_iff_toNat_le, UInt8.reduceToNat] at hlo hhi
    exact ⟨hlo, hhi⟩
  have hne : ∀ b : UInt8, b ≠ 0x2D → (b.toNat < 0x30 ∨ 0x39 < b.toNat) → c ≠ b := by
    rintro b hb hrange rfl
    obtain heq | hd := h
    · exact hb heq
    · have := hdigit hd
      omega
  unfold scanToken
  dsimp only
  rw [if_neg (hne _ (by decide) (by simp)), if_neg (hne _ (by decide) (by simp)),
    if_neg (hne _ (by decide) (by simp)), if_neg (hne _ (by decide) (by simp)),
    if_neg (hne _ (by decide) (by simp)), if_neg (hne _ (by decide) (by simp)),
    if_neg (hne _ (by decide) (by simp)), if_neg (hne _ (by decide) (by simp)),
    if_neg (hne _ (by decide) (by simp)), if_neg (hne _ (by decide) (by simp)), if_pos h]

/-- A lexeme is returned by the `switch` of `scan`. -/
theorem scanToken_complete {c : UInt8} {cs rest : Bytes} {token : Token} {l : Lexer}
    (h : Lexeme (c :: cs) token) (hl : l.rest = cs ++ rest)
    (hend : Numeric (c :: cs) → NumberEnd rest) :
    ∃ l', scanToken (some c) l = (token, l') ∧ Consumes l cs l' := by
  have hnone : Consumes l [] l := (Reads.refl l).consumes
  generalize hbs : c :: cs = bs at h
  cases h with
  | literalTrue =>
    rw [lit_true, List.cons.injEq] at hbs
    obtain ⟨rfl, rfl⟩ := hbs
    obtain ⟨l', hscan, hr⟩ := scanLiteral_complete .literalTrue hl
    exact ⟨l', hscan, hr.consumes⟩
  | literalFalse =>
    rw [lit_false, List.cons.injEq] at hbs
    obtain ⟨rfl, rfl⟩ := hbs
    obtain ⟨l', hscan, hr⟩ := scanLiteral_complete .literalFalse hl
    exact ⟨l', hscan, hr.consumes⟩
  | literalNull =>
    rw [lit_null, List.cons.injEq] at hbs
    obtain ⟨rfl, rfl⟩ := hbs
    obtain ⟨l', hscan, hr⟩ := scanLiteral_complete .literalNull hl
    exact ⟨l', hscan, hr.consumes⟩
  | @string t s ht =>
    rw [List.cons.injEq] at hbs
    obtain ⟨rfl, rfl⟩ := hbs
    have hl' : (l.reset 0x22).rest = t ++ 0x22 :: rest := by
      rw [reset, hl, List.append_assoc]
      rfl
    obtain ⟨l', hscan, hr⟩ := scanStringFrom_complete ht [] hl' (Nat.lt_succ_self _)
    exact ⟨l', hscan, hr.consumes.of_reset⟩
  | @number bs token hn =>
    subst hbs
    obtain ⟨hnumeric, rfl⟩ := number_iff.mp hn
    obtain ⟨hc, ht⟩ := numeric_cons_iff.mp hnumeric
    obtain ⟨l', hscan, hr⟩ := scanNumberFrom_complete (numberType (firstState c) .unsigned) [c]
      (l := l.reset c) ht hl (hend hnumeric) (Nat.lt_succ_self _)
    refine ⟨l', ?_, hr.consumes.of_reset⟩
    rw [typeAfter_first hc] at hscan
    rw [scanToken_number hc]
    exact hscan
  | _ =>
    rw [List.cons.injEq] at hbs
    obtain ⟨rfl, rfl⟩ := hbs
    exact ⟨l, rfl, hnone⟩

/-- White space before a token changes nothing. -/
theorem scanRest_skip {w rest : Bytes} (hw : Space w) (hrest : rest.head?.any isSpace = false)
    {l : Lexer} (hl : l.rest = w ++ rest) :
    ∃ l', l'.rest = rest ∧ Consumes l w l' ∧ l.scanRest = l'.scanRest := by
  obtain ⟨l', hl', hr, hskip⟩ := skipSpace_complete hw hrest hl (Nat.lt_succ_self _)
  refine ⟨l', hl', hr.consumes, ?_⟩
  have hget : skipSpace (l'.rest.length + 1) l' = l'.get := by
    rw [skipSpace, head?_eq_get, hl', hrest]
    simp
  rw [scanRest, scanRest, hskip, hget]

/-- **White space and a lexeme are scanned**, if no number goes on behind it. -/
theorem scanRest_complete {w bs rest : Bytes} {token : Token} (hw : Space w) (h : Lexeme bs token)
    (hend : Numeric bs → NumberEnd rest) {l : Lexer} (hl : l.rest = w ++ (bs ++ rest)) :
    ∃ l', l.scanRest = (token, l') ∧ Consumes l (w ++ bs) l' := by
  obtain ⟨c, cs, rfl, hspace, -⟩ := lexeme_head h
  obtain ⟨l₁, hl₁, hr₁, hskip⟩ := skipSpace_complete hw (by simpa using hspace) hl
    (Nat.lt_succ_self _)
  obtain ⟨l₂, hg, hr₂, hl₂⟩ := get_of_rest hl₁
  obtain ⟨l', hscan, hr'⟩ := scanToken_complete h hl₂ hend
  refine ⟨l', ?_, hr₁.consumes.trans (hr₂.consumes.trans hr')⟩
  rw [scanRest, hskip, hg, hscan]

/-- **A token is white space and a lexeme.** At the end of the input the rest is white space, or
has a NUL behind it. -/
theorem scanRest_sound {l l' : Lexer} {token : Token} (h : l.scanRest = (token, l'))
    (htoken : ∀ message, token ≠ .parseError message) :
    ∃ w, Space w ∧ ((∃ bs, Lexeme bs token ∧ Consumes l (w ++ bs) l') ∨
      (token = .endOfInput ∧ ∃ after, l.rest = w ++ after ∧
        (after = [] ∨ after.head? = some 0x00))) := by
  obtain ⟨w, hw, hr, hnone⟩ := skipSpace_sound (l.rest.length + 1) l (Nat.lt_succ_self _)
  rw [scanRest] at h
  refine ⟨w, hw, ?_⟩
  generalize skipSpace (l.rest.length + 1) l = r at h hr hnone
  obtain ⟨c, l₁⟩ := r
  dsimp only at h hr hnone
  cases c with
  | none =>
    cases h
    refine .inr ⟨rfl, [], ?_, .inl rfl⟩
    rw [hr.rest_eq, hnone rfl]
    simp
  | some c =>
    obtain ⟨bs, hlex, hr'⟩ | ⟨rfl, rfl⟩ := scanToken_sound h htoken
    · refine .inl ⟨c :: bs, hlex, ?_⟩
      have hreads := hr.consumes.trans hr'
      rw [List.append_assoc] at hreads
      exact hreads
    · refine .inr ⟨rfl, 0x00 :: l₁.rest, ?_, .inr rfl⟩
      rw [hr.rest_eq, List.append_assoc]
      rfl

/-- White space and the end of the input, or a NUL. -/
theorem scanRest_end {w after : Bytes} (hw : Space w)
    (hafter : after = [] ∨ after.head? = some 0x00) {l : Lexer} (hl : l.rest = w ++ after) :
    l.scanRest.1 = .endOfInput := by
  have hhead : after.head?.any isSpace = false := by
    obtain rfl | h0 := hafter
    · rfl
    · rw [h0]
      decide
  obtain ⟨l₁, hl₁, -, hskip⟩ := skipSpace_complete hw hhead hl (Nat.lt_succ_self _)
  rw [scanRest, hskip, head?_eq_get, hl₁]
  obtain rfl | h0 := hafter
  · rfl
  · rw [h0]
    rfl

/-- **The first token** comes after a byte order mark, which may be missing. -/
theorem scan_new_sound {body : Bytes} {l' : Lexer} {token : Token}
    (h : (new body).scan = (token, l')) (htoken : ∀ message, token ≠ .parseError message) :
    ∃ (bom : Bytes) (l : Lexer), (bom = [] ∨ bom = [0xEF, 0xBB, 0xBF]) ∧ body = bom ++ l.rest ∧
      l.scanRest = (token, l') := by
  have h0 : (new body).charsRead = 0 := rfl
  rw [scan, if_pos h0] at h
  unfold skipBom at h
  by_cases h1 : (new body).get.1 = some 0xEF
  · rw [if_pos h1] at h
    by_cases h2 : (new body).get.2.get.1 = some 0xBB
    · rw [if_pos h2] at h
      by_cases h3 : (new body).get.2.get.2.get.1 = some 0xBF
      · rw [if_pos h3] at h
        have hr := ((get_some h1).trans (get_some h2)).trans (get_some h3)
        exact ⟨_, _, .inr rfl, hr.rest_eq, h⟩
      · rw [if_neg h3] at h
        cases h
        exact absurd rfl (htoken _)
    · rw [if_neg h2] at h
      cases h
      exact absurd rfl (htoken _)
  · rw [if_neg h1] at h
    exact ⟨[], new body, .inl rfl, rfl, h⟩

/-- The first `scan` skips a byte order mark. Without one it puts the first byte back. -/
theorem scan_new_complete {bom rest : Bytes} (hbom : bom = [] ∨ bom = [0xEF, 0xBB, 0xBF])
    (hrest : rest.head? ≠ some 0xEF) :
    ∃ l : Lexer, l.rest = rest ∧ (new (bom ++ rest)).scan = l.scanRest := by
  obtain rfl | rfl := hbom
  · refine ⟨new rest, rfl, ?_⟩
    have h0 : (new rest).charsRead = 0 := rfl
    have hhead : (new rest).get.1 ≠ some 0xEF := by
      rw [head?_eq_get]
      exact hrest
    rw [List.nil_append, scan, if_pos h0, skipBom, if_neg hhead]
    rfl
  · exact ⟨_, rfl, rfl⟩

end Lexer

end ASky

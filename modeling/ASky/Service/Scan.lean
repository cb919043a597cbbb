import ASky.Service.Parser

/-!
# What the lexer has read

`Reads l bs l'` says that the lexer `l'` is `l` after the bytes `bs`, and `Over body l` that `l`
reads the text `body`: what it has read is a well-formed prefix and then `token_string`.

* `stringStep_spec`, `scanNumberFrom_spec`, `scanLiteral_spec`: what each scanner reads for a token
  is well-formed UTF-8, and so is the value of a string, escapes included. A scanner that fails
  has an error message, so it has not run out of fuel.
* **`scan_spec`**: `scan` keeps `Over`, and after every token but `parse_error` the text read so far
  is well formed.
* **`take_charsRead`**: so at a `parse_error` the bytes that are quoted are well formed iff the text
  up to the position that is reported is.
-/

namespace ASky

open Lib

theorem ascii_append {s t : Bytes} (hs : Ascii s) (ht : Ascii t) : Ascii (s ++ t) := by
  intro b hb
  obtain h | h := List.mem_append.mp hb
  · exact hs b h
  · exact ht b h

theorem ascii_singleton {b : UInt8} (h : b.toNat < 128) : Ascii [b] := by
  intro x hx
  rw [List.mem_singleton.mp hx]
  exact h

theorem Ascii.utf8 {s : Bytes} (h : Ascii s) : Utf8 s := utf8_of_ascii h

/-- The bytes `bs` may be read for the token: they are well formed unless it is a `parse_error`. -/
def Token.Read (bs : Bytes) : Token → Prop
  | .parseError message => message ≠ .exhausted
  | .valueString s => Utf8 bs ∧ Utf8 s
  | _ => Utf8 bs

/-- What was read before, in front of what the token was read from. -/
theorem Token.Read.append {s bs : Bytes} {token : Token} (hs : Utf8 s) (h : Token.Read bs token) :
    Token.Read (s ++ bs) token := by
  cases token with
  | parseError message => exact h
  | valueString v => exact ⟨hs.append h.1, h.2⟩
  | _ => exact hs.append h

namespace Lexer

/-! ## Reading -/

/-- The lexer `l'` is `l` after it has read `bs`, and perhaps the end of the input. -/
structure Reads (l : Lexer) (bs : Bytes) (l' : Lexer) : Prop where
  rest_eq : l.rest = bs ++ l'.rest
  tokenString_eq : l'.tokenString = l.tokenString ++ bs
  charsRead_eq : l'.charsRead = l.charsRead + bs.length ∨
    (l'.rest = [] ∧ l.charsRead + bs.length ≤ l'.charsRead)

theorem Reads.refl (l : Lexer) : Reads l [] l := ⟨rfl, by simp, by simp⟩

theorem Reads.trans {l l' l'' : Lexer} {bs bs' : Bytes} (h : Reads l bs l')
    (h' : Reads l' bs' l'') : Reads l (bs ++ bs') l'' where
  rest_eq := by rw [h.rest_eq, h'.rest_eq, List.append_assoc]
  tokenString_eq := by rw [h'.tokenString_eq, h.tokenString_eq, List.append_assoc]
  charsRead_eq := by
    have hc := h.charsRead_eq
    have hc' := h'.charsRead_eq
    have hr := h'.rest_eq
    rw [List.length_append]
    obtain heq | ⟨hnil, hle⟩ := hc
    · obtain heq' | ⟨hnil', hle'⟩ := hc'
      · left
        omega
      · exact .inr ⟨hnil', by omega⟩
    · rw [hnil] at hr
      have hb := List.append_eq_nil_iff.mp hr.symm
      refine .inr ⟨hb.2, ?_⟩
      rw [hb.1] at hc' ⊢
      simp only [List.length_nil] at hc' ⊢
      omega

theorem Reads.length_le {l l' : Lexer} {bs : Bytes} (h : Reads l bs l') :
    l'.rest.length + bs.length = l.rest.length := by
  rw [h.rest_eq, List.length_append, Nat.add_comm]

/-- At the end nothing is read; only `chars_read_total` goes up. -/
theorem get_none {l : Lexer} (h : l.get.1 = none) : Reads l [] l.get.2 := by
  unfold get at h ⊢
  cases hr : l.rest with
  | nil => exact ⟨by simp [hr], by simp, by simp⟩
  | cons b rest =>
    rw [hr] at h
    cases h

/-- One byte is read, and appended to `token_string`. -/
theorem get_some {l : Lexer} {b : UInt8} (h : l.get.1 = some b) : Reads l [b] l.get.2 := by
  unfold get at h ⊢
  cases hr : l.rest with
  | nil =>
    rw [hr] at h
    cases h
  | cons c rest =>
    rw [hr] at h
    cases h
    exact ⟨hr, rfl, .inl rfl⟩

/-- Whatever `get` returns, it has read it. -/
theorem get_reads (l : Lexer) : Reads l l.get.1.toList l.get.2 := by
  cases h : l.get.1 with
  | none => exact get_none h
  | some b => exact get_some h

/-! ## Strings -/

/-- The `case` labels of `scan_string` are the table of well-formed UTF-8. -/
theorem rangesAfter_eq (c : UInt8) : rangesAfter c = lead c := rfl

/-- A hexadecimal digit is less than 16, and ASCII. -/
theorem hexValue_spec {c : UInt8} {v : Nat} (h : hexValue c = some v) : v ≤ 15 ∧ c.toNat < 128 := by
  unfold hexValue at h
  simp only [UInt8.le_iff_toNat_le, UInt8.reduceToNat] at h
  split_ifs at h <;> rw [← Option.some.inj h] <;> omega

/-- Four hexadecimal digits are ASCII, and give at most `0xFFFF`. -/
theorem codepointFrom_spec (factors : List Nat) (codepoint : Nat) (l : Lexer) :
    ∃ bs, Reads l bs (codepointFrom factors codepoint l).2 ∧
      ∀ v, (codepointFrom factors codepoint l).1 = some v →
        Ascii bs ∧ v ≤ codepoint + (factors.map (15 <<< ·)).sum := by
  induction factors generalizing codepoint l with
  | nil =>
    refine ⟨[], Reads.refl l, fun v hv => ⟨by simp [Ascii], ?_⟩⟩
    rw [← Option.some.inj hv]
    simp
  | cons factor factors ih =>
    rw [codepointFrom]
    cases hg : l.get with
    | mk c l' =>
      have hread := get_reads l
      rw [hg] at hread
      cases c with
      | none => exact ⟨_, hread, by simp⟩
      | some c =>
        dsimp only
        cases hx : hexValue c with
        | none => exact ⟨_, hread, by simp⟩
        | some x =>
          obtain ⟨hx15, hascii⟩ := hexValue_spec hx
          obtain ⟨bs, hbs, hspec⟩ := ih (codepoint + x <<< factor) l'
          refine ⟨_, hread.trans hbs, fun v hv => ?_⟩
          obtain ⟨ha, hle⟩ := hspec v hv
          refine ⟨ascii_append (ascii_singleton hascii) ha, ?_⟩
          have hshift : x <<< factor ≤ 15 <<< factor := by
            rw [Nat.shiftLeft_eq, Nat.shiftLeft_eq]
            exact Nat.mul_le_mul_right _ hx15
          rw [List.map_cons, List.sum_cons]
          omega

/-- `get_codepoint` reads four ASCII bytes and returns a number of 16 bits. -/
theorem getCodepoint_spec (l : Lexer) :
    ∃ bs, Reads l bs l.getCodepoint.2 ∧
      ∀ v, l.getCodepoint.1 = some v → Ascii bs ∧ v ≤ 0xFFFF :=
  codepointFrom_spec [12, 8, 4, 0] 0 l

/-- Bytes in the ranges complete a code point. -/
theorem nextByteInRange_spec (ranges : Pending) (buffer : Bytes) (l : Lexer) :
    ∃ bs, Reads l bs (nextByteInRange ranges buffer l).2 ∧
      ∀ buffer', (nextByteInRange ranges buffer l).1 = some buffer' →
        buffer' = buffer ++ bs ∧ utf8Run ranges bs = some [] := by
  induction ranges generalizing buffer l with
  | nil =>
    refine ⟨[], Reads.refl l, fun buffer' hb => ⟨?_, rfl⟩⟩
    rw [← Option.some.inj hb, List.append_nil]
  | cons r ranges ih =>
    obtain ⟨lo, hi⟩ := r
    rw [nextByteInRange]
    cases hg : l.get with
    | mk c l' =>
      have hread := get_reads l
      rw [hg] at hread
      cases c with
      | none => exact ⟨_, hread, by simp⟩
      | some c =>
        dsimp only
        by_cases hin : lo ≤ c ∧ c ≤ hi
        · rw [if_pos hin]
          obtain ⟨bs, hbs, hspec⟩ := ih (buffer ++ [c]) l'
          refine ⟨_, hread.trans hbs, fun buffer' hb => ?_⟩
          obtain ⟨heq, hrun⟩ := hspec buffer' hb
          refine ⟨by rw [heq, List.append_assoc]; rfl, ?_⟩
          show utf8Run ((lo, hi) :: ranges) (c :: bs) = some []
          rw [utf8Run_cons, utf8Step, if_pos hin, Option.bind_some, hrun]
        · rw [if_neg hin]
          exact ⟨_, hread, by simp⟩

/-! ### The bytes of an escaped code point -/

theorem and_0x3F (x : Nat) : x &&& 0x3F = x % 64 := Nat.and_two_pow_sub_one_eq_mod x 6

/-- The last byte of a code point is a continuation byte. -/
theorem utf8Run_last {z : Nat} (hz : z < 64) :
    utf8Run [tail] [(0x80 ||| z).toUInt8] = some [] := by
  have htable : ∀ z < 64, utf8Run [tail] [(0x80 ||| z).toUInt8] = some [] := by decide +kernel
  exact htable z hz

/-- So is the one before. -/
theorem utf8Run_second_last {y : Nat} (hy : y < 64) :
    utf8Run [tail, tail] [(0x80 ||| y).toUInt8] = some [tail] := by
  have htable : ∀ y < 64, utf8Run [tail, tail] [(0x80 ||| y).toUInt8] = some [tail] := by
    decide +kernel
  exact htable y hy

/-- The lead byte of two: `0xC0` and `0xC1` would be overlong. -/
theorem utf8Run_two {a : Nat} (ha : 2 ≤ a) (ha' : a < 32) :
    utf8Run [] [(0xC0 ||| a).toUInt8] = some [tail] := by
  have htable : ∀ a < 32, 2 ≤ a → utf8Run [] [(0xC0 ||| a).toUInt8] = some [tail] := by
    decide +kernel
  exact htable a ha' ha

/-- The first two of three bytes: neither overlong nor a surrogate. -/
theorem utf8Run_three {a y : Nat} (ha : a < 16) (hy : y < 64) (h0 : a = 0 → 32 ≤ y)
    (h13 : a = 13 → y < 32) :
    utf8Run [] [(0xE0 ||| a).toUInt8, (0x80 ||| y).toUInt8] = some [tail] := by
  have htable : ∀ a < 16, ∀ y < 64, (a = 0 ∧ y < 32) ∨ (a = 13 ∧ 32 ≤ y) ∨
      utf8Run [] [(0xE0 ||| a).toUInt8, (0x80 ||| y).toUInt8] = some [tail] := by decide +kernel
  obtain h | h | h := htable a ha y hy
  · omega
  · omega
  · exact h

/-- The first two of four bytes: neither overlong nor above `U+10FFFF`. -/
theorem utf8Run_four {a y : Nat} (ha : a < 5) (hy : y < 64) (h0 : a = 0 → 16 ≤ y)
    (h4 : a = 4 → y < 16) :
    utf8Run [] [(0xF0 ||| a).toUInt8, (0x80 ||| y).toUInt8] = some [tail, tail] := by
  have htable : ∀ a < 5, ∀ y < 64, (a = 0 ∧ y < 16) ∨ (a = 4 ∧ 16 ≤ y) ∨
      utf8Run [] [(0xF0 ||| a).toUInt8, (0x80 ||| y).toUInt8] = some [tail, tail] := by
    decide +kernel
  obtain h | h | h := htable a ha y hy
  · omega
  · omega
  · exact h

/-- Two runs one after the other. -/
theorem utf8Run_of_append {p q r : Pending} {s t : Bytes} (hs : utf8Run p s = some q)
    (ht : utf8Run q t = some r) : utf8Run p (s ++ t) = some r := by
  rw [utf8Run_append, hs, Option.bind_some, ht]

/-- **A code point that is no surrogate is written as UTF-8.** -/
theorem utf8_codepointBytes {cp : Nat} (hmax : cp ≤ 0x10FFFF)
    (hsur : ¬ (0xD800 ≤ cp ∧ cp ≤ 0xDFFF)) : Utf8 (codepointBytes cp) := by
  unfold codepointBytes
  simp only [and_0x3F, Nat.shiftRight_eq_div_pow]
  split_ifs with h1 h2 h3
  · refine utf8_of_ascii fun b hb => ?_
    rw [List.mem_singleton.mp hb, Nat.toUInt8, UInt8.toNat_ofNat']
    omega
  · exact utf8Run_of_append (utf8Run_two (by omega) (by omega)) (utf8Run_last (by omega))
  · exact utf8Run_of_append
      (utf8Run_three (by omega) (by omega) (by omega) (by omega)) (utf8Run_last (by omega))
  · exact utf8Run_of_append
      (utf8Run_of_append (utf8Run_four (by omega) (by omega) (by omega) (by omega))
        (utf8Run_second_last (by omega))) (utf8Run_last (by omega))

/-! ### The loop -/

/-- What an iteration from `l` on has read, at least `n` bytes if the loop goes on. -/
def StringStep.Spec (n : Nat) (buffer : Bytes) (l : Lexer) : StringStep → Prop
  | .finished buffer' l' => buffer' = buffer ∧ ∃ bs, Reads l bs l' ∧ Utf8 bs
  | .failed message l' => message ≠ .exhausted ∧ ∃ bs, Reads l bs l'
  | .goesOn buffer' l' => ∃ bs added, Reads l bs l' ∧ Utf8 bs ∧ n ≤ bs.length ∧
      buffer' = buffer ++ added ∧ Utf8 added

/-- ASCII may come before. -/
theorem StringStep.Spec.after {n : Nat} {buffer bs : Bytes} {l l' : Lexer} {step : StringStep}
    (h : step.Spec n buffer l') (hr : Reads l bs l') (ha : Ascii bs) :
    step.Spec (bs.length + n) buffer l := by
  cases step with
  | finished buffer' l'' =>
    obtain ⟨hb, bs', hr', hu⟩ := h
    exact ⟨hb, _, hr.trans hr', ha.utf8.append hu⟩
  | failed message l'' =>
    obtain ⟨hne, bs', hr'⟩ := h
    exact ⟨hne, _, hr.trans hr'⟩
  | goesOn buffer' l'' =>
    obtain ⟨bs', added, hr', hu, hn, hb, hadd⟩ := h
    refine ⟨_, added, hr.trans hr', ha.utf8.append hu, ?_, hb, hadd⟩
    rw [List.length_append]
    omega

/-- A step that makes more progress than asked for. -/
theorem StringStep.Spec.mono {m n : Nat} {buffer : Bytes} {l : Lexer} {step : StringStep}
    (h : step.Spec n buffer l) (hmn : m ≤ n) : step.Spec m buffer l := by
  cases step with
  | finished buffer' l' => exact h
  | failed message l' => exact h
  | goesOn buffer' l' =>
    obtain ⟨bs, added, hr, hu, hn, hb, hadd⟩ := h
    exact ⟨bs, added, hr, hu, hmn.trans hn, hb, hadd⟩

/-- The second half of a surrogate pair. -/
theorem lowSurrogate_spec {cp1 : Nat} (hhigh : 0xD800 ≤ cp1 ∧ cp1 ≤ 0xDBFF) (buffer : Bytes)
    (l : Lexer) : (lowSurrogate cp1 buffer l).Spec 0 buffer l := by
  unfold lowSurrogate
  by_cases hb : l.get.1 = some 0x5C
  · have hr := get_some hb
    rw [if_pos hb]
    by_cases hu : l.get.2.get.1 = some 0x75
    · have hr' := hr.trans (get_some hu)
      rw [if_pos hu]
      obtain ⟨bs, hbs, hcp⟩ := getCodepoint_spec l.get.2.get.2
      cases h2 : l.get.2.get.2.getCodepoint with
      | mk cp2 l2 =>
        rw [h2] at hbs hcp
        cases cp2 with
        | none => exact ⟨by simp, _, hr'.trans hbs⟩
        | some cp2 =>
          obtain ⟨ha, -⟩ := hcp cp2 rfl
          dsimp only
          by_cases hlow : 0xDC00 ≤ cp2 ∧ cp2 ≤ 0xDFFF
          · rw [if_pos hlow]
            have hascii : Ascii ([0x5C] ++ [0x75] ++ bs) := ascii_append (by simp [Ascii]) ha
            refine ⟨_, _, hr'.trans hbs, hascii.utf8, Nat.zero_le _, rfl, ?_⟩
            rw [Nat.shiftLeft_eq]
            exact utf8_codepointBytes (by omega) (by omega)
          · rw [if_neg hlow]
            exact ⟨by simp, _, hr'.trans hbs⟩
    · rw [if_neg hu]
      exact ⟨by simp, _, hr.trans (get_reads _)⟩
  · rw [if_neg hb]
    exact ⟨by simp, _, get_reads l⟩

/-- Behind `\u`: four digits, or two times four. -/
theorem unicodeEscape_spec (buffer : Bytes) (l : Lexer) :
    (unicodeEscape buffer l).Spec 0 buffer l := by
  unfold unicodeEscape
  obtain ⟨bs, hbs, hcp⟩ := getCodepoint_spec l
  cases h1 : l.getCodepoint with
  | mk cp1 l1 =>
    rw [h1] at hbs hcp
    cases cp1 with
    | none => exact ⟨nofun, bs, hbs⟩
    | some cp1 =>
      obtain ⟨ha, hle⟩ := hcp cp1 rfl
      dsimp only
      by_cases hhigh : 0xD800 ≤ cp1 ∧ cp1 ≤ 0xDBFF
      · rw [if_pos hhigh]
        exact ((lowSurrogate_spec hhigh buffer l1).after hbs ha).mono (Nat.zero_le _)
      · rw [if_neg hhigh]
        by_cases hlow : 0xDC00 ≤ cp1 ∧ cp1 ≤ 0xDFFF
        · rw [if_pos hlow]
          exact ⟨nofun, bs, hbs⟩
        · rw [if_neg hlow]
          exact ⟨bs, _, hbs, ha.utf8, Nat.zero_le _, rfl, utf8_codepointBytes (by omega) (by omega)⟩

/-- The escapes of one byte, as written and as read. -/
theorem simpleEscape_ascii {c b : UInt8} (h : simpleEscape c = some b) :
    c.toNat < 128 ∧ b.toNat < 128 := by
  unfold simpleEscape at h
  split_ifs at h <;> (simp only [Option.some.injEq] at h; subst_vars; simp)

/-- Behind a backslash. -/
theorem escapeSequence_spec (buffer : Bytes) (l : Lexer) :
    (escapeSequence buffer l).Spec 0 buffer l := by
  unfold escapeSequence
  cases hg : l.get with
  | mk c l' =>
    have hread := get_reads l
    rw [hg] at hread
    cases c with
    | none => exact ⟨nofun, _, hread⟩
    | some c =>
      dsimp only
      cases hs : simpleEscape c with
      | some b =>
        obtain ⟨hc, hb⟩ := simpleEscape_ascii hs
        exact ⟨_, [b], hread, (ascii_singleton hc).utf8, Nat.zero_le _, rfl,
          (ascii_singleton hb).utf8⟩
      | none =>
        dsimp only
        by_cases hu : c = 0x75
        · rw [if_pos hu]
          have ha : Ascii (some c).toList := by simp [hu, Ascii]
          exact ((unicodeEscape_spec buffer l').after hread ha).mono (Nat.zero_le _)
        · rw [if_neg hu]
          exact ⟨nofun, _, hread⟩

/-- **One iteration of `scan_string`**: what it reads and what it adds is well formed. -/
theorem stringStep_spec (buffer : Bytes) (l : Lexer) : (stringStep buffer l).Spec 1 buffer l := by
  unfold stringStep
  cases hg : l.get with
  | mk c l' =>
    have hread := get_reads l
    rw [hg] at hread
    cases c with
    | none => exact ⟨by simp, _, hread⟩
    | some c =>
      dsimp only
      by_cases hq : c = 0x22
      · rw [if_pos hq]
        have ha : Ascii (some c).toList := by simp [hq, Ascii]
        exact ⟨rfl, _, hread, ha.utf8⟩
      rw [if_neg hq]
      by_cases hb : c = 0x5C
      · rw [if_pos hb]
        have ha : Ascii (some c).toList := by simp [hb, Ascii]
        exact (escapeSequence_spec buffer l').after hread ha
      rw [if_neg hb]
      by_cases hctl : c ≤ 0x1F
      · rw [if_pos hctl]
        exact ⟨by simp, _, hread⟩
      rw [if_neg hctl]
      cases hr : rangesAfter c with
      | none => exact ⟨by simp, _, hread⟩
      | some ranges =>
        dsimp only
        obtain ⟨bs, hbs, hspec⟩ := nextByteInRange_spec ranges (buffer ++ [c]) l'
        cases hn : nextByteInRange ranges (buffer ++ [c]) l' with
        | mk buffer' l'' =>
          rw [hn] at hbs hspec
          cases buffer' with
          | none => exact ⟨by simp, _, hread.trans hbs⟩
          | some buffer' =>
            obtain ⟨heq, hrun⟩ := hspec buffer' rfl
            have hutf8 : Utf8 (c :: bs) := by
              rw [rangesAfter_eq] at hr
              rw [Utf8, utf8Run_cons, utf8Step, hr, Option.bind_some, hrun]
            refine ⟨_, c :: bs, hread.trans hbs, hutf8, by simp, ?_, hutf8⟩
            rw [heq, List.append_assoc]
            rfl

/-- The loop of `scan_string`: each round reads at least one byte, so the fuel is enough. -/
theorem scanStringFrom_spec (fuel : Nat) (buffer : Bytes) (l : Lexer) (hfuel : l.rest.length < fuel)
    (hb : Utf8 buffer) :
    ∃ bs, Reads l bs (scanStringFrom fuel buffer l).2 ∧
      Token.Read bs (scanStringFrom fuel buffer l).1 := by
  induction fuel generalizing buffer l with
  | zero => omega
  | succ fuel ih =>
    rw [scanStringFrom]
    have hstep := stringStep_spec buffer l
    cases hs : stringStep buffer l with
    | finished buffer' l' =>
      rw [hs] at hstep
      obtain ⟨rfl, bs, hr, hu⟩ := hstep
      exact ⟨bs, hr, hu, hb⟩
    | failed message l' =>
      rw [hs] at hstep
      obtain ⟨hne, bs, hr⟩ := hstep
      exact ⟨bs, hr, hne⟩
    | goesOn buffer' l' =>
      rw [hs] at hstep
      obtain ⟨bs, added, hr, hu, hn, rfl, hadd⟩ := hstep
      have hlen := hr.length_le
      obtain ⟨bs', hr', hread⟩ := ih (buffer ++ added) l' (by omega) (hb.append hadd)
      exact ⟨_, hr.trans hr', hread.append hu⟩

/-! ## Numbers, literals and white space -/

theorem isDigit_ascii {c : UInt8} (h : isDigit c = true) : c.toNat < 128 := by
  have hle := UInt8.le_iff_toNat_le.mp (of_decide_eq_true h).2
  simp only [UInt8.reduceToNat] at hle
  omega

theorem isExponent_ascii {c : UInt8} (h : isExponent c = true) : c.toNat < 128 := by
  obtain rfl | rfl := of_decide_eq_true h <;> simp

/-- The byte is there, and it is ASCII. -/
def AsciiByte (c : Option UInt8) : Prop := ∃ b, c = some b ∧ b.toNat < 128

/-- A test that only ASCII passes. -/
theorem asciiByte_of_any {p : UInt8 → Bool} (hp : ∀ b, p b = true → b.toNat < 128)
    {c : Option UInt8} (h : c.any p = true) : AsciiByte c := by
  cases c with
  | none => cases h
  | some b => exact ⟨b, rfl, hp b h⟩

theorem asciiByte_of_eq {c : Option UInt8} {b : UInt8} (h : c = some b) (hb : b.toNat < 128) :
    AsciiByte c :=
  ⟨b, h, hb⟩

/-- A byte that `scan_number` adds is ASCII. -/
theorem numberNext_goto {state state' : NumberState} {c : Option UInt8}
    (h : numberNext state c = .goto state') : AsciiByte c := by
  have hdigit := asciiByte_of_any @isDigit_ascii (c := c)
  have hexp := asciiByte_of_any @isExponent_ascii (c := c)
  have hpoint : c = some 0x2E → AsciiByte c := fun h => asciiByte_of_eq h (by simp)
  unfold numberNext at h
  cases state with
  | minus =>
    dsimp only at h
    split_ifs at h with h1 h2
    · exact asciiByte_of_eq h1 (by simp)
    · exact hdigit h2
  | zero =>
    dsimp only at h
    split_ifs at h with h1 h2
    · exact hpoint h1
    · exact hexp h2
  | any1 =>
    dsimp only at h
    split_ifs at h with h1 h2 h3
    · exact hdigit h1
    · exact hpoint h2
    · exact hexp h3
  | decimal1 =>
    dsimp only at h
    split_ifs at h with h1
    exact hdigit h1
  | decimal2 =>
    dsimp only at h
    split_ifs at h with h1 h2
    · exact hdigit h1
    · exact hexp h2
  | exponent =>
    dsimp only at h
    split_ifs at h with h1 h2
    · obtain h1 | h1 := h1
      · exact asciiByte_of_eq h1 (by simp)
      · exact asciiByte_of_eq h1 (by simp)
    · exact hdigit h2
  | sign =>
    dsimp only at h
    split_ifs at h with h1
    exact hdigit h1
  | any2 =>
    dsimp only at h
    split_ifs at h with h1
    exact hdigit h1

/-- No transition of `scan_number` runs out of fuel. -/
theorem numberNext_failed {state : NumberState} {c : Option UInt8} {message : ErrorMessage}
    (h : numberNext state c = .failed message) : message ≠ .exhausted := by
  unfold numberNext at h
  rintro rfl
  cases state <;> dsimp only at h <;> split_ifs at h <;> cases h

/-- A number that is scanned to its end is no error and no string. -/
theorem numberToken_read (type : NumberType) {bs : Bytes} (hbs : Utf8 bs) (buffer : Bytes) :
    Token.Read bs (numberToken type buffer) := by
  unfold numberToken
  cases type with
  | unsigned =>
    dsimp only
    split <;> exact hbs
  | integer =>
    dsimp only
    split <;> exact hbs
  | float => exact hbs

/-- The loop of `scan_number`: each transition reads one byte. -/
theorem scanNumberFrom_spec (fuel : Nat) (state : NumberState) (type : NumberType) (buffer : Bytes)
    (l : Lexer) (hfuel : l.rest.length < fuel) :
    ∃ bs, Reads l bs (scanNumberFrom fuel state type buffer l).2 ∧
      Token.Read bs (scanNumberFrom fuel state type buffer l).1 := by
  induction fuel generalizing state type buffer l with
  | zero => omega
  | succ fuel ih =>
    rw [scanNumberFrom]
    cases hn : numberNext state l.get.1 with
    | failed message => exact ⟨_, get_reads l, numberNext_failed hn⟩
    | done => exact ⟨[], Reads.refl l, numberToken_read type utf8_nil buffer⟩
    | goto state' =>
      obtain ⟨b, hb, hascii⟩ := numberNext_goto hn
      have hr := get_some hb
      have hlen := hr.length_le
      obtain ⟨bs, hbs, hread⟩ := ih state' (numberType state' type) (buffer ++ l.get.1.toList)
        l.get.2 (by simp only [List.length_singleton] at hlen; omega)
      exact ⟨_, hr.trans hbs, hread.append (ascii_singleton hascii).utf8⟩

/-- `scan_literal` has read ASCII when it returns its token. -/
theorem scanLiteral_spec {token : Token} (ht : ∀ bs, Utf8 bs → Token.Read bs token) (text : Bytes)
    (ha : Ascii text) (l : Lexer) :
    ∃ bs, Reads l bs (scanLiteral token text l).2 ∧ Token.Read bs (scanLiteral token text l).1 := by
  induction text generalizing l with
  | nil => exact ⟨[], Reads.refl l, ht [] utf8_nil⟩
  | cons c text ih =>
    rw [scanLiteral]
    by_cases hc : l.get.1 = some c
    · rw [if_pos hc]
      obtain ⟨bs, hbs, hread⟩ := ih (fun b hb => ha b (List.mem_cons_of_mem c hb)) l.get.2
      exact ⟨_, (get_some hc).trans hbs,
        hread.append (ascii_singleton (ha c List.mem_cons_self)).utf8⟩
    · rw [if_neg hc]
      exact ⟨_, get_reads l, nofun⟩

theorem isSpace_ascii {c : UInt8} (h : isSpace c = true) : c.toNat < 128 := by
  obtain rfl | rfl | rfl | rfl := of_decide_eq_true h <;> simp

/-- White space is skipped up to the next byte, or up to the end of the input. -/
theorem skipSpace_spec (fuel : Nat) (l : Lexer) (hfuel : l.rest.length < fuel) :
    ∃ space, Ascii space ∧
      Reads l (space ++ (skipSpace fuel l).1.toList) (skipSpace fuel l).2 := by
  induction fuel generalizing l with
  | zero => omega
  | succ fuel ih =>
    rw [skipSpace]
    by_cases hs : l.get.1.any isSpace = true
    · rw [if_pos hs]
      obtain ⟨b, hb, hascii⟩ := asciiByte_of_any @isSpace_ascii hs
      have hr := get_some hb
      have hlen := hr.length_le
      obtain ⟨space, ha, hr'⟩ := ih l.get.2
        (by simp only [List.length_singleton] at hlen; omega)
      refine ⟨[b] ++ space, ascii_append (ascii_singleton hascii) ha, ?_⟩
      rw [List.append_assoc]
      exact hr.trans hr'
    · rw [if_neg hs]
      exact ⟨[], by simp [Ascii], get_reads l⟩

/-! ## Tokens -/

/-- The lexer reads `body`: before `token_string` it has read a well-formed text. -/
def Over (body : Bytes) (l : Lexer) : Prop :=
  ∃ before, Utf8 before ∧ body = before ++ (l.tokenString ++ l.rest) ∧
    (l.charsRead = before.length + l.tokenString.length ∨
      (l.rest = [] ∧ before.length + l.tokenString.length ≤ l.charsRead))

theorem over_new (body : Bytes) : Over body (new body) := ⟨[], utf8_nil, rfl, .inl rfl⟩

/-- Reading on stays within the text. -/
theorem Over.reads {body bs : Bytes} {l l' : Lexer} (h : Over body l) (hr : Reads l bs l') :
    Over body l' := by
  obtain ⟨before, hu, hbody, hchars⟩ := h
  have hlen := hr.charsRead_eq
  refine ⟨before, hu, ?_, ?_⟩
  · rw [hbody, hr.rest_eq, hr.tokenString_eq, List.append_assoc]
  · rw [hr.tokenString_eq, List.length_append]
    obtain heq | ⟨hnil, hle⟩ := hchars
    · obtain heq' | ⟨hnil', hle'⟩ := hlen
      · left
        omega
      · exact .inr ⟨hnil', by omega⟩
    · have hr' := hr.rest_eq
      rw [hnil] at hr'
      refine .inr ⟨(List.append_eq_nil_iff.mp hr'.symm).2, ?_⟩
      omega

/-- `reset` puts what was read before the token to the text before it. -/
theorem Over.reset {body ts : Bytes} {l : Lexer} {c : UInt8} (h : Over body l)
    (hts : l.tokenString = ts ++ [c]) (hu : Utf8 ts) : Over body (l.reset c) := by
  obtain ⟨before, hb, hbody, hchars⟩ := h
  refine ⟨before ++ ts, hb.append hu, ?_, ?_⟩
  · rw [hbody, hts]
    simp [Lexer.reset]
  · rw [hts, List.length_append] at hchars
    rw [List.length_append]
    simp only [Lexer.reset, List.length_singleton] at hchars ⊢
    omega

/-- **What is quoted at a `parse_error` is well formed iff the text up to the position is.** -/
theorem take_charsRead {body : Bytes} {l : Lexer} (h : Over body l) :
    Utf8 (body.take l.charsRead) ↔ Utf8 l.tokenString := by
  obtain ⟨before, hu, hbody, hchars⟩ := h
  have htake : body.take l.charsRead = before ++ l.tokenString := by
    rw [hbody, ← List.append_assoc]
    obtain heq | ⟨hnil, hle⟩ := hchars
    · rw [heq, ← List.length_append, List.take_left]
    · rw [hnil, List.append_nil, List.take_of_length_le]
      rw [List.length_append]
      exact hle
  rw [htake, hu.append_iff]

/-- The result of `scan` from the lexer `l`. -/
structure Scanned (body : Bytes) (l : Lexer) (r : Token × Lexer) : Prop where
  reading : Over body r.2
  read : Token.Read r.2.tokenString r.1
  le : r.2.rest.length ≤ l.rest.length
  lt : r.1 ≠ .endOfInput → (∀ message, r.1 ≠ .parseError message) → r.2.rest.length < l.rest.length

/-- A token that reads `bs` after its first byte, from a lexer `l'` whose `token_string` is well
formed. -/
theorem scanned_of_reads {body bs : Bytes} {l l' : Lexer} {r : Token × Lexer} (h : Over body l')
    (hu : Utf8 l'.tokenString) (hlt : l'.rest.length < l.rest.length) (hr : Reads l' bs r.2)
    (hread : Token.Read bs r.1) : Scanned body l r where
  reading := h.reads hr
  read := by
    rw [hr.tokenString_eq]
    exact hread.append hu
  le := by
    have := hr.length_le
    omega
  lt _ _ := by
    have := hr.length_le
    omega

/-- `scan_string`, from the quote on. -/
theorem scanString_spec (l : Lexer) :
    ∃ bs, Reads (l.reset 0x22) bs l.scanString.2 ∧ Token.Read bs l.scanString.1 :=
  scanStringFrom_spec (l.rest.length + 1) [] (l.reset 0x22) (Nat.lt_succ_self _) utf8_nil

/-- `scan_number`, from its first byte on. -/
theorem scanNumber_spec (c : UInt8) (l : Lexer) :
    ∃ bs, Reads (l.reset c) bs (l.scanNumber c).2 ∧ Token.Read bs (l.scanNumber c).1 :=
  scanNumberFrom_spec (l.rest.length + 1) _ _ [c] (l.reset c) (Nat.lt_succ_self _)

/-- The `switch` of `scan`, after white space and the byte `c`. -/
theorem scanToken_some {body ts : Bytes} {l l' : Lexer} {c : UInt8} (h : Over body l')
    (hts : l'.tokenString = ts ++ [c]) (hu : Utf8 ts) (hlt : l'.rest.length < l.rest.length) :
    Scanned body l (scanToken (some c) l') := by
  have hquoted : c.toNat < 128 → Utf8 l'.tokenString := by
    intro hc
    rw [hts]
    exact hu.append (ascii_singleton hc).utf8
  have hplain : ∀ {token : Token}, c.toNat < 128 → (∀ bs, Utf8 bs → Token.Read bs token) →
      Scanned body l (token, l') := by
    intro token hc htok
    exact scanned_of_reads h (hquoted hc) hlt (Reads.refl l') (htok [] utf8_nil)
  have hliteral : ∀ {token : Token} {text : Bytes}, c.toNat < 128 → Ascii text →
      (∀ bs, Utf8 bs → Token.Read bs token) → Scanned body l (scanLiteral token text l') := by
    intro token text hc htext htok
    obtain ⟨bs, hr, hread⟩ := scanLiteral_spec htok text htext l'
    exact scanned_of_reads h (hquoted hc) hlt hr hread
  have hreset : ∀ {bs : Bytes} {r : Token × Lexer}, c.toNat < 128 → Reads (l'.reset c) bs r.2 →
      Token.Read bs r.1 → Scanned body l r := by
    intro bs r hc hr hread
    exact scanned_of_reads (h.reset hts hu) (ascii_singleton hc).utf8 hlt hr hread
  unfold scanToken
  dsimp only
  by_cases hopen : c = 0x5B
  · rw [if_pos hopen]
    exact hplain (by simp [hopen]) fun _ hbs => hbs
  rw [if_neg hopen]
  by_cases hclose : c = 0x5D
  · rw [if_pos hclose]
    exact hplain (by simp [hclose]) fun _ hbs => hbs
  rw [if_neg hclose]
  by_cases hbrace : c = 0x7B
  · rw [if_pos hbrace]
    exact hplain (by simp [hbrace]) fun _ hbs => hbs
  rw [if_neg hbrace]
  by_cases hend : c = 0x7D
  · rw [if_pos hend]
    exact hplain (by simp [hend]) fun _ hbs => hbs
  rw [if_neg hend]
  by_cases hcolon : c = 0x3A
  · rw [if_pos hcolon]
    exact hplain (by simp [hcolon]) fun _ hbs => hbs
  rw [if_neg hcolon]
  by_cases hcomma : c = 0x2C
  · rw [if_pos hcomma]
    exact hplain (by simp [hcomma]) fun _ hbs => hbs
  rw [if_neg hcomma]
  by_cases htrue : c = 0x74
  · rw [if_pos htrue]
    exact hliteral (by simp [htrue]) (printable_lit rfl).ascii fun _ hbs => hbs
  rw [if_neg htrue]
  by_cases hfalse : c = 0x66
  · rw [if_pos hfalse]
    exact hliteral (by simp [hfalse]) (printable_lit rfl).ascii fun _ hbs => hbs
  rw [if_neg hfalse]
  by_cases hnull : c = 0x6E
  · rw [if_pos hnull]
    exact hliteral (by simp [hnull]) (printable_lit rfl).ascii fun _ hbs => hbs
  rw [if_neg hnull]
  by_cases hquote : c = 0x22
  · rw [if_pos hquote]
    obtain ⟨bs, hr, hread⟩ := scanString_spec l'
    rw [← hquote] at hr
    exact hreset (by simp [hquote]) hr hread
  rw [if_neg hquote]
  by_cases hnumber : c = 0x2D ∨ isDigit c
  · rw [if_pos hnumber]
    obtain ⟨bs, hr, hread⟩ := scanNumber_spec c l'
    refine hreset ?_ hr hread
    obtain hminus | hdigit := hnumber
    · simp [hminus]
    · exact isDigit_ascii hdigit
  rw [if_neg hnumber]
  by_cases hnul : c = 0x00
  · rw [if_pos hnul]
    exact hplain (by simp [hnul]) fun _ hbs => hbs
  · rw [if_neg hnul]
    exact ⟨h, nofun, hlt.le, fun _ hno => absurd rfl (hno _)⟩

/-- The rest of `scan`, after the byte order mark. -/
theorem scanToken_skipSpace {body : Bytes} {l : Lexer} (h : Over body l) (hu : Utf8 l.tokenString) :
    Scanned body l (scanToken (skipSpace (l.rest.length + 1) l).1
      (skipSpace (l.rest.length + 1) l).2) := by
  obtain ⟨space, ha, hr⟩ := skipSpace_spec (l.rest.length + 1) l (Nat.lt_succ_self _)
  generalize skipSpace (l.rest.length + 1) l = s at hr ⊢
  obtain ⟨c, l'⟩ := s
  have hlen := hr.length_le
  have hquote := hr.tokenString_eq
  rw [List.length_append] at hlen
  dsimp only at hr hlen hquote ⊢
  cases c with
  | none =>
    refine ⟨h.reads hr, ?_, by dsimp only [scanToken]; omega, fun hno => absurd rfl hno⟩
    change Utf8 l'.tokenString
    rw [hquote]
    exact hu.append (by simpa using ha.utf8)
  | some c =>
    rw [← List.append_assoc] at hquote
    exact scanToken_some (h.reads hr) hquote (hu.append ha.utf8)
      (by simp only [Option.toList_some, List.length_singleton] at hlen; omega)

/-- `skip_bom` has read the whole mark, or nothing, when it returns true. -/
theorem skipBom_spec (l : Lexer) :
    ∃ bs, Reads l bs l.skipBom.2 ∧ (l.skipBom.1 = true → Utf8 bs) := by
  unfold skipBom
  split_ifs with h1 h2 h3
  · exact ⟨_, ((get_some h1).trans (get_some h2)).trans (get_some h3), fun _ => by decide⟩
  · exact ⟨_, ((get_some h1).trans (get_some h2)).trans (get_reads _), nofun⟩
  · exact ⟨_, (get_some h1).trans (get_reads _), nofun⟩
  · exact ⟨[], Reads.refl l, fun _ => utf8_nil⟩

/-- **`scan` keeps track of the text**, and what it has read is well formed unless it returns a
`parse_error`. -/
theorem scan_spec {body : Bytes} {l : Lexer} (h : Over body l) (hu : Utf8 l.tokenString) :
    Scanned body l l.scan := by
  unfold scan
  by_cases h0 : l.charsRead = 0
  · rw [if_pos h0]
    obtain ⟨bs, hr, hbom⟩ := skipBom_spec l
    cases hs : l.skipBom with
    | mk ok l' =>
      rw [hs] at hr hbom
      have hlen := hr.length_le
      cases ok with
      | false =>
        exact ⟨h.reads hr, nofun, by dsimp only at hlen ⊢; omega,
          fun _ hno => absurd rfl (hno _)⟩
      | true =>
        have hu' : Utf8 l'.tokenString := by
          rw [hr.tokenString_eq]
          exact hu.append (hbom rfl)
        have hscan := scanToken_skipSpace (h.reads hr) hu'
        have hle : l'.rest.length ≤ l.rest.length := by dsimp only at hlen; omega
        exact ⟨hscan.reading, hscan.read, hscan.le.trans hle,
          fun hend herr => (hscan.lt hend herr).trans_le hle⟩
  · rw [if_neg h0]
    exact scanToken_skipSpace h hu

end Lexer

end ASky

import ASky.Service.Scan

/-!
# What the parser returns and throws

`parserStep_spec` is one iteration of `sax_parse_internal`, and `saxParseInternal_spec` the whole
loop: it returns or throws within its fuel. Every iteration reads at least one byte, takes a token
that ends the loop, or goes from a token to the evaluation of its value; `ParserMode.size` counts
that.

* **`jsonParse_ok`**: the strings of a value that is returned are well-formed UTF-8.
* **`jsonParse_error`**: the text of an exception is well-formed UTF-8 exactly when the lexer did
  not refuse the body, or refused it after a well-formed part of it. The texts of all other errors
  name tokens and quote at most a number.
-/

namespace ASky

open Lib

/-! ## Texts -/

theorem Printable.utf8 {s : Bytes} (h : Printable s) : Utf8 s := h.ascii.utf8

/-- The text `s` is `t` between two printable texts. -/
def Quotes (t s : Bytes) : Prop :=
  ∃ before after, Printable before ∧ Printable after ∧ s = before ++ t ++ after

/-- A text quotes itself. -/
theorem Quotes.refl (t : Bytes) : Quotes t t := ⟨[], [], printable_nil, printable_nil, by simp⟩

theorem Quotes.prepend {p t s : Bytes} (hp : Printable p) (h : Quotes t s) :
    Quotes t (p ++ s) := by
  obtain ⟨before, after, hb, ha, rfl⟩ := h
  exact ⟨p ++ before, after, hp.append hb, ha, by simp only [List.append_assoc]⟩

theorem Quotes.append {p t s : Bytes} (h : Quotes t s) (hp : Printable p) :
    Quotes t (s ++ p) := by
  obtain ⟨before, after, hb, ha, rfl⟩ := h
  exact ⟨before, after ++ p, hb, ha.append hp, by simp only [List.append_assoc]⟩

/-- A quotation is well formed iff what it quotes is. -/
theorem Quotes.utf8_cStr_iff {t s : Bytes} (h : Quotes t s) (ht : (0 : UInt8) ∉ t) :
    Utf8 (cStr s) ↔ Utf8 t := by
  obtain ⟨before, after, hb, ha, rfl⟩ := h
  have h0 : (0 : UInt8) ∉ before ++ t ++ after := by
    intro hmem
    obtain hmem | hmem := List.mem_append.mp hmem
    · obtain hmem | hmem := List.mem_append.mp hmem
      · exact absurd (hb 0 hmem).1 (by simp)
      · exact ht hmem
    · exact absurd (ha 0 hmem).1 (by simp)
  rw [cStr_eq_self_iff.mpr h0, utf8_append_ascii_iff ha.ascii, hb.utf8.append_iff]

theorem printable_name (type : TokenType) : Printable type.name := by
  cases type <;> exact printable_lit rfl

theorem printable_text (message : ErrorMessage) : Printable message.text := by
  cases message with
  | exhausted => exact printable_nil
  | _ => exact printable_lit rfl

theorem printable_decimal (n : Nat) : Printable (decimal n) := by
  unfold decimal
  by_cases hn : n = 0
  · rw [if_pos hn]
    simp [Printable]
  · rw [if_neg hn]
    intro b hb
    obtain ⟨d, hd, rfl⟩ := List.mem_map.mp hb
    have hlt := Nat.digits_lt_base (by norm_num : 1 < 10) (List.mem_reverse.mp hd)
    have htoNat : (0x30 + d).toUInt8.toNat = 0x30 + d := by
      simp only [Nat.toUInt8, UInt8.toNat_ofNat']
      omega
    omega

namespace Lexer

theorem quoteByte_subst : AsciiSubst quoteByte := by
  intro b
  unfold quoteByte
  by_cases hb : b ≤ 0x1F
  · rw [if_pos hb]
    have hle := UInt8.le_iff_toNat_le.mp hb
    simp only [UInt8.reduceToNat] at hle
    exact .inr ⟨by omega, by decide, (printable_lit rfl).ascii⟩
  · rw [if_neg hb]
    exact .inl rfl

/-- `get_token_string` is well formed iff the bytes it writes are. -/
theorem utf8_getTokenString_iff (l : Lexer) : Utf8 l.getTokenString ↔ Utf8 l.tokenString :=
  utf8_flatMap_iff quoteByte_subst

theorem zero_notMem_getTokenString (l : Lexer) : (0 : UInt8) ∉ l.getTokenString := by
  intro h
  obtain ⟨b, -, hb⟩ := List.mem_flatMap.mp h
  unfold quoteByte at hb
  by_cases hle : b ≤ 0x1F
  · rw [if_pos hle] at hb
    exact absurd (printable_lit rfl 0 hb).1 (by simp)
  · rw [if_neg hle] at hb
    rw [← List.mem_singleton.mp hb] at hle
    exact hle (by decide)

end Lexer

/-! ## Exceptions -/

/-- What the texts of the exception are made of. -/
def Failure.Spec (body : Bytes) : Failure → Prop
  | .unexpected lastToken l _ => l.Over body ∧ lastToken.Read l.tokenString
  | .overflow l => Utf8 l.tokenString

/-- `ParseError` is one of two exceptions with a text. -/
def ParseError.what : ParseError → Bytes
  | .parseError what => what
  | .outOfRange what => what

/-- The position at which the lexer refused the text, if that is the reason. -/
def Failure.lexicalAt : Failure → Option Nat
  | .unexpected (.parseError _) l _ => some l.charsRead
  | _ => none

/-- Where the lexer stood when the parser failed. -/
theorem lexicalErrorAt_of_error {body : Bytes} {e : Failure}
    (h : parserParse body = some (.error e)) : lexicalErrorAt body = e.lexicalAt := by
  unfold lexicalErrorAt Failure.lexicalAt
  rw [h]
  cases e with
  | overflow l => rfl
  | unexpected lastToken l expected => cases lastToken <;> rfl

/-- The part of `exception_message` after the last token. -/
theorem printable_expected (expected : TokenType) :
    Printable (if expected = .uninitialized then [] else lit "; expected " ++ expected.name) := by
  by_cases h : expected = .uninitialized
  · rw [if_pos h]
    exact printable_nil
  · rw [if_neg h]
    exact Printable.append (printable_lit rfl) (printable_name expected)

/-- What `parse_error::create` puts before the text. -/
theorem printable_position (byte : Nat) :
    Printable (lit "[json.exception.parse_error.101] parse error" ++
      (if byte ≠ 0 then lit " at " ++ decimal byte else []) ++ lit ": ") := by
  refine Printable.append (Printable.append (printable_lit rfl) ?_) (printable_lit rfl)
  by_cases h : byte ≠ 0
  · rw [if_pos h]
    exact Printable.append (printable_lit rfl) (printable_decimal byte)
  · rw [if_neg h]
    exact printable_nil

/-- A `parse_error` of the lexer quotes the last token. -/
theorem quotes_parseError (byte : Nat) (message : ErrorMessage) (l : Lexer)
    (expected : TokenType) :
    Quotes l.getTokenString (lit "[json.exception.parse_error.101] parse error" ++
      (if byte ≠ 0 then lit " at " ++ decimal byte else []) ++ lit ": " ++
        exceptionMessage (.parseError message) l expected) := by
  refine Quotes.prepend (printable_position byte) ?_
  unfold exceptionMessage
  refine Quotes.append (Quotes.prepend (printable_lit rfl) ?_) (printable_expected expected)
  dsimp only
  refine Quotes.append (Quotes.prepend ?_ (Quotes.refl _)) (printable_lit rfl)
  exact (printable_text message).append (printable_lit rfl)

/-- The message of a syntax error, if the lexer has none. -/
theorem printable_exceptionMessage {lastToken : Token} (l : Lexer) (expected : TokenType)
    (h : ∀ message, lastToken ≠ .parseError message) :
    Printable (exceptionMessage lastToken l expected) := by
  have hplain : ∀ type : TokenType, Printable (lit "syntax error - " ++
      (lit "unexpected " ++ type.name) ++
        (if expected = .uninitialized then [] else lit "; expected " ++ expected.name)) := by
    intro type
    refine Printable.append (Printable.append (printable_lit rfl) ?_) (printable_expected expected)
    exact Printable.append (printable_lit rfl) (printable_name type)
  cases lastToken with
  | parseError message => exact absurd rfl (h message)
  | _ => exact hplain _

/-- **The text of an exception** is well formed iff the body is, up to where the lexer refused
it. -/
theorem Failure.utf8_what_iff {body : Bytes} {e : Failure} (h : e.Spec body) :
    Utf8 e.exception.what ↔ ∀ p, e.lexicalAt = some p → Utf8 (body.take p) := by
  cases e with
  | overflow l =>
    have hquote : Quotes l.getTokenString (lit "[json.exception.out_of_range.406] " ++
        (lit "number overflow parsing '" ++ l.getTokenString ++ lit "'")) :=
      Quotes.prepend (printable_lit rfl)
        (Quotes.append (Quotes.prepend (printable_lit rfl) (Quotes.refl _)) (printable_lit rfl))
    have hutf8 := (hquote.utf8_cStr_iff l.zero_notMem_getTokenString).mpr
      (l.utf8_getTokenString_iff.mpr h)
    exact iff_of_true hutf8 nofun
  | unexpected lastToken l expected =>
    obtain ⟨hover, hread⟩ := h
    by_cases hlex : ∃ message, lastToken = .parseError message
    · obtain ⟨message, rfl⟩ := hlex
      have hquote := quotes_parseError l.charsRead message l expected
      have hiff : Utf8 (Failure.unexpected (.parseError message) l expected).exception.what ↔
          Utf8 (body.take l.charsRead) := by
        rw [Lexer.take_charsRead hover, ← l.utf8_getTokenString_iff]
        exact hquote.utf8_cStr_iff l.zero_notMem_getTokenString
      rw [hiff]
      simp [Failure.lexicalAt]
    · have hne : ∀ message, lastToken ≠ .parseError message := fun message heq =>
        hlex ⟨message, heq⟩
      have hp := (printable_position l.charsRead).append
        (printable_exceptionMessage l expected hne)
      have hutf8 : Utf8 (Failure.unexpected lastToken l expected).exception.what := by
        rw [Failure.exception, ParseError.what, parseErrorCreate, hp.cStr]
        exact hp.utf8
      refine iff_of_true hutf8 ?_
      cases lastToken with
      | parseError message => exact absurd rfl (hne message)
      | _ => exact nofun

/-! ## The loop -/

/-- The string members of an object are well formed. -/
def MemberTexts (kvs : List (Bytes × Json)) : Prop := ∀ e ∈ kvs, ∀ s, e.2 = .string s → Utf8 s

/-- The strings that `json_str` can read are well formed. -/
def Json.Texts : Json → Prop
  | .string s => Utf8 s
  | .object kvs => MemberTexts kvs
  | _ => True

def Container.Texts : Container → Prop
  | .array _ => True
  | .object kvs _ => MemberTexts kvs

/-- One more member. -/
theorem memberTexts_objectSet {kvs : List (Bytes × Json)} (key : Bytes) {v : Json}
    (h : MemberTexts kvs) (hv : v.Texts) : MemberTexts (objectSet kvs key v) := by
  intro e he s hs
  obtain rfl | he := List.mem_cons.mp he
  · dsimp only at hs
    subst hs
    exact hv
  · exact h e (List.mem_filter.mp he).1 s hs

/-- The values that an iteration starts with. -/
def ParserMode.Spec (l : Lexer) : ParserMode → Prop
  | .value lastToken => lastToken.Read l.tokenString
  | .evaluation v => Utf8 l.tokenString ∧ v.Texts

/-- A token that ends the loop weighs less. -/
def Token.weight : Token → Nat
  | .endOfInput => 1
  | .parseError _ => 1
  | _ => 2

/-- What is left to do. -/
def ParserMode.size (l : Lexer) : ParserMode → Nat
  | .value lastToken => 3 * l.rest.length + lastToken.weight
  | .evaluation _ => 3 * l.rest.length

/-- The invariant of the loop. -/
structure Parses (body : Bytes) (mode : ParserMode) (l : Lexer) (states : List Container) :
    Prop where
  reading : l.Over body
  mode : mode.Spec l
  states : ∀ f ∈ states, f.Texts

/-- What an iteration with `n` left to do may end in. -/
def ParserStep.Spec (body : Bytes) (n : Nat) : ParserStep → Prop
  | .returns v l => v.Texts ∧ l.Over body ∧ Utf8 l.tokenString
  | .throws e => e.Spec body
  | .continues mode l states => mode.size l < n ∧ Parses body mode l states

/-- What a token was read from is UTF-8, but for an error. -/
theorem Token.Read.utf8 {bs : Bytes} {token : Token} (h : token.Read bs)
    (hne : ∀ message, token ≠ .parseError message) : Utf8 bs := by
  cases token with
  | parseError message => exact absurd rfl (hne message)
  | valueString s => exact h.1
  | _ => exact h

/-- A token costs what the loop spends on it. -/
theorem Lexer.Scanned.size_le {body : Bytes} {l : Lexer} {r : Token × Lexer}
    (h : l.Scanned body r) :
    3 * r.2.rest.length + r.1.weight ≤ 3 * l.rest.length + 1 := by
  have hle := h.le
  have hlt := h.lt
  cases hr : r.1 with
  | endOfInput =>
    rw [Token.weight]
    omega
  | parseError message =>
    rw [Token.weight]
    omega
  | _ =>
    rw [hr] at hlt
    have hlt' := hlt nofun nofun
    rw [Token.weight]
    · omega
    · exact nofun
    · exact nofun

section Step

variable {body : Bytes} {l : Lexer} {states : List Container} {n : Nat}

/-- The next value of a container. -/
theorem scan_value_spec (h : l.Over body) (hu : Utf8 l.tokenString)
    (hstates : ∀ f ∈ states, f.Texts) (hn : 3 * l.rest.length + 1 < n) :
    (ParserStep.continues (.value l.scan.1) l.scan.2 states).Spec body n := by
  have hscan := Lexer.scan_spec h hu
  exact ⟨lt_of_le_of_lt hscan.size_le hn, hscan.reading, hscan.read, hstates⟩

theorem forall_mem_cons_texts {f : Container} (hf : f.Texts) (h : ∀ f ∈ states, f.Texts) :
    ∀ f' ∈ f :: states, f'.Texts := by
  intro f' hf'
  obtain rfl | hf' := List.mem_cons.mp hf'
  · exact hf
  · exact h f' hf'

/-- The colon and the token behind it. -/
theorem parseMember_spec {kvs : List (Bytes × Json)} (key : Bytes) (h : l.Over body)
    (hu : Utf8 l.tokenString) (hkvs : MemberTexts kvs) (hstates : ∀ f ∈ states, f.Texts)
    (hn : 3 * l.rest.length ≤ n) : (parseMember kvs key l states).Spec body n := by
  have hscan := Lexer.scan_spec h hu
  unfold parseMember
  cases hs : l.scan with
  | mk token l' =>
    rw [hs] at hscan
    cases token with
    | nameSeparator =>
      have hlt := hscan.lt nofun nofun
      exact scan_value_spec hscan.reading (hscan.read.utf8 nofun)
        (forall_mem_cons_texts hkvs hstates) (by dsimp only at hlt; omega)
    | _ => exact ⟨hscan.reading, hscan.read⟩

/-- The `switch (last_token)`. -/
theorem parseValue_spec {lastToken : Token} (h : Parses body (.value lastToken) l states) :
    (parseValue lastToken l states).Spec body (ParserMode.size l (.value lastToken)) := by
  have hread : lastToken.Read l.tokenString := h.mode
  -- a scalar: its value is evaluated next
  have hscalar : ∀ v : Json, v.Texts → Utf8 l.tokenString →
      (ParserStep.continues (.evaluation v) l states).Spec body (3 * l.rest.length + 2) := by
    intro v hv hu
    exact ⟨by rw [ParserMode.size]; omega, h.reading, ⟨hu, hv⟩, h.states⟩
  cases lastToken with
  | beginObject =>
    have hscan := Lexer.scan_spec h.reading hread
    unfold parseValue
    cases hs : l.scan with
    | mk token l' =>
      rw [hs] at hscan
      dsimp only
      cases token with
      | endObject =>
        have hlt := hscan.lt nofun nofun
        dsimp only at hlt
        exact ⟨by simp only [ParserMode.size]; omega, hscan.reading,
          ⟨hscan.read, by simp [Json.Texts, MemberTexts]⟩, h.states⟩
      | valueString key =>
        have hlt := hscan.lt nofun nofun
        dsimp only at hlt
        exact parseMember_spec key hscan.reading hscan.read.1 (by simp [MemberTexts]) h.states
          (by simp only [ParserMode.size]; omega)
      | _ => exact ⟨hscan.reading, hscan.read⟩
  | beginArray =>
    have hscan := Lexer.scan_spec h.reading hread
    have hsize := hscan.size_le
    unfold parseValue
    cases hs : l.scan with
    | mk token l' =>
      rw [hs] at hscan hsize
      dsimp only at hsize ⊢
      cases token with
      | endArray =>
        have hlt := hscan.lt nofun nofun
        dsimp only at hlt
        exact ⟨by simp only [ParserMode.size]; omega, hscan.reading, ⟨hscan.read, trivial⟩,
          h.states⟩
      | _ =>
        exact ⟨by simp only [ParserMode.size, Token.weight] at hsize ⊢; omega, hscan.reading,
          hscan.read, forall_mem_cons_texts trivial h.states⟩
  | valueFloat finite =>
    cases finite with
    | true => exact hscalar _ trivial hread
    | false => exact hread
  | literalFalse => exact hscalar _ trivial hread
  | literalNull => exact hscalar _ trivial hread
  | literalTrue => exact hscalar _ trivial hread
  | valueInteger i => exact hscalar _ trivial hread
  | valueString s => exact hscalar _ hread.2 hread.1
  | valueUnsigned n => exact hscalar _ trivial hread
  | _ => exact ⟨h.reading, hread⟩

/-- A value inside its container, or at the end. -/
theorem evaluateState_spec {v : Json} (h : Parses body (.evaluation v) l states) :
    (evaluateState v l states).Spec body (ParserMode.size l (.evaluation v)) := by
  obtain ⟨hu, hv⟩ := h.mode
  have hscan := Lexer.scan_spec h.reading hu
  cases states with
  | nil => exact ⟨hv, h.reading, hu⟩
  | cons f states =>
    have hf := h.states f List.mem_cons_self
    have hstates : ∀ f ∈ states, f.Texts := fun f' hf' => h.states f' (List.mem_cons_of_mem f hf')
    cases hs : l.scan with
    | mk token l' =>
      rw [hs] at hscan
      cases f with
      | array xs =>
        unfold evaluateState
        rw [hs]
        cases token with
        | valueSeparator =>
          have hlt := hscan.lt nofun nofun
          exact scan_value_spec hscan.reading hscan.read (forall_mem_cons_texts trivial hstates)
            (by simp only [ParserMode.size] at hlt ⊢; omega)
        | endArray =>
          have hlt := hscan.lt nofun nofun
          exact ⟨by simp only [ParserMode.size] at hlt ⊢; omega, hscan.reading,
            ⟨hscan.read, trivial⟩, hstates⟩
        | _ => exact ⟨hscan.reading, hscan.read⟩
      | object kvs key =>
        unfold evaluateState
        rw [hs]
        have hset := memberTexts_objectSet key hf hv
        cases token with
        | valueSeparator =>
          have hlt := hscan.lt nofun nofun
          have hscan' := Lexer.scan_spec hscan.reading hscan.read
          dsimp only
          cases hs' : l'.scan with
          | mk token l'' =>
            rw [hs'] at hscan'
            cases token with
            | valueString key' =>
              have hle := hscan'.le
              exact parseMember_spec key' hscan'.reading hscan'.read.1 hset hstates
                (by simp only [ParserMode.size] at hlt hle ⊢; omega)
            | _ => exact ⟨hscan'.reading, hscan'.read⟩
        | endObject =>
          have hlt := hscan.lt nofun nofun
          exact ⟨by simp only [ParserMode.size] at hlt ⊢; omega, hscan.reading,
            ⟨hscan.read, hset⟩, hstates⟩
        | _ => exact ⟨hscan.reading, hscan.read⟩

/-- **One iteration of `sax_parse_internal`.** -/
theorem parserStep_spec {mode : ParserMode} (h : Parses body mode l states) :
    (parserStep mode l states).Spec body (mode.size l) := by
  cases mode with
  | value lastToken => exact parseValue_spec h
  | evaluation v => exact evaluateState_spec h

end Step

/-- How the loop ends. -/
def LoopSpec (body : Bytes) : Except Failure (Json × Lexer) → Prop
  | .ok (v, l) => v.Texts ∧ l.Over body ∧ Utf8 l.tokenString
  | .error e => e.Spec body

/-- **The loop ends**, within the fuel it is given. -/
theorem saxParseInternal_spec {body : Bytes} (fuel : Nat) {mode : ParserMode} {l : Lexer}
    {states : List Container} (h : Parses body mode l states) (hfuel : mode.size l < fuel) :
    ∃ r, saxParseInternal fuel mode l states = some r ∧ LoopSpec body r := by
  induction fuel generalizing mode l states with
  | zero => omega
  | succ fuel ih =>
    have hstep := parserStep_spec h
    rw [saxParseInternal]
    cases hs : parserStep mode l states with
    | returns v l' =>
      rw [hs] at hstep
      exact ⟨_, rfl, hstep⟩
    | throws e =>
      rw [hs] at hstep
      exact ⟨_, rfl, hstep⟩
    | continues mode' l' states' =>
      rw [hs] at hstep
      exact ih hstep.2 (by have := hstep.1; omega)

/-- The parser ends, with texts in UTF-8 or with an error that it can print. -/
theorem parserParse_spec (body : Bytes) :
    (∃ v, parserParse body = some (.ok v) ∧ v.Texts) ∨
      ∃ e, parserParse body = some (.error e) ∧ e.Spec body := by
  have hfirst := Lexer.scan_spec (Lexer.over_new body) utf8_nil
  have hsize := hfirst.size_le
  have hlen : (Lexer.new body).rest.length = body.length := rfl
  have hinit : Parses body (.value (Lexer.new body).scan.1) (Lexer.new body).scan.2 [] :=
    ⟨hfirst.reading, hfirst.read, by simp⟩
  obtain ⟨r, hr, hspec⟩ := saxParseInternal_spec (3 * body.length + 3) hinit
    (by rw [ParserMode.size]; omega)
  unfold parserParse
  dsimp only
  rw [hr]
  cases r with
  | error e => exact .inr ⟨e, rfl, hspec⟩
  | ok r =>
    obtain ⟨v, l⟩ := r
    obtain ⟨hv, hover, hu⟩ := hspec
    have hlast := Lexer.scan_spec hover hu
    dsimp only
    cases hs : l.scan with
    | mk token l' =>
      rw [hs] at hlast
      cases token with
      | endOfInput => exact .inl ⟨v, rfl, hv⟩
      | _ => exact .inr ⟨_, rfl, hlast.reading, hlast.read⟩

/-- **The strings of a parsed body are well formed**, and the lexer did not refuse it. -/
theorem jsonParse_ok {body : Bytes} {j : Json} (h : jsonParse body = .ok j) :
    j.Texts ∧ lexicalErrorAt body = none := by
  unfold jsonParse at h
  obtain ⟨v, hv, htexts⟩ | ⟨e, he, -⟩ := parserParse_spec body
  · rw [hv] at h
    cases h
    exact ⟨htexts, by rw [lexicalErrorAt, hv]⟩
  · rw [he] at h
    cases h

/-- **The text of what `json::parse` throws** is well formed iff the body is, up to where the lexer
refused it. -/
theorem jsonParse_error {body : Bytes} {e : ParseError} (h : jsonParse body = .error e) :
    Utf8 e.what ↔ ∀ p, lexicalErrorAt body = some p → Utf8 (body.take p) := by
  unfold jsonParse at h
  obtain ⟨v, hv, -⟩ | ⟨e', he, hspec⟩ := parserParse_spec body
  · rw [hv] at h
    cases h
  · rw [he] at h
    cases h
    rw [lexicalErrorAt_of_error he]
    exact Failure.utf8_what_iff hspec

theorem cStr_cStr (b : Bytes) : cStr (cStr b) = cStr b := List.takeWhile_idem

/-- `what()` cuts nothing off: the text has gone through `c_str()` already. -/
theorem cStr_jsonParse_what {body : Bytes} {e : ParseError} (h : jsonParse body = .error e) :
    cStr e.what = e.what := by
  unfold jsonParse at h
  obtain ⟨v, hv, -⟩ | ⟨e', he, -⟩ := parserParse_spec body
  · rw [hv] at h
    cases h
  · rw [he] at h
    cases h
    cases e' with
    | unexpected lastToken l expected => exact cStr_cStr _
    | overflow l => exact cStr_cStr _

/-- `json_str` of such a value returns well-formed UTF-8. -/
theorem Json.Texts.jsonStr {j : Json} {key s : Bytes} (h : j.Texts)
    (hs : ASky.jsonStr j key = .ok s) : Utf8 s := by
  unfold ASky.jsonStr Json.at at hs
  cases j with
  | object kvs =>
    dsimp only at hs
    cases hl : kvs.lookup key with
    | none =>
      rw [hl] at hs
      cases hs
    | some v =>
      rw [hl] at hs
      cases v with
      | string t =>
        cases hs
        obtain ⟨before, after, rfl, -⟩ := List.lookup_eq_some_iff.mp hl
        exact h (key, .string s) (by simp) s rfl
      | _ => cases hs
  | _ => cases hs

end ASky

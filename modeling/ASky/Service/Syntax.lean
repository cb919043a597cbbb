import ASky.Service.Tokens

/-!
# The parser accepts the grammar

* `Opened t states`: the text `t` opens the containers on the stack. An object on the stack keeps
  the last member of each key, where the grammar lists them all. A step of the parser keeps `Opened`
  (`parserStep_sound`), so that an accepted text is a phrase.
* `Reaches`: some steps of the loop, whatever fuel is left after them. `reached_of_phrase` follows a
  phrase through the loop, by induction on the phrase, with one lemma for each form of phrase.
* **`jsonParse_ok_iff`**: `json::parse` returns `v` exactly for the texts that stand for `v`.
-/

namespace ASky

open Lexer (Consumes NumberEnd)

/-! ## Soundness -/

/-- The text `t` opens the containers. -/
inductive Opened : Bytes → List Container → Prop where
  | nil : Opened [] []
  | array {t es : Bytes} {xs : List Json} {states : List Container} (h : Opened t states)
      (hes : Phrase es (.elements xs)) : Opened (t ++ 0x5B :: es) (.array xs :: states)
  | object {t mts : Bytes} {ms : List (Bytes × Json)} {key : Bytes} {states : List Container}
      (h : Opened t states) (hms : Phrase mts (.members ms key)) :
      Opened (t ++ 0x7B :: mts) (.object (lastOfEach ms) key :: states)

/-- A token that goes on with the text. -/
def Token.Proper (token : Token) : Prop :=
  token ≠ .endOfInput ∧ ∀ message, token ≠ .parseError message

/-- What has been read of `text`, at the start of an iteration. -/
def ParserMode.Sound (text : Bytes) (l : Lexer) (states : List Container) : ParserMode → Prop
  | .value token => token.Proper → l.charsRead ≠ 0 ∧ ∃ t bs, text = t ++ (bs ++ l.rest) ∧
      Opened t states ∧ Lexeme bs token
  | .evaluation v => l.charsRead ≠ 0 ∧ ∃ t bs, text = t ++ (bs ++ l.rest) ∧ Opened t states ∧
      Phrase bs (.value v)

/-- What an iteration may end in. -/
def ParserStep.Sound (text : Bytes) : ParserStep → Prop
  | .returns v l => l.charsRead ≠ 0 ∧ ∃ bs, text = bs ++ l.rest ∧ Phrase bs (.value v)
  | .throws _ => True
  | .continues mode l states => mode.Sound text l states

/-- A token of one byte. -/
def Token.byte : Token → Option UInt8
  | .beginArray => some 0x5B
  | .endArray => some 0x5D
  | .beginObject => some 0x7B
  | .endObject => some 0x7D
  | .nameSeparator => some 0x3A
  | .valueSeparator => some 0x2C
  | _ => none

/-- The lexeme of a structural token is its byte. -/
theorem Lexeme.eq_singleton {bs : Bytes} {token : Token} {c : UInt8} (h : Lexeme bs token)
    (hc : token.byte = some c) : bs = [c] := by
  cases h with
  | number hn => cases hn <;> cases hc
  | _ => simp_all [Token.byte]

/-- The lexeme of a string token is in quotes. -/
theorem Lexeme.eq_string {bs s : Bytes} (h : Lexeme bs (.valueString s)) :
    ∃ t, Characters t s ∧ bs = 0x22 :: (t ++ [0x22]) := by
  generalize htoken : Token.valueString s = token at h
  cases h with
  | string ht =>
    cases htoken
    exact ⟨_, ht, rfl⟩
  | number hn => cases hn <;> cases htoken
  | _ => cases htoken

/-- A token of the rest of the text: white space and a lexeme. -/
theorem Lexer.scan_sound {l l' : Lexer} {token : Token} (h0 : l.charsRead ≠ 0)
    (h : l.scan = (token, l')) (htoken : token.Proper) :
    l'.charsRead ≠ 0 ∧ ∃ w bs, Space w ∧ Lexeme bs token ∧ l.rest = w ++ (bs ++ l'.rest) := by
  rw [scan_of_charsRead h0] at h
  obtain ⟨w, hw, ⟨bs, hlex, hr⟩ | ⟨hend, -⟩⟩ := scanRest_sound h htoken.2
  · have hle := hr.charsRead_le
    refine ⟨by omega, w, bs, hw, hlex, ?_⟩
    rw [hr.rest_eq, List.append_assoc]
  · exact absurd hend htoken.1

section Step

variable {text : Bytes} {l : Lexer} {states : List Container}

/-- The next value, after the text `t` and white space. -/
theorem scan_value_sound {t : Bytes} (h0 : l.charsRead ≠ 0) (htext : text = t ++ l.rest)
    (hopen : ∀ w, Space w → Opened (t ++ w) states) :
    (ParserStep.continues (.value l.scan.1) l.scan.2 states).Sound text := by
  intro htoken
  have hscan : l.scan = (l.scan.1, l.scan.2) := rfl
  obtain ⟨h0', w, bs, hw, hlex, hrest⟩ := Lexer.scan_sound h0 hscan htoken
  refine ⟨h0', t ++ w, bs, ?_, hopen w hw, hlex⟩
  rw [htext, hrest, List.append_assoc]

/-- After a key: the separator, and the first token of its value. -/
theorem parseMember_sound {t : Bytes} {kvs : List (Bytes × Json)} {key : Bytes}
    (h0 : l.charsRead ≠ 0) (htext : text = t ++ l.rest)
    (hopen : ∀ w w', Space w → Space w' →
      Opened (t ++ (w ++ 0x3A :: w')) (.object kvs key :: states)) :
    (parseMember kvs key l states).Sound text := by
  unfold parseMember
  cases hs : l.scan with
  | mk token l' =>
    cases token with
    | nameSeparator =>
      obtain ⟨h0', w, bs, hw, hlex, hrest⟩ := Lexer.scan_sound h0 hs ⟨nofun, nofun⟩
      obtain rfl := hlex.eq_singleton rfl
      refine scan_value_sound (t := t ++ (w ++ [0x3A])) h0' ?_ fun w' hw' => ?_
      · rw [htext, hrest]
        simp
      · have hsplit : t ++ (w ++ [0x3A]) ++ w' = t ++ (w ++ 0x3A :: w') := by simp
        rw [hsplit]
        exact hopen w w' hw hw'
    | _ => trivial

/-- After an opening brace: a closing one, or the first key. -/
theorem parseObject_sound {t : Bytes} (h0 : l.charsRead ≠ 0) (htext : text = t ++ 0x7B :: l.rest)
    (hopen : Opened t states) : (parseValue .beginObject l states).Sound text := by
  unfold parseValue
  cases hs : l.scan with
  | mk token l' =>
    dsimp only
    cases token with
    | endObject =>
      obtain ⟨h0', w, bs, hw, hlex, hrest⟩ := Lexer.scan_sound h0 hs ⟨nofun, nofun⟩
      obtain rfl := hlex.eq_singleton rfl
      refine ⟨h0', t, _, ?_, hopen, .emptyObject hw⟩
      rw [htext, hrest]
      simp
    | valueString key =>
      obtain ⟨h0', w, bs, hw, hlex, hrest⟩ := Lexer.scan_sound h0 hs ⟨nofun, nofun⟩
      obtain ⟨k, hk, rfl⟩ := hlex.eq_string
      refine parseMember_sound (t := t ++ 0x7B :: (w ++ (0x22 :: (k ++ [0x22])))) h0' ?_ ?_
      · rw [htext, hrest]
        simp
      · intro w' w'' hw' hw''
        have hmember := Opened.object hopen (.firstMember hw hk hw' hw'')
        simpa using hmember
    | _ => trivial

/-- After an opening bracket: a closing one, or the first token of the first element. -/
theorem parseArray_sound {t : Bytes} (h0 : l.charsRead ≠ 0) (htext : text = t ++ 0x5B :: l.rest)
    (hopen : Opened t states) : (parseValue .beginArray l states).Sound text := by
  unfold parseValue
  cases hs : l.scan with
  | mk token l' =>
    -- the token is already scanned: the loop goes on with it, inside the new array
    have helement : (ParserStep.continues (.value token) l' (.array [] :: states)).Sound text := by
      have hopen' : ∀ w, Space w → Opened (t ++ [0x5B] ++ w) (.array [] :: states) := by
        intro w hw
        have harray := Opened.array hopen (.noElements hw)
        simpa using harray
      have htext' : text = t ++ [0x5B] ++ l.rest := by
        rw [htext, List.append_assoc]
        rfl
      have hvalue := scan_value_sound h0 htext' hopen'
      rw [hs] at hvalue
      exact hvalue
    dsimp only
    cases token with
    | endArray =>
      obtain ⟨h0', w, bs, hw, hlex, hrest⟩ := Lexer.scan_sound h0 hs ⟨nofun, nofun⟩
      obtain rfl := hlex.eq_singleton rfl
      refine ⟨h0', t, _, ?_, hopen, .emptyArray hw⟩
      rw [htext, hrest]
      simp
    | _ => exact helement

/-- The `switch (last_token)`. -/
theorem parseValue_sound {token : Token} (h : (ParserMode.value token).Sound text l states) :
    (parseValue token l states).Sound text := by
  -- a token that is a value
  have hscalar : ∀ v : Json, token.scalar = some v → token.Proper →
      (ParserStep.continues (.evaluation v) l states).Sound text := by
    intro v hv htoken
    obtain ⟨h0, t, bs, htext, hopen, hlex⟩ := h htoken
    exact ⟨h0, t, bs, htext, hopen, .scalar hlex hv⟩
  -- a token that opens a container
  have hbyte : ∀ c : UInt8, token.byte = some c → token.Proper →
      l.charsRead ≠ 0 ∧ ∃ t, text = t ++ c :: l.rest ∧ Opened t states := by
    intro c hc htoken
    obtain ⟨h0, t, bs, htext, hopen, hlex⟩ := h htoken
    obtain rfl := hlex.eq_singleton hc
    exact ⟨h0, t, htext, hopen⟩
  cases token with
  | beginObject =>
    obtain ⟨h0, t, htext, hopen⟩ := hbyte 0x7B rfl ⟨nofun, nofun⟩
    exact parseObject_sound h0 htext hopen
  | beginArray =>
    obtain ⟨h0, t, htext, hopen⟩ := hbyte 0x5B rfl ⟨nofun, nofun⟩
    exact parseArray_sound h0 htext hopen
  | valueFloat finite =>
    cases finite with
    | true => exact hscalar _ rfl ⟨nofun, nofun⟩
    | false => trivial
  | literalFalse => exact hscalar _ rfl ⟨nofun, nofun⟩
  | literalNull => exact hscalar _ rfl ⟨nofun, nofun⟩
  | literalTrue => exact hscalar _ rfl ⟨nofun, nofun⟩
  | valueInteger i => exact hscalar _ rfl ⟨nofun, nofun⟩
  | valueString s => exact hscalar _ rfl ⟨nofun, nofun⟩
  | valueUnsigned n => exact hscalar _ rfl ⟨nofun, nofun⟩
  | _ => trivial

/-- After an element: a comma and the next one, or the closing bracket. -/
theorem evaluateArray_sound {t es bs : Bytes} {xs : List Json} {v : Json} (h0 : l.charsRead ≠ 0)
    (htext : text = t ++ 0x5B :: es ++ (bs ++ l.rest)) (hopen : Opened t states)
    (hes : Phrase es (.elements xs)) (hv : Phrase bs (.value v)) :
    (evaluateState v l (.array xs :: states)).Sound text := by
  unfold evaluateState
  cases hs : l.scan with
  | mk token l' =>
    dsimp only
    cases token with
    | valueSeparator =>
      obtain ⟨h0', w, bs', hw, hlex, hrest⟩ := Lexer.scan_sound h0 hs ⟨nofun, nofun⟩
      obtain rfl := hlex.eq_singleton rfl
      refine scan_value_sound (t := t ++ 0x5B :: (es ++ (bs ++ (w ++ [0x2C])))) h0' ?_ ?_
      · rw [htext, hrest]
        simp
      · intro w' hw'
        have harray := Opened.array hopen (.element hes hv hw hw')
        simpa using harray
    | endArray =>
      obtain ⟨h0', w, bs', hw, hlex, hrest⟩ := Lexer.scan_sound h0 hs ⟨nofun, nofun⟩
      obtain rfl := hlex.eq_singleton rfl
      refine ⟨h0', t, _, ?_, hopen, .array hes hv hw⟩
      rw [htext, hrest]
      simp
    | _ => trivial

/-- After the value of a member: a comma and the next key, or the closing brace. -/
theorem evaluateObject_sound {t mts bs : Bytes} {ms : List (Bytes × Json)} {key : Bytes} {v : Json}
    (h0 : l.charsRead ≠ 0) (htext : text = t ++ 0x7B :: mts ++ (bs ++ l.rest))
    (hopen : Opened t states) (hms : Phrase mts (.members ms key)) (hv : Phrase bs (.value v)) :
    (evaluateState v l (.object (lastOfEach ms) key :: states)).Sound text := by
  unfold evaluateState
  dsimp only
  -- the member is set before the next token is looked at
  rw [objectSet_lastOfEach]
  cases hs : l.scan with
  | mk token l' =>
    cases token with
    | valueSeparator =>
      obtain ⟨h0', w, bs', hw, hlex, hrest⟩ := Lexer.scan_sound h0 hs ⟨nofun, nofun⟩
      obtain rfl := hlex.eq_singleton rfl
      dsimp only
      cases hs' : l'.scan with
      | mk token l'' =>
        cases token with
        | valueString key' =>
          obtain ⟨h0'', w₁, bs'', hw₁, hlex', hrest'⟩ := Lexer.scan_sound h0' hs' ⟨nofun, nofun⟩
          obtain ⟨k, hk, rfl⟩ := hlex'.eq_string
          refine parseMember_sound
            (t := t ++ 0x7B :: (mts ++ (bs ++ (w ++ 0x2C :: (w₁ ++ (0x22 :: (k ++ [0x22])))))))
            h0'' ?_ ?_
          · rw [htext, hrest, hrest']
            simp
          · intro w₂ w₃ hw₂ hw₃
            have hmember := Opened.object hopen (.member hms hv hw hw₁ hk hw₂ hw₃)
            simpa using hmember
        | _ => trivial
    | endObject =>
      obtain ⟨h0', w, bs', hw, hlex, hrest⟩ := Lexer.scan_sound h0 hs ⟨nofun, nofun⟩
      obtain rfl := hlex.eq_singleton rfl
      refine ⟨h0', t, _, ?_, hopen, .object hms hv hw⟩
      rw [htext, hrest]
      simp
    | _ => trivial

/-- The `if (states.empty())` and the container on top of the stack. -/
theorem evaluateState_sound {v : Json} (h : (ParserMode.evaluation v).Sound text l states) :
    (evaluateState v l states).Sound text := by
  obtain ⟨h0, t, bs, htext, hopen, hv⟩ := h
  cases hopen with
  | nil => exact ⟨h0, bs, htext, hv⟩
  | array hopen hes => exact evaluateArray_sound h0 htext hopen hes hv
  | object hopen hms => exact evaluateObject_sound h0 htext hopen hms hv

/-- **An iteration of `sax_parse_internal` reads on in the grammar.** -/
theorem parserStep_sound {mode : ParserMode} (h : mode.Sound text l states) :
    (parserStep mode l states).Sound text := by
  cases mode with
  | value token => exact parseValue_sound h
  | evaluation v => exact evaluateState_sound h

/-- The whole loop. -/
theorem saxParseInternal_sound {fuel : Nat} {mode : ParserMode} {v : Json} {l' : Lexer}
    (h : mode.Sound text l states)
    (hparse : saxParseInternal fuel mode l states = some (.ok (v, l'))) :
    l'.charsRead ≠ 0 ∧ ∃ bs, text = bs ++ l'.rest ∧ Phrase bs (.value v) := by
  induction fuel generalizing mode l states with
  | zero => cases hparse
  | succ fuel ih =>
    have hstep := parserStep_sound h
    rw [saxParseInternal] at hparse
    cases hs : parserStep mode l states with
    | returns v' l₁ =>
      rw [hs] at hparse hstep
      cases hparse
      exact hstep
    | throws e =>
      rw [hs] at hparse
      cases hparse
    | continues mode₁ l₁ states₁ =>
      rw [hs] at hparse hstep
      exact ih hstep hparse

end Step

/-- What `json::parse` has done when it returns. -/
theorem loop_of_jsonParse {body : Bytes} {v : Json} (h : jsonParse body = .ok v) :
    ∃ l : Lexer, saxParseInternal (3 * body.length + 3) (.value (Lexer.new body).scan.1)
        (Lexer.new body).scan.2 [] = some (.ok (v, l)) ∧ l.scan.1 = .endOfInput := by
  unfold jsonParse parserParse at h
  dsimp only at h
  cases hloop : saxParseInternal (3 * body.length + 3) (.value (Lexer.new body).scan.1)
      (Lexer.new body).scan.2 [] with
  | none =>
    rw [hloop] at h
    cases h
  | some r =>
    rw [hloop] at h
    cases r with
    | error e => cases h
    | ok r =>
      obtain ⟨v', l⟩ := r
      dsimp only at h
      cases hs : l.scan with
      | mk token l' =>
        rw [hs] at h
        cases token with
        | endOfInput =>
          cases h
          exact ⟨l, rfl, by rw [hs]⟩
        | _ => cases h

/-- The loop does not return if it starts with a token that ends it. -/
theorem proper_of_loop {fuel : Nat} {token : Token} {l : Lexer} {states : List Container}
    {r : Json × Lexer} (h : saxParseInternal fuel (.value token) l states = some (.ok r)) :
    token.Proper := by
  cases fuel with
  | zero => cases h
  | succ fuel =>
    cases token with
    | endOfInput => cases h
    | parseError message => cases h
    | _ => exact ⟨nofun, nofun⟩

/-- **An accepted text stands for the value that is returned.** -/
theorem document_of_jsonParse {body : Bytes} {v : Json} (h : jsonParse body = .ok v) :
    Document body v := by
  obtain ⟨l, hloop, hend⟩ := loop_of_jsonParse h
  obtain ⟨first, hscan⟩ : ∃ first, (Lexer.new body).scan = first := ⟨_, rfl⟩
  obtain ⟨token, l₀⟩ := first
  rw [hscan] at hloop
  have htoken := proper_of_loop hloop
  obtain ⟨bom, l₁, hbom, hbody, hrest⟩ := Lexer.scan_new_sound hscan htoken.2
  obtain ⟨w, hw, ⟨bs, hlex, hr⟩ | ⟨hend, -⟩⟩ := Lexer.scanRest_sound hrest htoken.2
  · obtain ⟨c, cs, rfl, -, -⟩ := Lexer.lexeme_head hlex
    have hpos := hr.charsRead_le
    rw [List.length_append, List.length_cons] at hpos
    have hinit : (ParserMode.value token).Sound (c :: cs ++ l₀.rest) l₀ [] :=
      fun _ => ⟨by omega, [], c :: cs, rfl, .nil, hlex⟩
    obtain ⟨h0, bs', htext, hv⟩ := saxParseInternal_sound hinit hloop
    rw [Lexer.scan_of_charsRead h0] at hend
    have hlast : l.scanRest = (.endOfInput, l.scanRest.2) := Prod.ext hend rfl
    obtain ⟨w', hw', ⟨bs, hlex', -⟩ | ⟨-, after, hl, hafter⟩⟩ := Lexer.scanRest_sound hlast nofun
    · exact absurd rfl (Lexer.lexeme_ne_endOfInput hlex')
    · refine ⟨bom, w, bs', w', after, ?_, hbom, hw, hv, hw', hafter⟩
      rw [hbody, hr.rest_eq, List.append_assoc, htext, hl]
  · exact absurd hend htoken.1

/-! ## Completeness -/

/-- Some steps of the loop. -/
def Reaches (mode : ParserMode) (l : Lexer) (states : List Container) (mode' : ParserMode)
    (l' : Lexer) (states' : List Container) : Prop :=
  ∃ n, ∀ fuel, saxParseInternal (fuel + n) mode l states = saxParseInternal fuel mode' l' states'

/-- Steps after steps. -/
theorem Reaches.trans {mode mode' mode'' : ParserMode} {l l' l'' : Lexer}
    {states states' states'' : List Container} (h : Reaches mode l states mode' l' states')
    (h' : Reaches mode' l' states' mode'' l'' states'') :
    Reaches mode l states mode'' l'' states'' := by
  obtain ⟨n, hn⟩ := h
  obtain ⟨m, hm⟩ := h'
  refine ⟨m + n, fun fuel => ?_⟩
  rw [← Nat.add_assoc, hn, hm]

/-- One step. -/
theorem reaches_of_step {mode mode' : ParserMode} {l l' : Lexer} {states states' : List Container}
    (h : parserStep mode l states = .continues mode' l' states') :
    Reaches mode l states mode' l' states' :=
  ⟨1, fun fuel => by rw [saxParseInternal, h]⟩

/-- The text begins with a byte that may begin a value. -/
def ValueHead (rest : Bytes) : Prop :=
  ∃ c cs, rest = c :: cs ∧ Lexer.isSpace c = false ∧ c ≠ 0x5D ∧ c ≠ 0xEF

/-- A scalar begins with no space, no closing bracket and no byte order mark. -/
theorem Lexeme.valueHead {bs : Bytes} {token : Token} {v : Json} (h : Lexeme bs token)
    (hv : token.scalar = some v) : ValueHead bs := by
  obtain ⟨c, cs, rfl, hspace, hascii⟩ := Lexer.lexeme_head h
  refine ⟨c, cs, rfl, hspace, ?_, ?_⟩
  · rintro rfl
    have hl : (Lexer.new cs).rest = cs ++ [] := by simp [Lexer.new]
    obtain ⟨l', hscan, -⟩ := Lexer.scanToken_complete h hl (fun _ => by simp [NumberEnd])
    cases hscan
    cases hv
  · rintro rfl
    simp at hascii

/-- So does every value. -/
theorem Phrase.valueHead {bs : Bytes} {v : Json} (h : Phrase bs (.value v)) : ValueHead bs := by
  cases h with
  | scalar hlex hv => exact hlex.valueHead hv
  | _ => exact ⟨_, _, rfl, by decide, by decide, by decide⟩

/-- What comes after the value does not matter. -/
theorem ValueHead.append {bs : Bytes} (h : ValueHead bs) (rest : Bytes) :
    ValueHead (bs ++ rest) := by
  obtain ⟨c, cs, rfl, hc⟩ := h
  exact ⟨c, cs ++ rest, rfl, hc⟩

/-- The white space before a value ends there. -/
theorem ValueHead.head_not_space {rest : Bytes} (h : ValueHead rest) :
    rest.head?.any Lexer.isSpace = false := by
  obtain ⟨c, cs, rfl, hspace, -⟩ := h
  exact hspace

/-- White space and a structural byte end a number. -/
theorem numberEnd_space {w rest : Bytes} (hw : Space w) (hrest : NumberEnd rest) :
    NumberEnd (w ++ rest) := by
  cases w with
  | nil => exact hrest
  | cons b w =>
    intro b' hb'
    cases hb'
    obtain rfl | rfl | rfl | rfl := hw b List.mem_cons_self <;> decide

/-- A byte that is no digit, point or `e` ends a number. -/
theorem numberEnd_cons {c : UInt8} (h : Lexer.isDigit c = false ∧ isMark c = false) (rest : Bytes) :
    NumberEnd (c :: rest) := by
  intro b hb
  cases hb
  exact h

/-- A number begins with a digit or a minus. -/
theorem not_numeric_cons {c : UInt8} (h : c ≠ 0x2D ∧ Lexer.isDigit c = false) (cs : Bytes) :
    ¬ Numeric (c :: cs) := by
  intro hn
  obtain rfl | hd := (Lexer.numeric_cons_iff.mp hn).1
  · exact h.1 rfl
  · rw [h.2] at hd
    cases hd

/-- A lexeme of the rest of the text is scanned. -/
theorem Lexer.scan_complete {w bs rest : Bytes} {token : Token} {l : Lexer} (hw : Space w)
    (h : Lexeme bs token) (hend : Numeric bs → NumberEnd rest) (h0 : l.charsRead ≠ 0)
    (hl : l.rest = w ++ (bs ++ rest)) :
    ∃ l', l.scan = (token, l') ∧ l'.rest = rest ∧ l'.charsRead ≠ 0 := by
  obtain ⟨l', hscan, hr⟩ := scanRest_complete hw h hend hl
  have hle := hr.charsRead_le
  refine ⟨l', by rw [scan_of_charsRead h0, hscan], hr.rest_of ?_, by omega⟩
  rw [hl, List.append_assoc]

/-- White space before the next token. -/
theorem Lexer.scan_skip {w rest : Bytes} {l : Lexer} (hw : Space w)
    (hrest : rest.head?.any isSpace = false) (h0 : l.charsRead ≠ 0) (hl : l.rest = w ++ rest) :
    ∃ l' : Lexer, l'.rest = rest ∧ l'.charsRead ≠ 0 ∧ l.scan = l'.scanRest := by
  obtain ⟨l', hl', hr, heq⟩ := scanRest_skip hw hrest hl
  have hle := hr.charsRead_le
  exact ⟨l', hl', by omega, by rw [scan_of_charsRead h0, heq]⟩

/-- Before a value no token closes an array. -/
theorem ValueHead.ne_endArray {l : Lexer} (h : ValueHead l.rest) : l.scanRest.1 ≠ .endArray := by
  intro hclose
  obtain ⟨c, cs, hrest, hspace, hne, -⟩ := h
  have hscan : l.scanRest = (.endArray, l.scanRest.2) := Prod.ext hclose rfl
  obtain ⟨w, hw, ⟨bs, hlex, hr⟩ | ⟨hend, -⟩⟩ := Lexer.scanRest_sound hscan nofun
  · obtain rfl := hlex.eq_singleton rfl
    have heq := hr.rest_eq
    rw [hrest, List.append_assoc] at heq
    cases w with
    | nil =>
      cases heq
      exact hne rfl
    | cons b w =>
      cases heq
      rw [hw.isSpace List.mem_cons_self] at hspace
      cases hspace
  · cases hend

/-- What the loop does with a phrase. -/
def Meaning.Reached (bs : Bytes) : Meaning → Prop
  | .value v => ∀ (l : Lexer) (rest : Bytes) (states : List Container), l.rest = bs ++ rest →
      NumberEnd rest → ∃ l' : Lexer, l'.rest = rest ∧ l'.charsRead ≠ 0 ∧
        Reaches (.value l.scanRest.1) l.scanRest.2 states (.evaluation v) l' states
  | .elements xs => ∀ (l : Lexer) (rest : Bytes) (states : List Container), l.rest = bs ++ rest →
      l.charsRead ≠ 0 → ValueHead rest → ∃ l' : Lexer, l'.rest = rest ∧ l'.charsRead ≠ 0 ∧
        Reaches (.value .beginArray) l states (.value l'.scanRest.1) l'.scanRest.2
          (.array xs :: states)
  | .members ms key => ∀ (l : Lexer) (rest : Bytes) (states : List Container),
      l.rest = bs ++ rest → l.charsRead ≠ 0 → ValueHead rest →
        ∃ l' : Lexer, l'.rest = rest ∧ l'.charsRead ≠ 0 ∧
          Reaches (.value .beginObject) l states (.value l'.scanRest.1) l'.scanRest.2
            (.object (lastOfEach ms) key :: states)

/-- A value that is one token. -/
theorem reaches_scalar {token : Token} {v : Json} (hv : token.scalar = some v) (l : Lexer)
    (states : List Container) : Reaches (.value token) l states (.evaluation v) l states := by
  refine reaches_of_step ?_
  cases token with
  | valueFloat finite =>
    cases finite with
    | true =>
      cases hv
      rfl
    | false => cases hv
  | literalTrue | literalFalse | literalNull | valueString | valueUnsigned | valueInteger =>
    cases hv
    rfl
  | _ => cases hv

/-- The byte `c` begins a container: its token, and the lexer behind it. -/
theorem scanRest_open {c : UInt8} {cs rest : Bytes} {token : Token} {l : Lexer}
    (h : Lexeme [c] token) (hc : c ≠ 0x2D ∧ Lexer.isDigit c = false)
    (hl : l.rest = c :: cs ++ rest) :
    ∃ l' : Lexer, l.scanRest = (token, l') ∧ l'.rest = cs ++ rest ∧ l'.charsRead ≠ 0 := by
  have hnil : Space [] := by simp [Space]
  obtain ⟨l', hscan, hr⟩ :=
    Lexer.scanRest_complete hnil h (fun hn => absurd hn (not_numeric_cons hc _)) hl
  have hle := hr.charsRead_le
  refine ⟨l', hscan, hr.rest_of hl, ?_⟩
  simp only [List.nil_append, List.length_singleton] at hle
  omega

/-- A structural byte: no number begins with it, and none goes on with it. -/
theorem structural {c : UInt8} (h : c = 0x2C ∨ c = 0x3A ∨ c = 0x22 ∨ c = 0x5D ∨ c = 0x7D) :
    (c ≠ 0x2D ∧ Lexer.isDigit c = false) ∧ Lexer.isDigit c = false ∧ isMark c = false := by
  obtain rfl | rfl | rfl | rfl | rfl := h <;> decide

/-- White space and a lexeme of one structural byte, or a key. -/
theorem scan_structural {w cs rest : Bytes} {c : UInt8} {token : Token} {l : Lexer} (hw : Space w)
    (h : Lexeme (c :: cs) token) (hc : c = 0x2C ∨ c = 0x3A ∨ c = 0x22 ∨ c = 0x5D ∨ c = 0x7D)
    (h0 : l.charsRead ≠ 0) (hl : l.rest = w ++ (c :: cs ++ rest)) :
    ∃ l', l.scan = (token, l') ∧ l'.rest = rest ∧ l'.charsRead ≠ 0 :=
  Lexer.scan_complete hw h (fun hn => absurd hn (not_numeric_cons (structural hc).1 _)) h0 hl

/-- White space and a structural byte end a value. -/
theorem numberEnd_structural {w : Bytes} {c : UInt8} (hw : Space w)
    (hc : c = 0x2C ∨ c = 0x3A ∨ c = 0x22 ∨ c = 0x5D ∨ c = 0x7D) (rest : Bytes) :
    NumberEnd (w ++ c :: rest) :=
  numberEnd_space hw (numberEnd_cons (structural hc).2 rest)

/-! One lemma for each form of phrase. -/

/-- A value of one token: the `switch` goes to the evaluation at once. -/
theorem reached_scalar {bs : Bytes} {token : Token} {v : Json} (hlex : Lexeme bs token)
    (hv : token.scalar = some v) : (Meaning.value v).Reached bs := by
  intro l rest states hl hend
  have hnil : Space [] := by simp [Space]
  obtain ⟨c, cs, rfl, -, -⟩ := Lexer.lexeme_head hlex
  obtain ⟨l', hscan, hr⟩ := Lexer.scanRest_complete hnil hlex (fun _ => hend) hl
  have hle := hr.charsRead_le
  refine ⟨l', hr.rest_of hl, ?_, ?_⟩
  · rw [List.nil_append, List.length_cons] at hle
    omega
  · rw [hscan]
    exact reaches_scalar hv l' states

/-- The token after the bracket is that of the first element. -/
theorem reached_noElements {w : Bytes} (hw : Space w) : (Meaning.elements []).Reached w := by
  intro l rest states hl h0 hrest
  obtain ⟨l', hl', h0', hscan⟩ := Lexer.scan_skip hw hrest.head_not_space h0 hl
  refine ⟨l', hl', h0', reaches_of_step ?_⟩
  have hne : l'.scanRest.1 ≠ .endArray := ValueHead.ne_endArray (by rw [hl']; exact hrest)
  rw [← hscan] at hne ⊢
  show parseValue .beginArray l states = _
  unfold parseValue
  cases hs : l.scan with
  | mk token l₁ =>
    rw [hs] at hne
    cases token with
    | endArray => exact absurd rfl hne
    | _ => rfl

/-- The elements so far, the next value, and its comma. -/
theorem reached_element {es bs w w' : Bytes} {xs : List Json} {v : Json}
    (hes : (Meaning.elements xs).Reached es) (hhead : ValueHead bs)
    (hv : (Meaning.value v).Reached bs) (hw : Space w) (hw' : Space w') :
    (Meaning.elements (xs ++ [v])).Reached (es ++ (bs ++ (w ++ 0x2C :: w'))) := by
  intro l rest states hl h0 hrest
  -- `l₁` is before the value, `l₂` behind it, `l₃` behind the comma and `l₄` behind the space
  obtain ⟨l₁, hl₁, h0₁, hreach₁⟩ := hes l (bs ++ (w ++ 0x2C :: (w' ++ rest))) states
    (by rw [hl]; simp) h0 (hhead.append _)
  obtain ⟨l₂, hl₂, h0₂, hreach₂⟩ := hv l₁ _ (.array xs :: states) hl₁
    (numberEnd_structural hw (by decide) _)
  obtain ⟨l₃, hscan₃, hl₃, h0₃⟩ := scan_structural hw .valueSeparator (by decide) h0₂ hl₂
  obtain ⟨l₄, hl₄, h0₄, hscan₄⟩ := Lexer.scan_skip hw' hrest.head_not_space h0₃ hl₃
  refine ⟨l₄, hl₄, h0₄, (hreach₁.trans hreach₂).trans (reaches_of_step ?_)⟩
  rw [← hscan₄]
  show evaluateState v l₂ (.array xs :: states) = _
  rw [evaluateState, hscan₃]

/-- The closing bracket right after the opening one. -/
theorem reached_emptyArray {w : Bytes} (hw : Space w) :
    (Meaning.value (.array [])).Reached (0x5B :: (w ++ [0x5D])) := by
  intro l rest states hl _
  obtain ⟨l₁, hscan₁, hl₁, h0₁⟩ := scanRest_open .beginArray (by decide) hl
  rw [List.append_assoc] at hl₁
  obtain ⟨l₂, hscan₂, hl₂, h0₂⟩ := scan_structural hw .endArray (by decide) h0₁ hl₁
  refine ⟨l₂, hl₂, h0₂, reaches_of_step ?_⟩
  rw [hscan₁]
  show parseValue .beginArray l₁ states = _
  rw [parseValue, hscan₂]

/-- The last element and the closing bracket. -/
theorem reached_array {es bs w : Bytes} {xs : List Json} {v : Json}
    (hes : (Meaning.elements xs).Reached es) (hhead : ValueHead bs)
    (hv : (Meaning.value v).Reached bs) (hw : Space w) :
    (Meaning.value (.array (xs ++ [v]))).Reached (0x5B :: (es ++ (bs ++ (w ++ [0x5D])))) := by
  intro l rest states hl _
  obtain ⟨l₀, hscan₀, hl₀, h0₀⟩ := scanRest_open .beginArray (by decide) hl
  obtain ⟨l₁, hl₁, h0₁, hreach₁⟩ := hes l₀ (bs ++ (w ++ 0x5D :: rest)) states
    (by rw [hl₀]; simp) h0₀ (hhead.append _)
  obtain ⟨l₂, hl₂, h0₂, hreach₂⟩ := hv l₁ _ (.array xs :: states) hl₁
    (numberEnd_structural hw (by decide) _)
  obtain ⟨l₃, hscan₃, hl₃, h0₃⟩ := scan_structural hw .endArray (by decide) h0₂ hl₂
  refine ⟨l₃, hl₃, h0₃, ?_⟩
  rw [hscan₀]
  refine (hreach₁.trans hreach₂).trans (reaches_of_step ?_)
  show evaluateState v l₂ (.array xs :: states) = _
  rw [evaluateState, hscan₃]

/-- The first key and its colon. -/
theorem reached_firstMember {w t key w' w'' : Bytes} (hw : Space w) (hkey : Characters t key)
    (hw' : Space w') (hw'' : Space w'') :
    (Meaning.members [] key).Reached (w ++ (0x22 :: (t ++ [0x22]) ++ (w' ++ 0x3A :: w''))) := by
  intro l rest states hl h0 hrest
  have hl' : l.rest = w ++ (0x22 :: (t ++ [0x22]) ++ (w' ++ 0x3A :: (w'' ++ rest))) := by
    rw [hl]
    simp
  obtain ⟨l₁, hscan₁, hl₁, h0₁⟩ := scan_structural hw (.string hkey) (by decide) h0 hl'
  obtain ⟨l₂, hscan₂, hl₂, h0₂⟩ := scan_structural hw' .nameSeparator (by decide) h0₁ hl₁
  obtain ⟨l₃, hl₃, h0₃, hscan₃⟩ := Lexer.scan_skip hw'' hrest.head_not_space h0₂ hl₂
  refine ⟨l₃, hl₃, h0₃, reaches_of_step ?_⟩
  rw [← hscan₃]
  show parseValue .beginObject l states = _
  rw [parseValue, hscan₁]
  dsimp only
  rw [parseMember, hscan₂]
  rfl

/-- A value, a comma, and the next key with its colon. -/
theorem reached_member {mts bs w w₁ t key' w₂ w₃ : Bytes} {ms : List (Bytes × Json)} {key : Bytes}
    {v : Json} (hms : (Meaning.members ms key).Reached mts) (hhead : ValueHead bs)
    (hv : (Meaning.value v).Reached bs) (hw : Space w) (hw₁ : Space w₁)
    (hkey : Characters t key') (hw₂ : Space w₂) (hw₃ : Space w₃) :
    (Meaning.members (ms ++ [(key, v)]) key').Reached
      (mts ++ (bs ++ (w ++ 0x2C :: (w₁ ++ (0x22 :: (t ++ [0x22]) ++ (w₂ ++ 0x3A :: w₃)))))) := by
  intro l rest states hl h0 hrest
  -- `l₁` and `l₂` are around the value; `l₃` is behind the comma, `l₄` the key, `l₅` the colon
  obtain ⟨l₁, hl₁, h0₁, hreach₁⟩ := hms l (bs ++ (w ++ 0x2C :: (w₁ ++ (0x22 :: (t ++ [0x22]) ++
    (w₂ ++ 0x3A :: (w₃ ++ rest)))))) states (by rw [hl]; simp) h0 (hhead.append _)
  obtain ⟨l₂, hl₂, h0₂, hreach₂⟩ := hv l₁ _ (.object (lastOfEach ms) key :: states) hl₁
    (numberEnd_structural hw (by decide) _)
  obtain ⟨l₃, hscan₃, hl₃, h0₃⟩ := scan_structural hw .valueSeparator (by decide) h0₂ hl₂
  obtain ⟨l₄, hscan₄, hl₄, h0₄⟩ := scan_structural hw₁ (.string hkey) (by decide) h0₃ hl₃
  obtain ⟨l₅, hscan₅, hl₅, h0₅⟩ := scan_structural hw₂ .nameSeparator (by decide) h0₄ hl₄
  obtain ⟨l₆, hl₆, h0₆, hscan₆⟩ := Lexer.scan_skip hw₃ hrest.head_not_space h0₅ hl₅
  refine ⟨l₆, hl₆, h0₆, (hreach₁.trans hreach₂).trans (reaches_of_step ?_)⟩
  rw [← hscan₆, ← objectSet_lastOfEach]
  show evaluateState v l₂ (.object (lastOfEach ms) key :: states) = _
  rw [evaluateState, hscan₃]
  dsimp only
  rw [hscan₄]
  dsimp only
  rw [parseMember, hscan₅]

/-- The closing brace right after the opening one. -/
theorem reached_emptyObject {w : Bytes} (hw : Space w) :
    (Meaning.value (.object [])).Reached (0x7B :: (w ++ [0x7D])) := by
  intro l rest states hl _
  obtain ⟨l₁, hscan₁, hl₁, h0₁⟩ := scanRest_open .beginObject (by decide) hl
  rw [List.append_assoc] at hl₁
  obtain ⟨l₂, hscan₂, hl₂, h0₂⟩ := scan_structural hw .endObject (by decide) h0₁ hl₁
  refine ⟨l₂, hl₂, h0₂, reaches_of_step ?_⟩
  rw [hscan₁]
  show parseValue .beginObject l₁ states = _
  rw [parseValue, hscan₂]

/-- The value of the last member and the closing brace. `lastOfEach` is what the parser has set. -/
theorem reached_object {mts bs w : Bytes} {ms : List (Bytes × Json)} {key : Bytes} {v : Json}
    (hms : (Meaning.members ms key).Reached mts) (hhead : ValueHead bs)
    (hv : (Meaning.value v).Reached bs) (hw : Space w) :
    (Meaning.value (.object (lastOfEach (ms ++ [(key, v)])))).Reached
      (0x7B :: (mts ++ (bs ++ (w ++ [0x7D])))) := by
  intro l rest states hl _
  obtain ⟨l₀, hscan₀, hl₀, h0₀⟩ := scanRest_open .beginObject (by decide) hl
  obtain ⟨l₁, hl₁, h0₁, hreach₁⟩ := hms l₀ (bs ++ (w ++ 0x7D :: rest)) states
    (by rw [hl₀]; simp) h0₀ (hhead.append _)
  obtain ⟨l₂, hl₂, h0₂, hreach₂⟩ := hv l₁ _ (.object (lastOfEach ms) key :: states) hl₁
    (numberEnd_structural hw (by decide) _)
  obtain ⟨l₃, hscan₃, hl₃, h0₃⟩ := scan_structural hw .endObject (by decide) h0₂ hl₂
  refine ⟨l₃, hl₃, h0₃, ?_⟩
  rw [hscan₀, ← objectSet_lastOfEach]
  refine (hreach₁.trans hreach₂).trans (reaches_of_step ?_)
  show evaluateState v l₂ (.object (lastOfEach ms) key :: states) = _
  rw [evaluateState, hscan₃]

/-- **A phrase takes the loop from its first token to its value.** -/
theorem reached_of_phrase {bs : Bytes} {m : Meaning} (h : Phrase bs m) : m.Reached bs := by
  induction h with
  | scalar hlex hv => exact reached_scalar hlex hv
  | noElements hw => exact reached_noElements hw
  | element _ hv hw hw' ihes ihv => exact reached_element ihes hv.valueHead ihv hw hw'
  | emptyArray hw => exact reached_emptyArray hw
  | array _ hv hw ihes ihv => exact reached_array ihes hv.valueHead ihv hw
  | firstMember hw hkey hw' hw'' => exact reached_firstMember hw hkey hw' hw''
  | member _ hv hw hw₁ hkey hw₂ hw₃ ihms ihv =>
    exact reached_member ihms hv.valueHead ihv hw hw₁ hkey hw₂ hw₃
  | emptyObject hw => exact reached_emptyObject hw
  | object _ hv hw ihms ihv => exact reached_object ihms hv.valueHead ihv hw

/-- More fuel gives the same result. -/
theorem saxParseInternal_mono {fuel : Nat} {mode : ParserMode} {l : Lexer} {states : List Container}
    {r : Except Failure (Json × Lexer)} (h : saxParseInternal fuel mode l states = some r)
    (n : Nat) :
    saxParseInternal (fuel + n) mode l states = some r := by
  induction fuel generalizing mode l states with
  | zero => cases h
  | succ fuel ih =>
    rw [Nat.add_right_comm]
    rw [saxParseInternal] at h ⊢
    cases hs : parserStep mode l states with
    | returns v l' =>
      rw [hs] at h
      exact h
    | throws e =>
      rw [hs] at h
      exact h
    | continues mode' l' states' =>
      rw [hs] at h
      exact ih h

/-- The fuel of `parserParse` is enough: what any fuel gives, it gives. -/
theorem loop_eq {body : Bytes} {fuel : Nat} {r : Except Failure (Json × Lexer)}
    (h : saxParseInternal fuel (.value (Lexer.new body).scan.1) (Lexer.new body).scan.2 [] =
      some r) :
    saxParseInternal (3 * body.length + 3) (.value (Lexer.new body).scan.1)
      (Lexer.new body).scan.2 [] = some r := by
  have hfirst := Lexer.scan_spec (Lexer.over_new body) Lib.utf8_nil
  have hsize := hfirst.size_le
  have hlen : (Lexer.new body).rest.length = body.length := rfl
  have hinit : Parses body (.value (Lexer.new body).scan.1) (Lexer.new body).scan.2 [] :=
    ⟨hfirst.reading, hfirst.read, by simp⟩
  obtain ⟨r', hr', -⟩ := saxParseInternal_spec (3 * body.length + 3) hinit
    (by rw [ParserMode.size]; omega)
  -- both results are that of the sum of the two fuels
  have hmono := saxParseInternal_mono h (3 * body.length + 3)
  have hmono' := saxParseInternal_mono hr' fuel
  rw [Nat.add_comm, hmono] at hmono'
  rw [hr', hmono']

/-- **A text that stands for `v` is accepted.** -/
theorem jsonParse_of_document {body : Bytes} {v : Json} (h : Document body v) :
    jsonParse body = .ok v := by
  obtain ⟨bom, w, bs, w', after, rfl, hbom, hw, hv, hw', hafter⟩ := h
  have hhead := hv.valueHead.append (w' ++ after)
  -- without a byte order mark the text does not look like one
  have hfirst : (w ++ (bs ++ (w' ++ after))).head? ≠ some 0xEF := by
    cases w with
    | nil =>
      obtain ⟨c, cs, heq, -, -, hne⟩ := hhead
      rw [List.nil_append, heq]
      simpa using hne
    | cons b w =>
      rintro hb
      cases hb
      exact absurd (hw 0xEF List.mem_cons_self) (by decide)
  have hend : NumberEnd (w' ++ after) := by
    refine numberEnd_space hw' ?_
    obtain rfl | h0 := hafter
    · simp [NumberEnd]
    · intro b hb
      rw [h0] at hb
      cases hb
      decide
  obtain ⟨l, hl, hscan⟩ := Lexer.scan_new_complete hbom hfirst
  obtain ⟨l₁, hl₁, -, hskip⟩ := Lexer.scanRest_skip hw hhead.head_not_space hl
  obtain ⟨l₂, hl₂, h0₂, n, hreach⟩ := reached_of_phrase hv l₁ (w' ++ after) [] hl₁ hend
  have hloop : saxParseInternal (1 + n)
      (.value (Lexer.new (bom ++ (w ++ (bs ++ (w' ++ after))))).scan.1)
      (Lexer.new (bom ++ (w ++ (bs ++ (w' ++ after))))).scan.2 [] = some (.ok (v, l₂)) := by
    rw [hscan, hskip, hreach]
    rfl
  have hlast : l₂.scan.1 = .endOfInput := by
    rw [Lexer.scan_of_charsRead h0₂]
    exact Lexer.scanRest_end hw' hafter hl₂
  have hparse : parserParse (bom ++ (w ++ (bs ++ (w' ++ after)))) = some (.ok v) := by
    unfold parserParse
    dsimp only
    rw [loop_eq hloop]
    dsimp only
    cases hs : l₂.scan with
    | mk token l₃ =>
      rw [hs] at hlast
      cases hlast
      rfl
  rw [jsonParse, hparse]

/-- **`json::parse` accepts exactly the grammar**: it returns `v` iff the text stands for `v`. -/
theorem jsonParse_ok_iff (body : Bytes) (v : Json) : jsonParse body = .ok v ↔ Document body v :=
  ⟨document_of_jsonParse, jsonParse_of_document⟩

end ASky

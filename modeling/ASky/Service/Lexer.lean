import ASky.Lib.Utf8
import ASky.Service.Json

/-!
# The JSON lexer

Model of `nlohmann::detail::lexer` (`json/json.hpp`) over an `input_buffer_adapter`: `scan`, its
scanners for strings, numbers and literals, and the text it keeps for error messages.

* A `Lexer` is the input not read yet, `chars_read` and `token_string`. The end of the input is
  `none`; reading it counts in `chars_read` and leaves `token_string` alone.
* `unget` gives back the lexer before the last `get`: it takes back one from `chars_read` and, but
  for the end of the input, the last byte of `token_string`, and the byte is read again.
* `token_string` is only cleared at the start of a string or a number (`reset`). Other tokens and
  the white space between them are appended to it.
* `token_buffer` and the number values are in the `Token`, and so is `error_message`.
* The locale is "C". `strtod` is exact: it overflows from `2 ^ 1024 - 2 ^ 970` on, which rounds
  to infinity.
* The loops of `scan` take fuel: one more than there are bytes to read.
-/

namespace ASky

open Lib

/-- `token_type`, for the texts of errors. -/
inductive TokenType where
  | uninitialized
  | literalTrue
  | literalFalse
  | literalNull
  | valueString
  | valueUnsigned
  | valueInteger
  | valueFloat
  | beginArray
  | beginObject
  | endArray
  | endObject
  | nameSeparator
  | valueSeparator
  | parseError
  | endOfInput
  | literalOrValue
  deriving DecidableEq

/-- `token_type_name`. -/
def TokenType.name : TokenType → Bytes
  | .uninitialized => lit "<uninitialized>"
  | .literalTrue => lit "true literal"
  | .literalFalse => lit "false literal"
  | .literalNull => lit "null literal"
  | .valueString => lit "string literal"
  | .valueUnsigned => lit "number literal"
  | .valueInteger => lit "number literal"
  | .valueFloat => lit "number literal"
  | .beginArray => lit "'['"
  | .beginObject => lit "'\x7b'"
  | .endArray => lit "']'"
  | .endObject => lit "'\x7d'"
  | .nameSeparator => lit "':'"
  | .valueSeparator => lit "','"
  | .parseError => lit "<parse error>"
  | .endOfInput => lit "end of input"
  | .literalOrValue => lit "'[', '\x7b', or a literal"

/-- The values of `error_message`, and `exhausted` for a loop of this model that runs out of fuel,
which does not happen. -/
inductive ErrorMessage where
  | missingQuote
  | fourHexDigits
  | noLowSurrogate
  | noHighSurrogate
  | forbiddenEscape
  | controlCharacter
  | illFormedByte
  | digitAfterMinus
  | digitAfterPoint
  | digitAfterExponent
  | digitAfterSign
  | invalidLiteral
  | invalidBom
  | exhausted
  deriving DecidableEq

def ErrorMessage.text : ErrorMessage → Bytes
  | .missingQuote => lit "invalid string: missing closing quote"
  | .fourHexDigits => lit "invalid string: '\\u' must be followed by 4 hex digits"
  | .noLowSurrogate =>
    lit "invalid string: surrogate U+DC00..U+DFFF must be followed by U+DC00..U+DFFF"
  | .noHighSurrogate =>
    lit "invalid string: surrogate U+DC00..U+DFFF must follow U+D800..U+DBFF"
  | .forbiddenEscape => lit "invalid string: forbidden character after backslash"
  | .controlCharacter => lit "invalid string: control character must be escaped"
  | .illFormedByte => lit "invalid string: ill-formed UTF-8 byte"
  | .digitAfterMinus => lit "invalid number; expected digit after '-'"
  | .digitAfterPoint => lit "invalid number; expected digit after '.'"
  | .digitAfterExponent => lit "invalid number; expected '+', '-', or digit after exponent"
  | .digitAfterSign => lit "invalid number; expected digit after exponent sign"
  | .invalidLiteral => lit "invalid literal"
  | .invalidBom => lit "invalid BOM; must be 0xEF 0xBB 0xBF if given"
  | .exhausted => []

/-- What `scan` returns, with the value of the token: `get_string()`, the number (of a float,
whether it is finite), or `get_error_message()`. -/
inductive Token where
  | literalTrue
  | literalFalse
  | literalNull
  | valueString (s : Bytes)
  | valueUnsigned (n : Nat)
  | valueInteger (i : Int)
  | valueFloat (finite : Bool)
  | beginArray
  | beginObject
  | endArray
  | endObject
  | nameSeparator
  | valueSeparator
  | parseError (message : ErrorMessage)
  | endOfInput
  deriving DecidableEq

def Token.type : Token → TokenType
  | .literalTrue => .literalTrue
  | .literalFalse => .literalFalse
  | .literalNull => .literalNull
  | .valueString _ => .valueString
  | .valueUnsigned _ => .valueUnsigned
  | .valueInteger _ => .valueInteger
  | .valueFloat _ => .valueFloat
  | .beginArray => .beginArray
  | .beginObject => .beginObject
  | .endArray => .endArray
  | .endObject => .endObject
  | .nameSeparator => .nameSeparator
  | .valueSeparator => .valueSeparator
  | .parseError _ => .parseError
  | .endOfInput => .endOfInput

/-! ## Input -/

structure Lexer where
  rest : Bytes
  charsRead : Nat
  tokenString : Bytes
  deriving DecidableEq

namespace Lexer

/-- The constructor. -/
def new (input : Bytes) : Lexer := ⟨input, 0, []⟩

/-- `get`. -/
def get (l : Lexer) : Option UInt8 × Lexer :=
  match l.rest with
  | [] => (none, { l with charsRead := l.charsRead + 1 })
  | b :: rest => (some b, ⟨rest, l.charsRead + 1, l.tokenString ++ [b]⟩)

/-- The `token_string` half of `reset`, with `current` the byte just read. -/
def reset (current : UInt8) (l : Lexer) : Lexer := { l with tokenString := [current] }

/-- What `get_token_string` writes for a byte. -/
def quoteByte (b : UInt8) : Bytes := if b ≤ 0x1F then lit "<U+>" else [b]

/-- `get_token_string`. -/
def getTokenString (l : Lexer) : Bytes := l.tokenString.flatMap quoteByte

/-! ## Strings -/

/-- A hexadecimal digit of `get_codepoint`. -/
def hexValue (c : UInt8) : Option Nat :=
  if 0x30 ≤ c ∧ c ≤ 0x39 then some (c.toNat - 0x30)
  else if 0x41 ≤ c ∧ c ≤ 0x46 then some (c.toNat - 0x37)
  else if 0x61 ≤ c ∧ c ≤ 0x66 then some (c.toNat - 0x57)
  else none

/-- The loop of `get_codepoint` over the remaining factors; `none` is `-1`. -/
def codepointFrom : List Nat → Nat → Lexer → Option Nat × Lexer
  | [], codepoint, l => (some codepoint, l)
  | factor :: factors, codepoint, l =>
    match l.get with
    | (none, l) => (none, l)
    | (some c, l) =>
      match hexValue c with
      | none => (none, l)
      | some v => codepointFrom factors (codepoint + v <<< factor) l

/-- `get_codepoint`. -/
def getCodepoint (l : Lexer) : Option Nat × Lexer := codepointFrom [12, 8, 4, 0] 0 l

/-- The loop of `next_byte_in_range`, with `token_buffer`; `none` if a byte is out of range. -/
def nextByteInRange : Pending → Bytes → Lexer → Option Bytes × Lexer
  | [], buffer, l => (some buffer, l)
  | (lo, hi) :: ranges, buffer, l =>
    match l.get with
    | (none, l) => (none, l)
    | (some c, l) =>
      if lo ≤ c ∧ c ≤ hi then nextByteInRange ranges (buffer ++ [c]) l else (none, l)

/-- The ranges `scan_string` gives `next_byte_in_range` after the byte `c`: the empty list for
`U+0020..U+007F`, `none` for the bytes 80..C1 and F5..FF. -/
def rangesAfter (c : UInt8) : Option Pending :=
  if c ≤ 0x7F then some []
  else if 0xC2 ≤ c ∧ c ≤ 0xDF then some [(0x80, 0xBF)]
  else if c = 0xE0 then some [(0xA0, 0xBF), (0x80, 0xBF)]
  else if (0xE1 ≤ c ∧ c ≤ 0xEC) ∨ c = 0xEE ∨ c = 0xEF then some [(0x80, 0xBF), (0x80, 0xBF)]
  else if c = 0xED then some [(0x80, 0x9F), (0x80, 0xBF)]
  else if c = 0xF0 then some [(0x90, 0xBF), (0x80, 0xBF), (0x80, 0xBF)]
  else if 0xF1 ≤ c ∧ c ≤ 0xF3 then some [(0x80, 0xBF), (0x80, 0xBF), (0x80, 0xBF)]
  else if c = 0xF4 then some [(0x80, 0x8F), (0x80, 0xBF), (0x80, 0xBF)]
  else none

/-- The bytes `scan_string` adds for a code point of `\u` escapes. -/
def codepointBytes (codepoint : Nat) : Bytes :=
  if codepoint < 0x80 then [codepoint.toUInt8]
  else if codepoint ≤ 0x7FF then
    [(0xC0 ||| codepoint >>> 6).toUInt8, (0x80 ||| codepoint &&& 0x3F).toUInt8]
  else if codepoint ≤ 0xFFFF then
    [(0xE0 ||| codepoint >>> 12).toUInt8, (0x80 ||| codepoint >>> 6 &&& 0x3F).toUInt8,
      (0x80 ||| codepoint &&& 0x3F).toUInt8]
  else
    [(0xF0 ||| codepoint >>> 18).toUInt8, (0x80 ||| codepoint >>> 12 &&& 0x3F).toUInt8,
      (0x80 ||| codepoint >>> 6 &&& 0x3F).toUInt8, (0x80 ||| codepoint &&& 0x3F).toUInt8]

/-- How an iteration of `scan_string` ends. -/
inductive StringStep where
  | finished (buffer : Bytes) (l : Lexer)
  | failed (message : ErrorMessage) (l : Lexer)
  | goesOn (buffer : Bytes) (l : Lexer)

/-- After a high surrogate: `get() == '\\' and get() == 'u'`, and the low one. -/
def lowSurrogate (codepoint1 : Nat) (buffer : Bytes) (l : Lexer) : StringStep :=
  if l.get.1 = some 0x5C then
    if l.get.2.get.1 = some 0x75 then
      match l.get.2.get.2.getCodepoint with
      | (none, l) => .failed .fourHexDigits l
      | (some codepoint2, l) =>
        if 0xDC00 ≤ codepoint2 ∧ codepoint2 ≤ 0xDFFF then
          .goesOn (buffer ++ codepointBytes (codepoint1 <<< 10 + codepoint2 - 0x35FDC00)) l
        else .failed .noLowSurrogate l
    else .failed .noLowSurrogate l.get.2.get.2
  else .failed .noLowSurrogate l.get.2

/-- After `\u`. -/
def unicodeEscape (buffer : Bytes) (l : Lexer) : StringStep :=
  match l.getCodepoint with
  | (none, l) => .failed .fourHexDigits l
  | (some codepoint1, l) =>
    if 0xD800 ≤ codepoint1 ∧ codepoint1 ≤ 0xDBFF then lowSurrogate codepoint1 buffer l
    else if 0xDC00 ≤ codepoint1 ∧ codepoint1 ≤ 0xDFFF then .failed .noHighSurrogate l
    else .goesOn (buffer ++ codepointBytes codepoint1) l

/-- The one-byte escapes. -/
def simpleEscape (c : UInt8) : Option UInt8 :=
  if c = 0x22 then some 0x22
  else if c = 0x5C then some 0x5C
  else if c = 0x2F then some 0x2F
  else if c = 0x62 then some 0x08
  else if c = 0x66 then some 0x0C
  else if c = 0x6E then some 0x0A
  else if c = 0x72 then some 0x0D
  else if c = 0x74 then some 0x09
  else none

/-- After a backslash. -/
def escapeSequence (buffer : Bytes) (l : Lexer) : StringStep :=
  match l.get with
  | (none, l) => .failed .forbiddenEscape l
  | (some c, l) =>
    match simpleEscape c with
    | some b => .goesOn (buffer ++ [b]) l
    | none => if c = 0x75 then unicodeEscape buffer l else .failed .forbiddenEscape l

/-- The body of the loop of `scan_string`. -/
def stringStep (buffer : Bytes) (l : Lexer) : StringStep :=
  match l.get with
  | (none, l) => .failed .missingQuote l
  | (some c, l) =>
    if c = 0x22 then .finished buffer l
    else if c = 0x5C then escapeSequence buffer l
    else if c ≤ 0x1F then .failed .controlCharacter l
    else
      match rangesAfter c with
      | none => .failed .illFormedByte l
      | some ranges =>
        match nextByteInRange ranges (buffer ++ [c]) l with
        | (some buffer, l) => .goesOn buffer l
        | (none, l) => .failed .illFormedByte l

/-- The loop of `scan_string`. -/
def scanStringFrom : Nat → Bytes → Lexer → Token × Lexer
  | 0, _, l => (.parseError .exhausted, l)
  | fuel + 1, buffer, l =>
    match stringStep buffer l with
    | .finished buffer l => (.valueString buffer, l)
    | .failed message l => (.parseError message, l)
    | .goesOn buffer l => scanStringFrom fuel buffer l

/-- `scan_string`, after the opening quote. -/
def scanString (l : Lexer) : Token × Lexer :=
  scanStringFrom (l.rest.length + 1) [] (l.reset 0x22)

/-! ## Numbers -/

/-- The labels of `scan_number`. -/
inductive NumberState where
  | minus
  | zero
  | any1
  | decimal1
  | decimal2
  | exponent
  | sign
  | any2

/-- `number_type`. -/
inductive NumberType where
  | unsigned
  | integer
  | float

/-- Where `scan_number` goes after a byte. -/
inductive NumberNext where
  | goto (state : NumberState)
  | done
  | failed (message : ErrorMessage)

/-- The cases `'0'` to `'9'`. -/
def isDigit (c : UInt8) : Bool := decide (0x30 ≤ c ∧ c ≤ 0x39)

def isExponent (c : UInt8) : Bool := decide (c = 0x65 ∨ c = 0x45)

/-- The `switch (get())` of each label. -/
def numberNext (state : NumberState) (current : Option UInt8) : NumberNext :=
  match state with
  | .minus =>
    if current = some 0x30 then .goto .zero
    else if current.any isDigit then .goto .any1
    else .failed .digitAfterMinus
  | .zero =>
    if current = some 0x2E then .goto .decimal1
    else if current.any isExponent then .goto .exponent
    else .done
  | .any1 =>
    if current.any isDigit then .goto .any1
    else if current = some 0x2E then .goto .decimal1
    else if current.any isExponent then .goto .exponent
    else .done
  | .decimal1 =>
    if current.any isDigit then .goto .decimal2
    else .failed .digitAfterPoint
  | .decimal2 =>
    if current.any isDigit then .goto .decimal2
    else if current.any isExponent then .goto .exponent
    else .done
  | .exponent =>
    if current = some 0x2B ∨ current = some 0x2D then .goto .sign
    else if current.any isDigit then .goto .any2
    else .failed .digitAfterExponent
  | .sign =>
    if current.any isDigit then .goto .any2
    else .failed .digitAfterSign
  | .any2 => if current.any isDigit then .goto .any2 else .done

/-- `number_type` at a label. -/
def numberType (state : NumberState) (type : NumberType) : NumberType :=
  match state with
  | .minus => .integer
  | .decimal1 => .float
  | .exponent => .float
  | _ => type

/-- The value of decimal digits. -/
def digitsValue (digits : Bytes) : Nat := digits.foldl (fun n c => 10 * n + (c.toNat - 0x30)) 0

/-- The value of an exponent, with its sign. -/
def exponentValue : Bytes → Int
  | [] => 0
  | c :: digits =>
    if c = 0x2D then -(digitsValue digits : Int)
    else if c = 0x2B then digitsValue digits
    else digitsValue (c :: digits)

/-- `strtod` gives a finite `double`. -/
def strtodFinite (buffer : Bytes) : Bool :=
  let number := if buffer.head? = some 0x2D then buffer.tail else buffer
  let (significand, exponent) := number.span fun c => !isExponent c
  let (integer, fraction) := significand.span fun c => c != 0x2E
  let m := digitsValue (integer ++ fraction.tail)
  let e := exponentValue exponent.tail - fraction.tail.length
  let bound := 2 ^ 1024 - 2 ^ 970
  if 0 ≤ e then decide (m * 10 ^ e.toNat < bound) else decide (m < bound * 10 ^ (-e).toNat)

/-- From `scan_number_done` on, after `unget`. -/
def numberToken (type : NumberType) (buffer : Bytes) : Token :=
  match type with
  | .unsigned =>
    if digitsValue buffer < 2 ^ 64 then .valueUnsigned (digitsValue buffer)
    else .valueFloat (strtodFinite buffer)
  | .integer =>
    if digitsValue buffer.tail ≤ 2 ^ 63 then .valueInteger (-(digitsValue buffer.tail : Int))
    else .valueFloat (strtodFinite buffer)
  | .float => .valueFloat (strtodFinite buffer)

/-- `scan_number` from a label on. -/
def scanNumberFrom : Nat → NumberState → NumberType → Bytes → Lexer → Token × Lexer
  | 0, _, _, _, l => (.parseError .exhausted, l)
  | fuel + 1, state, type, buffer, l =>
    match numberNext state l.get.1 with
    | .failed message => (.parseError message, l.get.2)
    | .done => (numberToken type buffer, l)
    | .goto state =>
      scanNumberFrom fuel state (numberType state type) (buffer ++ l.get.1.toList) l.get.2

/-- `scan_number`, with `current` the byte just read. -/
def scanNumber (current : UInt8) (l : Lexer) : Token × Lexer :=
  let state :=
    if current = 0x2D then NumberState.minus
    else if current = 0x30 then NumberState.zero
    else NumberState.any1
  scanNumberFrom (l.rest.length + 1) state (numberType state .unsigned) [current]
    (l.reset current)

/-! ## Tokens -/

/-- `scan_literal`, with the text after its first letter. -/
def scanLiteral (token : Token) : Bytes → Lexer → Token × Lexer
  | [], l => (token, l)
  | c :: text, l =>
    if l.get.1 = some c then scanLiteral token text l.get.2
    else (.parseError .invalidLiteral, l.get.2)

/-- `skip_bom`. -/
def skipBom (l : Lexer) : Bool × Lexer :=
  if l.get.1 = some 0xEF then
    if l.get.2.get.1 = some 0xBB then
      if l.get.2.get.2.get.1 = some 0xBF then (true, l.get.2.get.2.get.2)
      else (false, l.get.2.get.2.get.2)
    else (false, l.get.2.get.2)
  else (true, l)

def isSpace (c : UInt8) : Bool := decide (c = 0x20 ∨ c = 0x09 ∨ c = 0x0A ∨ c = 0x0D)

/-- The `do` loop of `scan`. -/
def skipSpace : Nat → Lexer → Option UInt8 × Lexer
  | 0, l => (none, l)
  | fuel + 1, l => if l.get.1.any isSpace then skipSpace fuel l.get.2 else l.get

/-- The `switch (current)` of `scan`. -/
def scanToken (current : Option UInt8) (l : Lexer) : Token × Lexer :=
  match current with
  | none => (.endOfInput, l)
  | some c =>
    if c = 0x5B then (.beginArray, l)
    else if c = 0x5D then (.endArray, l)
    else if c = 0x7B then (.beginObject, l)
    else if c = 0x7D then (.endObject, l)
    else if c = 0x3A then (.nameSeparator, l)
    else if c = 0x2C then (.valueSeparator, l)
    else if c = 0x74 then scanLiteral .literalTrue (lit "rue") l
    else if c = 0x66 then scanLiteral .literalFalse (lit "alse") l
    else if c = 0x6E then scanLiteral .literalNull (lit "ull") l
    else if c = 0x22 then l.scanString
    else if c = 0x2D ∨ isDigit c then l.scanNumber c
    else if c = 0x00 then (.endOfInput, l)
    else (.parseError .invalidLiteral, l)

/-- `scan`. -/
def scan (l : Lexer) : Token × Lexer :=
  if l.charsRead = 0 then
    match l.skipBom with
    | (false, l) => (.parseError .invalidBom, l)
    | (true, l) => scanToken (skipSpace (l.rest.length + 1) l).1 (skipSpace (l.rest.length + 1) l).2
  else scanToken (skipSpace (l.rest.length + 1) l).1 (skipSpace (l.rest.length + 1) l).2

end Lexer

end ASky

import ASky.Service.Lexer

/-!
# The JSON grammar

The grammar of JSON texts with the values they stand for, with tables of its own: nothing here is
taken from the lexer or the parser but the types `Token` and `Json` that name what is read. The
characters of a string and the parts of a number give a `Lexeme`, and the lexemes the phrases.
`Lexemes`, `Tokens` and `Syntax` show that the code reads the same.

* Lists are built from the left, as `array = "[" *( value "," ) value "]"`: the meaning
  `elements xs` is that of what stands after `[` and before the next element, `members ms key` that
  of what stands after an opening brace and before the value of `key`.
* An escaped code point stands for its UTF-8, as `String.utf8EncodeChar` has it; a character that is
  not escaped is well-formed UTF-8 (`lead`).
* An integer that fits 64 bits is one. Any other number is a `double`, which is only told from an
  overflow: it rounds to infinity from `doubleBound` on.
* Of several members with one key the last one counts (`lastOfEach`).
* `Document body v`: the text `body` stands for `v`. `jsonParse_ok_iff` (`Syntax`) says that
  `json::parse` accepts exactly these texts.
-/

namespace ASky

open Lib

/-! ## Strings -/

/-- White space: blank, tab, line feed, carriage return. -/
def Space (w : Bytes) : Prop := ∀ b ∈ w, b = 0x20 ∨ b = 0x09 ∨ b = 0x0A ∨ b = 0x0D

/-- A hexadecimal digit and its value. -/
def HexDigit (c : UInt8) (v : Nat) : Prop :=
  (lit "0123456789abcdef")[v]? = some c ∨ (lit "0123456789ABCDEF")[v]? = some c

/-- Four hexadecimal digits and their value. -/
def Quad (ds : Bytes) (codepoint : Nat) : Prop :=
  ∃ a b c d w x y z, ds = [a, b, c, d] ∧ HexDigit a w ∧ HexDigit b x ∧ HexDigit c y ∧
    HexDigit d z ∧ codepoint = Nat.ofDigits 16 [z, y, x, w]

/-- What may stand after a backslash, and what it stands for: quotation mark, reverse solidus,
solidus, backspace, form feed, line feed, carriage return, tab. -/
def escapes : List (UInt8 × UInt8) :=
  [(0x22, 0x22), (0x5C, 0x5C), (0x2F, 0x2F), (0x62, 0x08), (0x66, 0x0C), (0x6E, 0x0A),
    (0x72, 0x0D), (0x74, 0x09)]

/-- A character of a string, as it is written and as it is read. -/
inductive Character : Bytes → Bytes → Prop where
  | plain {c : UInt8} {p : Pending} {cs : Bytes} (hquote : c ≠ 0x22) (hbackslash : c ≠ 0x5C)
      (hcontrol : 0x20 ≤ c) (hlead : lead c = some p)
      (htail : List.Forall₂ (fun r b => r.1 ≤ b ∧ b ≤ r.2) p cs) : Character (c :: cs) (c :: cs)
  | simple {e b : UInt8} (h : (e, b) ∈ escapes) : Character [0x5C, e] [b]
  | unicode {ds : Bytes} {c : Char} (h : Quad ds c.toNat) :
      Character (0x5C :: 0x75 :: ds) (String.utf8EncodeChar c)
  | surrogates {ds ds' : Bytes} {high low : Nat} {c : Char} (h : Quad ds (0xD800 + high))
      (hhigh : high < 0x400) (h' : Quad ds' (0xDC00 + low)) (hlow : low < 0x400)
      (hc : c.toNat = 0x10000 + 0x400 * high + low) :
      Character (0x5C :: 0x75 :: ds ++ 0x5C :: 0x75 :: ds') (String.utf8EncodeChar c)

/-- What stands between the quotes of a string, and its value. -/
inductive Characters : Bytes → Bytes → Prop where
  | nil : Characters [] []
  | cons {t s u a : Bytes} (head : Character u a) (rest : Characters t s) :
      Characters (u ++ t) (a ++ s)

/-! ## Numbers -/

def Digits (ds : Bytes) : Prop := ∀ b ∈ ds, 0x30 ≤ b ∧ b ≤ 0x39

/-- The number a decimal stands for. -/
def ofDecimal (ds : Bytes) : Nat := Nat.ofDigits 10 (ds.reverse.map fun d => d.toNat - 0x30)

/-- `int = zero / ( digit1-9 *DIGIT )`. -/
def IntegerPart (bs : Bytes) : Prop :=
  bs = [0x30] ∨ ∃ c ds, bs = c :: ds ∧ c ≠ 0x30 ∧ Digits (c :: ds)

/-- `[ decimal-point 1*DIGIT ]`. -/
def FractionPart (bs : Bytes) : Prop := bs = [] ∨ ∃ ds, bs = 0x2E :: ds ∧ Digits ds ∧ ds ≠ []

/-- `[ e [ minus / plus ] 1*DIGIT ]`. -/
def ExponentPart (bs : Bytes) : Prop :=
  bs = [] ∨ ∃ e sign ds, bs = e :: (sign ++ ds) ∧ (e = 0x65 ∨ e = 0x45) ∧
    (sign = [] ∨ sign = [0x2B] ∨ sign = [0x2D]) ∧ Digits ds ∧ ds ≠ []

/-- The value of an exponent part. -/
def exponentOf : Bytes → Int
  | [] => 0
  | _ :: 0x2D :: ds => -(ofDecimal ds : Int)
  | _ :: 0x2B :: ds => ofDecimal ds
  | _ :: ds => ofDecimal ds

/-- The magnitude of a number, from its three parts. -/
def magnitude (int frac exp : Bytes) : ℚ :=
  (ofDecimal int + ofDecimal frac.tail / 10 ^ frac.tail.length) * 10 ^ exponentOf exp

/-- Halfway from the largest finite `double` to `2 ^ 1024`. -/
def doubleBound : ℚ := 2 ^ 1024 - 2 ^ 970

/-- `number = [ minus ] int [ frac ] [ exp ]`, and its value. -/
inductive Number : Bytes → Token → Prop where
  | unsigned {int : Bytes} (hint : IntegerPart int) (hfits : ofDecimal int < 2 ^ 64) :
      Number int (.valueUnsigned (ofDecimal int))
  | integer {int : Bytes} (hint : IntegerPart int) (hfits : ofDecimal int ≤ 2 ^ 63) :
      Number (0x2D :: int) (.valueInteger (-(ofDecimal int : Int)))
  | float {sign int frac exp : Bytes} (hsign : sign = [] ∨ sign = [0x2D])
      (hint : IntegerPart int) (hfrac : FractionPart frac) (hexp : ExponentPart exp)
      (hbig : frac = [] → exp = [] →
        (sign = [] → 2 ^ 64 ≤ ofDecimal int) ∧ (sign ≠ [] → 2 ^ 63 < ofDecimal int)) :
      Number (sign ++ (int ++ (frac ++ exp)))
        (.valueFloat (decide (magnitude int frac exp < doubleBound)))

/-! ## Tokens -/

/-- A token as it is written. -/
inductive Lexeme : Bytes → Token → Prop where
  | beginArray : Lexeme [0x5B] .beginArray
  | endArray : Lexeme [0x5D] .endArray
  | beginObject : Lexeme [0x7B] .beginObject
  | endObject : Lexeme [0x7D] .endObject
  | nameSeparator : Lexeme [0x3A] .nameSeparator
  | valueSeparator : Lexeme [0x2C] .valueSeparator
  | literalTrue : Lexeme (lit "true") .literalTrue
  | literalFalse : Lexeme (lit "false") .literalFalse
  | literalNull : Lexeme (lit "null") .literalNull
  | string {t s : Bytes} (h : Characters t s) : Lexeme (0x22 :: (t ++ [0x22])) (.valueString s)
  | number {bs : Bytes} {token : Token} (h : Number bs token) : Lexeme bs token

/-- The value of a token that is one. -/
def Token.scalar : Token → Option Json
  | .literalTrue => some (.boolean true)
  | .literalFalse => some (.boolean false)
  | .literalNull => some .null
  | .valueString s => some (.string s)
  | .valueUnsigned n => some (.numberUnsigned n)
  | .valueInteger i => some (.numberInteger i)
  | .valueFloat true => some .numberFloat
  | _ => none

/-! ## Values -/

/-- What an object keeps of its members: the last one of each key, in reverse order. -/
def lastOfEach (ms : List (Bytes × Json)) : List (Bytes × Json) :=
  (ms.pwFilter fun m m' => m.1 ≠ m'.1).reverse

/-- What a phrase of the grammar stands for. -/
inductive Meaning where
  | value (v : Json)
  | elements (xs : List Json)
  | members (ms : List (Bytes × Json)) (key : Bytes)

/-- A phrase of the grammar. -/
inductive Phrase : Bytes → Meaning → Prop where
  | scalar {bs : Bytes} {token : Token} {v : Json} (h : Lexeme bs token)
      (hv : token.scalar = some v) : Phrase bs (.value v)
  | noElements {w : Bytes} (hw : Space w) : Phrase w (.elements [])
  | element {es bs w w' : Bytes} {xs : List Json} {v : Json} (hes : Phrase es (.elements xs))
      (hv : Phrase bs (.value v)) (hw : Space w) (hw' : Space w') :
      Phrase (es ++ (bs ++ (w ++ 0x2C :: w'))) (.elements (xs ++ [v]))
  | emptyArray {w : Bytes} (hw : Space w) : Phrase (0x5B :: (w ++ [0x5D])) (.value (.array []))
  | array {es bs w : Bytes} {xs : List Json} {v : Json} (hes : Phrase es (.elements xs))
      (hv : Phrase bs (.value v)) (hw : Space w) :
      Phrase (0x5B :: (es ++ (bs ++ (w ++ [0x5D])))) (.value (.array (xs ++ [v])))
  | firstMember {w t key w' w'' : Bytes} (hw : Space w) (hkey : Characters t key) (hw' : Space w')
      (hw'' : Space w'') :
      Phrase (w ++ (0x22 :: (t ++ [0x22]) ++ (w' ++ 0x3A :: w''))) (.members [] key)
  | member {mts bs w w₁ t key' w₂ w₃ : Bytes} {ms : List (Bytes × Json)} {key : Bytes} {v : Json}
      (hms : Phrase mts (.members ms key)) (hv : Phrase bs (.value v)) (hw : Space w)
      (hw₁ : Space w₁) (hkey : Characters t key') (hw₂ : Space w₂) (hw₃ : Space w₃) :
      Phrase (mts ++ (bs ++ (w ++ 0x2C :: (w₁ ++ (0x22 :: (t ++ [0x22]) ++ (w₂ ++ 0x3A :: w₃))))))
        (.members (ms ++ [(key, v)]) key')
  | emptyObject {w : Bytes} (hw : Space w) : Phrase (0x7B :: (w ++ [0x7D])) (.value (.object []))
  | object {mts bs w : Bytes} {ms : List (Bytes × Json)} {key : Bytes} {v : Json}
      (hms : Phrase mts (.members ms key)) (hv : Phrase bs (.value v)) (hw : Space w) :
      Phrase (0x7B :: (mts ++ (bs ++ (w ++ [0x7D]))))
        (.value (.object (lastOfEach (ms ++ [(key, v)]))))

/-- A text that stands for `v`: a value, with white space around it. A byte order mark may stand
before it, and anything after a NUL. -/
def Document (body : Bytes) (v : Json) : Prop :=
  ∃ bom w bs w' after, body = bom ++ (w ++ (bs ++ (w' ++ after))) ∧
    (bom = [] ∨ bom = [0xEF, 0xBB, 0xBF]) ∧ Space w ∧ Phrase bs (.value v) ∧ Space w' ∧
    (after = [] ∨ after.head? = some 0x00)

end ASky

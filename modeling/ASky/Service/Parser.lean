import ASky.Service.AnonymBE
import ASky.Service.Lexer

/-!
# The JSON parser

Model of `basic_json::parse` (`json/json.hpp`): `parser::sax_parse_internal` over the lexer, with
the handler `json_sax_dom_parser` and the exceptions it throws.

* A `Container` is an entry of `states` together with the value `ref_stack` points to: an array, or
  an object and the key whose value is read.
* An iteration of the loop starts either with the token that begins a value, or, with
  `skip_to_state_evaluation`, at the evaluation of the state after a value: `ParserMode`.
* A `Failure` is what the texts of an exception are made of: the last token, the lexer, and the
  token that was expected.
* The loop takes fuel. `saxParseInternal_spec` shows that there is enough of it.
-/

namespace ASky

/-- `std::to_string`. -/
def decimal (n : Nat) : Bytes :=
  if n = 0 then [0x30] else (Nat.digits 10 n).reverse.map fun d => (0x30 + d).toUInt8

/-- Why the parser gave up. -/
inductive Failure where
  | unexpected (lastToken : Token) (lexer : Lexer) (expected : TokenType)
  | overflow (lexer : Lexer)

/-- `exception_message`. -/
def exceptionMessage (lastToken : Token) (l : Lexer) (expected : TokenType) : Bytes :=
  lit "syntax error - " ++
    (match lastToken with
      | .parseError message => message.text ++ lit "; last read: '" ++ l.getTokenString ++ lit "'"
      | token => lit "unexpected " ++ token.type.name) ++
    (if expected = .uninitialized then [] else lit "; expected " ++ expected.name)

/-- `parse_error::create` with id 101. The text goes through `c_str()`. -/
def parseErrorCreate (byte : Nat) (what : Bytes) : Bytes :=
  cStr (lit "[json.exception.parse_error.101] parse error" ++
    (if byte ≠ 0 then lit " at " ++ decimal byte else []) ++ lit ": " ++ what)

/-- `out_of_range::create` with id 406. -/
def outOfRangeCreate (what : Bytes) : Bytes :=
  cStr (lit "[json.exception.out_of_range.406] " ++ what)

/-- The exception that is thrown. -/
def Failure.exception : Failure → ParseError
  | .unexpected lastToken l expected =>
    .parseError (parseErrorCreate l.charsRead (exceptionMessage lastToken l expected))
  | .overflow l => .outOfRange
      (outOfRangeCreate (lit "number overflow parsing '" ++ l.getTokenString ++ lit "'"))

/-- A value under construction. -/
inductive Container where
  | array (xs : List Json)
  | object (kvs : List (Bytes × Json)) (key : Bytes)

/-- Where an iteration of the loop starts. -/
inductive ParserMode where
  | value (lastToken : Token)
  | evaluation (v : Json)

/-- How an iteration of the loop ends. -/
inductive ParserStep where
  | returns (v : Json) (l : Lexer)
  | throws (e : Failure)
  | continues (mode : ParserMode) (l : Lexer) (states : List Container)

/-- `object[key] = v`, on a `std::map`. -/
def objectSet (kvs : List (Bytes × Json)) (key : Bytes) (v : Json) : List (Bytes × Json) :=
  (key, v) :: kvs.filter fun e => e.1 ≠ key

/-- After a key: the separator, and the first token of its value. -/
def parseMember (kvs : List (Bytes × Json)) (key : Bytes) (l : Lexer) (states : List Container) :
    ParserStep :=
  match l.scan with
  | (.nameSeparator, l) => .continues (.value l.scan.1) l.scan.2 (.object kvs key :: states)
  | (token, l) => .throws (.unexpected token l .nameSeparator)

/-- The `switch (last_token)`. -/
def parseValue (lastToken : Token) (l : Lexer) (states : List Container) : ParserStep :=
  match lastToken with
  | .beginObject =>
    match l.scan with
    | (.endObject, l) => .continues (.evaluation (.object [])) l states
    | (.valueString key, l) => parseMember [] key l states
    | (token, l) => .throws (.unexpected token l .valueString)
  | .beginArray =>
    match l.scan with
    | (.endArray, l) => .continues (.evaluation (.array [])) l states
    | (token, l) => .continues (.value token) l (.array [] :: states)
  | .valueFloat finite =>
    if finite then .continues (.evaluation .numberFloat) l states else .throws (.overflow l)
  | .literalFalse => .continues (.evaluation (.boolean false)) l states
  | .literalNull => .continues (.evaluation .null) l states
  | .literalTrue => .continues (.evaluation (.boolean true)) l states
  | .valueInteger i => .continues (.evaluation (.numberInteger i)) l states
  | .valueString s => .continues (.evaluation (.string s)) l states
  | .valueUnsigned n => .continues (.evaluation (.numberUnsigned n)) l states
  | .parseError message => .throws (.unexpected (.parseError message) l .uninitialized)
  | token => .throws (.unexpected token l .literalOrValue)

/-- After a value: what its container goes on with. -/
def evaluateState (v : Json) (l : Lexer) (states : List Container) : ParserStep :=
  match states with
  | [] => .returns v l
  | .array xs :: states =>
    match l.scan with
    | (.valueSeparator, l) => .continues (.value l.scan.1) l.scan.2 (.array (xs ++ [v]) :: states)
    | (.endArray, l) => .continues (.evaluation (.array (xs ++ [v]))) l states
    | (token, l) => .throws (.unexpected token l .endArray)
  | .object kvs key :: states =>
    match l.scan with
    | (.valueSeparator, l) =>
      match l.scan with
      | (.valueString key', l) => parseMember (objectSet kvs key v) key' l states
      | (token, l) => .throws (.unexpected token l .valueString)
    | (.endObject, l) => .continues (.evaluation (.object (objectSet kvs key v))) l states
    | (token, l) => .throws (.unexpected token l .endObject)

def parserStep (mode : ParserMode) (l : Lexer) (states : List Container) : ParserStep :=
  match mode with
  | .value lastToken => parseValue lastToken l states
  | .evaluation v => evaluateState v l states

/-- `sax_parse_internal`; `none` when the fuel runs out. -/
def saxParseInternal :
    Nat → ParserMode → Lexer → List Container → Option (Except Failure (Json × Lexer))
  | 0, _, _, _ => none
  | fuel + 1, mode, l, states =>
    match parserStep mode l states with
    | .returns v l => some (.ok (v, l))
    | .throws e => some (.error e)
    | .continues mode l states => saxParseInternal fuel mode l states

/-- `parser(body).parse(true, result)`. -/
def parserParse (body : Bytes) : Option (Except Failure Json) :=
  let first := (Lexer.new body).scan
  match saxParseInternal (3 * body.length + 3) (.value first.1) first.2 [] with
  | none => none
  | some (.error e) => some (.error e)
  | some (.ok (v, l)) =>
    match l.scan with
    | (.endOfInput, _) => some (.ok v)
    | (token, l) => some (.error (.unexpected token l .endOfInput))

/-- `json::parse`. -/
def jsonParse (body : Bytes) : Except ParseError Json :=
  match parserParse body with
  | some (.ok v) => .ok v
  | some (.error e) => .error e.exception
  | none => .error (.parseError [])

/-- The position at which the lexer refused the text, if it did. -/
def lexicalErrorAt (body : Bytes) : Option Nat :=
  match parserParse body with
  | some (.error (.unexpected (.parseError _) l _)) => some l.charsRead
  | _ => none

/-- The service with the JSON parser of the code. -/
def Env.code (crypto : Crypto) (order : ArgOrder) : Env := ⟨crypto, jsonParse, order⟩

end ASky

import ASky.Bytes
import ASky.Lib.OrdMap

/-!
# The JSON the service reads and writes

The parts of `nlohmann::json` (`json/json.hpp`) the service uses.

* Reading: `at` is `basic_json::at(key)`, `jsonStr` the macro `json_str` at the end of `json.hpp`,
  `j.at(k).get<std::string>()`, with the library's exceptions passing through. `json::parse` is in
  `Service.Parser`.
* Writing: `dump2` is `dump(2)` on an object of strings, the only JSON the service writes.
  `dumpEscaped` is `serializer::dump_escaped` with `ensure_ascii = false`, over the decoder
  `decode` and its table `utf8d`. It throws `type_error.316` on bytes that are not UTF-8, so a
  dump can fail. `dumpEscaped_ok` says that it does not fail on bytes below `0x80`.
-/

namespace ASky

open Std (ExtTreeMap)

/-- A parsed JSON value. The service reads no number, so a float keeps no value. -/
inductive Json where
  | null
  | boolean (b : Bool)
  | numberInteger (i : Int)
  | numberUnsigned (n : Nat)
  | numberFloat
  | string (s : Bytes)
  | array (xs : List Json)
  | object (kvs : List (Bytes × Json))

/-- The exceptions of `nlohmann::detail`, with their `what()`. -/
inductive JsonError where
  | parseError (what : Bytes)
  | outOfRange (what : Bytes)
  | typeError (what : Bytes)
  deriving DecidableEq

/-! ## Reading -/

/-- `type_name()`. -/
def Json.typeName : Json → Bytes
  | .null => lit "null"
  | .object _ => lit "object"
  | .array _ => lit "array"
  | .string _ => lit "string"
  | .boolean _ => lit "boolean"
  | _ => lit "number"

/-- `j.at(key)`. -/
def Json.at (j : Json) (key : Bytes) : Except JsonError Json :=
  match j with
  | .object kvs =>
    match kvs.lookup key with
    | some v => .ok v
    | none => .error (.outOfRange (lit "[json.exception.out_of_range.403] key '" ++ key ++
        lit "' not found"))
  | j => .error (.typeError (lit "[json.exception.type_error.304] cannot use at() with " ++
      j.typeName))

/-- `json_str(j, key)`. -/
def jsonStr (j : Json) (key : Bytes) : Except JsonError Bytes :=
  match j.at key with
  | .error e => .error e
  | .ok (.string s) => .ok s
  | .ok v => .error (.typeError (lit "[json.exception.type_error.302] type must be string, but is "
      ++ v.typeName))

/-! ## Writing -/

/-- The table of `serializer::decode`: the class of each byte, then the transitions. -/
def utf8d : List Nat :=
  -- 00..7F
  List.replicate 128 0 ++
  -- 80..8F, 90..9F, A0..BF
  List.replicate 16 1 ++ List.replicate 16 9 ++ List.replicate 32 7 ++
  -- C0..DF
  [8, 8] ++ List.replicate 30 2 ++
  -- E0..EF
  [0xA, 3, 3, 3, 3, 3, 3, 3, 3, 3, 3, 3, 3, 4, 3, 3] ++
  -- F0..FF
  [0xB, 6, 6, 6, 5, 8, 8, 8, 8, 8, 8, 8, 8, 8, 8, 8] ++
  -- s0..s8
  [0, 1, 2, 3, 5, 8, 7, 1, 1, 1, 4, 6, 1, 1, 1, 1] ++
  [1, 1, 1, 1, 1, 1, 1, 1, 1, 1, 1, 1, 1, 1, 1, 1] ++
  [1, 0, 1, 1, 1, 1, 1, 0, 1, 0, 1, 1, 1, 1, 1, 1] ++
  [1, 2, 1, 1, 1, 1, 1, 2, 1, 2, 1, 1, 1, 1, 1, 1] ++
  [1, 1, 1, 1, 1, 1, 1, 2, 1, 1, 1, 1, 1, 1, 1, 1] ++
  [1, 2, 1, 1, 1, 1, 1, 1, 1, 2, 1, 1, 1, 1, 1, 1] ++
  [1, 1, 1, 1, 1, 1, 1, 3, 1, 3, 1, 1, 1, 1, 1, 1] ++
  [1, 3, 1, 1, 1, 1, 1, 3, 1, 3, 1, 1, 1, 1, 1, 1] ++
  [1, 3, 1, 1, 1, 1, 1, 1, 1, 1, 1, 1, 1, 1, 1, 1]

/-- `UTF8_ACCEPT`. -/
def utf8Accept : Nat := 0

/-- `UTF8_REJECT`. -/
def utf8Reject : Nat := 1

/-- `decode(state, codep, byte)`: the new state and code point. -/
def decode (state : Nat) (codep : UInt32) (byte : UInt8) : Nat × UInt32 :=
  let type := utf8d.getD byte.toNat 0
  (utf8d.getD (256 + state * 16 + type) 0,
    if state ≠ utf8Accept then (byte.toUInt32 &&& (0x3f : UInt32)) ||| (codep <<< (6 : UInt32))
    else ((0xff : UInt32) >>> type.toUInt32) &&& byte.toUInt32)

/-- A hexadecimal digit, as `%x` prints it. -/
def hexDigit (n : Nat) : UInt8 := (if n < 10 then 48 + n else 87 + n).toUInt8

/-- What `dump_escaped` writes for a complete code point whose last byte is `byte`. -/
def escape (codep : UInt32) (byte : UInt8) : Bytes :=
  if codep = 0x08 then lit "\\b"
  else if codep = 0x09 then lit "\\t"
  else if codep = 0x0A then lit "\\n"
  else if codep = 0x0C then lit "\\f"
  else if codep = 0x0D then lit "\\r"
  else if codep = 0x22 then lit "\\\""
  else if codep = 0x5C then lit "\\\\"
  else if codep ≤ 0x1F then
    lit "\\u00" ++ [hexDigit (codep.toNat / 16), hexDigit (codep.toNat % 16)]
  else [byte]

/-- `dump_escaped`, from a decoder state and the text written so far. The index and the byte in
the texts of `type_error.316` are left out: the exception is only ever printed. -/
def dumpEscapedFrom (state : Nat) (codep : UInt32) (acc : Bytes) : Bytes → Except JsonError Bytes
  | [] =>
    if state = utf8Accept then .ok acc
    else .error (.typeError (lit "[json.exception.type_error.316] incomplete UTF-8 string"))
  | byte :: rest =>
    let d := decode state codep byte
    if d.1 = utf8Accept then dumpEscapedFrom d.1 d.2 (acc ++ escape d.2 byte) rest
    else if d.1 = utf8Reject then
      .error (.typeError (lit "[json.exception.type_error.316] invalid UTF-8 byte"))
    else dumpEscapedFrom d.1 d.2 (acc ++ [byte]) rest

/-- `dump_escaped(s, false)`. -/
def dumpEscaped (s : Bytes) : Except JsonError Bytes := dumpEscapedFrom utf8Accept 0 [] s

/-- `KVString`, and the JSON objects of strings the service writes. -/
abbrev KVString := ExtTreeMap Bytes Bytes

/-- The members of an object, as `dump(2)` writes them. -/
def dumpMembers : List (Bytes × Bytes) → Except JsonError (List Bytes)
  | [] => .ok []
  | (k, v) :: rest =>
    match dumpEscaped k, dumpEscaped v, dumpMembers rest with
    | .ok k', .ok v', .ok rest' =>
      .ok ((lit "  \"" ++ k' ++ lit "\": \"" ++ v' ++ lit "\"") :: rest')
    | .error e, _, _ => .error e
    | _, .error e, _ => .error e
    | _, _, .error e => .error e

/-- `j.dump(2)` on an object of strings. -/
def dump2 (j : KVString) : Except JsonError Bytes :=
  match dumpMembers j.toList with
  | .error e => .error e
  | .ok [] => .ok (lit "\x7b\x7d")
  | .ok ms => .ok (lit "\x7b\n" ++ List.intercalate (lit ",\n") ms ++ lit "\n\x7d")

/-! ## A dump of ASCII does not fail -/

/-- An ASCII byte keeps the decoder between code points. -/
theorem decode_ascii (codep : UInt32) {byte : UInt8} (h : byte.toNat < 128) :
    (decode utf8Accept codep byte).1 = utf8Accept := by
  have htable : ∀ n < 128, utf8d.getD (256 + utf8Accept * 16 + utf8d.getD n 0) 0 = utf8Accept := by
    decide +kernel
  exact htable byte.toNat h

theorem dumpEscapedFrom_ok {s : Bytes} (h : Ascii s) (codep : UInt32)
    (acc : Bytes) : ∃ r, dumpEscapedFrom utf8Accept codep acc s = .ok r := by
  induction s generalizing codep acc with
  | nil => exact ⟨acc, by simp [dumpEscapedFrom]⟩
  | cons b s ih =>
    rw [dumpEscapedFrom]
    simp only [decode_ascii codep (h b List.mem_cons_self), if_true]
    exact ih (fun x hx => h x (List.mem_cons_of_mem b hx)) _ _

theorem dumpEscaped_ok {s : Bytes} (h : Ascii s) : ∃ r, dumpEscaped s = .ok r :=
  dumpEscapedFrom_ok h 0 []

/-- The object of ASCII names and values is written. -/
theorem dump2_ok {j : KVString}
    (h : ∀ k v, j[k]? = some v → Ascii k ∧ Ascii v) :
    ∃ r, dump2 j = .ok r := by
  have hm : ∀ l : List (Bytes × Bytes), (∀ e ∈ l, j[e.1]? = some e.2) →
      ∃ r, dumpMembers l = .ok r := by
    intro l
    induction l with
    | nil => exact fun _ => ⟨[], rfl⟩
    | cons e l ih =>
      intro hl
      obtain ⟨k, v⟩ := e
      obtain ⟨hk, hv⟩ := h k v (hl (k, v) List.mem_cons_self)
      obtain ⟨k', hk'⟩ := dumpEscaped_ok hk
      obtain ⟨v', hv'⟩ := dumpEscaped_ok hv
      obtain ⟨r, hr⟩ := ih fun e he => hl e (List.mem_cons_of_mem _ he)
      exact ⟨_, by rw [dumpMembers, hk', hv', hr]⟩
  obtain ⟨r, hr⟩ := hm j.toList fun e he => ExtTreeMap.mem_toList_iff_getElem?_eq_some.mp he
  unfold dump2
  rw [hr]
  cases r with
  | nil => exact ⟨_, rfl⟩
  | cons m ms => exact ⟨_, rfl⟩

end ASky

import ASky.Service.Answers
import ASky.Service.Dump
import ASky.Service.Parsed

/-!
# Which requests get an answer

An answer is written by `dump(2)` in the second `try` block, which throws on a string that is not
well-formed UTF-8; `process_input` then returns the empty `Response()`. This file follows the bytes
of a request into the answer, with the `json::parse` of `Service/Parser.lean`.

* The texts of the store and of `json_str` quote only strings of the parsed body and constant keys
  (`dispatch_clean`), and these are well formed.
* `"Unknown command '"` quotes the path as it is, and a `parse_error` of the lexer quotes the last
  token up to the byte it stopped at, which may be inside a code point.
* **`processInput_proper_iff`**: so a request gets a proper answer exactly when it is `Answerable`,
  on any store. **`answers_proper_iff`** says it of whole runs.
-/

namespace ASky

open Std (ExtTreeMap)
open Lib

/-- Code 200 or 400, and the body is the text of an object with a `result`. -/
def Response.Proper : Response → Prop
  | .reply code _ json body =>
    (code = 200 ∨ code = 400) ∧ dump2 json = .ok body ∧ (json[lit "result"]?).isSome = true
  | .empty => False

/-- The requests whose body is parsed. -/
def parsesBody (request : Request) : Prop :=
  request.method = lit "POST" ∨
    (request.method = lit "PUT" ∧ request.encodedPath = lit "/access/usergroup") ∨
    (request.method = lit "DELETE" ∧ (request.encodedPath = lit "/access/usergroup" ∨
      request.encodedPath = lit "/access/user"))

/-- What the answer quotes of the request is well-formed UTF-8: of a body that the lexer refuses the
part up to that position, and the path if it is no command. -/
structure Answerable (request : Request) : Prop where
  body : parsesBody request → ∀ p, lexicalErrorAt request.body = some p →
    Utf8 (request.body.take p)
  path : knownVerb request → endpoint request = none →
    (parsesBody request → ∃ j, jsonParse request.body = .ok j) → Utf8 request.encodedPath

/-! ## Texts of exceptions -/

def JsonError.what : JsonError → Bytes
  | .parseError what => what
  | .outOfRange what => what
  | .typeError what => what

/-- `what()` of an exception of the store. -/
def DbError.what : DbError → Bytes
  | .invalidArgument what => what
  | .logicError what => what

/-- `what()`, where there is one. -/
def Exn.what : Exn → Bytes
  | .json e => e.what
  | .db e => e.what
  | .otherException => []
  | .notAnException => []

/-- A name between two texts of the source. -/
theorem utf8_quote {a s b : Bytes} (ha : Printable a) (hs : Utf8 s) (hb : Printable b) :
    Utf8 (a ++ s ++ b) := (ha.utf8.append hs).append hb.utf8

/-- Two names between three texts of the source. -/
theorem utf8_quote₂ {a s b t c : Bytes} (ha : Printable a) (hs : Utf8 s) (hb : Printable b)
    (ht : Utf8 t) (hc : Printable c) : Utf8 (a ++ s ++ b ++ t ++ c) :=
  ((utf8_quote ha hs hb).append ht).append hc.utf8

/-- `type_name()` of a value. -/
theorem printable_typeName (j : Json) : Printable j.typeName := by
  cases j <;> exact printable_lit rfl

/-- `json_str` quotes the key it looks for. -/
theorem jsonStr_what {j : Json} {key : Bytes} {e : JsonError} (h : jsonStr j key = .error e)
    (hkey : Utf8 key) : Utf8 e.what := by
  have hat : ∀ e, j.at key = .error e → Utf8 e.what := by
    intro e he
    unfold Json.at at he
    cases j with
    | object kvs =>
      dsimp only at he
      cases hl : kvs.lookup key with
      | some v =>
        rw [hl] at he
        cases he
      | none =>
        rw [hl] at he
        cases he
        exact utf8_quote (printable_lit rfl) hkey (printable_lit rfl)
    | _ =>
      cases he
      exact (Printable.append (printable_lit rfl) (printable_typeName _)).utf8
  unfold jsonStr at h
  cases hv : j.at key with
  | error e' =>
    rw [hv] at h
    cases h
    exact hat e hv
  | ok v =>
    rw [hv] at h
    cases v with
    | string s => cases h
    | _ =>
      cases h
      exact (Printable.append (printable_lit rfl) (printable_typeName _)).utf8

/-- The text of the exception of one of two `json_str`. -/
theorem jsonStr₂_what {env : Env} {j : Json} {left right : Bytes} {e : JsonError}
    (h : env.jsonStr₂ j left right = .error e) (hl : Utf8 left) (hr : Utf8 right) :
    Utf8 e.what := by
  obtain h | h := Env.jsonStr₂_error h
  · exact jsonStr_what h hl
  · exact jsonStr_what h hr

namespace MemDatabase

variable {db : MemDatabase} {g u : Bytes} {e : DbError}

theorem addUserToGroup_what (h : (db.addUserToGroup g u).1 = .error e) (hg : Utf8 g)
    (hu : Utf8 u) : Utf8 e.what := by
  unfold addUserToGroup at h
  dsimp only at h
  split_ifs at h <;> cases h <;>
    exact utf8_quote₂ (printable_lit rfl) hu (printable_lit rfl) hg (printable_lit rfl)

theorem createUser_what {key : Bytes} (h : (db.createUser u key).1 = .error e) (hu : Utf8 u) :
    Utf8 e.what := by
  rw [createUser_eq] at h
  split_ifs at h
  cases h
  exact utf8_quote (printable_lit rfl) hu (printable_lit rfl)

theorem createGroup_what (h : (db.createGroup g u).1 = .error e) (hg : Utf8 g) (hu : Utf8 u) :
    Utf8 e.what := by
  rw [createGroup_eq] at h
  by_cases hgroup : g ∈ db.groups
  · rw [if_pos hgroup] at h
    cases h
    exact utf8_quote (printable_lit rfl) hg (printable_lit rfl)
  · rw [if_neg hgroup] at h
    split_ifs at h
    cases h
    exact utf8_quote₂ (printable_lit rfl) hg (printable_lit rfl) hu (printable_lit rfl)

theorem isUserPartOfGroup_what (h : (db.isUserPartOfGroup u g).1 = .error e) (hg : Utf8 g) :
    Utf8 e.what := by
  rw [isUserPartOfGroup_eq] at h
  cases hs : db.groups[g]? with
  | some members =>
    rw [hs] at h
    cases h
  | none =>
    rw [hs] at h
    cases h
    exact utf8_quote (printable_lit rfl) hg (printable_lit rfl)

theorem removeUserFromGroup_what (h : (db.removeUserFromGroup g u).1 = .error e) (hg : Utf8 g)
    (hu : Utf8 u) : Utf8 e.what := by
  rw [removeUserFromGroup_eq] at h
  cases hs : db.groups[g]? with
  | none =>
    rw [hs] at h
    cases h
    exact utf8_quote₂ (printable_lit rfl) hu (printable_lit rfl) hg (printable_lit rfl)
  | some members =>
    rw [hs] at h
    dsimp only at h
    split_ifs at h <;> cases h <;>
      exact utf8_quote₂ (printable_lit rfl) hu (printable_lit rfl) hg (printable_lit rfl)

theorem getKeysOfGroup_what (h : (db.getKeysOfGroup g).1 = .error e) (hg : Utf8 g) :
    Utf8 e.what := by
  rw [getKeysOfGroup_eq] at h
  cases hs : db.groups[g]? with
  | none =>
    rw [hs] at h
    cases h
    exact utf8_quote (printable_lit rfl) hg (printable_lit rfl)
  | some members =>
    rw [hs] at h
    dsimp only at h
    split_ifs at h
    cases h
    exact utf8_quote (printable_lit rfl) hg (printable_lit rfl)

end MemDatabase

namespace AnonymBE

/-! ## Texts of the handlers -/

/-- The keys and values of the response map are well formed. -/
def TextsOf (response : KVString) : Prop := ∀ k v, response[k]? = some v → Utf8 k ∧ Utf8 v

/-- Nothing to dump. -/
theorem textsOf_empty : TextsOf ∅ := by
  intro k v h
  rw [ExtTreeMap.getElem?_empty] at h
  cases h

/-- One more text. -/
theorem textsOf_insert {response : KVString} {key value : Bytes} (h : TextsOf response)
    (hk : Utf8 key) (hv : Utf8 value) : TextsOf (response.insert key value) := by
  intro k v hkv
  rw [getElem?_insert] at hkv
  by_cases hkey : k = key
  · rw [if_pos hkey] at hkv
    rw [hkey, ← Option.some.inj hkv]
    exact ⟨hk, hv⟩
  · rw [if_neg hkey] at hkv
    exact h k v hkv

/-- What a handler wrote or threw is well formed. -/
structure Clean (h : Handled) : Prop where
  response : TextsOf h.response
  thrown : ∀ e, h.result = .error e → Utf8 e.what

variable {env : Env} {draw : Draw} {indexed : Bool} {db db' : MemDatabase} {request : Request}

/-- A handler that returned. -/
theorem clean_ok (error : AskyError) {response : KVString} (h : TextsOf response) :
    Clean ⟨.ok error, response, db⟩ := ⟨h, nofun⟩

/-- A handler that threw: the text of the exception is in the answer. -/
theorem clean_throws {e : Exn} (h : Utf8 e.what) : Clean (throws db e) := by
  refine ⟨textsOf_empty, fun e' he => ?_⟩
  cases he
  exact h

/-- A handler that only calls the store. -/
theorem clean_ofStore {r : Except DbError Unit × MemDatabase}
    (h : ∀ e, r.1 = .error e → Utf8 e.what) : Clean (ofStore r) := by
  unfold ofStore
  cases hr : r.1 with
  | ok _ => exact clean_ok _ textsOf_empty
  | error e => exact clean_throws (e := .db e) (h e hr)

section Handlers

variable {j : Json} (hb : ∀ b, Ascii (env.crypto.b64Encode b)) (hj : j.Texts)

include hb hj

/-- `create_user`: base64 is ASCII. -/
theorem createUser_clean : Clean (createUser env draw db j) := by
  unfold createUser
  cases hu : jsonStr j (lit "user_id") with
  | error e => exact clean_throws (jsonStr_what hu (printable_lit rfl).utf8)
  | ok u =>
    dsimp only
    cases hr : db.createUser u draw.key.val with
    | mk result db' =>
      cases result with
      | error e =>
        exact clean_throws (MemDatabase.createUser_what (by rw [hr]) (hj.jsonStr hu))
      | ok _ =>
        exact clean_ok _ (textsOf_insert textsOf_empty (printable_lit rfl).utf8 (hb _).utf8)

/-- `generate_envelope`: base64 is ASCII. -/
theorem generateEnvelope_clean : Clean (generateEnvelope env draw indexed db j) := by
  unfold generateEnvelope
  cases hk : jsonStr j (lit "bucket_key") with
  | error e => exact clean_throws (jsonStr_what hk (printable_lit rfl).utf8)
  | ok b =>
    dsimp only
    cases hg : jsonStr j (lit "group_id") with
    | error e => exact clean_throws (jsonStr_what hg (printable_lit rfl).utf8)
    | ok g =>
      dsimp only
      cases hr : db.getKeysOfGroup g with
      | mk result db' =>
        cases result with
        | error e =>
          exact clean_throws (MemDatabase.getKeysOfGroup_what (by rw [hr]) (hj.jsonStr hg))
        | ok ka =>
          refine clean_ok _ ?_
          unfold sealEnvelope
          by_cases hne : ka.isEmpty
          · rw [if_pos hne]
            exact textsOf_insert textsOf_empty (printable_lit rfl).utf8 (printable_lit rfl).utf8
          · rw [if_neg hne]
            exact textsOf_insert textsOf_empty (printable_lit rfl).utf8 (hb _).utf8

end Handlers

/-- Two fields of the body, and what the handler does with them. -/
theorem clean_fields {j : Json} {left right : Bytes} {next : Bytes → Bytes → Handled}
    (hj : j.Texts) (hl : Utf8 left) (hr : Utf8 right)
    (h : ∀ l r, Utf8 l → Utf8 r → Clean (next l r)) :
    Clean (match env.jsonStr₂ j left right with
      | .error e => throws db (.json e)
      | .ok (l, r) => next l r) := by
  cases hf : env.jsonStr₂ j left right with
  | error e => exact clean_throws (jsonStr₂_what hf hl hr)
  | ok fields =>
    obtain ⟨l, r⟩ := fields
    obtain ⟨hjl, hjr⟩ := Env.jsonStr₂_ok hf
    exact h l r (hj.jsonStr hjl) (hj.jsonStr hjr)

/-- `process_get` throws nothing and writes nothing. -/
theorem processGet_plain (db : MemDatabase) (request : Request) :
    (∃ error, (processGet db request).result = .ok error) ∧
      (processGet db request).response = ∅ := by
  unfold processGet
  dsimp only
  split_ifs
  · exact ⟨⟨_, rfl⟩, rfl⟩
  · exact ⟨⟨_, rfl⟩, rfl⟩
  · exact ⟨⟨_, rfl⟩, rfl⟩
  · exact ⟨⟨_, rfl⟩, rfl⟩

/-- Such a handler is clean. -/
theorem clean_of_plain {h : Handled} (hh : (∃ error, h.result = .ok error) ∧ h.response = ∅) :
    Clean h := by
  obtain ⟨⟨error, hok⟩, hempty⟩ := hh
  refine ⟨hempty ▸ textsOf_empty, fun e he => ?_⟩
  rw [hok] at he
  cases he

section Dispatch

variable (hb : ∀ b, Ascii (env.crypto.b64Encode b))
  (herror : ∀ e, env.parseBody request = .error e → Utf8 e.what)
  (hok : ∀ j, env.parse request.body = .ok j → j.Texts)

include herror hok

/-- `process_put`: what the store throws has the names of the body in it. -/
theorem processPut_clean : Clean (processPut env db request) := by
  unfold processPut
  dsimp only
  by_cases hp : request.encodedPath = lit "/access/usergroup"
  · rw [if_pos hp]
    cases hbody : env.parseBody request with
    | error e => exact clean_throws (herror e hbody)
    | ok j =>
      have hj := hok j (Env.parse_of_parseBody hbody)
      exact clean_fields hj (printable_lit rfl).utf8 (printable_lit rfl).utf8 fun g u hg hu =>
        clean_ofStore fun e he => MemDatabase.addUserToGroup_what he hg hu
  · rw [if_neg hp]
    exact clean_ok _ textsOf_empty

/-- `process_delete`, as `process_put`. -/
theorem processDelete_clean : Clean (processDelete env db request) := by
  unfold processDelete
  dsimp only
  by_cases hgroup : request.encodedPath = lit "/access/usergroup"
  · rw [if_pos hgroup]
    cases hbody : env.parseBody request with
    | error e => exact clean_throws (herror e hbody)
    | ok j =>
      have hj := hok j (Env.parse_of_parseBody hbody)
      exact clean_fields hj (printable_lit rfl).utf8 (printable_lit rfl).utf8 fun g u hg hu =>
        clean_ofStore fun e he => MemDatabase.removeUserFromGroup_what he hg hu
  rw [if_neg hgroup]
  by_cases huser : request.encodedPath = lit "/access/user"
  · rw [if_pos huser]
    cases hbody : env.parseBody request with
    | error e => exact clean_throws (herror e hbody)
    | ok j =>
      dsimp only
      cases hu : jsonStr j (lit "user_id") with
      | error e => exact clean_throws (jsonStr_what hu (printable_lit rfl).utf8)
      | ok u => exact clean_ok _ textsOf_empty
  rw [if_neg huser]
  split_ifs
  · exact clean_ok _ textsOf_empty
  · exact clean_ok _ textsOf_empty

include hb

/-- `process_post`: its four operations. -/
theorem processPost_clean : Clean (processPost env draw indexed db request) := by
  unfold processPost
  cases hbody : env.parseBody request with
  | error e => exact clean_throws (herror e hbody)
  | ok j =>
    have hj := hok j (Env.parse_of_parseBody hbody)
    dsimp only
    by_cases huser : request.encodedPath = lit "/access/user"
    · rw [if_pos huser]
      exact createUser_clean hb hj
    rw [if_neg huser]
    by_cases hgroup : request.encodedPath = lit "/access/group"
    · rw [if_pos hgroup]
      exact clean_fields hj (printable_lit rfl).utf8 (printable_lit rfl).utf8 fun g u hg hu =>
        clean_ofStore fun e he => MemDatabase.createGroup_what he hg hu
    rw [if_neg hgroup]
    by_cases henvelope : request.encodedPath = lit "/verifier/envelope"
    · rw [if_pos henvelope]
      exact generateEnvelope_clean hb hj
    rw [if_neg henvelope]
    by_cases hbelongs : request.encodedPath = lit "/verifier/usergroup"
    · rw [if_pos hbelongs]
      refine clean_fields hj (printable_lit rfl).utf8 (printable_lit rfl).utf8 fun u g hu hg => ?_
      cases hr : db.isUserPartOfGroup u g with
      | mk result db' =>
        cases result with
        | error e =>
          exact clean_throws (MemDatabase.isUserPartOfGroup_what (by rw [hr]) hg)
        | ok answer =>
          refine clean_ok _ (textsOf_insert textsOf_empty (printable_lit rfl).utf8 ?_)
          cases answer with
          | false => exact (printable_lit rfl).utf8
          | true => exact (printable_lit rfl).utf8
    · rw [if_neg hbelongs]
      exact clean_ok _ textsOf_empty

/-- **The handlers write and throw well-formed texts**, if `json::parse` does. -/
theorem dispatch_clean (s : AnonymBE) : Clean (dispatch env draw s request) := by
  by_cases hv : knownVerb request
  · rcases hv with hm | hm | hm | hm
    · rw [dispatch_get s hm]
      exact clean_of_plain (processGet_plain s.database request)
    · rw [dispatch_put s hm]
      exact processPut_clean herror hok
    · rw [dispatch_post s hm]
      exact processPost_clean hb herror hok
    · rw [dispatch_delete s hm]
      exact processDelete_clean herror hok
  · rw [dispatch_otherVerb env draw s hv]
    exact clean_ok _ textsOf_empty

end Dispatch

/-! ## The second `try` block -/

/-- What is left for `dump(2)`. -/
def Settled.Clean (t : Settled) : Prop :=
  if t.error = .noError then TextsOf t.response else Utf8 t.extra

/-- `positive_response` throws just when a text of the map is no UTF-8. -/
theorem positiveResponse_isOk_iff (response : KVString) :
    (∃ r, positiveResponse response = .ok r) ↔ TextsOf response := by
  have hdump := dump2_isOk_iff (response.toList.foldl (fun j kv => j.insert kv.1 kv.2)
    ((∅ : KVString).insert (lit "result") (lit "ok")))
  have htexts : (∃ r, positiveResponse response = .ok r) ↔ ∃ body,
      dump2 (response.toList.foldl (fun j kv => j.insert kv.1 kv.2)
        ((∅ : KVString).insert (lit "result") (lit "ok"))) = .ok body := by
    unfold positiveResponse
    dsimp only
    cases dump2 _ with
    | error e => simp
    | ok body => simp
  rw [htexts, hdump]
  constructor
  · intro h k v hk
    refine h k v ?_
    rw [getElem?_foldl_toList, hk]
    rfl
  · intro h k v hk
    rw [getElem?_foldl_toList] at hk
    cases hv : response[k]? with
    | some w =>
      rw [hv] at hk
      exact Option.some.inj hk ▸ h k w hv
    | none =>
      rw [hv, Option.none_or] at hk
      exact textsOf_insert textsOf_empty (printable_lit rfl).utf8 (printable_lit rfl).utf8 k v hk

theorem printable_errAmcs (error : AskyError) : Printable (errAmcs error) := by
  cases error <;> exact printable_lit rfl

/-- `negative_response` throws just when the detail is no UTF-8. -/
theorem negativeResponse_isOk_iff (error : AskyError) (extra : Bytes) :
    (∃ r, negativeResponse (errAmcs error) extra = .ok r) ↔ Utf8 extra := by
  have hdump := dump2_isOk_iff (((∅ : KVString).insert (lit "result") (lit "error")).insert
    (lit "detail") (if extra ≠ [] then extra else errAmcs error))
  have htexts : (∃ r, negativeResponse (errAmcs error) extra = .ok r) ↔ ∃ body,
      dump2 (((∅ : KVString).insert (lit "result") (lit "error")).insert (lit "detail")
        (if extra ≠ [] then extra else errAmcs error)) = .ok body := by
    unfold negativeResponse
    dsimp only
    cases dump2 _ with
    | error e => simp
    | ok body => simp
  have hdetail : Utf8 (if extra ≠ [] then extra else errAmcs error) ↔ Utf8 extra := by
    by_cases he : extra = []
    · rw [if_neg (not_not.mpr he), he]
      exact iff_of_true (printable_errAmcs error).utf8 utf8_nil
    · rw [if_pos he]
  rw [htexts, hdump, ← hdetail]
  constructor
  · intro h
    refine (h (lit "detail") _ ?_).2
    rw [getElem?_insert, if_pos rfl]
  · intro h
    exact textsOf_insert (textsOf_insert textsOf_empty (printable_lit rfl).utf8
      (printable_lit rfl).utf8) (printable_lit rfl).utf8 h

/-- What `positive_response` returns is a proper answer. -/
theorem positiveResponse_proper {response : KVString} {r : Response}
    (h : positiveResponse response = .ok r) : r.Proper := by
  have hresult := positiveResponse_field h (lit "result")
  unfold positiveResponse at h
  dsimp only at h
  split at h
  · cases h
  · rename_i body hbody
    cases h
    refine ⟨.inl rfl, hbody, ?_⟩
    rw [Response.field, if_pos rfl] at hresult
    rw [hresult]
    cases response[lit "result"]? <;> rfl

/-- What `negative_response` returns is a proper answer. -/
theorem negativeResponse_proper {msg extra : Bytes} {r : Response}
    (h : negativeResponse msg extra = .ok r) : r.Proper := by
  unfold negativeResponse at h
  dsimp only at h
  split at h
  · cases h
  · rename_i body hbody
    cases h
    refine ⟨.inr rfl, hbody, ?_⟩
    rw [getElem?_insert, getElem?_insert, if_pos rfl]
    split_ifs <;> rfl

/-- **The second `try` block** answers properly iff what it writes is well formed. -/
theorem answer_proper_iff (t : Settled) : (answer t).Proper ↔ t.Clean := by
  unfold answer Settled.Clean
  by_cases he : t.error = .noError
  · rw [if_pos he, if_pos he, ← positiveResponse_isOk_iff]
    cases hr : positiveResponse t.response with
    | error e => exact iff_of_false id (by simp)
    | ok r => exact iff_of_true (positiveResponse_proper hr) ⟨r, rfl⟩
  · rw [if_neg he, if_neg he, ← negativeResponse_isOk_iff t.error]
    cases hr : negativeResponse (errAmcs t.error) t.extra with
    | error e => exact iff_of_false id (by simp)
    | ok r => exact iff_of_true (negativeResponse_proper hr) ⟨r, rfl⟩

/-- The second `try` block returns a proper answer or the empty one. -/
theorem answer_proper_or_empty (t : Settled) : (answer t).Proper ∨ answer t = .empty := by
  cases h : answer t with
  | empty => exact .inr rfl
  | reply code msg json body =>
    left
    unfold answer at h
    split at h
    · rename_i r hr
      subst h
      split_ifs at hr
      · exact positiveResponse_proper hr
      · exact negativeResponse_proper hr
    · cases h

/-- A clean handler leaves clean values, but for the path of an unknown command. -/
theorem settle_clean {h : Handled} (hh : Clean h)
    (hpath : h.result = .ok .badRequest → h.response[lit "detail"]? = none →
      Utf8 request.encodedPath) : (settle request h).Clean := by
  obtain ⟨result, response, db⟩ := h
  unfold settle
  cases result with
  | error e =>
    have hwhat : Utf8 (cStr e.what) := (hh.thrown e rfl).takeWhile_ne_zero
    cases e with
    | json e =>
      cases e with
      | parseError what => exact hwhat
      | outOfRange what => exact hwhat
      | typeError what => exact hh.response
    | db e =>
      cases e with
      | invalidArgument what => exact hwhat
      | logicError what => exact textsOf_insert hh.response (printable_lit rfl).utf8 hwhat
    | otherException => exact hh.response
    | notAnException => exact utf8_nil
  | ok error =>
    cases error with
    | noError => exact hh.response
    | badRequest =>
      dsimp only
      cases hd : response[lit "detail"]? with
      | some detail => exact (hh.response _ _ hd).2
      | none => exact utf8_quote (printable_lit rfl) (hpath rfl hd) (printable_lit rfl)
    | _ => exact utf8_nil

/-! ## Requests -/

/-- Without a body to parse nothing is thrown, and nothing is written. -/
theorem dispatch_unparsed (env : Env) (draw : Draw) (s : AnonymBE) (h : ¬ parsesBody request) :
    (∃ error, (dispatch env draw s request).result = .ok error) ∧
      (dispatch env draw s request).response = ∅ := by
  by_cases hv : knownVerb request
  · rcases hv with hm | hm | hm | hm
    · rw [dispatch_get s hm]
      exact processGet_plain s.database request
    · rw [dispatch_put s hm]
      unfold processPut
      dsimp only
      rw [if_neg fun hp => h (.inr (.inl ⟨hm, hp⟩))]
      exact ⟨⟨_, rfl⟩, rfl⟩
    · exact absurd (.inl hm) h
    · rw [dispatch_delete s hm]
      unfold processDelete
      dsimp only
      rw [if_neg fun hp => h (.inr (.inr ⟨hm, .inl hp⟩)),
        if_neg fun hp => h (.inr (.inr ⟨hm, .inr hp⟩))]
      split_ifs
      · exact ⟨⟨_, rfl⟩, rfl⟩
      · exact ⟨⟨_, rfl⟩, rfl⟩
  · rw [dispatch_otherVerb env draw s hv]
    exact ⟨⟨_, rfl⟩, rfl⟩

/-- A body that does not parse. -/
theorem dispatch_badBody (s : AnonymBE) (h : parsesBody request) {e : JsonError}
    (he : env.parseBody request = .error e) :
    dispatch env draw s request = throws s.database (.json e) := by
  obtain hpost | ⟨hput, hp⟩ | ⟨hdelete, hp⟩ := h
  · rw [dispatch_post s hpost]
    unfold processPost
    rw [he]
  · rw [dispatch_put s hput]
    unfold processPut
    dsimp only
    rw [if_pos hp, he]
  · rw [dispatch_delete s hdelete]
    unfold processDelete
    dsimp only
    obtain hgroup | huser := hp
    · rw [if_pos hgroup, he]
    · rw [if_neg (by rw [huser]; decide), if_pos huser, he]

/-- A path that is no command. -/
theorem dispatch_unknownCommand (s : AnonymBE) (hv : knownVerb request)
    (he : endpoint request = none)
    (hp : parsesBody request → ∃ j, env.parse request.body = .ok j) :
    dispatch env draw s request = ⟨.ok .badRequest, ∅, s.database⟩ := by
  have hh := dispatch_handles env draw s request
  have hparsed : ∀ e, env.parseBody request = .error e →
      ∀ e', (dispatch env draw s request).result ≠ .error e' := by
    intro e hbody e' herr
    by_cases hparses : parsesBody request
    · obtain ⟨j, hj⟩ := hp hparses
      rw [Env.parseBody, hj] at hbody
      cases hbody
    · obtain ⟨⟨error, hok⟩, -⟩ := dispatch_unparsed env draw s hparses
      rw [hok] at herr
      cases herr
  generalize dispatch env draw s request = h at hh hparsed ⊢
  cases hh with
  | otherVerb hno => exact absurd hv hno
  | unknownCommand _ _ => rfl
  | badBody _ hbody => exact absurd rfl (hparsed _ hbody _)
  | badField _ _ hf =>
    rw [Env.readFields, he] at hf
    cases hf
  | _ => exact absurd (he.symm.trans ‹endpoint request = some _›) (by simp)

/-- Only a path that is no command is answered by `"Unknown command"`. -/
theorem unknownCommand_of_badRequest (s : AnonymBE)
    (h : (dispatch env draw s request).result = .ok .badRequest)
    (hd : (dispatch env draw s request).response[lit "detail"]? = none) :
    knownVerb request ∧ endpoint request = none := by
  have hh := dispatch_handles env draw s request
  generalize dispatch env draw s request = r at hh h hd
  cases hh with
  | unknownCommand hv he => exact ⟨hv, he⟩
  | emptyEnvelope _ _ =>
    dsimp only at hd
    rw [getElem?_insert, if_pos rfl] at hd
    cases hd
  | _ => cases h

/-- What `json::parse` threw, as the handlers see it. -/
theorem parse_of_parseBody_error {e : JsonError} (h : env.parseBody request = .error e) :
    ∃ e', env.parse request.body = .error e' ∧ e'.what = e.what := by
  unfold Env.parseBody at h
  cases hp : env.parse request.body with
  | ok j =>
    rw [hp] at h
    cases h
  | error e' =>
    rw [hp] at h
    cases e' with
    | parseError what =>
      cases h
      exact ⟨_, rfl, rfl⟩
    | outOfRange what =>
      cases h
      exact ⟨_, rfl, rfl⟩

section Requests

variable {crypto : Crypto} (order : ArgOrder) (draw : Draw) (s : AnonymBE)

/-- An answerable request is answered properly. -/
theorem proper_of_answerable (hb : ∀ b, Ascii (crypto.b64Encode b)) (h : Answerable request) :
    (processInput (Env.code crypto order) draw s request).1.Proper := by
  have hclean : Clean (dispatch (Env.code crypto order) draw s request) := by
    by_cases hparses : parsesBody request
    · refine dispatch_clean hb (fun e he => ?_) (fun j hj => (jsonParse_ok hj).1) s
      obtain ⟨e', he', hwhat⟩ := parse_of_parseBody_error he
      rw [← hwhat]
      exact (jsonParse_error he').mpr (h.body hparses)
    · exact clean_of_plain (dispatch_unparsed (Env.code crypto order) draw s hparses)
  rw [processInput_fst, answer_proper_iff]
  refine settle_clean hclean fun hbad hdetail => ?_
  obtain ⟨hv, he⟩ := unknownCommand_of_badRequest s hbad hdetail
  refine h.path hv he fun hparses => ?_
  cases hp : (Env.code crypto order).parseBody request with
  | ok j => exact ⟨j, Env.parse_of_parseBody hp⟩
  | error e =>
    rw [dispatch_badBody s hparses hp] at hbad
    cases hbad

/-- A request that was answered properly is answerable. -/
theorem answerable_of_proper
    (h : (processInput (Env.code crypto order) draw s request).1.Proper) :
    Answerable request := by
  rw [processInput_fst, answer_proper_iff] at h
  constructor
  · intro hparses p hlex
    cases hp : (Env.code crypto order).parseBody request with
    | ok j =>
      rw [(jsonParse_ok (Env.parse_of_parseBody hp)).2] at hlex
      cases hlex
    | error e =>
      obtain ⟨e', he', hwhat⟩ := parse_of_parseBody_error hp
      refine (jsonParse_error he').mp ?_ p hlex
      rw [dispatch_badBody s hparses hp] at h
      rw [← cStr_jsonParse_what he', hwhat]
      obtain ⟨what, rfl⟩ | ⟨what, rfl⟩ := Env.parseBody_error hp
      · exact h
      · exact h
  · intro hv he hp
    rw [dispatch_unknownCommand s hv he hp] at h
    have hquote : Utf8 (lit "Unknown command '" ++ request.encodedPath ++ lit "'") := by
      unfold settle at h
      dsimp only at h
      rw [ExtTreeMap.getElem?_empty] at h
      exact h
    rw [utf8_append_ascii_iff (printable_lit rfl).ascii] at hquote
    exact (printable_lit rfl).utf8.append_iff.mp hquote

/-- **Which requests get a proper answer**, on any store. -/
theorem processInput_proper_iff (hb : ∀ b, Ascii (crypto.b64Encode b)) (request : Request) :
    (processInput (Env.code crypto order) draw s request).1.Proper ↔ Answerable request :=
  ⟨answerable_of_proper order draw s, proper_of_answerable order draw s hb⟩

/-- To any other the answer is empty. -/
theorem empty_of_not_answerable (h : ¬ Answerable request) :
    (processInput (Env.code crypto order) draw s request).1 = .empty := by
  obtain hp | hp := answer_proper_or_empty
    (settle request (dispatch (Env.code crypto order) draw s request))
  · exact absurd (answerable_of_proper order draw s hp) h
  · exact hp

end Requests

/-! ## Runs -/

/-- The answers to a sequence of requests, each with its random bytes. -/
def answers (env : Env) (s : AnonymBE) : List (Draw × Request) → List Response
  | [] => []
  | (draw, request) :: steps =>
    (processInput env draw s request).1 :: answers env (processInput env draw s request).2 steps

/-- **In every run a request gets a proper answer iff it is `Answerable`**, whatever state the run
starts in and whatever the other requests are. -/
theorem answers_proper_iff {crypto : Crypto} (hb : ∀ b, Ascii (crypto.b64Encode b))
    (order : ArgOrder) (s : AnonymBE) (steps : List (Draw × Request)) :
    List.Forall₂ (fun step answer => Response.Proper answer ↔ Answerable step.2) steps
      (answers (Env.code crypto order) s steps) := by
  induction steps generalizing s with
  | nil => exact .nil
  | cons step steps ih =>
    obtain ⟨draw, request⟩ := step
    exact .cons (processInput_proper_iff order draw s hb request) (ih _)

/-- The body of a new user `a` parses. -/
theorem answerable_userBody : Answerable ⟨lit "POST", lit "/access/user", userBody "\"a\""⟩ where
  body _ p hp := by
    have hnone : lexicalErrorAt (userBody "\"a\"") = none := by decide +kernel
    rw [hnone] at hp
    cases hp
  path _ he := absurd he (by decide)

theorem answers_proper_iff_userBody :
    ∃ r, answers (Env.code .sample .rightFirst) (initialised true)
      [(Draw.sample, ⟨lit "POST", lit "/access/user", userBody "\"a\""⟩)] = [r] ∧ r.Proper := by
  have h := answers_proper_iff Crypto.sample_b64_ascii .rightFirst (initialised true)
    [(Draw.sample, ⟨lit "POST", lit "/access/user", userBody "\"a\""⟩)]
  cases h with
  | cons hiff _ => exact ⟨_, rfl, hiff.mpr answerable_userBody⟩

/-- `é`, in UTF-8: the lexer stops after the first of its two bytes. -/
def accentRequest : Request := ⟨lit "POST", lit "/access/user", [0xC3, 0xA9]⟩

/-- A well-formed body without an answer. -/
theorem accentRequest_empty :
    Utf8 accentRequest.body ∧
      Reachable (Env.code .sample .rightFirst) (initialised true) ∧
      (processInput (Env.code .sample .rightFirst) Draw.sample (initialised true)
        accentRequest).1 = .empty := by
  have hno : ¬ Answerable accentRequest := by
    intro h
    exact absurd (h.body (.inl rfl) 1 (by decide +kernel)) (by decide)
  exact ⟨by decide, .init true, empty_of_not_answerable _ _ _ hno⟩

end AnonymBE

end ASky

import ASky.Service.Envelope
import ASky.Service.Json
import ASky.Store.MemDatabase

/-!
# The access monitor

Model of `AnonymBE<MemDatabase>` (`enclave/anonymbe_service.hpp`): from a request to a response,
with the dispatch by method and path, the handlers, the cascade of `catch` clauses and the two
response builders.

* A `Request` is its method, encoded path and body. The cryptographic functions, the compiler's
  evaluation order of two `json_str` arguments and `json::parse` are in `Env`; the results that need
  no more of the parser hold for any, the others for the one of `Service.Parser` (`Env.code`). The
  random bytes of a request are in `Draw`.
* A handler returns or throws, and has by then changed the response map and the store: `Handled`.
* `catchClauses` is the cascade in source order. `error` starts as `ASKY_NOERROR`, and the
  `std::logic_error` and `std::exception` clauses leave it so.
* A response keeps the JSON object next to its text. Protocol and headers are the same constants
  in both builders and are left out. `Response.empty` is the `Response()` of the last line.
-/

namespace ASky

open Std (ExtTreeMap)

/-- `ASKYError`. -/
inductive AskyError where
  | noError
  | errorService
  | initializationFail
  | alreadyInitialized
  | badRequest
  | createExistent
  | nonExistent
  | rollbackAttack
  | wrapup
  | unknown
  deriving DecidableEq

/-- What a handler can throw, by the `catch` clause that sees it. Nothing below throws
`otherException` (a `std::exception` that is neither the store's nor the JSON library's) or
`notAnException`. -/
inductive Exn where
  | json (e : JsonError)
  | db (e : DbError)
  | otherException
  | notAnException
  deriving DecidableEq

structure Request where
  method : Bytes
  encodedPath : Bytes
  body : Bytes

inductive Response where
  | empty
  | reply (code : Nat) (message : Bytes) (json : KVString) (body : Bytes)

/-- What `json::parse` throws: `parse_error`, or `out_of_range` for a number that overflows. -/
inductive ParseError where
  | parseError (what : Bytes)
  | outOfRange (what : Bytes)
  deriving DecidableEq

/-- The order in which the compiler evaluates two arguments of a call. -/
inductive ArgOrder where
  | leftFirst
  | rightFirst
  deriving DecidableEq

/-- What the service takes from outside: the cryptographic functions, `json::parse` and the
argument order. -/
structure Env where
  crypto : Crypto
  parse : Bytes → Except ParseError Json
  order : ArgOrder

/-- The random bytes of one request: the key of a new user, the nonce and the IVs. -/
structure Draw where
  key : Key
  nonce : Bytes
  iv : IvSource

/-- `AnonymBE<MemDatabase>`. -/
structure AnonymBE where
  init : Bool
  indexed : Bool
  database : MemDatabase

/-- How a handler ended, with the response map and the store it left. -/
structure Handled where
  result : Except Exn AskyError
  response : KVString
  database : MemDatabase

namespace Env

/-- `json::parse(request.stringBody())`. -/
def parseBody (env : Env) (request : Request) : Except JsonError Json :=
  match env.parse request.body with
  | .ok j => .ok j
  | .error (.parseError what) => .error (.parseError what)
  | .error (.outOfRange what) => .error (.outOfRange what)

/-- Two `json_str` arguments of one call, in the order the compiler takes them. -/
def jsonStr₂ (env : Env) (j : Json) (left right : Bytes) : Except JsonError (Bytes × Bytes) :=
  match env.order with
  | .leftFirst =>
    match jsonStr j left with
    | .error e => .error e
    | .ok l =>
      match jsonStr j right with
      | .error e => .error e
      | .ok r => .ok (l, r)
  | .rightFirst =>
    match jsonStr j right with
    | .error e => .error e
    | .ok r =>
      match jsonStr j left with
      | .error e => .error e
      | .ok l => .ok (l, r)

end Env

namespace AnonymBE

/-- `AnonymBE::init`. -/
def initialised (indexed : Bool) : AnonymBE :=
  { init := true, indexed := indexed, database := {} }

/-! ## The handlers -/

/-- A handler that threw before it touched the response or the store. -/
def throws (db : MemDatabase) (e : Exn) : Handled := ⟨.error e, ∅, db⟩

/-- A handler around a store call that returns nothing. -/
def ofStore (r : Except DbError Unit × MemDatabase) : Handled :=
  match r.1 with
  | .ok _ => ⟨.ok .noError, ∅, r.2⟩
  | .error e => ⟨.error (.db e), ∅, r.2⟩

/-- The rest of `generate_envelope`, once it has the keys: an error for an empty array, else the
ciphertext. -/
def sealEnvelope (env : Env) (draw : Draw) (indexed : Bool) (bucketKey : Bytes) (ka : KeyArray) :
    AskyError × KVString :=
  if ka.isEmpty then
    (.badRequest, (∅ : KVString).insert (lit "detail") (lit "empty envelope"))
  else
    (.noError, (∅ : KVString).insert (lit "ciphertext") (env.crypto.b64Encode
      (envelopeText env.crypto indexed draw.nonce bucketKey draw.iv ka)))

/-- `generate_envelope`. -/
def generateEnvelope (env : Env) (draw : Draw) (indexed : Bool) (db : MemDatabase) (j : Json) :
    Handled :=
  match jsonStr j (lit "bucket_key") with
  | .error e => throws db (.json e)
  | .ok bucketKey64 =>
    let bucketKey := resize (env.crypto.b64Decode bucketKey64) 32
    match jsonStr j (lit "group_id") with
    | .error e => throws db (.json e)
    | .ok groupId =>
      match db.getKeysOfGroup groupId with
      | (.error e, db') => throws db' (.db e)
      | (.ok ka, db') =>
        ⟨.ok (sealEnvelope env draw indexed bucketKey ka).1,
          (sealEnvelope env draw indexed bucketKey ka).2, db'⟩

/-- `create_user`. -/
def createUser (env : Env) (draw : Draw) (db : MemDatabase) (j : Json) : Handled :=
  match jsonStr j (lit "user_id") with
  | .error e => throws db (.json e)
  | .ok uid =>
    match db.createUser uid draw.key.val with
    | (.error e, db') => throws db' (.db e)
    | (.ok _, db') =>
      ⟨.ok .noError, (∅ : KVString).insert (lit "user_key") (env.crypto.b64Encode draw.key.val),
        db'⟩

/-- `process_get`. -/
def processGet (db : MemDatabase) (request : Request) : Handled :=
  let command := request.encodedPath
  if command = lit "/access/rights" then ⟨.ok .badRequest, ∅, db⟩
  else if command = lit "/verifier/certify" then ⟨.ok .badRequest, ∅, db⟩
  else if command = lit "/ping" then ⟨.ok .noError, ∅, db⟩
  else ⟨.ok .badRequest, ∅, db⟩

/-- `process_put`. -/
def processPut (env : Env) (db : MemDatabase) (request : Request) : Handled :=
  let command := request.encodedPath
  if command = lit "/access/usergroup" then
    match env.parseBody request with
    | .error e => throws db (.json e)
    | .ok j =>
      match env.jsonStr₂ j (lit "group_name") (lit "user_id") with
      | .error e => throws db (.json e)
      | .ok (gname, uid) => ofStore (db.addUserToGroup gname uid)
  else ⟨.ok .badRequest, ∅, db⟩

/-- `process_post`. The body is parsed before the path is looked at. -/
def processPost (env : Env) (draw : Draw) (indexed : Bool) (db : MemDatabase)
    (request : Request) : Handled :=
  match env.parseBody request with
  | .error e => throws db (.json e)
  | .ok j =>
    let command := request.encodedPath
    if command = lit "/access/user" then createUser env draw db j
    else if command = lit "/access/group" then
      match env.jsonStr₂ j (lit "group_name") (lit "user_id") with
      | .error e => throws db (.json e)
      | .ok (gname, uid) => ofStore (db.createGroup gname uid)
    else if command = lit "/verifier/envelope" then generateEnvelope env draw indexed db j
    else if command = lit "/verifier/usergroup" then
      match env.jsonStr₂ j (lit "user_id") (lit "group_name") with
      | .error e => throws db (.json e)
      | .ok (uname, gname) =>
        match db.isUserPartOfGroup uname gname with
        | (.error e, db') => throws db' (.db e)
        | (.ok answer, db') =>
          ⟨.ok .noError, (∅ : KVString).insert (lit "belongs")
            (if answer then lit "true" else lit "false"), db'⟩
    else ⟨.ok .badRequest, ∅, db⟩

/-- `process_delete`. The user id goes through `c_str()`. -/
def processDelete (env : Env) (db : MemDatabase) (request : Request) : Handled :=
  let command := request.encodedPath
  if command = lit "/access/usergroup" then
    match env.parseBody request with
    | .error e => throws db (.json e)
    | .ok j =>
      match env.jsonStr₂ j (lit "group_name") (lit "user_id") with
      | .error e => throws db (.json e)
      | .ok (gname, uid) => ofStore (db.removeUserFromGroup gname uid)
  else if command = lit "/access/user" then
    match env.parseBody request with
    | .error e => throws db (.json e)
    | .ok j =>
      match jsonStr j (lit "user_id") with
      | .error e => throws db (.json e)
      | .ok uid => ⟨.ok .noError, ∅, db.deleteUser (cStr uid)⟩
  else if command = lit "/access/all" then ⟨.ok .noError, ∅, db.deleteAllData⟩
  else ⟨.ok .badRequest, ∅, db⟩

/-- The dispatch on the verb. Any other verb leaves `error` at `ASKY_NOERROR`. -/
def dispatch (env : Env) (draw : Draw) (s : AnonymBE) (request : Request) : Handled :=
  let verb := request.method
  if verb = lit "GET" then processGet s.database request
  else if verb = lit "PUT" then processPut env s.database request
  else if verb = lit "POST" then processPost env draw s.indexed s.database request
  else if verb = lit "DELETE" then processDelete env s.database request
  else ⟨.ok .noError, ∅, s.database⟩

/-! ## The answer -/

/-- `err_amcs`. -/
def errAmcs : AskyError → Bytes
  | .noError => lit "No error"
  | .initializationFail => lit "Fail to initialize AnonymBE"
  | .errorService => lit "Could not access Platform Services"
  | .badRequest => lit "Malformed request. Please, refer to the documentation."
  | .createExistent => lit "Tried to create an existing user"
  | .nonExistent => lit "Tried to get or update a non-existing counter"
  | .wrapup => lit "Service is being terminated"
  | .unknown => lit "Unknown error: 9"
  | .alreadyInitialized => lit "Unknown error: 3"
  | .rollbackAttack => lit "Unknown error: 7"

/-- `positive_response`. -/
def positiveResponse (response : KVString) : Except JsonError Response :=
  let j := response.toList.foldl (fun j kv => j.insert kv.1 kv.2)
    ((∅ : KVString).insert (lit "result") (lit "ok"))
  match dump2 j with
  | .error e => .error e
  | .ok body => .ok (.reply 200 (lit "OK") j body)

/-- `negative_response`. -/
def negativeResponse (msg extra : Bytes) : Except JsonError Response :=
  let j := ((∅ : KVString).insert (lit "result") (lit "error")).insert (lit "detail")
    (if extra ≠ [] then extra else msg)
  match dump2 j with
  | .error e => .error e
  | .ok body => .ok (.reply 400 (lit "Bad Request") j body)

/-- `error`, `extra` and `response` after the first `try` block. -/
structure Settled where
  error : AskyError
  extra : Bytes
  response : KVString

/-- The `catch` clauses, in source order. `what()` is a C string. -/
def catchClauses (response : KVString) : Exn → Settled
  | .json (.outOfRange what) => ⟨.badRequest, cStr what, response⟩
  | .json (.parseError what) => ⟨.badRequest, cStr what, response⟩
  | .db (.invalidArgument what) => ⟨.badRequest, cStr what, response⟩
  -- `std::logic_error`: warning, not error
  | .db (.logicError what) => ⟨.noError, [], response.insert (lit "info") (cStr what)⟩
  -- `std::exception`: printed only
  | .json (.typeError _) => ⟨.noError, [], response⟩
  | .otherException => ⟨.noError, [], response⟩
  | .notAnException => ⟨.unknown, [], response⟩

/-- The end of the first `try` block. -/
def settle (request : Request) (h : Handled) : Settled :=
  match h.result with
  | .error e => catchClauses h.response e
  | .ok .badRequest =>
    match h.response[lit "detail"]? with
    | some detail => ⟨.badRequest, detail, h.response⟩
    | none => ⟨.badRequest, lit "Unknown command '" ++ request.encodedPath ++ lit "'", h.response⟩
  | .ok error => ⟨error, [], h.response⟩

/-- The second `try` block. -/
def answer (t : Settled) : Response :=
  match (if t.error = .noError then positiveResponse t.response
    else negativeResponse (errAmcs t.error) t.extra) with
  | .ok r => r
  | .error _ => .empty

/-- `process_input`. With `MEMDATABASE` an uninitialised service initialises itself. -/
def processInput (env : Env) (draw : Draw) (s : AnonymBE) (request : Request) :
    Response × AnonymBE :=
  let h := dispatch env draw s request
  (answer (settle request h), { s with init := true, database := h.database })

end AnonymBE

/-! ## A sample

`json::parse` on a few bodies, for the concrete requests of the files that follow. -/

/-- The body `{"user_id": v}`, for a JSON text `v`. -/
def userBody (v : String) : Bytes := lit ("\x7b\"user_id\": " ++ v ++ "\x7d")

def Env.sample : Env where
  crypto := .sample
  parse body :=
    if body = userBody "\"a\"" then .ok (.object [(lit "user_id", .string [97])])
    else if body = userBody "\"a\\u0000b\"" then
      .ok (.object [(lit "user_id", .string [97, 0, 98])])
    else if body = userBody "5" then .ok (.object [(lit "user_id", .numberUnsigned 5)])
    else .error (.parseError (lit "[json.exception.parse_error.101]"))
  order := .rightFirst

theorem Env.sample_parse_a : Env.sample.parse (userBody "\"a\"") =
    .ok (.object [(lit "user_id", .string [97])]) := by
  unfold sample
  dsimp only
  rw [if_pos rfl]

theorem Env.sample_parse_nul : Env.sample.parse (userBody "\"a\\u0000b\"") =
    .ok (.object [(lit "user_id", .string [97, 0, 98])]) := by
  unfold sample
  dsimp only
  rw [if_neg (by decide), if_pos rfl]

theorem Env.sample_parse_5 : Env.sample.parse (userBody "5") =
    .ok (.object [(lit "user_id", .numberUnsigned 5)]) := by
  unfold sample
  dsimp only
  rw [if_neg (by decide), if_neg (by decide), if_pos rfl]

def Draw.sample : Draw where
  key := Crypto.key0
  nonce := Crypto.zeros12
  iv _ _ := Crypto.zeros12

end ASky

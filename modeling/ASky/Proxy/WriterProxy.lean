import ASky.Service.Json

/-!
# The writer proxy

Model of `WriterProxy` (`enclave/writerproxy_service.cpp`) and of its `process_input`
(`enclave/ecalls_writeproxy.cpp`). The proxy stores files in MinIO for users who are not to be seen
there (`forward`), and gets temporary credentials for readers (`generate_token`) in two hops: an
access token of the Identity Server, exchanged at MinIO.

* What happens upstream while a request is treated is a `World`: a `Peer` for each request sent,
  and the outcomes of the successive calls of `forwardObject` and `makeBucket`. `recv i` is the
  `i`-th call of `TlsConnection::recv`.
* The HTTP decoder, `split`, `json::parse` and `json_int` are in `Libs`: the submodules, and the
  vendored JSON library.
* `response_builder` is one object that every request changes; `set` is `.code(c).message(m)` on it.
  Its body is never written, only that of its copies, which is the field `empty_body`. Protocol
  and headers are constants and are left out.
* A function with a loop or a recursion that nothing bounds takes `fuel`; `none` is no result for
  this fuel. `check_user` pings the access monitor and returns `true`.
-/

namespace ASky.Proxy

/-- What `treat_request` reads of a request. -/
structure Request where
  method : Bytes
  encodedPath : Bytes
  deriving DecidableEq

structure Response where
  code : Nat
  message : Bytes
  body : Bytes
  deriving DecidableEq

/-- `ErrorCode` of `ErrorResponseException`. -/
inductive ErrorCode where
  | noSuchBucket
  | other (code : Nat)
  deriving DecidableEq

/-- How a call of `forwardObject` ends: it returns, or throws an `ErrorResponseException`, or
another `std::exception`. -/
inductive Put where
  | stored
  | errorResponse (code : ErrorCode)
  | exception (what : Bytes)
  deriving DecidableEq

/-- How a call of `recv` ends: a negative length, or the bytes received. -/
inductive Recv where
  | failed
  | data (bytes : Bytes)
  deriving DecidableEq

/-- The other end of a `TlsConnection`: whether `connect` succeeds, what `send` returns, and the
calls of `recv`. -/
structure Peer where
  connects : Bool
  sent : Int
  recv : Nat → Recv

/-- An HTTP response from upstream. -/
structure Reply where
  isSuccessful : Bool
  body : Bytes
  deriving DecidableEq

/-- `Http1Decoder`, as far as it throws nothing: `addChunk` and `getResponse` return for all bytes.
An exception of the submodule would leave `request_reply`, and is not in the model. -/
structure Decoder (δ : Type) where
  start : δ
  addChunk : δ → Bytes → δ
  getResponse : δ → Option Reply

structure Libs (δ : Type) where
  decoder : Decoder δ
  split : Bytes → List Bytes
  parse : Bytes → Except JsonError Json
  jsonInt : Json → Bytes → Except JsonError Int

/-- The two requests of `generate_token`, with the data that goes into them: the basic
authorization at the Identity Server, and the query of `AssumeRoleWithClientGrants`. -/
inductive UpstreamRequest where
  | accessToken (basic : Bytes)
  | assumeRole (durationSeconds : Int) (token : Bytes)

/-- What happens upstream. `makeBucket i` tells whether the `i`-th call returns. -/
structure World where
  identityServer : UpstreamRequest → Peer
  minio : UpstreamRequest → Peer
  forwardObject : Nat → Put
  makeBucket : Nat → Bool

/-- `WriterProxy`, with the ports of its endpoints (`-1` if not given). -/
structure WriterProxy where
  tuser : Bytes
  tpass : Bytes
  isPort : Int
  minioPort : Int
  builder : Response
  empty_body : builder.body = []

namespace WriterProxy

/-- A proxy with both endpoints. -/
def sample : WriterProxy where
  tuser := lit "u"
  tpass := lit "p"
  isPort := 9443
  minioPort := 9000
  builder := ⟨200, lit "OK", []⟩
  empty_body := rfl

/-- The pieces of the path `/b/o`. -/
def splitSample (path : Bytes) : List Bytes := if path = lit "/b/o" then [lit "b", lit "o"] else []

/-- `response_builder.code(code).message(message)`. -/
def set (w : WriterProxy) (code : Nat) (message : String) : WriterProxy :=
  { w with
    builder := { w.builder with code := code, message := lit message }
    empty_body := w.empty_body }

/-- `check_user`. -/
def checkUser : Bool := true

/-- `make_bucket`; `returns` is how `makeBucket` ends. -/
def makeBucket (split : Bytes → List Bytes) (encodedPath : Bytes) (returns : Bool) : Bool :=
  let bucket := (split encodedPath).headD []
  if bucket = [] then false else returns

/-- `forward`, from its `n`-th call on. With the response, the outcomes of the calls of
`forwardObject` it made. -/
def forward (split : Bytes → List Bytes) (world : World) (encodedPath : Bytes) :
    (fuel n : Nat) → WriterProxy → Option (Response × List Put × WriterProxy)
  | 0, _, _ => none
  | fuel + 1, n, w =>
    if checkUser = false then
      let w := w.set 401 "Unauthorized"
      some (w.builder, [], w)
    else
      let ok (calls : List Put) (w : WriterProxy) :=
        some ((w.set 200 "OK").builder, world.forwardObject n :: calls, w.set 200 "OK")
      match world.forwardObject n with
      | .stored => ok [] w
      | .errorResponse code =>
        if code = .noSuchBucket ∧ makeBucket split encodedPath (world.makeBucket n) then
          match forward split world encodedPath fuel (n + 1) w with
          | none => none
          | some (_, calls, w) => ok calls w
        else
          let w := w.set 409 "Conflict"
          some (w.builder, [world.forwardObject n], w)
      | .exception what =>
        if what = lit "No response" then
          let w := w.set 444 "No response"
          some (w.builder, [world.forwardObject n], w)
        else ok [] w

/-- The loop of `request_reply`: `some none` if a `recv` fails. -/
def receive {δ : Type} (decoder : Decoder δ) (recv : Nat → Recv) :
    (fuel i : Nat) → δ → Option (Option Reply)
  | 0, _, _ => none
  | fuel + 1, i, d =>
    match recv i with
    | .failed => some none
    | .data bytes =>
      match decoder.getResponse (decoder.addChunk d bytes) with
      | some r => some (some r)
      | none => receive decoder recv fuel (i + 1) (decoder.addChunk d bytes)

/-- `request_reply(endpoint, request)`: a text, or a thrown `Response`. -/
def requestReply {δ : Type} (decoder : Decoder δ) (port : Int) (peer : Peer) (fuel : Nat)
    (w : WriterProxy) : Option (Except Response Bytes × WriterProxy) :=
  if port = -1 then
    let w := w.set 405 "Method Not Allowed"
    some (.error w.builder, w)
  else
    let w := w.set 504 "Gateway Timeout"
    if peer.connects = false then some (.error w.builder, w)
    else if peer.sent ≤ 0 then some (.error w.builder, w)
    else
      match receive decoder peer.recv fuel 0 decoder.start with
      | none => none
      | some none => some (.error w.builder, w)
      | some (some r) => some (.ok (if r.isSuccessful then r.body else []), w)

/-- What `generate_token` reads from the reply of the Identity Server. -/
def grant {δ : Type} (libs : Libs δ) (accessToken : Bytes) : Except JsonError (Int × Bytes) := do
  let j ← libs.parse accessToken
  let expiresIn ← libs.jsonInt j (lit "expires_in")
  let token ← jsonStr j (lit "access_token")
  return (expiresIn, token)

/-- `generate_token`: a response, or an exception of the JSON library. -/
def generateToken {δ : Type} (libs : Libs δ) (world : World) (fuel : Nat) (w : WriterProxy) :
    Option (Except JsonError Response × WriterProxy) :=
  if checkUser = false then
    let w := w.set 401 "Unauthorized"
    some (.ok w.builder, w)
  else
    let basic := w.tuser ++ lit ":" ++ w.tpass
    match requestReply libs.decoder w.isPort (world.identityServer (.accessToken basic)) fuel w with
    | none => none
    | some (.error r, w) =>
      some (.ok { r with body := r.body ++ lit "Error communicating with Identity Server\n" }, w)
    | some (.ok accessToken, w) =>
      match grant libs accessToken with
      | .error e => some (.error e, w)
      | .ok (expiresIn, token) =>
        match requestReply libs.decoder w.minioPort (world.minio (.assumeRole expiresIn token))
          fuel w with
        | none => none
        | some (.error r, w) =>
          some (.ok { r with body := r.body ++ lit "Error communicating with minio\n" }, w)
        | some (.ok credentials, w) =>
          let rb := w.builder
          some (.ok { rb with
            code := 200
            message := lit "OK"
            body := rb.body ++ credentials }, w)

/-- `treat_request`. -/
def treatRequest {δ : Type} (libs : Libs δ) (world : World) (fuel : Nat) (request : Request)
    (w : WriterProxy) : Option (Except JsonError Response × WriterProxy) :=
  let badRequest := w.set 400 "Bad Request"
  if request.method = lit "GET" then
    if request.encodedPath = lit "/ping" then
      let w := w.set 200 "OK"
      some (.ok w.builder, w)
    else if request.encodedPath = lit "/token" then generateToken libs world fuel w
    else some (.ok badRequest.builder, badRequest)
  else if request.method = lit "PUT" then
    match forward libs.split world request.encodedPath fuel 0 w with
    | none => none
    | some (r, _, w) => some (.ok r, w)
  else some (.ok badRequest.builder, badRequest)

/-- The loop of `process_input` over the requests of the decoder, each with what happens upstream
meanwhile: what was sent, and for which request. An exception ends the loop. -/
def processInput {δ : Type} (libs : Libs δ) (fuel : Nat) :
    List (Request × World) → WriterProxy → Option (List (Request × Response) × WriterProxy)
  | [], w => some ([], w)
  | (request, world) :: rest, w =>
    match treatRequest libs world fuel request w with
    | none => none
    | some (.error _, w) => some ([], w)
    | some (.ok response, w) =>
      match processInput libs fuel rest w with
      | none => none
      | some (sent, w) => some ((request, response) :: sent, w)

end WriterProxy

end ASky.Proxy

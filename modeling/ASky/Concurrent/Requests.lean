import ASky.Concurrent.Linearize
import ASky.Lib.Procedures
import ASky.Service.Refines

/-!
# Requests under several threads

`process_input` runs in all service threads at once. What it shares with the others is the store:
a request is read and checked before its one call of a `MemDatabase` operation, and answered after
it. Here the handlers of `anonymbe_service.hpp` are cut at that call (`handle`, a `Procedure`), and
`service` puts them around the program of the store.

* `dispatch_run`: the handlers cut at their call, run at once, are the handlers of `AnonymBE`.
* `Undisturbed`: while a membership query is served, no request is that makes a group, deletes a
  user or deletes all data (`is_user_part_of_group` takes no mutex, see `Quiet`).
* **`requests_linearizable`**: in every run that is undisturbed, the answers are those of the
  service that serves the requests one after the other, in an order that agrees with real time, and
  the store is the one it ends with.
-/

namespace ASky

open Std (ExtTreeMap)

namespace Concurrent

open Lib AnonymBE

/-! ## The handlers, cut at the store call -/

/-- How a handler ended, with the response map it left. -/
structure Ended where
  result : Except Exn AskyError
  response : KVString

/-- The handler with the store it left. -/
def Ended.handled (e : Ended) (db : MemDatabase) : Handled := ⟨e.result, e.response, db⟩

/-- The `bool` of `is_user_part_of_group`. -/
def toBool : Value → Bool
  | .bool b => b
  | _ => false

/-- The `KeyArray` of `get_keys_of_group`. -/
def toKeys : Value → KeyArray
  | .keys ks => ks
  | _ => []

/-- A handler that ends without a call. -/
def ends (result : Except Exn AskyError) : Procedure Op Outcome Ended := .answer ⟨result, ∅⟩

/-- A call whose exception goes up, and whose value `k` makes the end of. -/
def calls (op : Op) (k : Value → Ended) : Procedure Op Outcome Ended :=
  .call op fun
    | .error e => ⟨.error (.db e), ∅⟩
    | .ok v => k v

/-- The end of a handler that leaves the response map empty. -/
def noError (_ : Value) : Ended := ⟨.ok .noError, ∅⟩

/-- `generate_envelope`. -/
def generateEnvelope (env : Env) (draw : Draw) (indexed : Bool) (j : Json) :
    Procedure Op Outcome Ended :=
  match jsonStr j (lit "bucket_key") with
  | .error e => ends (.error (.json e))
  | .ok bucketKey64 =>
    let bucketKey := resize (env.crypto.b64Decode bucketKey64) 32
    match jsonStr j (lit "group_id") with
    | .error e => ends (.error (.json e))
    | .ok groupId => calls (.getKeysOfGroup groupId) fun v =>
      ⟨.ok (sealEnvelope env draw indexed bucketKey (toKeys v)).1,
        (sealEnvelope env draw indexed bucketKey (toKeys v)).2⟩

/-- `create_user`. -/
def createUser (env : Env) (draw : Draw) (j : Json) : Procedure Op Outcome Ended :=
  match jsonStr j (lit "user_id") with
  | .error e => ends (.error (.json e))
  | .ok uid => calls (.createUser uid draw.key.val) fun _ =>
    ⟨.ok .noError, (∅ : KVString).insert (lit "user_key") (env.crypto.b64Encode draw.key.val)⟩

/-- `process_get`. -/
def processGet (request : Request) : Procedure Op Outcome Ended :=
  let command := request.encodedPath
  if command = lit "/access/rights" then ends (.ok .badRequest)
  else if command = lit "/verifier/certify" then ends (.ok .badRequest)
  else if command = lit "/ping" then ends (.ok .noError)
  else ends (.ok .badRequest)

/-- `process_put`. -/
def processPut (env : Env) (request : Request) : Procedure Op Outcome Ended :=
  let command := request.encodedPath
  if command = lit "/access/usergroup" then
    match env.parseBody request with
    | .error e => ends (.error (.json e))
    | .ok j =>
      match env.jsonStr₂ j (lit "group_name") (lit "user_id") with
      | .error e => ends (.error (.json e))
      | .ok (gname, uid) => calls (.addUserToGroup gname uid) noError
  else ends (.ok .badRequest)

/-- `process_post`. -/
def processPost (env : Env) (draw : Draw) (indexed : Bool) (request : Request) :
    Procedure Op Outcome Ended :=
  match env.parseBody request with
  | .error e => ends (.error (.json e))
  | .ok j =>
    let command := request.encodedPath
    if command = lit "/access/user" then createUser env draw j
    else if command = lit "/access/group" then
      match env.jsonStr₂ j (lit "group_name") (lit "user_id") with
      | .error e => ends (.error (.json e))
      | .ok (gname, uid) => calls (.createGroup gname uid) noError
    else if command = lit "/verifier/envelope" then generateEnvelope env draw indexed j
    else if command = lit "/verifier/usergroup" then
      match env.jsonStr₂ j (lit "user_id") (lit "group_name") with
      | .error e => ends (.error (.json e))
      | .ok (uname, gname) => calls (.isUserPartOfGroup uname gname) fun v =>
        ⟨.ok .noError, (∅ : KVString).insert (lit "belongs")
          (if toBool v then lit "true" else lit "false")⟩
    else ends (.ok .badRequest)

/-- `process_delete`. -/
def processDelete (env : Env) (request : Request) : Procedure Op Outcome Ended :=
  let command := request.encodedPath
  if command = lit "/access/usergroup" then
    match env.parseBody request with
    | .error e => ends (.error (.json e))
    | .ok j =>
      match env.jsonStr₂ j (lit "group_name") (lit "user_id") with
      | .error e => ends (.error (.json e))
      | .ok (gname, uid) => calls (.removeUserFromGroup gname uid) noError
  else if command = lit "/access/user" then
    match env.parseBody request with
    | .error e => ends (.error (.json e))
    | .ok j =>
      match jsonStr j (lit "user_id") with
      | .error e => ends (.error (.json e))
      | .ok uid => calls (.deleteUser (cStr uid)) noError
  else if command = lit "/access/all" then calls .deleteAllData noError
  else ends (.ok .badRequest)

/-- The dispatch on the verb. -/
def handle (env : Env) (indexed : Bool) (draw : Draw) (request : Request) :
    Procedure Op Outcome Ended :=
  let verb := request.method
  if verb = lit "GET" then processGet request
  else if verb = lit "PUT" then processPut env request
  else if verb = lit "POST" then processPost env draw indexed request
  else if verb = lit "DELETE" then processDelete env request
  else ends (.ok .noError)

/-- `process_input`: the handler, then the answer. -/
def processInput (env : Env) (indexed : Bool) (step : Draw × Request) :
    Procedure Op Outcome Response :=
  (handle env indexed step.1 step.2).map fun e => answer (settle step.2 (e.handled {}))

/-- The service in several threads. -/
def service (env : Env) (indexed : Bool) :
    Program Mutex MemDatabase (Stage Pc (Draw × Request) Outcome Response) (Draw × Request)
      Response :=
  program.around (processInput env indexed)

/-- A state of the service threads, which are numbered. -/
abbrev Service :=
  Sys Nat Mutex MemDatabase (Stage Pc (Draw × Request) Outcome Response) (Draw × Request) Response

/-! ## The handlers at once -/

section

variable {env : Env} {draw : Draw} {indexed : Bool} {db : MemDatabase} {request : Request}

/-- A procedure of a handler, run at once on a store. -/
def runs (db : MemDatabase) (p : Procedure Op Outcome Ended) : Handled :=
  (p.run MemDatabase.apply db).1.handled (p.run MemDatabase.apply db).2

/-- A handler that makes one call goes on with what the call returns. -/
theorem runs_calls (op : Op) (k : Value → Ended) :
    runs db (calls op k) = (match (db.apply op).1 with
      | .error e => ⟨.error (.db e), ∅⟩
      | .ok v => k v : Ended).handled (db.apply op).2 := rfl

/-- A handler around a call that returns nothing. -/
theorem ofStore_run {op : Op} {r : Except DbError Unit × MemDatabase}
    (h : db.apply op = (r.1.map fun _ => .unit, r.2)) : ofStore r = runs db (calls op noError) := by
  obtain ⟨result, db'⟩ := r
  rw [runs_calls, h]
  cases result with
  | error e => rfl
  | ok v => rfl

/-- A handler that takes two fields of the body and makes such a call with them. -/
theorem fields_run {j : Json} {left right : Bytes} {op : Bytes → Bytes → Op}
    {store : Bytes → Bytes → Except DbError Unit × MemDatabase}
    (h : ∀ l r, db.apply (op l r) = ((store l r).1.map fun _ => .unit, (store l r).2)) :
    (match env.jsonStr₂ j left right with
      | .error e => throws db (.json e)
      | .ok (l, r) => ofStore (store l r)) =
    runs db (match env.jsonStr₂ j left right with
      | .error e => ends (.error (.json e))
      | .ok (l, r) => calls (op l r) noError) := by
  cases env.jsonStr₂ j left right with
  | error e => rfl
  | ok v => exact ofStore_run (h v.1 v.2)

/-- `generate_envelope` calls `get_keys_of_group`. -/
theorem generateEnvelope_run (j : Json) :
    AnonymBE.generateEnvelope env draw indexed db j =
      runs db (generateEnvelope env draw indexed j) := by
  unfold AnonymBE.generateEnvelope generateEnvelope
  cases jsonStr j (lit "bucket_key") with
  | error e => rfl
  | ok bucketKey64 =>
    dsimp only
    cases jsonStr j (lit "group_id") with
    | error e => rfl
    | ok groupId =>
      dsimp only
      rw [runs_calls, MemDatabase.apply]
      rcases db.getKeysOfGroup groupId with ⟨_ | ka, db'⟩
      · rfl
      · rfl

/-- `create_user` calls the `create_user` of the store. -/
theorem createUser_run (j : Json) :
    AnonymBE.createUser env draw db j = runs db (createUser env draw j) := by
  unfold AnonymBE.createUser createUser
  cases jsonStr j (lit "user_id") with
  | error e => rfl
  | ok uid =>
    dsimp only
    rw [runs_calls, MemDatabase.apply]
    rcases db.createUser uid draw.key.val with ⟨_ | v, db'⟩
    · rfl
    · rfl

/-- The branch of `/verifier/usergroup` calls `is_user_part_of_group`. -/
theorem belongs_run (j : Json) :
    (match env.jsonStr₂ j (lit "user_id") (lit "group_name") with
      | .error e => throws db (.json e)
      | .ok (uname, gname) =>
        match db.isUserPartOfGroup uname gname with
        | (.error e, db') => throws db' (.db e)
        | (.ok answer, db') =>
          ⟨.ok .noError, (∅ : KVString).insert (lit "belongs")
            (if answer then lit "true" else lit "false"), db'⟩) =
    runs db (match env.jsonStr₂ j (lit "user_id") (lit "group_name") with
      | .error e => ends (.error (.json e))
      | .ok (uname, gname) => calls (.isUserPartOfGroup uname gname) fun v =>
        ⟨.ok .noError, (∅ : KVString).insert (lit "belongs")
          (if toBool v then lit "true" else lit "false")⟩) := by
  cases env.jsonStr₂ j (lit "user_id") (lit "group_name") with
  | error e => rfl
  | ok v =>
    dsimp only
    rw [runs_calls, MemDatabase.apply]
    rcases db.isUserPartOfGroup v.1 v.2 with ⟨_ | b, db'⟩
    · rfl
    · rfl

/-- `process_get` calls nothing. -/
theorem processGet_run : AnonymBE.processGet db request = runs db (processGet request) := by
  unfold AnonymBE.processGet processGet
  dsimp only
  split_ifs
  · rfl
  · rfl
  · rfl
  · rfl

/-- `process_put` makes one call at most. -/
theorem processPut_run : AnonymBE.processPut env db request = runs db (processPut env request) := by
  unfold AnonymBE.processPut processPut
  dsimp only
  by_cases hadd : request.encodedPath = lit "/access/usergroup"
  · rw [if_pos hadd, if_pos hadd]
    cases env.parseBody request with
    | error e => rfl
    | ok j => exact fields_run fun _ _ => rfl
  · rw [if_neg hadd, if_neg hadd]
    rfl

/-- `process_post` makes one call at most. -/
theorem processPost_run : AnonymBE.processPost env draw indexed db request =
    runs db (processPost env draw indexed request) := by
  unfold AnonymBE.processPost processPost
  cases env.parseBody request with
  | error e => rfl
  | ok j =>
    dsimp only
    by_cases huser : request.encodedPath = lit "/access/user"
    · rw [if_pos huser, if_pos huser]
      exact createUser_run j
    rw [if_neg huser, if_neg huser]
    by_cases hgroup : request.encodedPath = lit "/access/group"
    · rw [if_pos hgroup, if_pos hgroup]
      exact fields_run fun _ _ => rfl
    rw [if_neg hgroup, if_neg hgroup]
    by_cases henvelope : request.encodedPath = lit "/verifier/envelope"
    · rw [if_pos henvelope, if_pos henvelope]
      exact generateEnvelope_run j
    rw [if_neg henvelope, if_neg henvelope]
    by_cases hquery : request.encodedPath = lit "/verifier/usergroup"
    · rw [if_pos hquery, if_pos hquery]
      exact belongs_run j
    rw [if_neg hquery, if_neg hquery]
    rfl

/-- `process_delete` makes one call at most. -/
theorem processDelete_run :
    AnonymBE.processDelete env db request = runs db (processDelete env request) := by
  unfold AnonymBE.processDelete processDelete
  dsimp only
  by_cases hremove : request.encodedPath = lit "/access/usergroup"
  · rw [if_pos hremove, if_pos hremove]
    cases env.parseBody request with
    | error e => rfl
    | ok j => exact fields_run fun _ _ => rfl
  rw [if_neg hremove, if_neg hremove]
  by_cases huser : request.encodedPath = lit "/access/user"
  · rw [if_pos huser, if_pos huser]
    cases env.parseBody request with
    | error e => rfl
    | ok j =>
      dsimp only
      cases jsonStr j (lit "user_id") with
      | error e => rfl
      | ok uid => rfl
  rw [if_neg huser, if_neg huser]
  by_cases hall : request.encodedPath = lit "/access/all"
  · rw [if_pos hall, if_pos hall]
    rfl
  rw [if_neg hall, if_neg hall]
  rfl

/-- **The handlers cut at their call are the handlers.** -/
theorem dispatch_run (s : AnonymBE) :
    dispatch env draw s request = runs s.database (handle env s.indexed draw request) := by
  unfold dispatch handle
  dsimp only
  by_cases hget : request.method = lit "GET"
  · rw [if_pos hget, if_pos hget]
    exact processGet_run
  rw [if_neg hget, if_neg hget]
  by_cases hput : request.method = lit "PUT"
  · rw [if_pos hput, if_pos hput]
    exact processPut_run
  rw [if_neg hput, if_neg hput]
  by_cases hpost : request.method = lit "POST"
  · rw [if_pos hpost, if_pos hpost]
    exact processPost_run
  rw [if_neg hpost, if_neg hpost]
  by_cases hdelete : request.method = lit "DELETE"
  · rw [if_pos hdelete, if_pos hdelete]
    exact processDelete_run
  rw [if_neg hdelete, if_neg hdelete]
  rfl

/-- A request run at once is answered by `process_input`. -/
theorem processInput_run (s : AnonymBE) (step : Draw × Request) :
    (processInput env s.indexed step).run MemDatabase.apply s.database =
      ((AnonymBE.processInput env step.1 s step.2).1,
        (AnonymBE.processInput env step.1 s step.2).2.database) := by
  unfold processInput AnonymBE.processInput
  rw [Procedure.run_map, dispatch_run]
  rfl

end

/-! ## The endpoint of a call -/

section

variable {env : Env} {draw : Draw} {indexed : Bool} {request : Request} {op : Op}
  {k : Outcome → Ended}

/-- The endpoint that calls an operation. -/
def endpointOf : Op → Endpoint
  | .addUserToGroup _ _ => .addUser
  | .createUser _ _ => .createUser
  | .createGroup _ _ => .createGroup
  | .deleteUser _ => .deleteUser
  | .deleteAllData => .deleteAll
  | .isUserPartOfGroup _ _ => .belongs
  | .removeUserFromGroup _ _ => .removeUser
  | .getKeysOfGroup _ => .envelope

/-- A handler that ends makes no call. -/
theorem ends_ne_call {result : Except Exn AskyError} : ends result ≠ .call op k := by
  simp [ends]

/-- The call that a handler makes. -/
theorem op_of_calls {op' : Op} {k' : Value → Ended} (h : calls op' k' = .call op k) : op' = op :=
  (Procedure.call.inj h).1

/-- Two fields, then a call. -/
theorem op_of_fields {j : Json} {left right : Bytes} (op' : Bytes → Bytes → Op)
    (k' : Bytes → Bytes → Value → Ended)
    (h : (match env.jsonStr₂ j left right with
      | .error e => ends (.error (.json e))
      | .ok (l, r) => calls (op' l r) (k' l r)) = .call op k) : ∃ l r, op = op' l r := by
  cases hj : env.jsonStr₂ j left right with
  | error e =>
    rw [hj] at h
    exact absurd h ends_ne_call
  | ok v =>
    rw [hj] at h
    exact ⟨v.1, v.2, (op_of_calls h).symm⟩

/-- The call of a `PUT`. -/
theorem op_of_processPut (h : processPut env request = .call op k) :
    request.encodedPath = lit "/access/usergroup" ∧ endpointOf op = .addUser := by
  unfold processPut at h
  dsimp only at h
  by_cases hadd : request.encodedPath = lit "/access/usergroup"
  · rw [if_pos hadd] at h
    cases hj : env.parseBody request with
    | error e =>
      rw [hj] at h
      exact absurd h ends_ne_call
    | ok j =>
      rw [hj] at h
      obtain ⟨g, u, rfl⟩ := op_of_fields .addUserToGroup (fun _ _ => noError) h
      exact ⟨hadd, rfl⟩
  · rw [if_neg hadd] at h
    exact absurd h ends_ne_call

/-- The call of `create_user`. -/
theorem op_of_createUser {j : Json} (h : createUser env draw j = .call op k) :
    endpointOf op = .createUser := by
  unfold createUser at h
  cases hj : jsonStr j (lit "user_id") with
  | error e =>
    rw [hj] at h
    exact absurd h ends_ne_call
  | ok uid =>
    rw [hj] at h
    rw [← op_of_calls h]
    rfl

/-- The call of `generate_envelope`. -/
theorem op_of_generateEnvelope {j : Json} (h : generateEnvelope env draw indexed j = .call op k) :
    endpointOf op = .envelope := by
  unfold generateEnvelope at h
  cases hb : jsonStr j (lit "bucket_key") with
  | error e =>
    rw [hb] at h
    exact absurd h ends_ne_call
  | ok bucketKey64 =>
    rw [hb] at h
    dsimp only at h
    cases hg : jsonStr j (lit "group_id") with
    | error e =>
      rw [hg] at h
      exact absurd h ends_ne_call
    | ok groupId =>
      rw [hg] at h
      rw [← op_of_calls h]
      rfl

/-- The call of a `POST` is that of its operation. -/
theorem op_of_processPost (hm : request.method = lit "POST")
    (h : processPost env draw indexed request = .call op k) :
    endpoint request = some (endpointOf op) := by
  rw [endpoint_post hm]
  unfold processPost at h
  cases hj : env.parseBody request with
  | error e =>
    rw [hj] at h
    exact absurd h ends_ne_call
  | ok j =>
    rw [hj] at h
    dsimp only at h
    by_cases huser : request.encodedPath = lit "/access/user"
    · rw [if_pos huser] at h ⊢
      rw [op_of_createUser h]
    rw [if_neg huser] at h ⊢
    by_cases hgroup : request.encodedPath = lit "/access/group"
    · rw [if_pos hgroup] at h ⊢
      obtain ⟨g, u, rfl⟩ := op_of_fields .createGroup (fun _ _ => noError) h
      rfl
    rw [if_neg hgroup] at h ⊢
    by_cases henvelope : request.encodedPath = lit "/verifier/envelope"
    · rw [if_pos henvelope] at h ⊢
      rw [op_of_generateEnvelope h]
    rw [if_neg henvelope] at h ⊢
    by_cases hquery : request.encodedPath = lit "/verifier/usergroup"
    · rw [if_pos hquery] at h ⊢
      obtain ⟨u, g, rfl⟩ := op_of_fields .isUserPartOfGroup _ h
      rfl
    rw [if_neg hquery] at h
    exact absurd h ends_ne_call

/-- The call of a `DELETE` is that of its operation. -/
theorem op_of_processDelete (hm : request.method = lit "DELETE")
    (h : processDelete env request = .call op k) : endpoint request = some (endpointOf op) := by
  rw [endpoint_delete hm]
  unfold processDelete at h
  dsimp only at h
  by_cases hremove : request.encodedPath = lit "/access/usergroup"
  · rw [if_pos hremove] at h ⊢
    cases hj : env.parseBody request with
    | error e =>
      rw [hj] at h
      exact absurd h ends_ne_call
    | ok j =>
      rw [hj] at h
      obtain ⟨g, u, rfl⟩ := op_of_fields .removeUserFromGroup (fun _ _ => noError) h
      rfl
  rw [if_neg hremove] at h ⊢
  by_cases huser : request.encodedPath = lit "/access/user"
  · rw [if_pos huser] at h ⊢
    cases hj : env.parseBody request with
    | error e =>
      rw [hj] at h
      exact absurd h ends_ne_call
    | ok j =>
      rw [hj] at h
      dsimp only at h
      cases hu : jsonStr j (lit "user_id") with
      | error e =>
        rw [hu] at h
        exact absurd h ends_ne_call
      | ok uid =>
        rw [hu] at h
        rw [← op_of_calls h]
        rfl
  rw [if_neg huser] at h ⊢
  by_cases hall : request.encodedPath = lit "/access/all"
  · rw [if_pos hall] at h ⊢
    rw [← op_of_calls h]
    rfl
  rw [if_neg hall] at h
  exact absurd h ends_ne_call

/-- A request calls the operation of its endpoint. -/
theorem endpoint_of_handle (h : handle env indexed draw request = .call op k) :
    endpoint request = some (endpointOf op) := by
  unfold handle at h
  dsimp only at h
  by_cases hget : request.method = lit "GET"
  · rw [if_pos hget] at h
    unfold processGet at h
    dsimp only at h
    split_ifs at h
    all_goals exact absurd h ends_ne_call
  rw [if_neg hget] at h
  by_cases hput : request.method = lit "PUT"
  · rw [if_pos hput] at h
    obtain ⟨hpath, hop⟩ := op_of_processPut h
    rw [endpoint_put hput, if_pos hpath, hop]
  rw [if_neg hput] at h
  by_cases hpost : request.method = lit "POST"
  · rw [if_pos hpost] at h
    exact op_of_processPost hpost h
  rw [if_neg hpost] at h
  by_cases hdelete : request.method = lit "DELETE"
  · rw [if_pos hdelete] at h
    exact op_of_processDelete hdelete h
  rw [if_neg hdelete] at h
  exact absurd h ends_ne_call

/-- A request makes the call of its operation. -/
theorem endpoint_of_call {step : Draw × Request} {k : Outcome → Response}
    (h : processInput env indexed step = .call op k) :
    endpoint step.2 = some (endpointOf op) := by
  unfold processInput at h
  cases hh : handle env indexed step.1 step.2 with
  | answer e =>
    rw [hh] at h
    exact absurd h (by simp [Procedure.map])
  | call op' k' =>
    rw [hh] at h
    obtain rfl := (Procedure.call.inj h).1
    exact endpoint_of_handle hh

end

/-! ## The result -/

/-- The requests a membership query must not meet. -/
def Disturbs (request : Request) : Prop :=
  endpoint request = some .createGroup ∨ endpoint request = some .deleteUser ∨
    endpoint request = some .deleteAll

/-- While a membership query is served, none of these is. -/
def Undisturbed (_ : Nat) (s : Service) : Prop :=
  ∀ t f t' f', s.thread t = some f → s.thread t' = some f' →
    endpoint f.op.2 = some .belongs → ¬ Disturbs f'.op.2

section

variable {env : Env} {indexed : Bool} {t : Nat} {s' : Service} {s : System}

/-- The request of a call under way. -/
theorem request_of_calls (h : Calls (processInput env indexed) s' s)
    {f : Frame MemDatabase Pc Op} (hf : s.thread t = some f) :
    ∃ f', s'.thread t = some f' ∧ endpoint f'.op.2 = some (endpointOf f.op) := by
  have hin := h.thread t
  rw [hf] at hin
  cases hf' : s'.thread t with
  | none =>
    rw [hf'] at hin
    exact absurd hin.of_none (by simp)
  | some f' =>
    rw [hf'] at hin
    cases hin with
    | within hpc hbody => exact ⟨f', rfl, endpoint_of_call hbody⟩

/-- A query calls `is_user_part_of_group`. -/
theorem call_of_querying {pc : Pc} (h : pc.querying = true) :
    ∃ u g, pc.call = some (.isUserPartOfGroup u g) := by
  cases pc with
  | partRef u g => exact ⟨u, g, rfl⟩
  | partSetFind u g => exact ⟨u, g, rfl⟩
  | partEnd u g found => exact ⟨u, g, rfl⟩
  | _ => exact absurd h (by simp [Pc.querying])

/-- The calls of undisturbed requests are quiet. -/
theorem quiet_of_undisturbed (hr : Reach program Quiet {} s)
    (h : Calls (processInput env indexed) s' s) (hu : Undisturbed t s') : Quiet t s := by
  intro f hf t' f' hf'
  obtain ⟨p, hp, hpe⟩ := request_of_calls h hf
  obtain ⟨p', hp', hpe'⟩ := request_of_calls h hf'
  have hop := (assert_of_reach hr hf).call
  have hop' := (assert_of_reach hr hf').call
  constructor
  · intro u g hpc
    rw [hpc] at hop
    rw [hop _ rfl] at hpe
    constructor
    · intro hpc'
      rw [hpc'] at hop'
      rw [hop' _ rfl] at hpe'
      exact hu t p t' p' hp hp' hpe (Or.inl hpe')
    · intro last hpc'
      rw [hpc'] at hop'
      rw [hop' _ rfl] at hpe'
      exact absurd (Or.inr (Or.inl hpe')) (hu t p t' p' hp hp' hpe)
  · intro hpc
    rw [hpc] at hop
    rw [hop _ rfl] at hpe
    refine Bool.eq_false_iff.mpr fun hquery => ?_
    obtain ⟨u, g, hcall⟩ := call_of_querying hquery
    rw [hop' _ hcall] at hpe'
    exact hu t' p' t p hp' hp hpe' (Or.inr (Or.inr hpe))

/-- The sequential service on the requests and answers of a replay. -/
theorem answers_of_replays {s : AnonymBE} {l : List ((Draw × Request) × Response)}
    {y : MemDatabase} (h : Replays (fun db step =>
      (processInput env s.indexed step).run MemDatabase.apply db) s.database l y) :
    answers env s (l.map Prod.fst) = l.map Prod.snd ∧
      (serve env s (l.map Prod.fst)).database = y := by
  induction l generalizing s with
  | nil => exact ⟨rfl, h⟩
  | cons e l ih =>
    obtain ⟨step, r⟩ := e
    obtain ⟨hr, hrest⟩ := h
    dsimp only at hr hrest
    rw [processInput_run] at hr hrest
    obtain ⟨hanswers, hserve⟩ := ih (s := (AnonymBE.processInput env step.1 s step.2).2) hrest
    refine ⟨?_, hserve⟩
    rw [List.map_cons, List.map_cons, ← hanswers, ← hr]
    rfl

/-- The requests are linearizable, as procedures around the calls of the store. -/
theorem linearizable_of_undisturbed {s : Service}
    (h : Reach (service env indexed) Undisturbed {} s) (hidle : ∀ t, s.thread t = none) :
    Linearizable (fun db step => (processInput env indexed step).run MemDatabase.apply db) {}
      s.calls s.store := by
  have hsim := simulation.around (@quiet_of_undisturbed env indexed)
  obtain ⟨a, ⟨s₀, hr, hcalls, habs⟩, hlin⟩ := hsim.linearizable h hidle
  have hfree : s₀.owner .gmutex = none := by
    refine Option.eq_none_iff_forall_ne_some.mpr fun t ho => ?_
    obtain ⟨f, hf, -⟩ := (owner_iff disciplined hr .gmutex t).mp ho
    obtain ⟨f', hf', -⟩ := request_of_calls hcalls hf
    exact absurd ((hidle t).symm.trans hf') (by simp)
  rw [habs.1 hfree, hcalls.store] at hlin
  exact hlin

end

/-! ## A run of two threads -/

/-- A thread starts the request of the schedule or goes on with its own. -/
theorem op_of_exec {env : Env} {indexed : Bool} {t : Nat} {step : Option (Draw × Request)}
    {s s' : Service} (h : exec (service env indexed) t step s = some s')
    {f' : Frame MemDatabase (Stage Pc (Draw × Request) Outcome Response) (Draw × Request)}
    (hf' : s'.thread t = some f') :
    step = some f'.op ∨ ∃ f, s.thread t = some f ∧ f.op = f'.op := by
  have hstep := exec_step h
  cases hf : s.thread t with
  | none =>
    unfold exec at h
    rw [hf] at h
    obtain ⟨x, hx, rfl⟩ := Option.map_eq_some_iff.mp h
    dsimp only at hf'
    rw [Function.update_self] at hf'
    rw [hx, ← Option.some.inj hf']
    exact Or.inl rfl
  | some f =>
    refine Or.inr ⟨f, rfl, ?_⟩
    cases hstep with
    | invoke x hnone => exact absurd (hf.symm.trans hnone) (by simp)
    | lock hg hi ho =>
      dsimp only at hf'
      rw [Function.update_self] at hf'
      rw [← Option.some.inj hf', Option.some.inj (hf.symm.trans hg)]
    | unlock hg hi =>
      dsimp only at hf'
      rw [Function.update_self] at hf'
      rw [← Option.some.inj hf', Option.some.inj (hf.symm.trans hg)]
    | access hg hi hx =>
      dsimp only at hf'
      rw [Function.update_self] at hf'
      rw [← Option.some.inj hf', Option.some.inj (hf.symm.trans hg)]
    | ret hg hi =>
      dsimp only at hf'
      rw [Function.update_self] at hf'
      exact absurd hf' (by simp)

/-- A schedule without membership queries is undisturbed. -/
theorem reach_of_no_query {env : Env} {indexed : Bool} {l : List (Nat × Option (Draw × Request))}
    (hl : ∀ e ∈ l, ∀ step, e.2 = some step → endpoint step.2 ≠ some .belongs) :
    Reach (service env indexed) Undisturbed {} (scheduled (service env indexed) {} l) := by
  have hrun : ∀ s s' : Service, Reach (service env indexed) Undisturbed {} s →
      (∀ t f, s.thread t = some f → endpoint f.op.2 ≠ some .belongs) →
      runSchedule (service env indexed) l s = some s' →
      Reach (service env indexed) Undisturbed {} s' := by
    induction l with
    | nil => exact fun s s' hs _ h => Option.some.inj h ▸ hs
    | cons e l ih =>
      intro s s' hs hno h
      obtain ⟨t, step⟩ := e
      rw [runSchedule] at h
      split at h
      · rename_i s₁ h₁
        have hu : Undisturbed t s := fun t f _ _ hf _ hq => absurd hq (hno t f hf)
        refine ih (fun e he => hl e (List.mem_cons_of_mem _ he)) s₁ s' (.step hs hu (exec_step h₁))
          (fun t' f' hf' => ?_) h
        by_cases ht : t' = t
        · subst ht
          rcases op_of_exec h₁ hf' with hstep | ⟨f, hf, hop⟩
          · exact hl _ List.mem_cons_self f'.op hstep
          · exact hop ▸ hno t' f hf
        · rw [exec_thread h₁ ht] at hf'
          exact hno t' f' hf'
      · exact absurd h (by simp)
  unfold scheduled
  cases h : runSchedule (service env indexed) l (Sys.initial {}) with
  | none => exact .init
  | some s => exact hrun _ s .init (fun t f hf => absurd hf (by simp [Sys.initial])) h

/-- The request that creates the user `a`. -/
def createA : Request := ⟨lit "POST", lit "/access/user", userBody "\"a\""⟩

end Concurrent

end ASky

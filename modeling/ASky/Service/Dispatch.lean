import ASky.Service.AnonymBE
import ASky.Store.Run

/-!
# How a request can end

`Handles` is the inversion of `AnonymBE::process_input`'s first `try` block: each way the dispatch
and the handlers can end, with its guard, the response map and the store it leaves. `endpoint`
names the operation a method and path stand for, `Env.Field` a string field of the body, and
`Env.readFields` the `json_str` calls of the operation, in the order the code makes them.
`dispatch_handles` proves the inversion; everything about answers and effects is proved from it.
-/

namespace ASky

open Std (ExtTreeMap)
open Lib

/-- The operations the service implements. -/
inductive Endpoint where
  | ping
  | createUser
  | createGroup
  | addUser
  | removeUser
  | deleteUser
  | deleteAll
  | envelope
  | belongs
  deriving DecidableEq

/-- The operations that write to the store. -/
def Endpoint.writes : Endpoint → Bool
  | .ping => false
  | .envelope => false
  | .belongs => false
  | _ => true

/-- The string fields an operation requires of the body. -/
def Endpoint.required : Endpoint → List Bytes
  | .ping => []
  | .createUser => [lit "user_id"]
  | .createGroup => [lit "group_name", lit "user_id"]
  | .addUser => [lit "group_name", lit "user_id"]
  | .removeUser => [lit "group_name", lit "user_id"]
  | .deleteUser => [lit "user_id"]
  | .deleteAll => []
  | .envelope => [lit "bucket_key", lit "group_id"]
  | .belongs => [lit "user_id", lit "group_name"]

/-- The operation a request's method and path name. -/
def endpoint (request : Request) : Option Endpoint :=
  if request.method = lit "GET" then
    if request.encodedPath = lit "/ping" then some .ping else none
  else if request.method = lit "PUT" then
    if request.encodedPath = lit "/access/usergroup" then some .addUser else none
  else if request.method = lit "POST" then
    if request.encodedPath = lit "/access/user" then some .createUser
    else if request.encodedPath = lit "/access/group" then some .createGroup
    else if request.encodedPath = lit "/verifier/envelope" then some .envelope
    else if request.encodedPath = lit "/verifier/usergroup" then some .belongs
    else none
  else if request.method = lit "DELETE" then
    if request.encodedPath = lit "/access/usergroup" then some .removeUser
    else if request.encodedPath = lit "/access/user" then some .deleteUser
    else if request.encodedPath = lit "/access/all" then some .deleteAll
    else none
  else none

section Verbs

variable {request : Request}

/-- The operation behind `GET`. -/
theorem endpoint_get (hm : request.method = lit "GET") :
    endpoint request = if request.encodedPath = lit "/ping" then some .ping else none := by
  rw [endpoint, if_pos hm]

/-- The operation behind `PUT`. -/
theorem endpoint_put (hm : request.method = lit "PUT") :
    endpoint request =
      if request.encodedPath = lit "/access/usergroup" then some .addUser else none := by
  rw [endpoint, if_neg (by rw [hm]; decide), if_pos hm]

/-- The operations behind `POST`. -/
theorem endpoint_post (hm : request.method = lit "POST") :
    endpoint request =
      if request.encodedPath = lit "/access/user" then some .createUser
      else if request.encodedPath = lit "/access/group" then some .createGroup
      else if request.encodedPath = lit "/verifier/envelope" then some .envelope
      else if request.encodedPath = lit "/verifier/usergroup" then some .belongs
      else none := by
  rw [endpoint, if_neg (by rw [hm]; decide), if_neg (by rw [hm]; decide), if_pos hm]

/-- The operations behind `DELETE`. -/
theorem endpoint_delete (hm : request.method = lit "DELETE") :
    endpoint request =
      if request.encodedPath = lit "/access/usergroup" then some .removeUser
      else if request.encodedPath = lit "/access/user" then some .deleteUser
      else if request.encodedPath = lit "/access/all" then some .deleteAll
      else none := by
  rw [endpoint, if_neg (by rw [hm]; decide), if_neg (by rw [hm]; decide),
    if_neg (by rw [hm]; decide), if_pos hm]

end Verbs

/-- One of the four verbs of the dispatch. -/
def knownVerb (request : Request) : Prop :=
  request.method = lit "GET" ∨ request.method = lit "PUT" ∨ request.method = lit "POST" ∨
    request.method = lit "DELETE"

namespace Env

/-- The body parses and has the string `v` under `key`. -/
def Field (env : Env) (request : Request) (key v : Bytes) : Prop :=
  ∃ j, env.parse request.body = .ok j ∧ jsonStr j key = .ok v

/-- The `json_str` calls of the request's operation, in the order of the code. -/
def readFields (env : Env) (request : Request) (j : Json) : Except JsonError Unit :=
  match endpoint request with
  | some .createUser => (jsonStr j (lit "user_id")).map fun _ => ()
  | some .deleteUser => (jsonStr j (lit "user_id")).map fun _ => ()
  | some .createGroup => (env.jsonStr₂ j (lit "group_name") (lit "user_id")).map fun _ => ()
  | some .addUser => (env.jsonStr₂ j (lit "group_name") (lit "user_id")).map fun _ => ()
  | some .removeUser => (env.jsonStr₂ j (lit "group_name") (lit "user_id")).map fun _ => ()
  | some .belongs => (env.jsonStr₂ j (lit "user_id") (lit "group_name")).map fun _ => ()
  | some .envelope =>
    match jsonStr j (lit "bucket_key") with
    | .error e => .error e
    | .ok _ => (jsonStr j (lit "group_id")).map fun _ => ()
  | _ => .ok ()

/-- Two arguments that do not throw, in either order. -/
theorem jsonStr₂_ok {env : Env} {j : Json} {left right l r : Bytes}
    (h : env.jsonStr₂ j left right = .ok (l, r)) :
    jsonStr j left = .ok l ∧ jsonStr j right = .ok r := by
  unfold jsonStr₂ at h
  -- if both throw, the order of evaluation says which one is seen
  cases hl : jsonStr j left <;> cases hr : jsonStr j right <;> cases ho : env.order <;>
    simp_all

/-- What the two arguments throw is what one of them throws. -/
theorem jsonStr₂_error {env : Env} {j : Json} {left right : Bytes} {e : JsonError}
    (h : env.jsonStr₂ j left right = .error e) :
    jsonStr j left = .error e ∨ jsonStr j right = .error e := by
  unfold jsonStr₂ at h
  cases hl : jsonStr j left <;> cases hr : jsonStr j right <;> cases ho : env.order <;>
    simp_all

/-- One required field. -/
theorem forall_required₁ {env : Env} {request : Request} {a v : Bytes}
    (hv : env.Field request a v) : ∀ key ∈ [a], ∃ x, env.Field request key x := by
  intro key hk
  exact ⟨v, List.mem_singleton.mp hk ▸ hv⟩

/-- Two required fields. -/
theorem forall_required₂ {env : Env} {request : Request} {a b v w : Bytes}
    (hv : env.Field request a v) (hw : env.Field request b w) :
    ∀ key ∈ [a, b], ∃ x, env.Field request key x := by
  intro key hk
  rcases List.mem_cons.mp hk with rfl | hk
  · exact ⟨v, hv⟩
  · exact forall_required₁ hw key hk

/-- When the required fields are there, no `json_str` of the operation throws. -/
theorem readFields_ok {env : Env} {request : Request} {j : Json} {e : Endpoint}
    (he : endpoint request = some e) (hj : env.parse request.body = .ok j)
    (h : ∀ key ∈ e.required, ∃ v, env.Field request key v) :
    env.readFields request j = .ok () := by
  have hof : ∀ key ∈ e.required, ∃ v, jsonStr j key = .ok v := by
    intro key hk
    obtain ⟨v, j', hj', hv⟩ := h key hk
    rw [hj] at hj'
    exact ⟨v, Except.ok.inj hj' ▸ hv⟩
  have hof₂ : ∀ a b, a ∈ e.required → b ∈ e.required →
      (env.jsonStr₂ j a b).map (fun _ => ()) = .ok () := by
    intro a b ha hb
    obtain ⟨v, hv⟩ := hof a ha
    obtain ⟨w, hw⟩ := hof b hb
    unfold jsonStr₂
    rw [hv, hw]
    cases env.order <;> rfl
  unfold readFields
  rw [he]
  cases e with
  | ping => rfl
  | deleteAll => rfl
  | createUser =>
    obtain ⟨u, hu⟩ := hof (lit "user_id") (by simp [Endpoint.required])
    simp only [hu]
    rfl
  | deleteUser =>
    obtain ⟨u, hu⟩ := hof (lit "user_id") (by simp [Endpoint.required])
    simp only [hu]
    rfl
  | envelope =>
    obtain ⟨b, hb⟩ := hof (lit "bucket_key") (by simp [Endpoint.required])
    obtain ⟨g, hg⟩ := hof (lit "group_id") (by simp [Endpoint.required])
    simp only [hb, hg]
    rfl
  | createGroup => exact hof₂ _ _ (by simp [Endpoint.required]) (by simp [Endpoint.required])
  | addUser => exact hof₂ _ _ (by simp [Endpoint.required]) (by simp [Endpoint.required])
  | removeUser => exact hof₂ _ _ (by simp [Endpoint.required]) (by simp [Endpoint.required])
  | belongs => exact hof₂ _ _ (by simp [Endpoint.required]) (by simp [Endpoint.required])

/-- A body that `json::parse` takes. -/
theorem parse_of_parseBody {env : Env} {request : Request} {j : Json}
    (h : env.parseBody request = .ok j) : env.parse request.body = .ok j := by
  unfold parseBody at h
  split at h
  · rename_i j' hj
    rw [hj, Except.ok.inj h]
  · exact absurd h (by simp)
  · exact absurd h (by simp)

/-- `json::parse` throws no `type_error`. -/
theorem parseBody_error {env : Env} {request : Request} {e : JsonError}
    (h : env.parseBody request = .error e) :
    (∃ what, e = .parseError what) ∨ ∃ what, e = .outOfRange what := by
  unfold parseBody at h
  split at h
  · exact absurd h (by simp)
  · exact Or.inl ⟨_, (Except.error.inj h).symm⟩
  · exact Or.inr ⟨_, (Except.error.inj h).symm⟩

end Env

namespace AnonymBE

/-! ## The inversion -/

/-- **How the first `try` block can end** for a request on a service with the store `db`. -/
inductive Handles (env : Env) (draw : Draw) (indexed : Bool) (db : MemDatabase)
    (request : Request) : Handled → Prop where
  /-- No branch of the dispatch: `error` is still `ASKY_NOERROR`. -/
  | otherVerb (hv : ¬ knownVerb request) :
    Handles env draw indexed db request ⟨.ok .noError, ∅, db⟩
  /-- The last `return ASKY_BAD_REQUEST` of a verb. -/
  | unknownCommand (hv : knownVerb request) (he : endpoint request = none) :
    Handles env draw indexed db request ⟨.ok .badRequest, ∅, db⟩
  /-- `json::parse` throws. A `POST` gets here whatever its path. -/
  | badBody {e : JsonError} (hv : knownVerb request) (hp : env.parseBody request = .error e) :
    Handles env draw indexed db request ⟨.error (.json e), ∅, db⟩
  /-- A `json_str` of the operation throws. -/
  | badField {j : Json} {e : JsonError} (hv : knownVerb request)
    (hj : env.parse request.body = .ok j) (hf : env.readFields request j = .error e) :
    Handles env draw indexed db request ⟨.error (.json e), ∅, db⟩
  /-- The store throws `std::invalid_argument`, with the store as it was. -/
  | refused {e : Endpoint} {what : Bytes} (he : endpoint request = some e)
    (hd : e ≠ .deleteUser) (hf : ∀ key ∈ e.required, ∃ v, env.Field request key v) :
    Handles env draw indexed db request ⟨.error (.db (.invalidArgument what)), ∅, db⟩
  /-- The key array is empty, as no member is a user. This is so in no reachable store. -/
  | emptyEnvelope (he : endpoint request = some .envelope)
    (hf : ∀ key ∈ Endpoint.envelope.required, ∃ v, env.Field request key v) :
    Handles env draw indexed db request
      ⟨.ok .badRequest, (∅ : KVString).insert (lit "detail") (lit "empty envelope"), db⟩
  | ping (he : endpoint request = some .ping) :
    Handles env draw indexed db request ⟨.ok .noError, ∅, db⟩
  | createUser {u : Bytes} (he : endpoint request = some .createUser)
    (hu : env.Field request (lit "user_id") u) (hn : u ∉ db.users) :
    Handles env draw indexed db request
      ⟨.ok .noError, (∅ : KVString).insert (lit "user_key") (env.crypto.b64Encode draw.key.val),
        { db with users := db.users.insert u draw.key.val }⟩
  | createGroup {g u : Bytes} (he : endpoint request = some .createGroup)
    (hg : env.Field request (lit "group_name") g) (hu : env.Field request (lit "user_id") u)
    (hn : g ∉ db.groups) (hm : u ∈ db.users) :
    Handles env draw indexed db request
      ⟨.ok .noError, ∅, { db with groups := db.groups.insert g ((∅ : Members).insert u) }⟩
  | addUser {g u : Bytes} {s : Members} (he : endpoint request = some .addUser)
    (hg : env.Field request (lit "group_name") g) (hu : env.Field request (lit "user_id") u)
    (hs : db.groups[g]? = some s) (hm : u ∈ db.users) (hn : u ∉ s) :
    Handles env draw indexed db request
      ⟨.ok .noError, ∅, { db with groups := db.groups.insert g (s.insert u) }⟩
  /-- The store throws `std::logic_error`, which the service answers as information. -/
  | already {g u : Bytes} {s : Members} {what : Bytes} (he : endpoint request = some .addUser)
    (hg : env.Field request (lit "group_name") g) (hu : env.Field request (lit "user_id") u)
    (hs : db.groups[g]? = some s) (hm : u ∈ db.users) (hn : u ∈ s) :
    Handles env draw indexed db request ⟨.error (.db (.logicError what)), ∅, db⟩
  | removeUser {g u : Bytes} {s : Members} (he : endpoint request = some .removeUser)
    (hg : env.Field request (lit "group_name") g) (hu : env.Field request (lit "user_id") u)
    (hs : db.groups[g]? = some s) (hm : u ∈ db.users) (hn : u ∈ s) :
    Handles env draw indexed db request
      ⟨.ok .noError, ∅, { db with groups := db.groups.insert g (s.erase u) }⟩
  /-- The name goes through `c_str()`, and nothing is checked. -/
  | deleteUser {u : Bytes} (he : endpoint request = some .deleteUser)
    (hu : env.Field request (lit "user_id") u) :
    Handles env draw indexed db request ⟨.ok .noError, ∅, db.deleteUser (cStr u)⟩
  | deleteAll (he : endpoint request = some .deleteAll) :
    Handles env draw indexed db request ⟨.ok .noError, ∅, db.deleteAllData⟩
  | envelope {b g : Bytes} {ka : KeyArray} (he : endpoint request = some .envelope)
    (hb : env.Field request (lit "bucket_key") b) (hg : env.Field request (lit "group_id") g)
    (hk : (db.getKeysOfGroup g).1 = .ok ka) :
    Handles env draw indexed db request
      ⟨.ok .noError, (∅ : KVString).insert (lit "ciphertext") (env.crypto.b64Encode
        (envelopeText env.crypto indexed draw.nonce (resize (env.crypto.b64Decode b) 32)
          draw.iv ka)), db⟩
  | belongs {u g : Bytes} {s : Members} (he : endpoint request = some .belongs)
    (hu : env.Field request (lit "user_id") u) (hg : env.Field request (lit "group_name") g)
    (hs : db.groups[g]? = some s) :
    Handles env draw indexed db request
      ⟨.ok .noError, (∅ : KVString).insert (lit "belongs")
        (if u ∈ s then lit "true" else lit "false"), db⟩

variable {env : Env} {draw : Draw} {indexed : Bool} {db : MemDatabase} {request : Request}

/-- `process_get` ends in one of the ways: `/ping`, or an unknown command. -/
theorem processGet_handles (hm : request.method = lit "GET") :
    Handles env draw indexed db request (processGet db request) := by
  have hv : knownVerb request := Or.inl hm
  have he := endpoint_get hm
  unfold processGet
  by_cases hp : request.encodedPath = lit "/ping"
  · rw [if_pos hp] at he
    rw [if_neg (by rw [hp]; decide), if_neg (by rw [hp]; decide), if_pos hp]
    exact .ping he
  · rw [if_neg hp] at he
    dsimp only
    split
    · exact .unknownCommand hv he
    · split
      · exact .unknownCommand hv he
      · exact .unknownCommand hv he

/-- `process_put`: only `/access/usergroup` parses the body. -/
theorem processPut_handles (hm : request.method = lit "PUT") :
    Handles env draw indexed db request (processPut env db request) := by
  have hv : knownVerb request := Or.inr (Or.inl hm)
  have he := endpoint_put hm
  unfold processPut
  by_cases hp : request.encodedPath = lit "/access/usergroup"
  · rw [if_pos hp] at he
    rw [if_pos hp]
    cases hb : env.parseBody request with
    | error e => exact .badBody hv hb
    | ok j =>
      have hj := Env.parse_of_parseBody hb
      simp only
      cases hf : env.jsonStr₂ j (lit "group_name") (lit "user_id") with
      | error e => exact .badField hv hj (by rw [Env.readFields, he]; simp only [hf]; rfl)
      | ok gu =>
        obtain ⟨g, u⟩ := gu
        obtain ⟨hg, hu⟩ := Env.jsonStr₂_ok hf
        have hreq := Env.forall_required₂ ⟨j, hj, hg⟩ ⟨j, hj, hu⟩
        simp only [ofStore, MemDatabase.addUserToGroup_eq]
        -- the group, the user and the member, in the order the store looks at them
        cases hs : db.groups[g]? with
        | none => exact .refused he (by simp) hreq
        | some s =>
          simp only
          by_cases hk : u ∈ db.users
          · rw [if_neg (not_not.mpr hk)]
            by_cases hmem : u ∈ s
            · rw [if_pos hmem]
              exact .already he ⟨j, hj, hg⟩ ⟨j, hj, hu⟩ hs hk hmem
            · rw [if_neg hmem]
              exact .addUser he ⟨j, hj, hg⟩ ⟨j, hj, hu⟩ hs hk hmem
          · rw [if_pos hk]
            exact .refused he (by simp) hreq
  · rw [if_neg hp] at he ⊢
    exact .unknownCommand hv he

/-- `create_user`: the user is new, or the store throws. -/
theorem createUser_handles {j : Json} (hv : knownVerb request)
    (he : endpoint request = some .createUser) (hj : env.parse request.body = .ok j) :
    Handles env draw indexed db request (createUser env draw db j) := by
  unfold createUser
  cases hf : jsonStr j (lit "user_id") with
  | error e => exact .badField hv hj (by rw [Env.readFields, he]; simp only [hf]; rfl)
  | ok u =>
    simp only [MemDatabase.createUser_eq]
    by_cases hk : u ∈ db.users
    · rw [if_pos hk]
      exact .refused he (by simp) (Env.forall_required₁ ⟨j, hj, hf⟩)
    · rw [if_neg hk]
      exact .createUser he ⟨j, hj, hf⟩ hk

/-- `generate_envelope`: the fields, then the keys of the group, then the empty array. -/
theorem generateEnvelope_handles {j : Json} (hv : knownVerb request)
    (he : endpoint request = some .envelope) (hj : env.parse request.body = .ok j) :
    Handles env draw indexed db request (generateEnvelope env draw indexed db j) := by
  unfold generateEnvelope
  cases hb : jsonStr j (lit "bucket_key") with
  | error e => exact .badField hv hj (by rw [Env.readFields, he]; simp only [hb])
  | ok b =>
    simp only
    cases hg : jsonStr j (lit "group_id") with
    | error e => exact .badField hv hj (by rw [Env.readFields, he]; simp only [hb, hg]; rfl)
    | ok g =>
      have hreq := Env.forall_required₂ ⟨j, hj, hb⟩ ⟨j, hj, hg⟩
      -- the store throws for a group it does not know, and for one without members
      have hk := MemDatabase.getKeysOfGroup_eq db g
      simp only
      cases hs : db.groups[g]? with
      | none =>
        rw [hs] at hk
        rw [hk]
        exact .refused he (by simp) hreq
      | some s =>
        rw [hs] at hk
        simp only at hk
        split at hk
        · rw [hk]
          exact .refused he (by simp) hreq
        · rw [hk]
          simp only [sealEnvelope]
          split
          · exact .emptyEnvelope he hreq
          · exact .envelope he ⟨j, hj, hb⟩ ⟨j, hj, hg⟩ (by rw [hk])

/-- `generate_envelope` once the keys are there. -/
theorem generateEnvelope_of_keys {j : Json} {b g : Bytes} {ka : KeyArray}
    (hb : jsonStr j (lit "bucket_key") = .ok b) (hg : jsonStr j (lit "group_id") = .ok g)
    (hk : db.getKeysOfGroup g = (.ok ka, db)) (hne : ka.isEmpty = false) :
    generateEnvelope env draw indexed db j = ⟨.ok .noError,
      (∅ : KVString).insert (lit "ciphertext") (env.crypto.b64Encode (envelopeText env.crypto
        indexed draw.nonce (resize (env.crypto.b64Decode b) 32) draw.iv ka)), db⟩ := by
  unfold generateEnvelope sealEnvelope
  simp only [hb, hg, hk, hne, Bool.false_eq_true, if_false]

/-- `process_post` parses the body before it looks at the path. -/
theorem processPost_handles (hm : request.method = lit "POST") :
    Handles env draw indexed db request (processPost env draw indexed db request) := by
  have hv : knownVerb request := Or.inr (Or.inr (Or.inl hm))
  have he := endpoint_post hm
  unfold processPost
  cases hb : env.parseBody request with
  | error e => exact .badBody hv hb
  | ok j =>
    have hj := Env.parse_of_parseBody hb
    simp only
    by_cases h1 : request.encodedPath = lit "/access/user"
    · rw [if_pos h1] at he ⊢
      exact createUser_handles hv he hj
    rw [if_neg h1] at he ⊢
    by_cases h2 : request.encodedPath = lit "/access/group"
    · rw [if_pos h2] at he ⊢
      cases hf : env.jsonStr₂ j (lit "group_name") (lit "user_id") with
      | error e => exact .badField hv hj (by rw [Env.readFields, he]; simp only [hf]; rfl)
      | ok gu =>
        obtain ⟨g, u⟩ := gu
        obtain ⟨hg, hu⟩ := Env.jsonStr₂_ok hf
        have hreq := Env.forall_required₂ ⟨j, hj, hg⟩ ⟨j, hj, hu⟩
        simp only [ofStore, MemDatabase.createGroup_eq]
        by_cases hg' : g ∈ db.groups
        · rw [if_pos hg']
          exact .refused he (by simp) hreq
        · rw [if_neg hg']
          by_cases hk : u ∈ db.users
          · rw [if_neg (not_not.mpr hk)]
            exact .createGroup he ⟨j, hj, hg⟩ ⟨j, hj, hu⟩ hg' hk
          · rw [if_pos hk]
            exact .refused he (by simp) hreq
    rw [if_neg h2] at he ⊢
    by_cases h3 : request.encodedPath = lit "/verifier/envelope"
    · rw [if_pos h3] at he ⊢
      exact generateEnvelope_handles hv he hj
    rw [if_neg h3] at he ⊢
    by_cases h4 : request.encodedPath = lit "/verifier/usergroup"
    · rw [if_pos h4] at he ⊢
      cases hf : env.jsonStr₂ j (lit "user_id") (lit "group_name") with
      | error e => exact .badField hv hj (by rw [Env.readFields, he]; simp only [hf]; rfl)
      | ok ug =>
        obtain ⟨u, g⟩ := ug
        obtain ⟨hu, hg⟩ := Env.jsonStr₂_ok hf
        have hreq := Env.forall_required₂ ⟨j, hj, hu⟩ ⟨j, hj, hg⟩
        simp only [MemDatabase.isUserPartOfGroup_eq]
        cases hs : db.groups[g]? with
        | none => exact .refused he (by simp) hreq
        | some s =>
          simp only [decide_eq_true_eq]
          exact .belongs he ⟨j, hj, hu⟩ ⟨j, hj, hg⟩ hs
    rw [if_neg h4] at he ⊢
    exact .unknownCommand hv he

/-- `process_delete` parses the body for each path on its own, and not for `/access/all`. -/
theorem processDelete_handles (hm : request.method = lit "DELETE") :
    Handles env draw indexed db request (processDelete env db request) := by
  have hv : knownVerb request := Or.inr (Or.inr (Or.inr hm))
  have he := endpoint_delete hm
  unfold processDelete
  by_cases h1 : request.encodedPath = lit "/access/usergroup"
  · rw [if_pos h1] at he ⊢
    cases hb : env.parseBody request with
    | error e => exact .badBody hv hb
    | ok j =>
      have hj := Env.parse_of_parseBody hb
      simp only
      cases hf : env.jsonStr₂ j (lit "group_name") (lit "user_id") with
      | error e => exact .badField hv hj (by rw [Env.readFields, he]; simp only [hf]; rfl)
      | ok gu =>
        obtain ⟨g, u⟩ := gu
        obtain ⟨hg, hu⟩ := Env.jsonStr₂_ok hf
        have hreq := Env.forall_required₂ ⟨j, hj, hg⟩ ⟨j, hj, hu⟩
        simp only [ofStore, MemDatabase.removeUserFromGroup_eq]
        cases hs : db.groups[g]? with
        | none => exact .refused he (by simp) hreq
        | some s =>
          simp only
          by_cases hk : u ∈ db.users
          · rw [if_neg (not_not.mpr hk)]
            by_cases hmem : u ∈ s
            · rw [if_neg (not_not.mpr hmem)]
              exact .removeUser he ⟨j, hj, hg⟩ ⟨j, hj, hu⟩ hs hk hmem
            · rw [if_pos hmem]
              exact .refused he (by simp) hreq
          · rw [if_pos hk]
            exact .refused he (by simp) hreq
  rw [if_neg h1] at he ⊢
  by_cases h2 : request.encodedPath = lit "/access/user"
  · rw [if_pos h2] at he ⊢
    cases hb : env.parseBody request with
    | error e => exact .badBody hv hb
    | ok j =>
      have hj := Env.parse_of_parseBody hb
      simp only
      cases hf : jsonStr j (lit "user_id") with
      | error e => exact .badField hv hj (by rw [Env.readFields, he]; simp only [hf]; rfl)
      | ok u => exact .deleteUser he ⟨j, hj, hf⟩
  rw [if_neg h2] at he ⊢
  by_cases h3 : request.encodedPath = lit "/access/all"
  · rw [if_pos h3] at he ⊢
    exact .deleteAll he
  rw [if_neg h3] at he ⊢
  exact .unknownCommand hv he

/-- A verb outside the four runs nothing. -/
theorem dispatch_otherVerb (env : Env) (draw : Draw) (s : AnonymBE) {request : Request}
    (hv : ¬ knownVerb request) : dispatch env draw s request = ⟨.ok .noError, ∅, s.database⟩ := by
  obtain ⟨h1, hv⟩ := not_or.mp hv
  obtain ⟨h2, hv⟩ := not_or.mp hv
  obtain ⟨h3, h4⟩ := not_or.mp hv
  unfold dispatch
  rw [if_neg h1, if_neg h2, if_neg h3, if_neg h4]

/-- The branch of `GET`. -/
theorem dispatch_get (s : AnonymBE) (hm : request.method = lit "GET") :
    dispatch env draw s request = processGet s.database request := by
  unfold dispatch
  rw [if_pos hm]

/-- The branch of `PUT`. -/
theorem dispatch_put (s : AnonymBE) (hm : request.method = lit "PUT") :
    dispatch env draw s request = processPut env s.database request := by
  unfold dispatch
  rw [if_neg (by rw [hm]; decide), if_pos hm]

/-- The branch of `POST`. -/
theorem dispatch_post (s : AnonymBE) (hm : request.method = lit "POST") :
    dispatch env draw s request = processPost env draw s.indexed s.database request := by
  unfold dispatch
  rw [if_neg (by rw [hm]; decide), if_neg (by rw [hm]; decide), if_pos hm]

/-- The branch of `DELETE`. -/
theorem dispatch_delete (s : AnonymBE) (hm : request.method = lit "DELETE") :
    dispatch env draw s request = processDelete env s.database request := by
  unfold dispatch
  rw [if_neg (by rw [hm]; decide), if_neg (by rw [hm]; decide), if_neg (by rw [hm]; decide),
    if_pos hm]

/-- **Every request ends in one of the ways of `Handles`.** -/
theorem dispatch_handles (env : Env) (draw : Draw) (s : AnonymBE) (request : Request) :
    Handles env draw s.indexed s.database request (dispatch env draw s request) := by
  by_cases hv : knownVerb request
  · rcases hv with hm | hm | hm | hm
    · rw [dispatch_get s hm]
      exact processGet_handles hm
    · rw [dispatch_put s hm]
      exact processPut_handles hm
    · rw [dispatch_post s hm]
      exact processPost_handles hm
    · rw [dispatch_delete s hm]
      exact processDelete_handles hm
  · rw [dispatch_otherVerb env draw s hv]
    exact .otherVerb hv

end AnonymBE

end ASky

import ASky.Access
import ASky.Service.Proper
import ASky.Service.Readback

/-!
# The service is the access-control machine of `Access`

The service is spoken to in JSON and answers in JSON. `Says request c` relates a request to the
command it stands for, by the grammar of its body, and `Conveys r v` an answer to the verdict, by
what `json::parse` makes of its body. `policy` is the policy a store holds.

* `Throws` lists the `throw` statements: the command, the reason for which it is refused, and the
  text of the exception, which is the `detail` of the answer.
* `Refines`: the handler of a command takes one step of the machine. There is one lemma for each
  command, and `handled_refines` puts them together.
* `processInput_refines`: a request that says `c` takes the policy one step of `c`, and the answer
  conveys the verdict of that step. `command_or_idle`: any other request leaves the store alone.
* **`service_refines`**: so in every run the answers are those of the machine, command by command.
* `runs_of_serve`: a run of any requests is a run of the commands among them.
-/

namespace ASky

open Std (ExtTreeMap ExtTreeSet)
open Lib
open Access (Policy Command Verdict Step Runs)

/-! ## The policy of a store -/

namespace MemDatabase

/-- The users with their keys, and the groups with their members. -/
def policy (db : MemDatabase) : Policy Bytes Bytes Bytes where
  key u := db.users[u]?
  group g := (db.groups[g]?).map fun s => {u | u ∈ s}

/-- The store that the service starts with. -/
theorem policy_empty : policy {} = Policy.empty := by
  ext <;> simp [policy, Policy.empty]

/-- To insert a user is to issue the key. -/
theorem policy_issue (db : MemDatabase) (u k : Bytes) :
    policy { db with users := db.users.insert u k } = db.policy.issue u k := by
  refine Policy.ext ?_ rfl
  funext v
  rw [Access.key_issue]
  have hget := getElem?_insert db.users u k v
  by_cases hv : v = u
  · rw [if_pos hv] at hget ⊢
    exact hget
  · rw [if_neg hv] at hget ⊢
    exact hget

/-- To replace the members of a group is to assign them. -/
theorem policy_assign (db : MemDatabase) (g : Bytes) (s : Members) :
    policy { db with groups := db.groups.insert g s } = db.policy.assign g {u | u ∈ s} := by
  refine Policy.ext rfl ?_
  funext q
  simp only [policy, Policy.assign, Function.update_apply, getElem?_insert]
  by_cases hq : q = g
  · rw [if_pos hq, if_pos hq]
    rfl
  · rw [if_neg hq, if_neg hq]

/-- `delete_user` takes the user out of every group, and then the key. -/
theorem policy_drop (db : MemDatabase) (u : Bytes) :
    (db.deleteUser u).policy = db.policy.drop u := by
  refine Policy.ext ?_ ?_
  · funext v
    rw [Access.key_drop]
    have hget := getElem?_erase db.users u v
    by_cases hv : v = u
    · rw [if_pos hv] at hget ⊢
      exact hget
    · rw [if_neg hv] at hget ⊢
      exact hget
  · funext g
    simp only [policy, deleteUser, Policy.drop, ExtTreeMap.getElem?_map, Option.map_map]
    -- both sides map over the same group, if there is one
    congr 1
    funext s
    ext v
    simp only [Function.comp_apply, Set.mem_ofPred_eq, mem_erase, Set.mem_sdiff,
      Set.mem_singleton_iff]
    exact and_comm

/-- The users are those with a key. -/
theorem key_policy {db : MemDatabase} {u : Bytes} : db.policy.key u ≠ none ↔ u ∈ db.users := by
  show db.users[u]? ≠ none ↔ u ∈ db.users
  rw [ExtTreeMap.mem_iff_isSome_getElem?, Option.isSome_iff_ne_none]

/-- The members of a group in the map. -/
theorem group_policy {db : MemDatabase} {g : Bytes} {s : Members} (h : db.groups[g]? = some s) :
    db.policy.group g = some {u | u ∈ s} := by
  simp [policy, h]

/-- A group that is not in the map. -/
theorem group_policy_none {db : MemDatabase} {g : Bytes} (h : db.groups[g]? = none) :
    db.policy.group g = none := by
  simp [policy, h]

/-- Membership is the same in both. -/
theorem member_policy {db : MemDatabase} {u g : Bytes} :
    db.policy.Member u g ↔ db.Member u g := by
  unfold Policy.Member Member
  cases hg : db.groups[g]? with
  | none => simp [policy, hg]
  | some s => simp [policy, hg]

end MemDatabase

/-! ## Requests -/

/-- The body is a JSON object with these strings. -/
def Request.Carries (request : Request) (fields : List (Bytes × Bytes)) : Prop :=
  ∃ kvs, Document request.body (.object kvs) ∧
    ∀ e ∈ fields, kvs.lookup e.1 = some (.string e.2)

/-- What a request stands for. A deleted user is named up to the first NUL. -/
def Request.Says (request : Request) : Command Bytes Bytes Bytes → Prop
  | .ping => request.method = lit "GET" ∧ request.encodedPath = lit "/ping"
  | .createUser u => request.method = lit "POST" ∧ request.encodedPath = lit "/access/user" ∧
      request.Carries [(lit "user_id", u)]
  | .createGroup g u => request.method = lit "POST" ∧ request.encodedPath = lit "/access/group" ∧
      request.Carries [(lit "group_name", g), (lit "user_id", u)]
  | .addUser g u => request.method = lit "PUT" ∧ request.encodedPath = lit "/access/usergroup" ∧
      request.Carries [(lit "group_name", g), (lit "user_id", u)]
  | .removeUser g u => request.method = lit "DELETE" ∧
      request.encodedPath = lit "/access/usergroup" ∧
      request.Carries [(lit "group_name", g), (lit "user_id", u)]
  | .deleteUser u => request.method = lit "DELETE" ∧ request.encodedPath = lit "/access/user" ∧
      ∃ w, cStr w = u ∧ request.Carries [(lit "user_id", w)]
  | .deleteAll => request.method = lit "DELETE" ∧ request.encodedPath = lit "/access/all"
  | .belongs u g => request.method = lit "POST" ∧
      request.encodedPath = lit "/verifier/usergroup" ∧
      request.Carries [(lit "user_id", u), (lit "group_name", g)]
  | .envelope g b => request.method = lit "POST" ∧
      request.encodedPath = lit "/verifier/envelope" ∧
      request.Carries [(lit "bucket_key", b), (lit "group_id", g)]

/-- `json_str` returns the string under the key, and of an object only. -/
theorem jsonStr_eq_ok_iff {j : Json} {key v : Bytes} :
    jsonStr j key = .ok v ↔ ∃ kvs, j = .object kvs ∧ kvs.lookup key = some (.string v) := by
  unfold jsonStr Json.at
  cases j with
  | object kvs =>
    dsimp only
    cases hl : kvs.lookup key with
    | none => simp [hl]
    | some w => cases w <;> simp [hl]
  | _ => simp

/-- What such a body is parsed to. -/
theorem Request.Carries.parse {request : Request} {fields : List (Bytes × Bytes)}
    (h : request.Carries fields) : ∃ j, jsonParse request.body = .ok j ∧
      ∀ e ∈ fields, jsonStr j e.1 = .ok e.2 := by
  obtain ⟨kvs, hdoc, hlookup⟩ := h
  refine ⟨.object kvs, jsonParse_of_document hdoc, fun e he => ?_⟩
  exact jsonStr_eq_ok_iff.mpr ⟨kvs, rfl, hlookup e he⟩

/-- Fields that are read, read from one body. -/
theorem carries_of_field {crypto : Crypto} {order : ArgOrder} {request : Request} {a v : Bytes}
    (ha : (Env.code crypto order).Field request a v) : request.Carries [(a, v)] := by
  obtain ⟨j, hj, hv⟩ := ha
  obtain ⟨kvs, rfl, hlookup⟩ := jsonStr_eq_ok_iff.mp hv
  refine ⟨kvs, document_of_jsonParse hj, fun e he => ?_⟩
  rw [List.mem_singleton.mp he]
  exact hlookup

/-- Two fields of one body: the second `json_str` reads the object the first one has read. -/
theorem carries_of_fields {crypto : Crypto} {order : ArgOrder} {request : Request} {a b v w : Bytes}
    (ha : (Env.code crypto order).Field request a v)
    (hb : (Env.code crypto order).Field request b w) :
    request.Carries [(a, v), (b, w)] := by
  obtain ⟨j, hj, hv⟩ := ha
  obtain ⟨j', hj', hw⟩ := hb
  rw [hj] at hj'
  cases hj'
  obtain ⟨kvs, rfl, hlookup⟩ := jsonStr_eq_ok_iff.mp hv
  obtain ⟨kvs', heq, hlookup'⟩ := jsonStr_eq_ok_iff.mp hw
  cases heq
  refine ⟨kvs, document_of_jsonParse hj, fun e he => ?_⟩
  obtain rfl | he := List.mem_cons.mp he
  · exact hlookup
  · rw [List.mem_singleton.mp he]
    exact hlookup'

/-! ## Answers -/

/-- The answer has the code, and its body is an object with exactly these strings. -/
def Response.Reads (r : Response) (code : Nat) (fields : List (Bytes × Bytes)) : Prop :=
  ∃ msg json body kvs, r = .reply code msg json body ∧ jsonParse body = .ok (.object kvs) ∧
    ∀ k, kvs.lookup k = (fields.lookup k).map Json.string

/-- The `throw` that ends a command with a verdict, with the text of its exception. -/
inductive Throws : Command Bytes Bytes Bytes → Verdict Bytes Bytes → DbError → Prop where
  -- `create_user`
  | existingUser (u : Bytes) :
      Throws (.createUser u) (.refused .userExists) (.existingUser u)
  -- `create_group`, in the order of its checks
  | existingGroup (g u : Bytes) :
      Throws (.createGroup g u) (.refused .groupExists) (.existingGroup g)
  | groupUnknownUser (g u : Bytes) :
      Throws (.createGroup g u) (.refused .unknownUser) (.groupUnknownUser g u)
  -- `add_user_to_group`
  | addNoGroup (g u : Bytes) :
      Throws (.addUser g u) (.refused .unknownGroup) (.addNoGroup g u)
  | addUnknownUser (g u : Bytes) :
      Throws (.addUser g u) (.refused .unknownUser) (.addUnknownUser g u)
  -- `std::logic_error`: the one that is answered ok
  | alreadyMember (g u : Bytes) :
      Throws (.addUser g u) .already (.alreadyMember g u)
  -- `remove_user_from_group`
  | removeNoGroup (g u : Bytes) :
      Throws (.removeUser g u) (.refused .unknownGroup) (.removeNoGroup g u)
  | removeUnknownUser (g u : Bytes) :
      Throws (.removeUser g u) (.refused .unknownUser) (.removeUnknownUser g u)
  | removeNotMember (g u : Bytes) :
      Throws (.removeUser g u) (.refused .notMember) (.removeNotMember g u)
  -- `is_user_part_of_group` and `get_keys_of_group`
  | belongsUnknownGroup (u g : Bytes) :
      Throws (.belongs u g) (.refused .unknownGroup) (.unknownGroup g)
  | envelopeUnknownGroup (g b : Bytes) :
      Throws (.envelope g b) (.refused .unknownGroup) (.unknownGroup g)
  | emptyGroup (g b : Bytes) :
      Throws (.envelope g b) (.refused .emptyGroup) (.emptyGroup g)

/-- The texts begin with a letter, so the C string of one is not empty. -/
theorem Throws.cStr_ne_nil {c : Command Bytes Bytes Bytes} {why : Access.Reason} {what : Bytes}
    (h : Throws c (.refused why) (.invalidArgument what)) : cStr what ≠ [] := by
  generalize he : DbError.invalidArgument what = e at h
  have hcons : ∃ a rest, what = a :: rest ∧ a ≠ 0 := by
    cases h with
    | _ =>
      cases he
      exact ⟨_, _, rfl, by decide⟩
  obtain ⟨a, rest, rfl, ha⟩ := hcons
  simp [cStr, ha]

/-- What an answer to the command `c` tells. A refusal gives its reason in the words of the `throw`,
up to the first NUL, and so does the answer to a user who was a member before. -/
def Response.Conveys (crypto : Crypto) (indexed : Bool) (draw : Draw)
    (c : Command Bytes Bytes Bytes) (r : Response) : Verdict Bytes Bytes → Prop
  | .done => r.Reads 200 [(lit "result", lit "ok")]
  | .issued k => r.Reads 200 [(lit "result", lit "ok"), (lit "user_key", crypto.b64Encode k)]
  | .already => ∃ what, Throws c .already (.logicError what) ∧
      r.Reads 200 [(lit "result", lit "ok"), (lit "info", cStr what)]
  | .belongs answer =>
      (answer ∧ r.Reads 200 [(lit "result", lit "ok"), (lit "belongs", lit "true")]) ∨
      (¬ answer ∧ r.Reads 200 [(lit "result", lit "ok"), (lit "belongs", lit "false")])
  | .sealed b keys => ∃ ka : KeyArray, (∀ k, k ∈ ka ↔ k.val ∈ keys) ∧
      r.Reads 200 [(lit "result", lit "ok"), (lit "ciphertext", crypto.b64Encode
        (envelopeText crypto indexed draw.nonce (resize (crypto.b64Decode b) 32) draw.iv ka))]
  | .refused why => ∃ what, Throws c (.refused why) (.invalidArgument what) ∧
      r.Reads 400 [(lit "result", lit "error"), (lit "detail", cStr what)]

namespace AnonymBE

/-- The one entry of a list. -/
theorem lookup_single (a v k : Bytes) :
    [(a, v)].lookup k = if k = a then some v else none := by
  rw [List.lookup_cons]
  by_cases hk : k = a
  · rw [if_pos hk, beq_iff_eq.mpr hk]
  · rw [if_neg hk, beq_eq_false_iff_ne.mpr hk, List.lookup_nil]

/-- The first of two entries hides the second. -/
theorem lookup_pair (a b v w k : Bytes) :
    [(a, v), (b, w)].lookup k = if k = a then some v else if k = b then some w else none := by
  rw [List.lookup_cons]
  by_cases hk : k = a
  · rw [if_pos hk, beq_iff_eq.mpr hk]
  · rw [if_neg hk, beq_eq_false_iff_ne.mpr hk, lookup_single]

section Answers

variable {t : Settled} {fields : List (Bytes × Bytes)}

/-- A positive answer is read back. -/
theorem reads_positive (he : t.error = .noError) (hclean : t.Clean)
    (hf : ∀ k, fields.lookup k =
      (t.response[k]?).or (if k = lit "result" then some (lit "ok") else none)) :
    (answer t).Reads 200 fields := by
  rw [Settled.Clean, if_pos he] at hclean
  obtain ⟨r, hr⟩ := (positiveResponse_isOk_iff t.response).mpr hclean
  have hfield := positiveResponse_field hr
  have hanswer : answer t = r := by
    rw [answer, if_pos he, hr]
  rw [hanswer]
  unfold positiveResponse at hr
  dsimp only at hr
  split at hr
  · cases hr
  · next body hbody =>
    cases hr
    obtain ⟨kvs, hparse, hlookup⟩ := jsonParse_of_dump2 hbody
    refine ⟨_, _, body, kvs, rfl, hparse, fun k => ?_⟩
    rw [hlookup, hf, ← hfield k, Response.field]

/-- A negative answer is read back: its detail is `extra`, if there is any. -/
theorem reads_negative (he : t.error ≠ .noError) (hclean : t.Clean) (hextra : t.extra ≠ []) :
    (answer t).Reads 400 [(lit "result", lit "error"), (lit "detail", t.extra)] := by
  rw [Settled.Clean, if_neg he] at hclean
  obtain ⟨r, hr⟩ := (negativeResponse_isOk_iff t.error t.extra).mpr hclean
  have hanswer : answer t = r := by
    rw [answer, if_neg he, hr]
  rw [hanswer]
  unfold negativeResponse at hr
  dsimp only at hr
  rw [if_pos hextra] at hr
  split at hr
  · cases hr
  · next body hbody =>
    cases hr
    obtain ⟨kvs, hparse, hlookup⟩ := jsonParse_of_dump2 hbody
    refine ⟨_, _, body, kvs, rfl, hparse, fun k => ?_⟩
    rw [hlookup, getElem?_insert, getElem?_insert, ExtTreeMap.getElem?_empty, lookup_pair]
    -- `detail` is inserted after `result`
    by_cases hr : k = lit "result"
    · rw [if_pos hr, if_neg (by rw [hr]; decide), if_pos hr]
    · rw [if_neg hr, if_neg hr]

/-- A body was written by `dump(2)`, from the object next to it. -/
theorem dumped_answer {code : Nat} {msg : Bytes} {json : KVString} {body : Bytes}
    (h : answer t = .reply code msg json body) : dump2 json = .ok body := by
  unfold answer at h
  split at h
  · next r hr =>
    subst h
    split at hr
    · exact (positiveResponse_proper hr).2.1
    · exact (negativeResponse_proper hr).2.1
  · cases h

/-- What is read out of an answer is what was dumped. -/
theorem dumped_of_reads {code : Nat} (h : (answer t).Reads code fields) :
    ∃ msg json body, answer t = .reply code msg json body ∧ dump2 json = .ok body ∧
      ∀ k v, fields.lookup k = some v → json[k]? = some v := by
  obtain ⟨msg, json, body, kvs, hreply, hparse, hlookup⟩ := h
  have hdump := dumped_answer hreply
  obtain ⟨kvs', hparse', hlookup'⟩ := jsonParse_of_dump2 hdump
  cases hparse.symm.trans hparse'
  refine ⟨msg, json, body, hreply, hdump, fun k v hv => ?_⟩
  have hsame := (hlookup' k).symm.trans (hlookup k)
  rw [hv, Option.map_some, Option.map_eq_some_iff] at hsame
  obtain ⟨w, hw, heq⟩ := hsame
  rw [hw, Json.string.inj heq]

/-- The answer of a handler that wrote nothing. -/
theorem reads_done (he : t.error = .noError) (hclean : t.Clean) (hr : t.response = ∅) :
    (answer t).Reads 200 [(lit "result", lit "ok")] := by
  refine reads_positive he hclean fun k => ?_
  rw [lookup_single, hr, ExtTreeMap.getElem?_empty, Option.none_or]

/-- The answer of a handler that wrote one string. -/
theorem reads_written {key v : Bytes} (he : t.error = .noError) (hclean : t.Clean)
    (hr : t.response = (∅ : KVString).insert key v) (hkey : key ≠ lit "result") :
    (answer t).Reads 200 [(lit "result", lit "ok"), (key, v)] := by
  refine reads_positive he hclean fun k => ?_
  rw [lookup_pair, hr, getElem?_insert, ExtTreeMap.getElem?_empty]
  -- `result` is not what the handler wrote, so `positive_response` adds it
  by_cases hk : k = lit "result"
  · rw [if_pos hk, if_pos hk, if_neg (by rw [hk]; exact hkey.symm), Option.none_or]
  · rw [if_neg hk, if_neg hk, Option.or_none]

end Answers

/-! ## One request -/

section Step

variable {crypto : Crypto} {order : ArgOrder} {draw : Draw} {s : AnonymBE} {request : Request}

/-- The method and the path of an operation. -/
def route : Endpoint → Bytes × Bytes
  | .ping => (lit "GET", lit "/ping")
  | .createUser => (lit "POST", lit "/access/user")
  | .createGroup => (lit "POST", lit "/access/group")
  | .addUser => (lit "PUT", lit "/access/usergroup")
  | .removeUser => (lit "DELETE", lit "/access/usergroup")
  | .deleteUser => (lit "DELETE", lit "/access/user")
  | .deleteAll => (lit "DELETE", lit "/access/all")
  | .envelope => (lit "POST", lit "/verifier/envelope")
  | .belongs => (lit "POST", lit "/verifier/usergroup")

/-- The `if` that leads to an operation compares with its method and path. -/
theorem route_of_endpoint {e : Endpoint} (h : endpoint request = some e) :
    request.method = (route e).1 ∧ request.encodedPath = (route e).2 := by
  unfold endpoint at h
  split_ifs at h
  all_goals
    cases h
    exact ⟨by assumption, by assumption⟩

/-- The operation behind a command. -/
def endpointOf : Command Bytes Bytes Bytes → Endpoint
  | .ping => .ping
  | .createUser _ => .createUser
  | .createGroup _ _ => .createGroup
  | .addUser _ _ => .addUser
  | .removeUser _ _ => .removeUser
  | .deleteUser _ => .deleteUser
  | .deleteAll => .deleteAll
  | .belongs _ _ => .belongs
  | .envelope _ _ => .envelope

/-- A request that says a command is one for its operation. -/
theorem endpoint_of_command {c : Command Bytes Bytes Bytes} (h : request.Says c) :
    endpoint request = some (endpointOf c) := by
  cases c with
  | ping => rw [endpoint_get h.1, if_pos h.2, endpointOf]
  | createUser u => rw [endpoint_post h.1, if_pos h.2.1, endpointOf]
  | createGroup g u =>
    rw [endpoint_post h.1, if_neg (by rw [h.2.1]; decide), if_pos h.2.1, endpointOf]
  | addUser g u => rw [endpoint_put h.1, if_pos h.2.1, endpointOf]
  | removeUser g u => rw [endpoint_delete h.1, if_pos h.2.1, endpointOf]
  | deleteUser u =>
    rw [endpoint_delete h.1, if_neg (by rw [h.2.1]; decide), if_pos h.2.1, endpointOf]
  | deleteAll =>
    rw [endpoint_delete h.1, if_neg (by rw [h.2]; decide), if_neg (by rw [h.2]; decide),
      if_pos h.2, endpointOf]
  | belongs u g =>
    rw [endpoint_post h.1, if_neg (by rw [h.2.1]; decide), if_neg (by rw [h.2.1]; decide),
      if_neg (by rw [h.2.1]; decide), if_pos h.2.1, endpointOf]
  | envelope g b =>
    rw [endpoint_post h.1, if_neg (by rw [h.2.1]; decide), if_neg (by rw [h.2.1]; decide),
      if_pos h.2.1, endpointOf]

/-- A body that is parsed is one. -/
theorem carries_of_command {c : Command Bytes Bytes Bytes} (h : request.Says c)
    (hp : parsesBody request) : ∃ fields, request.Carries fields := by
  cases c with
  | ping =>
    obtain hm | ⟨hm, -⟩ | ⟨hm, -⟩ := hp
    all_goals
      rw [h.1] at hm
      exact absurd hm (by decide)
  | createUser u => exact ⟨_, h.2.2⟩
  | createGroup g u => exact ⟨_, h.2.2⟩
  | addUser g u => exact ⟨_, h.2.2⟩
  | removeUser g u => exact ⟨_, h.2.2⟩
  | deleteUser u =>
    obtain ⟨w, -, hc⟩ := h.2.2
    exact ⟨_, hc⟩
  | deleteAll =>
    -- the one `DELETE` that parses no body
    obtain hm | ⟨hm, -⟩ | ⟨-, hpath | hpath⟩ := hp
    · rw [h.1] at hm
      exact absurd hm (by decide)
    · rw [h.1] at hm
      exact absurd hm (by decide)
    · rw [h.2] at hpath
      exact absurd hpath (by decide)
    · rw [h.2] at hpath
      exact absurd hpath (by decide)
  | belongs u g => exact ⟨_, h.2.2⟩
  | envelope g b => exact ⟨_, h.2.2⟩

/-- A request that says something is answered properly. -/
theorem answerable_of_command {c : Command Bytes Bytes Bytes} (h : request.Says c) :
    Answerable request where
  body hp p hlex := by
    obtain ⟨fields, hc⟩ := carries_of_command h hp
    obtain ⟨j, hj, -⟩ := hc.parse
    rw [(jsonParse_ok hj).2] at hlex
    cases hlex
  path _ hnone := by
    rw [endpoint_of_command h] at hnone
    cases hnone

/-- What is left for the second `try` block is clean. -/
theorem clean_of_command (hb : ∀ b, Ascii (crypto.b64Encode b)) {c : Command Bytes Bytes Bytes}
    (h : request.Says c) :
    (settle request (dispatch (Env.code crypto order) draw s request)).Clean :=
  (answer_proper_iff _).mp (proper_of_answerable order draw s hb (answerable_of_command h))

/-- The body as the handlers get it. -/
theorem parseBody_of_parse {j : Json} (h : jsonParse request.body = .ok j) :
    (Env.code crypto order).parseBody request = .ok j := by
  unfold Env.parseBody Env.code
  dsimp only
  rw [h]

/-- Where neither argument throws, their order is not seen. -/
theorem jsonStr₂_of_ok {j : Json} {a b v w : Bytes} (ha : jsonStr j a = .ok v)
    (hb : jsonStr j b = .ok w) : (Env.code crypto order).jsonStr₂ j a b = .ok (v, w) := by
  unfold Env.jsonStr₂
  rw [ha, hb]
  cases (Env.code crypto order).order <;> rfl

/-- Two fields. -/
theorem Request.Carries.parse₂ {a b v w : Bytes} (h : request.Carries [(a, v), (b, w)]) :
    ∃ j, jsonParse request.body = .ok j ∧ jsonStr j a = .ok v ∧ jsonStr j b = .ok w := by
  obtain ⟨j, hj, hf⟩ := h.parse
  exact ⟨j, hj, hf (a, v) (by simp), hf (b, w) (by simp)⟩

/-- What the handler of a command makes of the store. -/
def handled (crypto : Crypto) (draw : Draw) (s : AnonymBE) :
    Command Bytes Bytes Bytes → Handled
  | .ping => ⟨.ok .noError, ∅, s.database⟩
  | .createUser u =>
    match s.database.createUser u draw.key.val with
    | (.error e, db) => throws db (.db e)
    | (.ok _, db) => ⟨.ok .noError,
        (∅ : KVString).insert (lit "user_key") (crypto.b64Encode draw.key.val), db⟩
  | .createGroup g u => ofStore (s.database.createGroup g u)
  | .addUser g u => ofStore (s.database.addUserToGroup g u)
  | .removeUser g u => ofStore (s.database.removeUserFromGroup g u)
  | .deleteUser u => ⟨.ok .noError, ∅, s.database.deleteUser u⟩
  | .deleteAll => ⟨.ok .noError, ∅, s.database.deleteAllData⟩
  | .belongs u g =>
    match s.database.isUserPartOfGroup u g with
    | (.error e, db) => throws db (.db e)
    | (.ok answer, db) => ⟨.ok .noError, (∅ : KVString).insert (lit "belongs")
        (if answer then lit "true" else lit "false"), db⟩
  | .envelope g b =>
    match s.database.getKeysOfGroup g with
    | (.error e, db) => throws db (.db e)
    | (.ok ka, db) =>
      let sealed := sealEnvelope (Env.code crypto .leftFirst) draw s.indexed
        (resize (crypto.b64Decode b) 32) ka
      ⟨.ok sealed.1, sealed.2, db⟩

/-- **The dispatch runs the handler of the command.** -/
theorem dispatch_command {c : Command Bytes Bytes Bytes} (h : request.Says c) :
    dispatch (Env.code crypto order) draw s request = handled crypto draw s c := by
  cases c with
  | ping =>
    obtain ⟨hm, hp⟩ := h
    rw [dispatch_get s hm, processGet, if_neg (by rw [hp]; decide), if_neg (by rw [hp]; decide),
      if_pos hp, handled]
  | createUser u =>
    obtain ⟨hm, hp, hc⟩ := h
    obtain ⟨j, hj, hf⟩ := hc.parse
    rw [dispatch_post s hm, processPost, parseBody_of_parse hj]
    dsimp only
    rw [if_pos hp, createUser, hf (_, u) List.mem_cons_self]
    rfl
  | createGroup g u =>
    obtain ⟨hm, hp, hc⟩ := h
    obtain ⟨j, hj, hg, hu⟩ := Request.Carries.parse₂ hc
    rw [dispatch_post s hm, processPost, parseBody_of_parse hj]
    dsimp only
    rw [if_neg (by rw [hp]; decide), if_pos hp, jsonStr₂_of_ok hg hu, handled]
  | addUser g u =>
    obtain ⟨hm, hp, hc⟩ := h
    obtain ⟨j, hj, hg, hu⟩ := Request.Carries.parse₂ hc
    rw [dispatch_put s hm, processPut, if_pos hp, parseBody_of_parse hj]
    dsimp only
    rw [jsonStr₂_of_ok hg hu, handled]
  | removeUser g u =>
    obtain ⟨hm, hp, hc⟩ := h
    obtain ⟨j, hj, hg, hu⟩ := Request.Carries.parse₂ hc
    rw [dispatch_delete s hm, processDelete, if_pos hp, parseBody_of_parse hj]
    dsimp only
    rw [jsonStr₂_of_ok hg hu, handled]
  | deleteUser u =>
    -- `w` is the name in the body, `c_str()` what the store is given
    obtain ⟨hm, hp, w, rfl, hc⟩ := h
    obtain ⟨j, hj, hf⟩ := hc.parse
    rw [dispatch_delete s hm, processDelete, if_neg (by rw [hp]; decide), if_pos hp,
      parseBody_of_parse hj]
    dsimp only
    rw [hf (_, w) List.mem_cons_self, handled]
  | deleteAll =>
    obtain ⟨hm, hp⟩ := h
    rw [dispatch_delete s hm, processDelete, if_neg (by rw [hp]; decide),
      if_neg (by rw [hp]; decide), if_pos hp, handled]
  | belongs u g =>
    obtain ⟨hm, hp, hc⟩ := h
    obtain ⟨j, hj, hu, hg⟩ := Request.Carries.parse₂ hc
    rw [dispatch_post s hm, processPost, parseBody_of_parse hj]
    dsimp only
    rw [if_neg (by rw [hp]; decide), if_neg (by rw [hp]; decide), if_neg (by rw [hp]; decide),
      if_pos hp, jsonStr₂_of_ok hu hg]
    rfl
  | envelope g b =>
    obtain ⟨hm, hp, hc⟩ := h
    obtain ⟨j, hj, hb, hg⟩ := Request.Carries.parse₂ hc
    rw [dispatch_post s hm, processPost, parseBody_of_parse hj]
    dsimp only
    rw [if_neg (by rw [hp]; decide), if_neg (by rw [hp]; decide), if_pos hp, generateEnvelope, hb]
    dsimp only
    rw [hg]
    rfl

/-! ## The handler of a command, and the step it takes -/

/-- The handler of `c` takes one step of the machine, and its answer conveys the verdict. -/
def Refines (crypto : Crypto) (draw : Draw) (s : AnonymBE) (c : Command Bytes Bytes Bytes) : Prop :=
  ∃ v, Step s.database.policy draw.key.val c v (handled crypto draw s c).database.policy ∧
    ∀ request, (settle request (handled crypto draw s c)).Clean →
      (answer (settle request (handled crypto draw s c))).Conveys crypto s.indexed draw c v

section Handlers

variable {c : Command Bytes Bytes Bytes} {db : MemDatabase}

/-- A handler that throws a `std::invalid_argument` refuses. -/
theorem refines_of_refused {why : Access.Reason} {what : Bytes}
    (hh : handled crypto draw s c = throws s.database (.db (.invalidArgument what)))
    (ht : Throws c (.refused why) (.invalidArgument what))
    (hstep : Step s.database.policy draw.key.val c (.refused why) s.database.policy) :
    Refines crypto draw s c := by
  unfold Refines
  rw [hh]
  refine ⟨.refused why, hstep, fun request hclean => ⟨what, ht, ?_⟩⟩
  exact reads_negative (by simp [settle, throws, catchClauses]) hclean ht.cStr_ne_nil

/-- A handler that throws a `std::logic_error` tells that nothing was to be done. -/
theorem refines_of_already {what : Bytes}
    (hh : handled crypto draw s c = throws s.database (.db (.logicError what)))
    (ht : Throws c .already (.logicError what))
    (hstep : Step s.database.policy draw.key.val c .already s.database.policy) :
    Refines crypto draw s c := by
  unfold Refines
  rw [hh]
  exact ⟨.already, hstep, fun request hclean =>
    ⟨what, ht, reads_written rfl hclean rfl (by decide)⟩⟩

/-- A handler that returns without a word has done what was asked. -/
theorem refines_of_done (hh : handled crypto draw s c = ⟨.ok .noError, ∅, db⟩)
    (hstep : Step s.database.policy draw.key.val c .done db.policy) :
    Refines crypto draw s c := by
  unfold Refines
  rw [hh]
  exact ⟨.done, hstep, fun request hclean => reads_done rfl hclean rfl⟩

/-- What a handler writes into the response map is read back from the answer. -/
theorem reads_of_written {key v : Bytes} {request : Request} (hkey : key ≠ lit "result")
    (hclean : (settle request ⟨.ok .noError, (∅ : KVString).insert key v, db⟩).Clean) :
    (answer (settle request ⟨.ok .noError, (∅ : KVString).insert key v, db⟩)).Reads 200
      [(lit "result", lit "ok"), (key, v)] :=
  reads_written rfl hclean rfl hkey

end Handlers

section Operations

variable (crypto draw s)

/-- `create_user`: the key drawn is issued, unless there is such a user. -/
theorem refines_createUser (u : Bytes) : Refines crypto draw s (.createUser u) := by
  by_cases hu : u ∈ s.database.users
  · refine refines_of_refused ?_ (.existingUser u) (.userExists (MemDatabase.key_policy.mpr hu))
    simp only [handled, MemDatabase.createUser_eq, if_pos hu]
    rfl
  · unfold Refines
    simp only [handled, MemDatabase.createUser_eq, if_neg hu]
    refine ⟨.issued draw.key.val, ?_, fun request hclean => reads_of_written (by decide) hclean⟩
    rw [MemDatabase.policy_issue]
    exact .createUser (not_not.mp (mt MemDatabase.key_policy.mp hu))

/-- `create_group`: the name is looked up before the user. -/
theorem refines_createGroup (g u : Bytes) : Refines crypto draw s (.createGroup g u) := by
  by_cases hg : g ∈ s.database.groups
  · obtain ⟨members, hs⟩ := exists_getElem?_of_mem hg
    refine refines_of_refused ?_ (.existingGroup g u) (.groupExists ?_)
    · simp only [handled, MemDatabase.createGroup_eq, if_pos hg]
      rfl
    · rw [MemDatabase.group_policy hs]
      exact Option.some_ne_none _
  · have hnone := MemDatabase.group_policy_none (ExtTreeMap.getElem?_eq_none hg)
    by_cases hu : u ∈ s.database.users
    · refine @refines_of_done _ _ _ _
        { s.database with groups := s.database.groups.insert g ((∅ : Members).insert u) } ?_ ?_
      · simp only [handled, MemDatabase.createGroup_eq, if_neg hg, if_neg (not_not.mpr hu)]
        rfl
      · have hset : {v | v ∈ (∅ : Members).insert u} = ({u} : Set Bytes) := by
          ext v
          simp
        rw [MemDatabase.policy_assign, hset]
        exact .createGroup hnone (MemDatabase.key_policy.mpr hu)
    · refine refines_of_refused ?_ (.groupUnknownUser g u)
        (.founderUnknown hnone (not_not.mp (mt MemDatabase.key_policy.mp hu)))
      simp only [handled, MemDatabase.createGroup_eq, if_neg hg, if_pos hu]
      rfl

/-- `add_user_to_group`: a member is told so, which is no refusal. -/
theorem refines_addUser (g u : Bytes) : Refines crypto draw s (.addUser g u) := by
  cases hs : s.database.groups[g]? with
  | none =>
    refine refines_of_refused ?_ (.addNoGroup g u)
      (.addToNoGroup (MemDatabase.group_policy_none hs))
    simp only [handled, MemDatabase.addUserToGroup_eq, hs]
    rfl
  | some members =>
    have hg := MemDatabase.group_policy hs
    by_cases hu : u ∈ s.database.users
    · have hkey := MemDatabase.key_policy.mpr hu
      by_cases hm : u ∈ members
      · refine refines_of_already ?_ (.alreadyMember g u) (.already hg hkey hm)
        simp only [handled, MemDatabase.addUserToGroup_eq, hs, if_neg (not_not.mpr hu), if_pos hm]
        rfl
      · refine @refines_of_done _ _ _ _
          { s.database with groups := s.database.groups.insert g (members.insert u) } ?_ ?_
        · simp only [handled, MemDatabase.addUserToGroup_eq, hs, if_neg (not_not.mpr hu), if_neg hm]
          rfl
        · have hset : {v | v ∈ members.insert u} = insert u {v | v ∈ members} := by
            ext v
            exact Lib.mem_insert
          rw [MemDatabase.policy_assign, hset]
          exact .addUser hg hkey hm
    · refine refines_of_refused ?_ (.addUnknownUser g u)
        (.addUnknown (by simp [hg]) (not_not.mp (mt MemDatabase.key_policy.mp hu)))
      simp only [handled, MemDatabase.addUserToGroup_eq, hs, if_pos hu]
      rfl

/-- `remove_user_from_group`: only a member is removed. -/
theorem refines_removeUser (g u : Bytes) : Refines crypto draw s (.removeUser g u) := by
  cases hs : s.database.groups[g]? with
  | none =>
    refine refines_of_refused ?_ (.removeNoGroup g u)
      (.removeFromNoGroup (MemDatabase.group_policy_none hs))
    simp only [handled, MemDatabase.removeUserFromGroup_eq, hs]
    rfl
  | some members =>
    have hg := MemDatabase.group_policy hs
    by_cases hu : u ∈ s.database.users
    · have hkey := MemDatabase.key_policy.mpr hu
      by_cases hm : u ∈ members
      · refine @refines_of_done _ _ _ _
          { s.database with groups := s.database.groups.insert g (members.erase u) } ?_ ?_
        · simp only [handled, MemDatabase.removeUserFromGroup_eq, hs, if_neg (not_not.mpr hu),
            if_neg (not_not.mpr hm)]
          rfl
        · have hset : {v | v ∈ members.erase u} = {v | v ∈ members} \ {u} := by
            ext v
            simp only [Set.mem_ofPred_eq, Lib.mem_erase, Set.mem_sdiff, Set.mem_singleton_iff]
            exact and_comm
          rw [MemDatabase.policy_assign, hset]
          exact .removeUser hg hkey hm
      · refine refines_of_refused ?_ (.removeNotMember g u) (.removeNotMember hg hkey hm)
        simp only [handled, MemDatabase.removeUserFromGroup_eq, hs, if_neg (not_not.mpr hu),
          if_pos hm]
        rfl
    · refine refines_of_refused ?_ (.removeUnknownUser g u)
        (.removeUnknown (by simp [hg]) (not_not.mp (mt MemDatabase.key_policy.mp hu)))
      simp only [handled, MemDatabase.removeUserFromGroup_eq, hs, if_pos hu]
      rfl

/-- `delete_user` refuses nothing. -/
theorem refines_deleteUser (u : Bytes) : Refines crypto draw s (.deleteUser u) := by
  refine refines_of_done rfl ?_
  rw [MemDatabase.policy_drop]
  exact .deleteUser

/-- `delete_all_data` leaves the empty policy. -/
theorem refines_deleteAll : Refines crypto draw s .deleteAll := by
  refine @refines_of_done _ _ _ _ {} rfl ?_
  rw [MemDatabase.policy_empty]
  exact .deleteAll

/-- `is_user_part_of_group`: the answer is whether the user is a member. -/
theorem refines_belongs (u g : Bytes) : Refines crypto draw s (.belongs u g) := by
  cases hs : s.database.groups[g]? with
  | none =>
    refine refines_of_refused ?_ (.belongsUnknownGroup u g)
      (.belongsToNoGroup (MemDatabase.group_policy_none hs))
    simp only [handled, MemDatabase.isUserPartOfGroup_eq, hs]
    rfl
  | some members =>
    unfold Refines
    simp only [handled, MemDatabase.isUserPartOfGroup_eq, hs]
    refine ⟨_, .belongs (MemDatabase.group_policy hs), fun request hclean => ?_⟩
    by_cases hm : u ∈ members
    · rw [if_pos (decide_eq_true hm)] at hclean ⊢
      exact .inl ⟨hm, reads_of_written (by decide) hclean⟩
    · rw [if_neg (by simpa using hm)] at hclean ⊢
      exact .inr ⟨hm, reads_of_written (by decide) hclean⟩

/-- The keys for which an envelope is sealed. -/
theorem mem_openers_iff {db : MemDatabase} (hsized : db.KeysSized) {g : Bytes} (k : Key) :
    k ∈ db.memberKeys g ↔ k.val ∈ db.policy.openers g := by
  constructor
  · rintro ⟨u, stored, hm, hs, rfl⟩
    refine ⟨u, MemDatabase.member_policy.mpr hm, ?_⟩
    rw [keyOf_val_of_length (hsized u stored hs)]
    exact hs
  · rintro ⟨u, hm, hk⟩
    exact ⟨u, k.val, MemDatabase.member_policy.mp hm, hk,
      Subtype.ext (keyOf_val_of_length k.property)⟩

/-- `get_keys_of_group` finds a key for each member, as the store's members are users. -/
theorem refines_envelope (hi : s.database.Integrity) (hsized : s.database.KeysSized)
    (g b : Bytes) : Refines crypto draw s (.envelope g b) := by
  cases hs : s.database.groups[g]? with
  | none =>
    refine refines_of_refused ?_ (.envelopeUnknownGroup g b)
      (.envelopeForNoGroup (MemDatabase.group_policy_none hs))
    simp only [handled, MemDatabase.getKeysOfGroup_eq, hs]
    rfl
  | some members =>
    cases hempty : members.isEmpty with
    | true =>
      have hnobody : {u | u ∈ members} = (∅ : Set Bytes) :=
        Set.eq_empty_iff_forall_notMem.mpr (isEmpty_eq_true_iff.mp hempty)
      have hg := MemDatabase.group_policy hs
      rw [hnobody] at hg
      refine refines_of_refused ?_ (.emptyGroup g b) (.envelopeForNobody hg)
      simp only [handled, MemDatabase.getKeysOfGroup_eq, hs, hempty, if_true]
      rfl
    | false =>
      obtain ⟨ka, hget, hne, hka, hmem⟩ := MemDatabase.getKeysOfGroup_of_nonempty hi hs hempty
      have hmember : ∃ u, s.database.policy.Member u g := by
        by_contra hno
        have hall : ∀ u, u ∉ members := fun u hu =>
          hno ⟨u, MemDatabase.member_policy.mpr ⟨members, hs, hu⟩⟩
        rw [isEmpty_eq_true_iff.mpr hall] at hempty
        cases hempty
      unfold Refines
      simp only [handled, hget, sealEnvelope, hka, Bool.false_eq_true, if_false]
      refine ⟨.sealed b _, .envelope hmember, fun request hclean => ⟨ka, fun k => ?_, ?_⟩⟩
      · rw [hmem, mem_openers_iff hsized]
      · exact reads_of_written (by decide) hclean

/-- **A handler takes one step of the machine**, and its answer conveys the verdict. -/
theorem handled_refines (hi : s.database.Integrity) (hsized : s.database.KeysSized) :
    ∀ c, Refines crypto draw s c
  | .ping => refines_of_done rfl .ping
  | .createUser u => refines_createUser crypto draw s u
  | .createGroup g u => refines_createGroup crypto draw s g u
  | .addUser g u => refines_addUser crypto draw s g u
  | .removeUser g u => refines_removeUser crypto draw s g u
  | .deleteUser u => refines_deleteUser crypto draw s u
  | .deleteAll => refines_deleteAll crypto draw s
  | .belongs u g => refines_belongs crypto draw s u g
  | .envelope g b => refines_envelope crypto draw s hi hsized g b

end Operations

/-- **A request that says a command takes one step of it**, and is answered by its verdict. -/
theorem processInput_refines (hb : ∀ b, Ascii (crypto.b64Encode b)) (hi : s.database.Integrity)
    (hsized : s.database.KeysSized) {c : Command Bytes Bytes Bytes} (h : request.Says c) :
    ∃ v, Step s.database.policy draw.key.val c v
        (processInput (Env.code crypto order) draw s request).2.database.policy ∧
      (processInput (Env.code crypto order) draw s request).1.Conveys crypto s.indexed
        draw c v := by
  have hclean : (settle request (dispatch (Env.code crypto order) draw s request)).Clean :=
    clean_of_command hb h
  rw [processInput_database, processInput_fst]
  rw [dispatch_command h] at hclean ⊢
  obtain ⟨v, hstep, hconveys⟩ := handled_refines crypto draw s hi hsized c
  exact ⟨v, hstep, hconveys request hclean⟩

/-- A request that says no command leaves the store alone. -/
theorem command_or_idle (crypto : Crypto) (order : ArgOrder) (draw : Draw) (s : AnonymBE)
    (request : Request) : (∃ c, request.Says c) ∨
      (processInput (Env.code crypto order) draw s request).2.database = s.database := by
  rw [processInput_database]
  have hh := dispatch_handles (Env.code crypto order) draw s request
  generalize dispatch (Env.code crypto order) draw s request = h at hh
  cases hh with
  | createUser he hu hn =>
    obtain ⟨hm, hp⟩ := route_of_endpoint he
    exact .inl ⟨.createUser _, hm, hp, carries_of_field hu⟩
  | createGroup he hg hu hn hm' =>
    obtain ⟨hm, hp⟩ := route_of_endpoint he
    exact .inl ⟨.createGroup _ _, hm, hp, carries_of_fields hg hu⟩
  | addUser he hg hu hs hm' hn =>
    obtain ⟨hm, hp⟩ := route_of_endpoint he
    exact .inl ⟨.addUser _ _, hm, hp, carries_of_fields hg hu⟩
  | removeUser he hg hu hs hm' hn =>
    obtain ⟨hm, hp⟩ := route_of_endpoint he
    exact .inl ⟨.removeUser _ _, hm, hp, carries_of_fields hg hu⟩
  | deleteUser he hu =>
    obtain ⟨hm, hp⟩ := route_of_endpoint he
    exact .inl ⟨.deleteUser _, hm, hp, _, rfl, carries_of_field hu⟩
  | deleteAll he =>
    obtain ⟨hm, hp⟩ := route_of_endpoint he
    exact .inl ⟨.deleteAll, hm, hp⟩
  | _ => exact .inr rfl

end Step

/-! ## Runs -/

/-- The keys of a reachable store were all drawn, so they have 32 bytes. -/
theorem keysSized_of_reachable {env : Env} {s : AnonymBE} (h : Reachable env s) :
    s.database.KeysSized := by
  obtain ⟨ops, hops, hs⟩ := database_run h
  rw [hs]
  exact MemDatabase.keysSized_of_sized hops

/-- The answers to the commands of a run convey the verdicts, one by one. -/
def Answered (crypto : Crypto) (indexed : Bool) (steps : List (Draw × Request))
    (cs : List (Command Bytes Bytes Bytes)) (rs : List Response)
    (vs : List (Verdict Bytes Bytes)) : Prop :=
  List.Forall₂ (fun e v => Response.Conveys crypto indexed e.1.1.1 e.1.2 e.2 v)
    ((steps.zip cs).zip rs) vs

/-- **The service is the machine.** In every run of requests that say commands, the policy of the
store follows the machine, and `json::parse` reads the machine's verdicts out of the answers. -/
theorem service_refines {crypto : Crypto} (hb : ∀ b, Ascii (crypto.b64Encode b)) (order : ArgOrder)
    {s : AnonymBE} (hs : Reachable (Env.code crypto order) s) (steps : List (Draw × Request))
    (cs : List (Command Bytes Bytes Bytes))
    (hcmd : List.Forall₂ (fun step c => step.2.Says c) steps cs) :
    ∃ vs, Runs s.database.policy ((steps.map fun step => step.1.key.val).zip cs) vs
        (serve (Env.code crypto order) s steps).database.policy ∧
      Answered crypto s.indexed steps cs (answers (Env.code crypto order) s steps) vs := by
  induction hcmd generalizing s with
  | nil => exact ⟨[], .nil, .nil⟩
  | @cons step c steps cs hsay _ ih =>
    obtain ⟨draw, request⟩ := step
    obtain ⟨v, hstep, hconveys⟩ := processInput_refines hb (integrity_of_reachable hs)
      (keysSized_of_reachable hs) hsay
    obtain ⟨vs, hruns, hanswered⟩ := ih (.step hs draw request)
    exact ⟨v :: vs, .cons hstep hruns, .cons hconveys hanswered⟩

/-! ### A sample

The users `a` and `b` are created, `a` makes the group `g`, a user `c` whom nobody created is
refused, `b` joins, and an envelope is asked for. -/

def sampleRun : List (Draw × Request) :=
  [(Draw.sample, ⟨lit "POST", lit "/access/user", userBody "\"a\""⟩),
    (nextDraw, ⟨lit "POST", lit "/access/user", userBody "\"b\""⟩),
    (nextDraw, ⟨lit "POST", lit "/access/group", membershipBody "\"a\""⟩),
    (nextDraw, ⟨lit "PUT", lit "/access/usergroup", membershipBody "\"c\""⟩),
    (nextDraw, ⟨lit "PUT", lit "/access/usergroup", membershipBody "\"b\""⟩),
    (nextDraw, ⟨lit "POST", lit "/verifier/envelope", envelopeBody⟩)]

/-- The commands the requests of `sampleRun` say. -/
def sampleCommands : List (Command Bytes Bytes Bytes) :=
  [.createUser [97], .createUser [98], .createGroup [103] [97], .addUser [103] [99],
    .addUser [103] [98], .envelope [103] []]

/-- A body whose object is known. -/
theorem carries_of_parse {request : Request} {kvs : List (Bytes × Json)}
    {fields : List (Bytes × Bytes)} (h : jsonParse request.body = .ok (.object kvs))
    (hf : ∀ e ∈ fields, kvs.lookup e.1 = some (.string e.2)) : request.Carries fields :=
  ⟨kvs, document_of_jsonParse h, hf⟩

theorem parse_userBody_a : jsonParse (userBody "\"a\"") =
    .ok (.object [(lit "user_id", .string [97])]) := rfl

theorem parse_userBody_b : jsonParse (userBody "\"b\"") =
    .ok (.object [(lit "user_id", .string [98])]) := rfl

theorem parse_membershipBody_a : jsonParse (membershipBody "\"a\"") =
    .ok (.object [(lit "user_id", .string [97]), (lit "group_name", .string [103])]) := rfl

theorem parse_membershipBody_b : jsonParse (membershipBody "\"b\"") =
    .ok (.object [(lit "user_id", .string [98]), (lit "group_name", .string [103])]) := rfl

theorem parse_membershipBody_c : jsonParse (membershipBody "\"c\"") =
    .ok (.object [(lit "user_id", .string [99]), (lit "group_name", .string [103])]) := rfl

theorem parse_envelopeBody : jsonParse envelopeBody =
    .ok (.object [(lit "group_id", .string [103]), (lit "bucket_key", .string [])]) := rfl

/-- A field of an object with two. -/
theorem carries_pair {request : Request} {a b v w : Bytes}
    (h : jsonParse request.body = .ok (.object [(a, .string v), (b, .string w)])) (hab : b ≠ a) :
    request.Carries [(b, w), (a, v)] := by
  refine carries_of_parse h ?_
  rintro e he
  rcases List.mem_pair.mp he with rfl | rfl
  · rw [List.lookup_cons, beq_eq_false_iff_ne.mpr hab]
    simp
  · simp

/-- The field of an object with one. -/
theorem carries_single {request : Request} {a v : Bytes}
    (h : jsonParse request.body = .ok (.object [(a, .string v)])) : request.Carries [(a, v)] := by
  refine carries_of_parse h fun e he => ?_
  rw [List.mem_singleton.mp he]
  simp

theorem envelopeBody_command :
    Request.Says ⟨lit "POST", lit "/verifier/envelope", envelopeBody⟩ (.envelope [103] []) :=
  ⟨rfl, rfl, carries_pair parse_envelopeBody (by decide)⟩

/-- What the requests of the run stand for. -/
theorem sampleRun_says : List.Forall₂ (fun step c => step.2.Says c) sampleRun sampleCommands :=
  .cons ⟨rfl, rfl, carries_single parse_userBody_a⟩ <|
  .cons ⟨rfl, rfl, carries_single parse_userBody_b⟩ <|
  .cons ⟨rfl, rfl, carries_pair parse_membershipBody_a (by decide)⟩ <|
  .cons ⟨rfl, rfl, carries_pair parse_membershipBody_c (by decide)⟩ <|
  .cons ⟨rfl, rfl, carries_pair parse_membershipBody_b (by decide)⟩ <|
  .cons envelopeBody_command .nil

/-- The theorem for the run; the fourth answer is a refusal, the sixth has a ciphertext. -/
theorem service_refines_sample :
    (answers (Env.code .sample .rightFirst) (initialised true) sampleRun).map
        (fun r => (r.field (lit "detail"), (r.field (lit "ciphertext")).isSome)) =
      [(none, false), (none, false), (none, false),
        (some (lit "attempt to add unknown user 'c' to group 'g'"), false), (none, false),
        (none, true)] ∧
    ∃ vs, Runs (initialised true).database.policy
        ((sampleRun.map fun step => step.1.key.val).zip sampleCommands) vs
        (serve (Env.code .sample .rightFirst) (initialised true) sampleRun).database.policy ∧
      Answered .sample true sampleRun sampleCommands
        (answers (Env.code .sample .rightFirst) (initialised true) sampleRun) vs :=
  ⟨by decide +kernel, service_refines Crypto.sample_b64_ascii .rightFirst (.init true) sampleRun
    sampleCommands sampleRun_says⟩

/-- A run of any requests is a run of the commands among them. -/
theorem runs_of_serve {crypto : Crypto} (hb : ∀ b, Ascii (crypto.b64Encode b)) (order : ArgOrder)
    {s : AnonymBE} (hs : Reachable (Env.code crypto order) s) (steps : List (Draw × Request)) :
    ∃ log vs, Runs s.database.policy log vs
        (serve (Env.code crypto order) s steps).database.policy ∧
      ∀ e ∈ log, ∃ step ∈ steps, e.1 = step.1.key.val ∧ step.2.Says e.2 := by
  induction steps generalizing s with
  | nil => exact ⟨[], [], .nil, by simp⟩
  | cons step steps ih =>
    obtain ⟨draw, request⟩ := step
    obtain ⟨log, vs, hruns, hlog⟩ := ih (.step hs draw request)
    have hlog' : ∀ e ∈ log, ∃ step ∈ (draw, request) :: steps,
        e.1 = step.1.key.val ∧ step.2.Says e.2 := by
      intro e he
      obtain ⟨step, hmem, hstep⟩ := hlog e he
      exact ⟨step, List.mem_cons_of_mem _ hmem, hstep⟩
    obtain ⟨c, hc⟩ | hidle := command_or_idle crypto order draw s request
    -- the request adds its command to the log, or nothing
    · obtain ⟨v, hstep, -⟩ := processInput_refines hb (integrity_of_reachable hs)
        (keysSized_of_reachable hs) hc
      refine ⟨(draw.key.val, c) :: log, v :: vs, .cons hstep hruns, ?_⟩
      intro e he
      obtain rfl | he := List.mem_cons.mp he
      · exact ⟨_, List.mem_cons_self, rfl, hc⟩
      · exact hlog' e he
    · rw [hidle] at hruns
      exact ⟨log, vs, hruns, hlog'⟩

end AnonymBE

end ASky

import ASky.Service.Dispatch
import ASky.Service.Parser

/-!
# What an answer tells, and when nothing changes

The client takes a request for done when the answer has code 200 and `"result": "ok"`
(`Types.kt`, `isReallySuccessful`): `Response.Positive`. This file relates it to how the request
ended (`Handles`).

* `positive_answer`, `answer_positive`: an answer is positive exactly when `error` is still
  `ASKY_NOERROR` and the dump of its object does not fail; its fields are then `result` and the
  response map.
* `Reachable`: the states of a service that starts empty and takes any requests. Its store is
  reachable by store calls that create users with 32-byte keys (`database_run`).
* **`database_unchanged_unless_ok`**: a request that is not answered by an unqualified ok leaves
  the store as it was.
-/

namespace ASky

open Std (ExtTreeMap)
open Lib

/-- `isReallySuccessful`: code 200 and `"result": "ok"`. -/
def Response.Positive : Response → Prop
  | .reply code _ json _ => code = 200 ∧ json[lit "result"]? = some (lit "ok")
  | .empty => False

instance : DecidablePred Response.Positive
  | .reply code _ json _ =>
    inferInstanceAs (Decidable (code = 200 ∧ json[lit "result"]? = some (lit "ok")))
  | .empty => inferInstanceAs (Decidable False)

/-- A field of the answer's object. -/
def Response.field : Response → Bytes → Option Bytes
  | .reply _ _ json _, key => json[key]?
  | .empty, _ => none

namespace AnonymBE

@[simp] theorem processInput_fst (env : Env) (draw : Draw) (s : AnonymBE) (request : Request) :
    (processInput env draw s request).1 = answer (settle request (dispatch env draw s request)) :=
  rfl

@[simp] theorem processInput_database (env : Env) (draw : Draw) (s : AnonymBE)
    (request : Request) :
    (processInput env draw s request).2.database = (dispatch env draw s request).database := rfl

/-! ## Positive answers -/

/-- The object of `positive_response`, field by field. -/
theorem positiveResponse_field {response : KVString} {r : Response}
    (h : positiveResponse response = .ok r) (key : Bytes) :
    r.field key = (response[key]?).or (if key = lit "result" then some (lit "ok") else none) := by
  unfold positiveResponse at h
  dsimp only at h
  split at h
  · exact absurd h (by simp)
  · rw [← Except.ok.inj h, Response.field, getElem?_foldl_toList, getElem?_insert,
      ExtTreeMap.getElem?_empty]

/-- A positive answer means `error` was still `ASKY_NOERROR`. -/
theorem answer_positive {t : Settled} (h : (answer t).Positive) :
    t.error = .noError ∧ ∀ key, (answer t).field key =
      (t.response[key]?).or (if key = lit "result" then some (lit "ok") else none) := by
  unfold answer at h ⊢
  by_cases he : t.error = .noError
  · rw [if_pos he] at h ⊢
    split at h
    · rename_i r hr
      exact ⟨he, fun key => positiveResponse_field hr key⟩
    · exact absurd h id
  · rw [if_neg he] at h
    split at h
    · rename_i r hr
      unfold negativeResponse at hr
      dsimp only at hr
      split at hr
      · exact absurd hr (by simp)
      · rw [← Except.ok.inj hr] at h
        exact absurd h.1 (by decide)
    · exact absurd h id

/-- With `ASKY_NOERROR` and nothing but ASCII to write, the answer is positive. -/
theorem positive_answer {t : Settled} (he : t.error = .noError)
    (ha : ∀ k v, t.response[k]? = some v → Ascii k ∧ Ascii v)
    (hr : t.response[lit "result"]? = none) : (answer t).Positive := by
  have hascii : ∀ k v, (t.response.toList.foldl (fun j kv => j.insert kv.1 kv.2)
      ((∅ : KVString).insert (lit "result") (lit "ok")))[k]? = some v → Ascii k ∧ Ascii v := by
    intro k v hk
    rw [getElem?_foldl_toList, getElem?_insert] at hk
    cases hv : t.response[k]? with
    | some w =>
      rw [hv] at hk
      exact Option.some.inj hk ▸ ha k w hv
    | none =>
      rw [hv, Option.none_or] at hk
      split at hk
      · rename_i hkey
        rw [hkey, ← Option.some.inj hk]
        exact ⟨(printable_lit rfl).ascii, (printable_lit rfl).ascii⟩
      · simp at hk
  obtain ⟨body, hbody⟩ := dump2_ok hascii
  unfold answer positiveResponse
  rw [if_pos he]
  dsimp only
  rw [hbody]
  refine ⟨rfl, ?_⟩
  rw [getElem?_foldl_toList, getElem?_insert, hr, if_pos rfl]
  rfl

/-- The answer to a handler that changed nothing in the response map. -/
theorem positive_answer_empty {t : Settled} (he : t.error = .noError) (hr : t.response = ∅) :
    (answer t).Positive := by
  refine positive_answer he (fun k v hk => ?_) ?_
  · rw [hr, ExtTreeMap.getElem?_empty] at hk
    exact absurd hk (by simp)
  · rw [hr, ExtTreeMap.getElem?_empty]

/-! ## Runs of the service -/

/-- The states of a service: initialised with an empty store, then any requests with any random
bytes. -/
inductive Reachable (env : Env) : AnonymBE → Prop where
  | init (indexed : Bool) : Reachable env (initialised indexed)
  | step {s : AnonymBE} (h : Reachable env s) (draw : Draw) (request : Request) :
    Reachable env (processInput env draw s request).2

/-- The service after a sequence of requests. -/
def serve (env : Env) (s : AnonymBE) : List (Draw × Request) → AnonymBE
  | [] => s
  | (draw, request) :: steps => serve env (processInput env draw s request).2 steps

theorem reachable_serve {env : Env} {s : AnonymBE} (h : Reachable env s)
    (steps : List (Draw × Request)) : Reachable env (serve env s steps) := by
  induction steps generalizing s with
  | nil => exact h
  | cons step steps ih => exact ih (.step h step.1 step.2)

variable {env : Env} {draw : Draw} {indexed : Bool} {db : MemDatabase} {request : Request}

/-- A request changes the store by at most one store call. -/
theorem Handles.run {h : Handled} (hh : Handles env draw indexed db request h) :
    ∃ ops, (∀ op ∈ ops, op.Sized) ∧ h.database = db.run ops := by
  have hone : ∀ op : Op, op.Sized → ∀ o ∈ [op], o.Sized := by
    intro op hop o ho
    exact List.mem_singleton.mp ho ▸ hop
  cases hh with
  | createUser he hu hn =>
    rename_i u
    refine ⟨[.createUser u draw.key.val], hone _ draw.key.property, ?_⟩
    simp only [MemDatabase.run, MemDatabase.apply, MemDatabase.createUser_eq, if_neg hn]
  | createGroup he hg hu hn hm =>
    rename_i g u
    refine ⟨[.createGroup g u], hone _ trivial, ?_⟩
    simp only [MemDatabase.run, MemDatabase.apply, MemDatabase.createGroup_eq, if_neg hn,
      if_neg (not_not.mpr hm)]
  | addUser he hg hu hs hm hn =>
    rename_i g u members
    refine ⟨[.addUserToGroup g u], hone _ trivial, ?_⟩
    simp only [MemDatabase.run, MemDatabase.apply, MemDatabase.addUserToGroup_eq, hs, if_neg hn,
      if_neg (not_not.mpr hm)]
  | removeUser he hg hu hs hm hn =>
    rename_i g u members
    refine ⟨[.removeUserFromGroup g u], hone _ trivial, ?_⟩
    simp only [MemDatabase.run, MemDatabase.apply, MemDatabase.removeUserFromGroup_eq, hs,
      if_neg (not_not.mpr hm), if_neg (not_not.mpr hn)]
  | deleteUser he hu =>
    rename_i u
    exact ⟨[.deleteUser (cStr u)], hone _ trivial, rfl⟩
  | deleteAll he => exact ⟨[.deleteAllData], hone _ trivial, rfl⟩
  | _ => exact ⟨[], fun _ ho => absurd ho List.not_mem_nil, rfl⟩

/-- The store of a service is a store reached by calls that create users with 32-byte keys. -/
theorem database_run {s : AnonymBE} (h : Reachable env s) :
    ∃ ops, (∀ op ∈ ops, op.Sized) ∧ s.database = MemDatabase.run {} ops := by
  induction h with
  | init indexed => exact ⟨[], fun _ ho => absurd ho List.not_mem_nil, rfl⟩
  | step _ draw request ih =>
    rename_i s _
    obtain ⟨ops, hk, hs⟩ := ih
    obtain ⟨ops', hk', hs'⟩ := (dispatch_handles env draw s request).run
    refine ⟨ops ++ ops', ?_, ?_⟩
    · intro op ho
      rcases List.mem_append.mp ho with ho | ho
      · exact hk op ho
      · exact hk' op ho
    · rw [MemDatabase.run_append, ← hs]
      exact hs'

theorem integrity_of_reachable {s : AnonymBE} (h : Reachable env s) : s.database.Integrity := by
  obtain ⟨ops, -, hs⟩ := database_run h
  exact MemDatabase.integrity_of_reachable ⟨ops, hs⟩

/-! ## Nothing changes without an unqualified ok -/

/-- A request the service may only read for: a GET, or a POST below `/verifier/`. -/
def ReadOnly (request : Request) : Prop :=
  request.method = lit "GET" ∨
    (request.method = lit "POST" ∧ lit "/verifier/" <+: request.encodedPath)

/-- The operations behind a read-only request do not write. -/
theorem writes_of_readOnly {e : Endpoint} (hr : ReadOnly request) (he : endpoint request = some e) :
    e.writes = false := by
  rcases hr with hm | ⟨hm, hp⟩
  · rw [endpoint_get hm] at he
    split at he
    · rw [← Option.some.inj he]
      rfl
    · exact absurd he (by simp)
  · rw [endpoint_post hm] at he
    split at he
    · rename_i hpath
      exact absurd (hpath ▸ hp) (by decide)
    split at he
    · rename_i hpath
      exact absurd (hpath ▸ hp) (by decide)
    split at he
    · rw [← Option.some.inj he]
      rfl
    split at he
    · rw [← Option.some.inj he]
      rfl
    · exact absurd he (by simp)

/-- A handler that changed the store belongs to a writing operation, ended in `ASKY_NOERROR` and
left nothing but a new user's key in the response map. -/
theorem Handles.changed {h : Handled} (hh : Handles env draw indexed db request h)
    (hc : h.database ≠ db) :
    (∃ e, endpoint request = some e ∧ e.writes = true) ∧ h.result = .ok .noError ∧
      ∀ k v, h.response[k]? = some v →
        k = lit "user_key" ∧ v = env.crypto.b64Encode draw.key.val := by
  have hempty : ∀ k v : Bytes, (∅ : KVString)[k]? = some v →
      k = lit "user_key" ∧ v = env.crypto.b64Encode draw.key.val := by simp
  cases hh with
  | createUser he hu hn =>
    refine ⟨⟨_, he, rfl⟩, rfl, fun k v hk => ?_⟩
    rw [getElem?_insert] at hk
    split at hk
    · rename_i hkey
      exact ⟨hkey, (Option.some.inj hk).symm⟩
    · exact hempty k v hk
  | createGroup he hg hu hn hm => exact ⟨⟨_, he, rfl⟩, rfl, hempty⟩
  | addUser he hg hu hs hm hn => exact ⟨⟨_, he, rfl⟩, rfl, hempty⟩
  | removeUser he hg hu hs hm hn => exact ⟨⟨_, he, rfl⟩, rfl, hempty⟩
  | deleteUser he hu => exact ⟨⟨_, he, rfl⟩, rfl, hempty⟩
  | deleteAll he => exact ⟨⟨_, he, rfl⟩, rfl, hempty⟩
  | _ => exact absurd rfl hc

/-- **Nothing changes unless the answer is an unqualified ok**, in any state and for any request
and random bytes. The one dump that could fail after a write is the new user's key, and base64 is
ASCII. -/
theorem database_unchanged_unless_ok (env : Env) (hb : ∀ b, Ascii (env.crypto.b64Encode b))
    (draw : Draw) (s : AnonymBE) (request : Request)
    (h : ¬ (processInput env draw s request).1.Positive ∨
      ((processInput env draw s request).1.Positive ∧
        ((processInput env draw s request).1.field (lit "info")).isSome = true) ∨
      ReadOnly request) :
    (processInput env draw s request).2.database = s.database := by
  by_contra hc
  obtain ⟨⟨e, he, hw⟩, hok, hresp⟩ := (dispatch_handles env draw s request).changed hc
  have ht : settle request (dispatch env draw s request) =
      ⟨.noError, [], (dispatch env draw s request).response⟩ := by rw [settle, hok]
  rcases h with hn | ⟨hp, hi⟩ | hr
  · refine hn ?_
    rw [processInput_fst, ht]
    refine positive_answer rfl (fun k v hk => ?_) ?_
    · obtain ⟨rfl, rfl⟩ := hresp k v hk
      exact ⟨(printable_lit rfl).ascii, hb _⟩
    · cases hk : (dispatch env draw s request).response[lit "result"]? with
      | none => rfl
      | some v => exact absurd (hresp _ v hk).1 (by decide)
  · rw [processInput_fst] at hp hi
    rw [(answer_positive hp).2, ht, Option.or_of_isNone ?_] at hi
    · exact absurd hi (by decide)
    · cases hk : (dispatch env draw s request).response[lit "info"]? with
      | none => rfl
      | some v => exact absurd (hresp _ v hk).1 (by decide)
  · rw [writes_of_readOnly hr he] at hw
    exact absurd hw (by decide)

/-! ## A sample

The users `a` and `b` are created with the keys `00..00` and `01..01`, and are members of `g`. -/

def membershipBody (u : String) : Bytes :=
  lit ("\x7b\"group_name\": \"g\", \"user_id\": " ++ u ++ "\x7d")

def envelopeBody : Bytes := lit "\x7b\"bucket_key\": \"\", \"group_id\": \"g\"\x7d"

/-- The draw of the requests after the first. -/
def nextDraw : Draw := { Draw.sample with key := Crypto.key1 }

def withGroup : AnonymBE :=
  serve (Env.code .sample .rightFirst) (initialised true)
    [(Draw.sample, ⟨lit "POST", lit "/access/user", userBody "\"a\""⟩),
      (nextDraw, ⟨lit "POST", lit "/access/user", userBody "\"b\""⟩),
      (nextDraw, ⟨lit "POST", lit "/access/group", membershipBody "\"a\""⟩),
      (nextDraw, ⟨lit "PUT", lit "/access/usergroup", membershipBody "\"b\""⟩)]

theorem reachable_withGroup : Reachable (Env.code .sample .rightFirst) withGroup :=
  reachable_serve (.init true) _

/-- The request to add a user to `g`. -/
def addToG (u : String) : Request := ⟨lit "PUT", lit "/access/usergroup", membershipBody u⟩

/-- The theorem for a store of two users and a group. To add the unknown user `c` is refused after
the look-ups; to add `b` again is answered ok with an info; a query about `a` is answered ok. -/
theorem database_unchanged_sample :
    Reachable (Env.code .sample .rightFirst) withGroup ∧
      withGroup.database.Member [97] [103] ∧ withGroup.database.Member [98] [103] ∧
      (¬ (processInput (Env.code .sample .rightFirst) nextDraw withGroup
          (addToG "\"c\"")).1.Positive ∧
        (processInput (Env.code .sample .rightFirst) nextDraw withGroup
          (addToG "\"c\"")).2.database = withGroup.database) ∧
      (((processInput (Env.code .sample .rightFirst) nextDraw withGroup
          (addToG "\"b\"")).1.field (lit "info")).isSome = true ∧
        (processInput (Env.code .sample .rightFirst) nextDraw withGroup
          (addToG "\"b\"")).2.database = withGroup.database) ∧
      (processInput (Env.code .sample .rightFirst) nextDraw withGroup
          ⟨lit "POST", lit "/verifier/usergroup", membershipBody "\"a\""⟩).1.Positive ∧
      (processInput (Env.code .sample .rightFirst) nextDraw withGroup
          ⟨lit "POST", lit "/verifier/usergroup", membershipBody "\"a\""⟩).2.database =
        withGroup.database := by
  have hrefused : ¬ (processInput (Env.code .sample .rightFirst) nextDraw withGroup
      (addToG "\"c\"")).1.Positive := by decide +kernel
  have hok : (processInput (Env.code .sample .rightFirst) nextDraw withGroup
      (addToG "\"b\"")).1.Positive := by decide +kernel
  have hinfo : ((processInput (Env.code .sample .rightFirst) nextDraw withGroup
      (addToG "\"b\"")).1.field (lit "info")).isSome = true := by decide +kernel
  refine ⟨reachable_withGroup, ⟨_, rfl, by decide +kernel⟩, ⟨_, rfl, by decide +kernel⟩,
    ⟨hrefused, ?_⟩, ⟨hinfo, ?_⟩, by decide +kernel, ?_⟩
  · exact database_unchanged_unless_ok _ Crypto.sample_b64_ascii _ _ _ (.inl hrefused)
  · exact database_unchanged_unless_ok _ Crypto.sample_b64_ascii _ _ _ (.inr (.inl ⟨hok, hinfo⟩))
  · exact database_unchanged_unless_ok _ Crypto.sample_b64_ascii _ _ _
      (.inr (.inr (.inr ⟨rfl, by decide +kernel⟩)))

end AnonymBE

end ASky

import ASky.Service.Proper

/-!
# What the random bytes reach

Two runs of the service on the same requests, with different random bytes: other keys for the new
users, other nonces and IVs. `Alike` relates their stores: the same groups, and the same users with
any keys.

* `dispatch_alike`: a handler ends in the same way from alike stores and leaves alike stores; only
  the values of `user_key` and `ciphertext` can differ.
* **`answers_independent`**: so in two runs on the same requests the answers are the same, field for
  field, except for the values of those two fields. Whether a request is granted, and every text of
  the answers, says nothing about the keys.
-/

namespace ASky

open Std (ExtTreeMap ExtTreeSet)
open Lib

namespace MemDatabase

/-- The same groups, and the same users. -/
def Alike (db db' : MemDatabase) : Prop :=
  db.groups = db'.groups ∧ ∀ u, u ∈ db.users ↔ u ∈ db'.users

section Alike

variable {db db' : MemDatabase} (h : db.Alike db')

include h

/-- `create_user` with any two keys. -/
theorem createUser_alike (u key key' : Bytes) :
    (db.createUser u key).1 = (db'.createUser u key').1 ∧
      Alike (db.createUser u key).2 (db'.createUser u key').2 := by
  rw [createUser_eq, createUser_eq]
  by_cases hu : u ∈ db.users
  · rw [if_pos hu, if_pos ((h.2 u).mp hu)]
    exact ⟨rfl, h⟩
  · rw [if_neg hu, if_neg (mt (h.2 u).mpr hu)]
    refine ⟨rfl, h.1, fun v => ?_⟩
    rw [ExtTreeMap.mem_insert, ExtTreeMap.mem_insert]
    exact or_congr Iff.rfl (h.2 v)

/-- `create_group` asks who the users are, and not for their keys. -/
theorem createGroup_alike (g u : Bytes) :
    (db.createGroup g u).1 = (db'.createGroup g u).1 ∧
      Alike (db.createGroup g u).2 (db'.createGroup g u).2 := by
  rw [createGroup_eq, createGroup_eq, ← h.1]
  by_cases hg : g ∈ db.groups
  · rw [if_pos hg, if_pos hg]
    exact ⟨rfl, h⟩
  · rw [if_neg hg, if_neg hg]
    by_cases hu : u ∈ db.users
    · rw [if_neg (not_not.mpr hu), if_neg (not_not.mpr ((h.2 u).mp hu))]
      exact ⟨rfl, rfl, h.2⟩
    · rw [if_pos hu, if_pos (mt (h.2 u).mpr hu)]
      exact ⟨rfl, h⟩

/-- `add_user_to_group`, the same. -/
theorem addUserToGroup_alike (g u : Bytes) :
    (db.addUserToGroup g u).1 = (db'.addUserToGroup g u).1 ∧
      Alike (db.addUserToGroup g u).2 (db'.addUserToGroup g u).2 := by
  rw [addUserToGroup_eq, addUserToGroup_eq, ← h.1]
  cases db.groups[g]? with
  | none => exact ⟨rfl, h⟩
  | some members =>
    dsimp only
    by_cases hu : u ∈ db.users
    · rw [if_neg (not_not.mpr hu), if_neg (not_not.mpr ((h.2 u).mp hu))]
      by_cases hm : u ∈ members
      · rw [if_pos hm, if_pos hm]
        exact ⟨rfl, h⟩
      · rw [if_neg hm, if_neg hm]
        exact ⟨rfl, rfl, h.2⟩
    · rw [if_pos hu, if_pos (mt (h.2 u).mpr hu)]
      exact ⟨rfl, h⟩

/-- `remove_user_from_group`, the same. -/
theorem removeUserFromGroup_alike (g u : Bytes) :
    (db.removeUserFromGroup g u).1 = (db'.removeUserFromGroup g u).1 ∧
      Alike (db.removeUserFromGroup g u).2 (db'.removeUserFromGroup g u).2 := by
  rw [removeUserFromGroup_eq, removeUserFromGroup_eq, ← h.1]
  cases db.groups[g]? with
  | none => exact ⟨rfl, h⟩
  | some members =>
    dsimp only
    by_cases hu : u ∈ db.users
    · rw [if_neg (not_not.mpr hu), if_neg (not_not.mpr ((h.2 u).mp hu))]
      by_cases hm : u ∈ members
      · rw [if_neg (not_not.mpr hm), if_neg (not_not.mpr hm)]
        exact ⟨rfl, rfl, h.2⟩
      · rw [if_pos hm, if_pos hm]
        exact ⟨rfl, h⟩
    · rw [if_pos hu, if_pos (mt (h.2 u).mpr hu)]
      exact ⟨rfl, h⟩

/-- `delete_user` takes the key away, whatever it is. -/
theorem deleteUser_alike (u : Bytes) : Alike (db.deleteUser u) (db'.deleteUser u) := by
  refine ⟨?_, fun v => ?_⟩
  · rw [deleteUser, deleteUser, h.1]
  · rw [deleteUser, deleteUser]
    dsimp only
    rw [ExtTreeMap.mem_erase, ExtTreeMap.mem_erase]
    exact and_congr Iff.rfl (h.2 v)

/-- `is_user_part_of_group` looks at the groups only. -/
theorem isUserPartOfGroup_alike (u g : Bytes) :
    (db.isUserPartOfGroup u g).1 = (db'.isUserPartOfGroup u g).1 ∧
      Alike (db.isUserPartOfGroup u g).2 (db'.isUserPartOfGroup u g).2 := by
  rw [isUserPartOfGroup_eq, isUserPartOfGroup_eq, ← h.1]
  cases db.groups[g]? with
  | none => exact ⟨rfl, h⟩
  | some members => exact ⟨rfl, h⟩

/-- The keys of a group: the same error, or arrays that are both empty or both not. -/
theorem getKeysOfGroup_alike (g : Bytes) :
    (∃ e, db.getKeysOfGroup g = (.error e, db) ∧ db'.getKeysOfGroup g = (.error e, db')) ∨
      ∃ ka ka', db.getKeysOfGroup g = (.ok ka, db) ∧ db'.getKeysOfGroup g = (.ok ka', db') ∧
        ka.isEmpty = ka'.isEmpty := by
  rw [getKeysOfGroup_eq, getKeysOfGroup_eq, ← h.1]
  cases db.groups[g]? with
  | none => exact .inl ⟨_, rfl, rfl⟩
  | some members =>
    dsimp only
    by_cases hempty : members.isEmpty = true
    · rw [if_pos hempty, if_pos hempty]
      exact .inl ⟨_, rfl, rfl⟩
    · rw [if_neg hempty, if_neg hempty]
      refine .inr ⟨_, _, rfl, rfl, ?_⟩
      rw [Bool.eq_iff_iff, List.isEmpty_iff, List.isEmpty_iff, List.filterMap_eq_nil_iff,
        List.filterMap_eq_nil_iff]
      refine forall₂_congr fun u _ => ?_
      rw [Option.map_eq_none_iff, Option.map_eq_none_iff, ← Option.not_isSome_iff_eq_none,
        ← Option.not_isSome_iff_eq_none, ← ExtTreeMap.mem_iff_isSome_getElem?,
        ← ExtTreeMap.mem_iff_isSome_getElem?, h.2 u]

end Alike

end MemDatabase

/-! ## The handlers -/

/-- The fields with random bytes in them. -/
def Random (key : Bytes) : Prop := key = lit "user_key" ∨ key = lit "ciphertext"

/-- The same fields, with the same values except for texts in the fields with random bytes. -/
def SameBut (r r' : KVString) : Prop :=
  ∀ key, r[key]? = r'[key]? ∨ (Random key ∧ ∃ v v', r[key]? = some v ∧ r'[key]? = some v' ∧
    Utf8 v ∧ Utf8 v')

theorem SameBut.refl (r : KVString) : SameBut r r := fun _ => .inl rfl

/-- A response map with one text that may differ. -/
theorem sameBut_single {key v v' : Bytes} (hr : Random key) (hv : Utf8 v) (hv' : Utf8 v') :
    SameBut ((∅ : KVString).insert key v) ((∅ : KVString).insert key v') := by
  intro k
  rw [getElem?_insert, getElem?_insert]
  by_cases hk : k = key
  · rw [if_pos hk, if_pos hk, hk]
    exact .inr ⟨hr, v, v', rfl, rfl, hv, hv'⟩
  · rw [if_neg hk, if_neg hk]
    exact .inl rfl

theorem SameBut.insert {r r' : KVString} (h : SameBut r r') (key v : Bytes) :
    SameBut (r.insert key v) (r'.insert key v) := by
  intro k
  rw [getElem?_insert, getElem?_insert]
  by_cases hk : k = key
  · rw [if_pos hk, if_pos hk]
    exact .inl rfl
  · rw [if_neg hk, if_neg hk]
    exact h k

/-- A field without random bytes. -/
theorem SameBut.get {r r' : KVString} (h : SameBut r r') {key : Bytes} (hk : ¬ Random key) :
    r[key]? = r'[key]? := (h key).resolve_right fun hr => hk hr.1

/-- What can be written does not depend on the random bytes. -/
theorem SameBut.texts {r r' : KVString} (h : SameBut r r') (ht : AnonymBE.TextsOf r) :
    AnonymBE.TextsOf r' := by
  intro k v' hv'
  rcases h k with heq | ⟨-, v, w, hv, hw, -, hutf⟩
  · rw [← heq] at hv'
    exact ht k v' hv'
  · rw [hw] at hv'
    exact ⟨(ht k v hv).1, Option.some.inj hv' ▸ hutf⟩

theorem SameBut.symm {r r' : KVString} (h : SameBut r r') : SameBut r' r := by
  intro k
  rcases h k with heq | ⟨hr, v, v', hv, hv', hu, hu'⟩
  · exact .inl heq.symm
  · exact .inr ⟨hr, v', v, hv', hv, hu', hu⟩

/-- Handlers that ended in the same way. -/
structure Handled.Alike (h h' : Handled) : Prop where
  result : h.result = h'.result
  response : SameBut h.response h'.response
  database : h.database.Alike h'.database

/-- The same status line and the same fields, with the same values except in the fields with random
bytes. -/
def Response.Agrees (r r' : Response) : Prop :=
  match r, r' with
  | .empty, .empty => True
  | .reply code message json _, .reply code' message' json' _ =>
    code = code' ∧ message = message' ∧ SameBut json json'
  | _, _ => False

theorem Response.Agrees.refl (r : Response) : r.Agrees r := by
  cases r with
  | empty => trivial
  | reply code message json body => exact ⟨rfl, rfl, .refl _⟩

namespace AnonymBE

section Handlers

variable {env : Env} {draw draw' : Draw} {indexed : Bool} {db db' : MemDatabase} {request : Request}
  {j : Json}

/-- Both throw the same. -/
theorem alike_throws (h : db.Alike db') (e : Exn) : Handled.Alike (throws db e) (throws db' e) :=
  ⟨rfl, .refl _, h⟩

/-- Both return the same. -/
theorem alike_ok (h : db.Alike db') (error : AskyError) (response : KVString) :
    Handled.Alike ⟨.ok error, response, db⟩ ⟨.ok error, response, db'⟩ := ⟨rfl, .refl _, h⟩

/-- Both return or throw what the store does. -/
theorem alike_ofStore {r r' : Except DbError Unit × MemDatabase}
    (h : r.1 = r'.1 ∧ r.2.Alike r'.2) : Handled.Alike (ofStore r) (ofStore r') := by
  unfold ofStore
  rw [← h.1]
  cases r.1 with
  | ok _ => exact ⟨rfl, .refl _, h.2⟩
  | error e => exact ⟨rfl, .refl _, h.2⟩

variable (hb : ∀ b, Ascii (env.crypto.b64Encode b)) (h : db.Alike db')

include h

include hb in
/-- `create_user`: the key that was drawn is in `user_key`. -/
theorem createUser_alike :
    Handled.Alike (createUser env draw db j) (createUser env draw' db' j) := by
  unfold createUser
  cases jsonStr j (lit "user_id") with
  | error e => exact alike_throws h _
  | ok u =>
    dsimp only
    obtain ⟨hr, hdb⟩ := MemDatabase.createUser_alike h u draw.key.val draw'.key.val
    generalize db.createUser u draw.key.val = a at hr hdb ⊢
    generalize db'.createUser u draw'.key.val = b at hr hdb ⊢
    obtain ⟨ra, da⟩ := a
    obtain ⟨rb, db⟩ := b
    obtain rfl : ra = rb := hr
    cases ra with
    | error e => exact alike_throws hdb _
    | ok _ => exact ⟨rfl, sameBut_single (.inl rfl) (hb _).utf8 (hb _).utf8, hdb⟩

include hb in
/-- `generate_envelope`: whether there are keys is the same, what they are is in `ciphertext`. -/
theorem generateEnvelope_alike :
    Handled.Alike (generateEnvelope env draw indexed db j)
      (generateEnvelope env draw' indexed db' j) := by
  unfold generateEnvelope
  cases jsonStr j (lit "bucket_key") with
  | error e => exact alike_throws h _
  | ok b =>
    dsimp only
    cases jsonStr j (lit "group_id") with
    | error e => exact alike_throws h _
    | ok g =>
      dsimp only
      rcases MemDatabase.getKeysOfGroup_alike h g with ⟨e, he, he'⟩ | ⟨ka, ka', hk, hk', hempty⟩
      · rw [he, he']
        exact alike_throws h _
      · rw [hk, hk']
        dsimp only
        unfold sealEnvelope
        rw [← hempty]
        by_cases hka : ka.isEmpty = true
        · rw [if_pos hka, if_pos hka]
          exact alike_ok h _ _
        · rw [if_neg hka, if_neg hka]
          exact ⟨rfl, sameBut_single (.inr rfl) (hb _).utf8 (hb _).utf8, h⟩

/-- `process_get` does not touch the store. -/
theorem processGet_alike : Handled.Alike (processGet db request) (processGet db' request) := by
  unfold processGet
  dsimp only
  split_ifs
  all_goals exact alike_ok h _ _

/-- A handler of two fields. -/
theorem alike_fields {left right : Bytes} {next next' : Bytes → Bytes → Handled}
    (hn : ∀ l r, Handled.Alike (next l r) (next' l r)) :
    Handled.Alike
      (match env.jsonStr₂ j left right with
        | .error e => throws db (.json e)
        | .ok (l, r) => next l r)
      (match env.jsonStr₂ j left right with
        | .error e => throws db' (.json e)
        | .ok (l, r) => next' l r) := by
  cases env.jsonStr₂ j left right with
  | error e => exact alike_throws h _
  | ok fields => exact hn fields.1 fields.2

/-- `process_put` on two stores alike. -/
theorem processPut_alike :
    Handled.Alike (processPut env db request) (processPut env db' request) := by
  unfold processPut
  dsimp only
  by_cases hp : request.encodedPath = lit "/access/usergroup"
  · rw [if_pos hp, if_pos hp]
    cases env.parseBody request with
    | error e => exact alike_throws h _
    | ok j =>
      exact alike_fields h fun g u => alike_ofStore (MemDatabase.addUserToGroup_alike h g u)
  · rw [if_neg hp, if_neg hp]
    exact alike_ok h _ _

/-- `process_delete` on two stores alike. -/
theorem processDelete_alike :
    Handled.Alike (processDelete env db request) (processDelete env db' request) := by
  unfold processDelete
  dsimp only
  by_cases hg : request.encodedPath = lit "/access/usergroup"
  · rw [if_pos hg, if_pos hg]
    cases env.parseBody request with
    | error e => exact alike_throws h _
    | ok j =>
      exact alike_fields h fun g u => alike_ofStore (MemDatabase.removeUserFromGroup_alike h g u)
  · rw [if_neg hg, if_neg hg]
    by_cases hu : request.encodedPath = lit "/access/user"
    · rw [if_pos hu, if_pos hu]
      cases env.parseBody request with
      | error e => exact alike_throws h _
      | ok j =>
        dsimp only
        cases jsonStr j (lit "user_id") with
        | error e => exact alike_throws h _
        | ok u => exact alike_ok (MemDatabase.deleteUser_alike h (cStr u)) _ _
    · rw [if_neg hu, if_neg hu]
      by_cases ha : request.encodedPath = lit "/access/all"
      · rw [if_pos ha, if_pos ha]
        exact alike_ok ⟨rfl, fun _ => Iff.rfl⟩ _ _
      · rw [if_neg ha, if_neg ha]
        exact alike_ok h _ _

include hb in
/-- `process_post` on two stores alike, with any two draws. -/
theorem processPost_alike :
    Handled.Alike (processPost env draw indexed db request)
      (processPost env draw' indexed db' request) := by
  unfold processPost
  cases env.parseBody request with
  | error e => exact alike_throws h _
  | ok j =>
    dsimp only
    by_cases hu : request.encodedPath = lit "/access/user"
    · rw [if_pos hu, if_pos hu]
      exact createUser_alike hb h
    · rw [if_neg hu, if_neg hu]
      by_cases hg : request.encodedPath = lit "/access/group"
      · rw [if_pos hg, if_pos hg]
        exact alike_fields h fun g u => alike_ofStore (MemDatabase.createGroup_alike h g u)
      · rw [if_neg hg, if_neg hg]
        by_cases he : request.encodedPath = lit "/verifier/envelope"
        · rw [if_pos he, if_pos he]
          exact generateEnvelope_alike hb h
        · rw [if_neg he, if_neg he]
          by_cases hm : request.encodedPath = lit "/verifier/usergroup"
          · rw [if_pos hm, if_pos hm]
            refine alike_fields h fun u g => ?_
            obtain ⟨hr, hdb⟩ := MemDatabase.isUserPartOfGroup_alike h u g
            generalize db.isUserPartOfGroup u g = a at hr hdb ⊢
            generalize db'.isUserPartOfGroup u g = b at hr hdb ⊢
            obtain ⟨ra, da⟩ := a
            obtain ⟨rb, db⟩ := b
            obtain rfl : ra = rb := hr
            cases ra with
            | error e => exact alike_throws hdb _
            | ok answer => exact alike_ok hdb _ _
          · rw [if_neg hm, if_neg hm]
            exact alike_ok h _ _

end Handlers

/-- **A handler does not look at the keys.** -/
theorem dispatch_alike {env : Env} (hb : ∀ b, Ascii (env.crypto.b64Encode b)) (draw draw' : Draw)
    {s s' : AnonymBE} (hi : s.indexed = s'.indexed) (h : s.database.Alike s'.database)
    (request : Request) :
    Handled.Alike (dispatch env draw s request) (dispatch env draw' s' request) := by
  unfold dispatch
  dsimp only
  rw [← hi]
  split_ifs
  · exact processGet_alike h
  · exact processPut_alike h
  · exact processPost_alike hb h
  · exact processDelete_alike h
  · exact alike_ok h _ _

/-! ## The answers -/

/-- The end of the first `try` block. -/
theorem settle_alike {h h' : Handled} (hh : Handled.Alike h h') (request : Request) :
    (settle request h).error = (settle request h').error ∧
      (settle request h).extra = (settle request h').extra ∧
      SameBut (settle request h).response (settle request h').response := by
  have hdetail : h.response[lit "detail"]? = h'.response[lit "detail"]? :=
    hh.response.get (by unfold Random; decide)
  unfold settle
  rw [← hh.result, ← hdetail]
  cases h.result with
  | error e =>
    rcases e with je | de | _ | _
    · cases je <;> exact ⟨rfl, rfl, hh.response⟩
    · cases de with
      | invalidArgument what => exact ⟨rfl, rfl, hh.response⟩
      | logicError what => exact ⟨rfl, rfl, hh.response.insert _ _⟩
    · exact ⟨rfl, rfl, hh.response⟩
    · exact ⟨rfl, rfl, hh.response⟩
  | ok error =>
    cases error with
    | badRequest => cases h.response[lit "detail"]? <;> exact ⟨rfl, rfl, hh.response⟩
    | _ => exact ⟨rfl, rfl, hh.response⟩

/-- A positive answer has the fields of the response and `result`. -/
theorem positiveResponse_reply {r : KVString} {a : Response} (h : positiveResponse r = .ok a) :
    ∃ json body, a = .reply 200 (lit "OK") json body ∧ ∀ key, json[key]? =
      (r[key]?).or (if key = lit "result" then some (lit "ok") else none) := by
  have hfield := positiveResponse_field h
  unfold positiveResponse at h
  dsimp only at h
  split at h
  · cases h
  · cases h
    exact ⟨_, _, rfl, hfield⟩

/-- The second `try` block. -/
theorem answer_alike {t t' : Settled} (he : t.error = t'.error) (hx : t.extra = t'.extra)
    (hr : SameBut t.response t'.response) : Response.Agrees (answer t) (answer t') := by
  unfold answer
  rw [← he, ← hx]
  by_cases hok : t.error = .noError
  · rw [if_pos hok, if_pos hok]
    by_cases ht : TextsOf t.response
    · obtain ⟨a, ha⟩ := (positiveResponse_isOk_iff _).mpr ht
      obtain ⟨a', ha'⟩ := (positiveResponse_isOk_iff _).mpr (hr.texts ht)
      rw [ha, ha']
      obtain ⟨json, body, rfl, hjson⟩ := positiveResponse_reply ha
      obtain ⟨json', body', rfl, hjson'⟩ := positiveResponse_reply ha'
      refine ⟨rfl, rfl, fun key => ?_⟩
      rw [hjson, hjson']
      rcases hr key with heq | ⟨hkey, v, v', hv, hv', hu, hu'⟩
      · exact .inl (by rw [heq])
      · rw [hv, hv']
        exact .inr ⟨hkey, v, v', rfl, rfl, hu, hu'⟩
    · have hno : ∀ {r : KVString}, ¬ TextsOf r → ∃ e, positiveResponse r = .error e := by
        intro r hr
        cases hp : positiveResponse r with
        | error e => exact ⟨e, rfl⟩
        | ok a => exact absurd ((positiveResponse_isOk_iff r).mp ⟨a, hp⟩) hr
      obtain ⟨e, hp⟩ := hno ht
      obtain ⟨e', hp'⟩ := hno (mt hr.symm.texts ht)
      rw [hp, hp']
      trivial
  · rw [if_neg hok, if_neg hok]
    exact .refl _

/-- **The random bytes reach two fields.** In two runs on the same requests, from alike states and
with any random bytes, the answers have the same status lines and the same fields, and the same
values except in `user_key` and `ciphertext`. -/
theorem answers_independent {env : Env} (hb : ∀ b, Ascii (env.crypto.b64Encode b))
    {s s' : AnonymBE} (hi : s.indexed = s'.indexed) (h : s.database.Alike s'.database)
    {steps steps' : List (Draw × Request)}
    (hsteps : List.Forall₂ (fun step step' => step.2 = step'.2) steps steps') :
    List.Forall₂ Response.Agrees (answers env s steps) (answers env s' steps') := by
  induction hsteps generalizing s s' with
  | nil => exact .nil
  | @cons step step' steps steps' heq _ ih =>
    obtain ⟨draw, request⟩ := step
    obtain ⟨draw', request'⟩ := step'
    obtain rfl : request = request' := heq
    have hh := dispatch_alike hb draw draw' hi h request
    obtain ⟨herror, hextra, hresponse⟩ := settle_alike hh request
    exact .cons (answer_alike herror hextra hresponse) (ih hi hh.database)

/-! ### A sample -/

/-- The store of `withGroup` with the keys of `a` and `b` swapped. -/
def withSwapped : AnonymBE :=
  serve (Env.code .sample .rightFirst) (initialised true)
    [(nextDraw, ⟨lit "POST", lit "/access/user", userBody "\"a\""⟩),
      (Draw.sample, ⟨lit "POST", lit "/access/user", userBody "\"b\""⟩),
      (nextDraw, ⟨lit "POST", lit "/access/group", membershipBody "\"a\""⟩),
      (nextDraw, ⟨lit "PUT", lit "/access/usergroup", membershipBody "\"b\""⟩)]

/-- To create `a` again and to add `c` are refused; then `a` is queried, removed from the group and
queried again, a user `c` is created, and an envelope is asked for. -/
def sampleRequests : List Request :=
  [⟨lit "POST", lit "/access/user", userBody "\"a\""⟩,
    ⟨lit "PUT", lit "/access/usergroup", membershipBody "\"c\""⟩,
    ⟨lit "POST", lit "/verifier/usergroup", membershipBody "\"a\""⟩,
    ⟨lit "DELETE", lit "/access/usergroup", membershipBody "\"a\""⟩,
    ⟨lit "POST", lit "/verifier/usergroup", membershipBody "\"a\""⟩,
    ⟨lit "POST", lit "/access/user", userBody "\"c\""⟩,
    ⟨lit "POST", lit "/verifier/envelope", envelopeBody⟩]

/-- The two stores are alike, and give different keys to `a` and to `b`. -/
theorem alike_withSwapped : withGroup.database.Alike withSwapped.database := by
  have husers : withGroup.database.users =
      ((∅ : ExtTreeMap Bytes Bytes).insert [97] Crypto.key0.val).insert [98] Crypto.key1.val := rfl
  have husers' : withSwapped.database.users =
      ((∅ : ExtTreeMap Bytes Bytes).insert [97] Crypto.key1.val).insert [98] Crypto.key0.val := rfl
  refine ⟨by decide +kernel, fun u => ?_⟩
  rw [husers, husers']
  simp only [ExtTreeMap.mem_insert]

/-- The theorem for these requests on the two stores: the two envelopes differ. -/
theorem answers_independent_sample :
    (answers (Env.code .sample .rightFirst) withGroup
        (sampleRequests.map fun request => (Draw.sample, request)))[6]?.map
          (fun r => r.field (lit "ciphertext")) ≠
      (answers (Env.code .sample .rightFirst) withSwapped
        (sampleRequests.map fun request => (nextDraw, request)))[6]?.map
          (fun r => r.field (lit "ciphertext")) ∧
    List.Forall₂ Response.Agrees
      (answers (Env.code .sample .rightFirst) withGroup
        (sampleRequests.map fun request => (Draw.sample, request)))
      (answers (Env.code .sample .rightFirst) withSwapped
        (sampleRequests.map fun request => (nextDraw, request))) := by
  have hindexed : withGroup.indexed = withSwapped.indexed := by decide +kernel
  have hsteps : List.Forall₂ (fun step step' => step.2 = step'.2)
      (sampleRequests.map fun request => (Draw.sample, request))
      (sampleRequests.map fun request => (nextDraw, request)) := by
    rw [List.forall₂_map_right_iff, List.forall₂_map_left_iff, List.forall₂_same]
    exact fun _ _ => rfl
  exact ⟨by decide +kernel,
    answers_independent Crypto.sample_b64_ascii hindexed alike_withSwapped hsteps⟩

end AnonymBE

end ASky
